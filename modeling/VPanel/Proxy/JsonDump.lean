import Mathlib.Data.BitVec
import VPanel.Library.JsonText

/-!
# The JSON texts of the proxies

The proxies build a `wvalue` and send its `dump()`.  An object is dumped in the
order in which its hash table happens to be traversed; the members of the model
are in that order.
-/

namespace VPanel.Proxy.Crow

open JsonText

/-- A `wvalue` that is no floating-point number and no function. -/
inductive Wvalue
  | null
  | boolean (b : Bool)
  | signed (si : BitVec 64)
  | unsigned (ui : BitVec 64)
  | string (s : List Char)
  | list (l : List Wvalue)
  | object (o : List (List Char × Wvalue))

def toHex (c : ℕ) : Char :=
  if c % 16 < 10 then Char.ofNat ('0'.toNat + c % 16) else Char.ofNat ('a'.toNat + c % 16 - 10)

def escapeChar (c : Char) : List Char :=
  if c = '"' then ['\\', '"']
  else if c = '\\' then ['\\', '\\']
  else if c = '\n' then ['\\', 'n']
  else if c = '\x08' then ['\\', 'b']
  else if c = '\x0c' then ['\\', 'f']
  else if c = '\r' then ['\\', 'r']
  else if c = '\t' then ['\\', 't']
  else if c.toNat < 0x20 then ['\\', 'u', '0', '0', toHex (c.toNat / 16), toHex (c.toNat % 16)]
  else [c]

def escape (s : List Char) : List Char := s.flatMap escapeChar

def dumpString (s : List Char) : List Char := '"' :: (escape s ++ ['"'])

/-- `std::to_string` of a signed number. -/
def toString (si : BitVec 64) : List Char :=
  if si.toInt < 0 then '-' :: Nat.toDigits 10 si.toInt.natAbs else Nat.toDigits 10 si.toInt.natAbs

mutual

def Wvalue.dump : Wvalue → List Char
  | .null => "null".toList
  | .boolean b => if b then "true".toList else "false".toList
  | .signed si => toString si
  | .unsigned ui => Nat.toDigits 10 ui.toNat
  | .string s => dumpString s
  | .list l => '[' :: (commas (dumpElements l) ++ [']'])
  | .object o => '{' :: (commas (dumpMembers o) ++ ['}'])

def dumpElements : List Wvalue → List (List Char)
  | [] => []
  | x :: l => x.dump :: dumpElements l

def dumpMembers : List (List Char × Wvalue) → List (List Char)
  | [] => []
  | (key, x) :: o => (dumpString key ++ ':' :: x.dump) :: dumpMembers o

end

/-! ## What the texts say -/

mutual

def Wvalue.toJson : Wvalue → Json
  | .null => .null
  | .boolean b => .bool b
  | .signed si => .number (si.toInt < 0) si.toInt.natAbs 0
  | .unsigned ui => .ofNat ui.toNat
  | .string s => .string s
  | .list l => .array (elementsToJson l)
  | .object o => .object (membersToJson o)

def elementsToJson : List Wvalue → List Json
  | [] => []
  | x :: l => x.toJson :: elementsToJson l

def membersToJson : List (List Char × Wvalue) → List (List Char × Json)
  | [] => []
  | (key, x) :: o => (key, x.toJson) :: membersToJson o

end

theorem membersToJson_eq (o : List (List Char × Wvalue)) :
    membersToJson o = o.map fun e ↦ (e.1, e.2.toJson) := by
  induction o with
  | nil => rfl
  | cons e o ih => rw [membersToJson, ih, List.map_cons]

theorem hex4_control : ∀ n < 32, hex4 ['0', '0', toHex (n / 16), toHex (n % 16)] = some (n, []) := by
  decide

theorem encodesChar_escapeChar (c : Char) : EncodesChar (escapeChar c) c := by
  unfold escapeChar
  split_ifs with hquote hslash hn hb hf hr ht hcontrol
  · subst hquote
    exact encodesChar_simple (by decide) rfl
  · subst hslash
    exact encodesChar_simple (by decide) rfl
  · subst hn
    exact encodesChar_simple (by decide) rfl
  · subst hb
    exact encodesChar_simple (by decide) rfl
  · subst hf
    exact encodesChar_simple (by decide) rfl
  · subst hr
    exact encodesChar_simple (by decide) rfl
  · subst ht
    exact encodesChar_simple (by decide) rfl
  · have hchar := encodesChar_unicode (hex4_control c.toNat hcontrol) (by omega)
    rwa [Char.ofNat_toNat] at hchar
  · exact encodesChar_self hquote hslash (Nat.not_lt.mp hcontrol)

theorem encodes_escape (s : List Char) : Encodes (escape s) s := by
  induction s with
  | nil => exact encodes_nil
  | cons c s ih => exact ih.cons (encodesChar_escapeChar c)

theorem reads_toString (si : BitVec 64) :
    Reads (toString si) (.number (si.toInt < 0) si.toInt.natAbs 0) := by
  unfold toString
  by_cases hneg : si.toInt < 0
  · rw [if_pos hneg, decide_eq_true hneg]
    exact reads_negative _
  · rw [if_neg hneg, decide_eq_false hneg]
    exact reads_ofNat _

mutual

theorem reads_dump : (x : Wvalue) → Reads x.dump x.toJson
  | .null => reads_null
  | .boolean b => reads_bool b
  | .signed si => reads_toString si
  | .unsigned ui => reads_ofNat ui.toNat
  | .string s => reads_string (encodes_escape s)
  | .list l => by
      obtain ⟨parts, htexts, hvalues, hreads⟩ := reads_elements l
      rw [Wvalue.dump, Wvalue.toJson, ← htexts, ← hvalues]
      exact reads_array hreads
  | .object o => by
      obtain ⟨parts, htexts, hvalues, hreads⟩ := reads_members o
      rw [Wvalue.dump, Wvalue.toJson, ← htexts, ← hvalues]
      exact reads_object hreads

theorem reads_elements : (l : List Wvalue) → ∃ parts : List (List Char × Json),
    parts.map Prod.fst = dumpElements l ∧ parts.map Prod.snd = elementsToJson l ∧
      ∀ p ∈ parts, Reads p.1 p.2
  | [] => ⟨[], rfl, rfl, fun _ hp ↦ nomatch hp⟩
  | x :: l => by
      obtain ⟨parts, htexts, hvalues, hreads⟩ := reads_elements l
      refine ⟨(x.dump, x.toJson) :: parts, ?_, ?_, ?_⟩
      · rw [List.map_cons, htexts, dumpElements]
      · rw [List.map_cons, hvalues, elementsToJson]
      · exact List.forall_mem_cons.mpr ⟨reads_dump x, hreads⟩

theorem reads_members : (o : List (List Char × Wvalue)) → ∃ parts : List Member,
    parts.map Member.written = dumpMembers o ∧
      (parts.map fun m ↦ (m.name, m.v)) = membersToJson o ∧ ∀ m ∈ parts, m.Reads
  | [] => ⟨[], rfl, rfl, fun _ hm ↦ nomatch hm⟩
  | (key, x) :: o => by
      obtain ⟨parts, htexts, hvalues, hreads⟩ := reads_members o
      refine ⟨⟨escape key, key, x.dump, x.toJson⟩ :: parts, ?_, ?_, ?_⟩
      · rw [List.map_cons, htexts, dumpMembers]
        simp [Member.written, memberText, dumpString]
      · rw [List.map_cons, hvalues, membersToJson]
      · exact List.forall_mem_cons.mpr ⟨⟨encodes_escape key, reads_dump x⟩, hreads⟩

end

/-- `JSON.parse` reads the value back from every dump. -/
theorem parse_dump (x : Wvalue) : parse x.dump = some x.toJson := (reads_dump x).parse

end VPanel.Proxy.Crow
