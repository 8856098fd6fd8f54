import Mathlib.Data.List.TakeWhile
import VPanel.Library.HexText

/-!
# JSON texts

`JSON.parse` by recursive descent, and what a writer has to produce for the
parser to read its values back.  Numbers are kept as the decimal that the text
shows, before it is rounded.
-/

namespace JsonText

open HexText

inductive Json
  | null
  | bool (b : Bool)
  /-- `digits · 10 ^ exponent`, negated or not. -/
  | number (negative : Bool) (digits : ℕ) (exponent : ℤ)
  | string (s : List Char)
  | array (elements : List Json)
  | object (members : List (List Char × Json))

def Json.ofNat (n : ℕ) : Json := .number false n 0

/-- The property of a parsed object; of members with one key the last one counts. -/
def Json.get? : Json → List Char → Option Json
  | .object members, key => members.reverse.lookup key
  | _, _ => none

def isWhite (c : Char) : Bool := c = ' ' || c = '\t' || c = '\n' || c = '\r'

def skipWhite (s : List Char) : List Char := s.dropWhile isWhite

/-! ## Numbers -/

def decimal (ds : List Char) : ℕ := ds.foldl (fun n c ↦ 10 * n + (c.toNat - '0'.toNat)) 0

def integerPart (s : List Char) : Option (List Char × List Char) :=
  match s.takeWhile Char.isDigit with
  | [] => none
  | '0' :: _ :: _ => none
  | ds => some (ds, s.dropWhile Char.isDigit)

def fraction : List Char → Option (List Char × List Char)
  | '.' :: s =>
      if s.takeWhile Char.isDigit = [] then none
      else some (s.takeWhile Char.isDigit, s.dropWhile Char.isDigit)
  | s => some ([], s)

def signedPart : List Char → Bool × List Char
  | '-' :: s => (true, s)
  | '+' :: s => (false, s)
  | s => (false, s)

def exponentPart : List Char → Option (ℤ × List Char)
  | c :: s =>
      if c = 'e' ∨ c = 'E' then
        let (negative, s) := signedPart s
        if s.takeWhile Char.isDigit = [] then none
        else
          let e : ℤ := decimal (s.takeWhile Char.isDigit)
          some (if negative then -e else e, s.dropWhile Char.isDigit)
      else some (0, c :: s)
  | [] => some (0, [])

def minusSign : List Char → Bool × List Char
  | '-' :: s => (true, s)
  | s => (false, s)

def number (s : List Char) : Option (Json × List Char) := do
  let (negative, s) := minusSign s
  let (int, s) ← integerPart s
  let (frac, s) ← fraction s
  let (e, s) ← exponentPart s
  return (.number negative (decimal (int ++ frac)) (e - frac.length), s)

/-! ## Strings -/

def hex4 : List Char → Option (ℕ × List Char)
  | a :: b :: c :: d :: s => do
      let a ← hexDigit? a
      let b ← hexDigit? b
      let c ← hexDigit? c
      let d ← hexDigit? d
      return (((a * 16 + b) * 16 + c) * 16 + d, s)
  | _ => none

/-- The character of a `\u` escape, or of two that form a surrogate pair. -/
def unicodeEscape (s : List Char) : Option (Char × List Char) := do
  let (u, s) ← hex4 s
  if 0xd800 ≤ u ∧ u < 0xdc00 then
    match s with
    | '\\' :: 'u' :: s =>
        let (v, s) ← hex4 s
        if 0xdc00 ≤ v ∧ v < 0xe000 then
          return (Char.ofNat (0x10000 + (u - 0xd800) * 0x400 + (v - 0xdc00)), s)
        else none
    | _ => none
  else if 0xdc00 ≤ u ∧ u < 0xe000 then none
  else return (Char.ofNat u, s)

def simpleEscape (c : Char) : Option Char :=
  if c = '"' then some '"'
  else if c = '\\' then some '\\'
  else if c = '/' then some '/'
  else if c = 'b' then some '\x08'
  else if c = 'f' then some '\x0c'
  else if c = 'n' then some '\n'
  else if c = 'r' then some '\r'
  else if c = 't' then some '\t'
  else none

def escapeSequence : List Char → Option (Char × List Char)
  | [] => none
  | c :: s => if c = 'u' then unicodeEscape s else (simpleEscape c).map (·, s)

/-- The characters up to the closing quote. -/
def stringBody : ℕ → List Char → Option (List Char × List Char)
  | 0, _ => none
  | _ + 1, [] => none
  | n + 1, c :: s =>
      if c = '"' then some ([], s)
      else if c = '\\' then do
        let (d, s) ← escapeSequence s
        let (body, s) ← stringBody n s
        return (d :: body, s)
      else if c.toNat < 0x20 then none
      else do
        let (body, s) ← stringBody n s
        return (c :: body, s)

def key : List Char → Option (List Char × List Char)
  | '"' :: s => do
      let (name, s) ← stringBody (s.length + 1) s
      match skipWhite s with
      | ':' :: s => some (name, skipWhite s)
      | _ => none
  | _ => none

/-! ## Values -/

def keyword (word : List Char) (v : Json) (s : List Char) : Option (Json × List Char) :=
  if word.isPrefixOf s then some (v, s.drop word.length) else none

/-- A value that is neither an array nor an object. -/
def scalar : List Char → Option (Json × List Char)
  | '"' :: s => (stringBody (s.length + 1) s).map fun (body, s) ↦ (.string body, s)
  | 'n' :: s => keyword "ull".toList .null s
  | 't' :: s => keyword "rue".toList (.bool true) s
  | 'f' :: s => keyword "alse".toList (.bool false) s
  | s => number s

mutual

def value : ℕ → List Char → Option (Json × List Char)
  | 0, _ => none
  | n + 1, s =>
      match s with
      | '[' :: s =>
          match skipWhite s with
          | ']' :: s => some (.array [], s)
          | s => (elements n s).map fun (l, s) ↦ (.array l, s)
      | '{' :: s =>
          match skipWhite s with
          | '}' :: s => some (.object [], s)
          | s => (members n s).map fun (l, s) ↦ (.object l, s)
      | s => scalar s

def elements : ℕ → List Char → Option (List Json × List Char)
  | 0, _ => none
  | n + 1, s => do
      let (v, s) ← value n s
      match skipWhite s with
      | ',' :: s =>
          let (l, s) ← elements n (skipWhite s)
          return (v :: l, s)
      | ']' :: s => some ([v], s)
      | _ => none

def members : ℕ → List Char → Option (List (List Char × Json) × List Char)
  | 0, _ => none
  | n + 1, s => do
      let (name, s) ← key s
      let (v, s) ← value n s
      match skipWhite s with
      | ',' :: s =>
          let (l, s) ← members n (skipWhite s)
          return ((name, v) :: l, s)
      | '}' :: s => some ([(name, v)], s)
      | _ => none

end

/-- `JSON.parse`; `none` is a syntax error. -/
def parse (s : List Char) : Option Json := do
  let (v, s) ← value (s.length + 1) (skipWhite s)
  if skipWhite s = [] then return v else none

/-! ## Texts that are read back -/

/-- No number goes on with this text. -/
def Stops (rest : List Char) : Prop :=
  ∀ c ∈ rest.head?, c.isDigit = false ∧ c ≠ '.' ∧ c ≠ 'e' ∧ c ≠ 'E'

/-- The parser reads the value from the text, whatever follows it. -/
structure Reads (text : List Char) (v : Json) : Prop where
  start : ∃ c ∈ text.head?, isWhite c = false
  value : ∀ n rest, text.length < n → Stops rest → value n (text ++ rest) = some (v, rest)

theorem skipWhite_append {text : List Char} (h : ∃ c ∈ text.head?, isWhite c = false)
    (rest : List Char) : skipWhite (text ++ rest) = text ++ rest := by
  obtain ⟨c, hc, hwhite⟩ := h
  cases text with
  | nil => cases hc
  | cons d text =>
      obtain rfl : d = c := by simpa using hc
      exact List.dropWhile_cons_of_neg (by simp [hwhite])

theorem Reads.parse {text : List Char} {v : Json} (h : Reads text v) : parse text = some v := by
  have hskip := skipWhite_append h.start []
  have hvalue := h.value (text.length + 1) [] (Nat.lt_succ_self _) (by simp [Stops])
  rw [List.append_nil] at hskip hvalue
  unfold JsonText.parse
  rw [hskip, hvalue]
  rfl

theorem value_scalar {c : Char} (s : List Char) (n : ℕ) (hbracket : c ≠ '[') (hbrace : c ≠ '{') :
    value (n + 1) (c :: s) = scalar (c :: s) := by
  rw [value.eq_def]
  split
  next h => cases h
  next h =>
    cases h
    split
    next h => exact absurd (List.cons.inj h).1 hbracket
    next h => exact absurd (List.cons.inj h).1 hbrace
    next => rfl

theorem reads_scalar {c : Char} {text : List Char} {v : Json} (hwhite : isWhite c = false)
    (hbracket : c ≠ '[') (hbrace : c ≠ '{')
    (h : ∀ rest, Stops rest → scalar (c :: (text ++ rest)) = some (v, rest)) :
    Reads (c :: text) v := by
  refine ⟨⟨c, rfl, hwhite⟩, fun n rest hn hrest ↦ ?_⟩
  obtain ⟨n, rfl⟩ := Nat.exists_eq_succ_of_ne_zero (Nat.ne_zero_of_lt hn)
  rw [List.cons_append, value_scalar _ _ hbracket hbrace, h rest hrest]

theorem reads_null : Reads "null".toList .null :=
  reads_scalar rfl (by decide) (by decide) fun _ _ ↦ rfl

theorem reads_bool (b : Bool) : Reads (if b then "true".toList else "false".toList) (.bool b) := by
  cases b with
  | true => exact reads_scalar rfl (by decide) (by decide) fun _ _ ↦ rfl
  | false => exact reads_scalar rfl (by decide) (by decide) fun _ _ ↦ rfl

/-! ## Decimal numbers -/

theorem scalar_number {c : Char} (s : List Char) (hc : c.isDigit = true ∨ c = '-') :
    scalar (c :: s) = number (c :: s) := by
  unfold scalar
  split
  next h =>
    obtain rfl := (List.cons.inj h).1
    simp at hc
  next h =>
    obtain rfl := (List.cons.inj h).1
    simp at hc
  next h =>
    obtain rfl := (List.cons.inj h).1
    simp at hc
  next h =>
    obtain rfl := (List.cons.inj h).1
    simp at hc
  next => rfl

theorem isDigit_toDigits {n : ℕ} {c : Char} (hc : c ∈ Nat.toDigits 10 n) : c.isDigit = true :=
  Nat.isDigit_of_mem_toDigits (by decide) (by decide) hc

theorem takeWhile_toDigits (n : ℕ) {rest : List Char} (h : Stops rest) :
    (Nat.toDigits 10 n ++ rest).takeWhile Char.isDigit = Nat.toDigits 10 n ∧
      (Nat.toDigits 10 n ++ rest).dropWhile Char.isDigit = rest := by
  have hdigits : ∀ c ∈ Nat.toDigits 10 n, c.isDigit = true := fun c hc ↦ isDigit_toDigits hc
  have hstop : rest.takeWhile Char.isDigit = [] ∧ rest.dropWhile Char.isDigit = rest := by
    cases rest with
    | nil => exact ⟨rfl, rfl⟩
    | cons c rest =>
        have hc := (h c rfl).1
        exact ⟨List.takeWhile_cons_of_neg (by simp [hc]), List.dropWhile_cons_of_neg (by simp [hc])⟩
  constructor
  · rw [List.takeWhile_append_of_pos hdigits, hstop.1, List.append_nil]
  · rw [List.dropWhile_append_of_pos hdigits, hstop.2]

theorem decimal_toDigits (n : ℕ) : decimal (Nat.toDigits 10 n) = n := by
  induction n using Nat.strong_induction_on with
  | _ n ih =>
      rw [Nat.toDigits_eq_if (by decide)]
      have hdigit : ∀ d < 10, (Nat.digitChar d).toNat - '0'.toNat = d := by decide
      by_cases hn : n < 10
      · rw [if_pos hn]
        exact (Nat.zero_add _).trans (hdigit n hn)
      · have hlast := hdigit (n % 10) (Nat.mod_lt n (by decide))
        rw [if_neg hn, decimal, List.foldl_append, ← decimal, ih (n / 10) (by omega)]
        change 10 * (n / 10) + ((Nat.digitChar (n % 10)).toNat - '0'.toNat) = n
        rw [hlast]
        omega

theorem head_toDigits {n : ℕ} (hn : n ≠ 0) : (Nat.toDigits 10 n).head? ≠ some '0' := by
  induction n using Nat.strong_induction_on with
  | _ n ih =>
      rw [Nat.toDigits_eq_if (by decide)]
      by_cases hlt : n < 10
      · rw [if_pos hlt, List.head?_cons, Ne, Option.some.injEq, Nat.digitChar_eq_zero]
        exact hn
      · have hrec := ih (n / 10) (by omega) (by omega)
        obtain ⟨c, ds, hds⟩ := List.exists_cons_of_ne_nil
          (Nat.toDigits_ne_nil (b := 10) (n := n / 10))
        rw [if_neg hlt, hds]
        rwa [hds] at hrec

theorem integerPart_toDigits (n : ℕ) {rest : List Char} (h : Stops rest) :
    integerPart (Nat.toDigits 10 n ++ rest) = some (Nat.toDigits 10 n, rest) := by
  obtain ⟨htake, hdrop⟩ := takeWhile_toDigits n h
  unfold integerPart
  rw [htake, hdrop]
  split
  next hnil => exact absurd hnil Nat.toDigits_ne_nil
  next d ds hzero =>
    by_cases hn : n = 0
    · subst hn
      cases hzero
    · exact absurd (by rw [hzero]; rfl) (head_toDigits hn)
  next => rfl

theorem fraction_stops {rest : List Char} (h : Stops rest) : fraction rest = some ([], rest) := by
  unfold fraction
  split
  next => exact absurd rfl (h '.' rfl).2.1
  next => rfl

theorem exponentPart_stops {rest : List Char} (h : Stops rest) :
    exponentPart rest = some (0, rest) := by
  cases rest with
  | nil => rfl
  | cons c rest =>
      obtain ⟨-, -, hsmall, hlarge⟩ := h c rfl
      exact if_neg (not_or.mpr ⟨hsmall, hlarge⟩)

theorem minusSign_toDigits (n : ℕ) (rest : List Char) :
    minusSign (Nat.toDigits 10 n ++ rest) = (false, Nat.toDigits 10 n ++ rest) := by
  unfold minusSign
  split
  next s hs =>
    obtain ⟨c, ds, hds⟩ := List.exists_cons_of_ne_nil (Nat.toDigits_ne_nil (b := 10) (n := n))
    have hc : c.isDigit = true := isDigit_toDigits (hds ▸ List.mem_cons_self)
    rw [hds, List.cons_append] at hs
    obtain rfl := (List.cons.inj hs).1
    cases hc
  next => rfl

theorem number_toDigits (n : ℕ) {rest : List Char} (h : Stops rest) :
    number (Nat.toDigits 10 n ++ rest) = some (.ofNat n, rest) := by
  simp [number, minusSign_toDigits, integerPart_toDigits n h, fraction_stops h,
    exponentPart_stops h, decimal_toDigits, Json.ofNat]

theorem number_negative (n : ℕ) {rest : List Char} (h : Stops rest) :
    number ('-' :: (Nat.toDigits 10 n ++ rest)) = some (.number true n 0, rest) := by
  simp [number, minusSign, integerPart_toDigits n h, fraction_stops h,
    exponentPart_stops h, decimal_toDigits]

theorem isWhite_of_isDigit {c : Char} (hc : c.isDigit = true) :
    isWhite c = false ∧ c ≠ '[' ∧ c ≠ '{' := by
  refine ⟨?_, ?_, ?_⟩
  · unfold isWhite
    simp only [Bool.or_eq_false_iff, decide_eq_false_iff_not]
    refine ⟨⟨⟨?_, ?_⟩, ?_⟩, ?_⟩ <;>
      · rintro rfl
        cases hc
  · rintro rfl
    cases hc
  · rintro rfl
    cases hc

theorem reads_ofNat (n : ℕ) : Reads (Nat.toDigits 10 n) (.ofNat n) := by
  obtain ⟨c, ds, hds⟩ := List.exists_cons_of_ne_nil (Nat.toDigits_ne_nil (b := 10) (n := n))
  have hc : c.isDigit = true := isDigit_toDigits (hds ▸ List.mem_cons_self)
  obtain ⟨hwhite, hbracket, hbrace⟩ := isWhite_of_isDigit hc
  rw [hds]
  apply reads_scalar hwhite hbracket hbrace
  intro rest hrest
  rw [scalar_number _ (.inl hc), ← List.cons_append, ← hds, number_toDigits n hrest]

theorem reads_negative (n : ℕ) : Reads ('-' :: Nat.toDigits 10 n) (.number true n 0) := by
  apply reads_scalar rfl (by decide) (by decide)
  intro rest hrest
  rw [scalar_number _ (.inr rfl), number_negative n hrest]

/-! ## Strings and composite values -/

/-- The parser reads `s` up to the quote behind the text. -/
def Encodes (body s : List Char) : Prop :=
  ∀ n rest, body.length < n → stringBody n (body ++ '"' :: rest) = some (s, rest)

/-- One step of the parser reads the character. -/
def EncodesChar (piece : List Char) (c : Char) : Prop :=
  piece ≠ [] ∧ ∀ n s, stringBody (n + 1) (piece ++ s) =
    (stringBody n s).map fun (body, s) ↦ (c :: body, s)

theorem encodes_nil : Encodes [] [] := by
  intro n rest hn
  obtain ⟨n, rfl⟩ := Nat.exists_eq_succ_of_ne_zero (Nat.ne_zero_of_lt hn)
  rfl

theorem Encodes.cons {body s piece : List Char} {c : Char} (h : Encodes body s)
    (hpiece : EncodesChar piece c) : Encodes (piece ++ body) (c :: s) := by
  intro n rest hn
  obtain ⟨n, rfl⟩ := Nat.exists_eq_succ_of_ne_zero (Nat.ne_zero_of_lt hn)
  have hlength := List.length_pos_iff.mpr hpiece.1
  rw [List.length_append] at hn
  rw [List.append_assoc, hpiece.2, h n rest (by omega)]
  rfl

theorem stringBody_escape {s t : List Char} {c : Char} (h : escapeSequence s = some (c, t))
    (n : ℕ) : stringBody (n + 1) ('\\' :: s) =
      (stringBody n t).map fun (body, s) ↦ (c :: body, s) := by
  rw [stringBody, if_neg (by decide), if_pos rfl, h, Option.bind_eq_bind, Option.bind_some]
  dsimp only
  cases stringBody n t <;> rfl

theorem encodesChar_simple {d c : Char} (hd : d ≠ 'u') (h : simpleEscape d = some c) :
    EncodesChar ['\\', d] c := by
  refine ⟨List.cons_ne_nil _ _, fun n s ↦ ?_⟩
  have hescape : escapeSequence (d :: s) = some (c, s) := by
    rw [escapeSequence, if_neg hd, h]
    rfl
  exact stringBody_escape hescape n

theorem encodesChar_unicode {a b c d : Char} {u : ℕ} (h : hex4 [a, b, c, d] = some (u, []))
    (hu : u < 0xd800) : EncodesChar ['\\', 'u', a, b, c, d] (Char.ofNat u) := by
  refine ⟨List.cons_ne_nil _ _, fun n s ↦ ?_⟩
  have hhex : hex4 (a :: b :: c :: d :: s) = some (u, s) := by
    unfold hex4 at h ⊢
    cases ha : hexDigit? a <;> cases hb : hexDigit? b <;> cases hc : hexDigit? c <;>
      cases hd : hexDigit? d <;> simp_all
  have hescape : escapeSequence ('u' :: a :: b :: c :: d :: s) = some (Char.ofNat u, s) := by
    rw [escapeSequence, if_pos rfl, unicodeEscape, hhex, Option.bind_eq_bind, Option.bind_some]
    dsimp only
    rw [if_neg (by omega), if_neg (by omega)]
    rfl
  exact stringBody_escape hescape n

theorem encodesChar_self {c : Char} (hquote : c ≠ '"') (hslash : c ≠ '\\')
    (hcontrol : 0x20 ≤ c.toNat) : EncodesChar [c] c := by
  refine ⟨List.cons_ne_nil _ _, fun n s ↦ ?_⟩
  rw [List.singleton_append, stringBody, if_neg hquote, if_neg hslash,
    if_neg (Nat.not_lt.mpr hcontrol)]
  cases stringBody n s <;> rfl

theorem reads_string {body s : List Char} (h : Encodes body s) :
    Reads ('"' :: (body ++ ['"'])) (.string s) := by
  apply reads_scalar rfl (by decide) (by decide)
  intro rest _
  have hbody := h ((body ++ '"' :: rest).length + 1) rest (by
    rw [List.length_append, List.length_cons]
    omega)
  rw [List.append_assoc]
  change (stringBody ((body ++ '"' :: rest).length + 1) (body ++ '"' :: rest)).map _ = _
  rw [hbody]
  rfl

/-- The texts with commas between them. -/
def commas : List (List Char) → List Char
  | [] => []
  | [t] => t
  | t :: ts => t ++ ',' :: commas ts

theorem start_commas {t : List Char} (h : ∃ c ∈ t.head?, isWhite c = false)
    (ts : List (List Char)) : ∃ c ∈ (commas (t :: ts)).head?, isWhite c = false := by
  obtain ⟨c, hc, hwhite⟩ := h
  refine ⟨c, ?_, hwhite⟩
  cases t with
  | nil => cases hc
  | cons d t => cases ts <;> exact hc

theorem stops_comma (s : List Char) : Stops (',' :: s) := by
  intro c hc
  obtain rfl : ',' = c := by simpa using hc
  decide

theorem stops_bracket (s : List Char) : Stops (']' :: s) := by
  intro c hc
  obtain rfl : ']' = c := by simpa using hc
  decide

theorem stops_brace (s : List Char) : Stops ('}' :: s) := by
  intro c hc
  obtain rfl : '}' = c := by simpa using hc
  decide

theorem elements_commas {parts : List (List Char × Json)} (hne : parts ≠ [])
    (h : ∀ p ∈ parts, Reads p.1 p.2) (n : ℕ) (rest : List Char)
    (hn : (commas (parts.map Prod.fst)).length + 1 < n) :
    elements n (commas (parts.map Prod.fst) ++ ']' :: rest) = some (parts.map Prod.snd, rest) := by
  induction parts generalizing n with
  | nil => exact absurd rfl hne
  | cons p parts ih =>
      obtain ⟨n, rfl⟩ := Nat.exists_eq_succ_of_ne_zero (Nat.ne_zero_of_lt hn)
      have hfirst := h p List.mem_cons_self
      cases parts with
      | nil =>
          have hlength : p.1.length < n := Nat.lt_of_succ_lt_succ hn
          have hvalue := hfirst.value n (']' :: rest) hlength (stops_bracket rest)
          change elements (n + 1) (p.1 ++ ']' :: rest) = _
          rw [elements, hvalue]
          rfl
      | cons q parts =>
          have hcommas : commas ((p :: q :: parts).map Prod.fst) =
              p.1 ++ ',' :: commas ((q :: parts).map Prod.fst) := rfl
          rw [hcommas, List.length_append, List.length_cons] at hn
          have hskip := skipWhite_append (start_commas (h q (by simp)).start (parts.map Prod.fst))
            (']' :: rest)
          have hvalue := hfirst.value n
            (',' :: (commas ((q :: parts).map Prod.fst) ++ ']' :: rest)) (by omega) (stops_comma _)
          have hrest := ih (List.cons_ne_nil _ _) (fun r hr ↦ h r (List.mem_cons_of_mem p hr)) n
            (by omega)
          rw [hcommas, List.append_assoc, List.cons_append, elements, hvalue, Option.bind_eq_bind,
            Option.bind_some]
          change (do
            let (l, s) ← elements n (skipWhite (commas ((q :: parts).map Prod.fst) ++ ']' :: rest))
            return (p.2 :: l, s)) = _
          rw [List.map_cons, hskip]
          rw [List.map_cons] at hrest
          rw [hrest]
          rfl

theorem skipWhite_nonwhite {c : Char} (h : isWhite c = false) (s : List Char) :
    skipWhite (c :: s) = c :: s := List.dropWhile_cons_of_neg (by simp [h])

theorem ne_of_reads {text : List Char} {v : Json} (h : Reads text v) :
    ∃ c s, text = c :: s ∧ isWhite c = false ∧ c ≠ ']' ∧ c ≠ '}' := by
  obtain ⟨c, hc, hwhite⟩ := h.start
  cases text with
  | nil => cases hc
  | cons d s =>
      obtain rfl : d = c := by simpa using hc
      have hvalue := h.value ((d :: s).length + 1) [] (Nat.lt_succ_self _) (by simp [Stops])
      refine ⟨d, s, rfl, hwhite, ?_, ?_⟩
      · rintro rfl
        rw [List.append_nil, value_scalar _ _ (by decide) (by decide)] at hvalue
        cases hvalue
      · rintro rfl
        rw [List.append_nil, value_scalar _ _ (by decide) (by decide)] at hvalue
        cases hvalue

theorem reads_array {parts : List (List Char × Json)} (h : ∀ p ∈ parts, Reads p.1 p.2) :
    Reads ('[' :: (commas (parts.map Prod.fst) ++ [']'])) (.array (parts.map Prod.snd)) := by
  refine ⟨⟨'[', rfl, rfl⟩, fun n rest hn _ ↦ ?_⟩
  obtain ⟨n, rfl⟩ := Nat.exists_eq_succ_of_ne_zero (Nat.ne_zero_of_lt hn)
  cases parts with
  | nil => rfl
  | cons p parts =>
      have hlength : (commas ((p :: parts).map Prod.fst)).length + 1 < n := by
        rw [List.length_cons, List.length_append] at hn
        exact Nat.lt_of_succ_lt_succ hn
      have helements := elements_commas (List.cons_ne_nil p parts) h n rest hlength
      obtain ⟨c, s, hcs, hwhite, hbracket, -⟩ := ne_of_reads (h p List.mem_cons_self)
      have hhead : ∃ t, commas ((p :: parts).map Prod.fst) ++ ']' :: rest = c :: t := by
        rw [List.map_cons, hcs]
        cases parts.map Prod.fst <;> exact ⟨_, rfl⟩
      obtain ⟨t, ht⟩ := hhead
      rw [ht] at helements
      rw [List.cons_append, List.append_assoc, List.singleton_append, ht, value]
      rw [skipWhite_nonwhite hwhite]
      split
      next heq => exact absurd (List.cons.inj heq).1 hbracket
      next =>
        rw [helements]
        rfl

/-- The text of a member of an object. -/
def memberText (body text : List Char) : List Char := '"' :: (body ++ '"' :: ':' :: text)

theorem key_memberText {body name text : List Char} {v : Json} (hbody : Encodes body name)
    (htext : Reads text v) (rest : List Char) :
    key (memberText body text ++ rest) = some (name, text ++ rest) := by
  have hlength : body.length < (body ++ '"' :: ':' :: (text ++ rest)).length + 1 := by
    rw [List.length_append]
    omega
  have hname := hbody _ (':' :: (text ++ rest)) hlength
  have hsplit : memberText body text ++ rest = '"' :: (body ++ '"' :: ':' :: (text ++ rest)) := by
    simp [memberText]
  rw [hsplit, key, hname, Option.bind_eq_bind, Option.bind_some]
  dsimp only
  rw [skipWhite_nonwhite rfl]
  change some (name, skipWhite (text ++ rest)) = _
  rw [skipWhite_append htext.start]

/-- A member: the text and the name of its key, the text and the value. -/
structure Member where
  body : List Char
  name : List Char
  text : List Char
  v : Json

def Member.Reads (m : Member) : Prop := Encodes m.body m.name ∧ JsonText.Reads m.text m.v

def Member.written (m : Member) : List Char := memberText m.body m.text

theorem members_commas {parts : List Member} (hne : parts ≠ []) (h : ∀ m ∈ parts, m.Reads)
    (n : ℕ) (rest : List Char) (hn : (commas (parts.map Member.written)).length + 1 < n) :
    members n (commas (parts.map Member.written) ++ '}' :: rest) =
      some (parts.map fun m ↦ (m.name, m.v), rest) := by
  induction parts generalizing n with
  | nil => exact absurd rfl hne
  | cons m parts ih =>
      obtain ⟨n, rfl⟩ := Nat.exists_eq_succ_of_ne_zero (Nat.ne_zero_of_lt hn)
      obtain ⟨hbody, htext⟩ := h m List.mem_cons_self
      have hshort : m.text.length < m.written.length := by
        simp [Member.written, memberText]
        omega
      cases parts with
      | nil =>
          have hlength : m.written.length + 1 < n + 1 := hn
          have hkey := key_memberText hbody htext ('}' :: rest)
          have hvalue := htext.value n ('}' :: rest) (by omega) (stops_brace rest)
          change members (n + 1) (m.written ++ '}' :: rest) = _
          rw [members, Member.written, hkey, Option.bind_eq_bind, Option.bind_some]
          dsimp only
          rw [hvalue]
          rfl
      | cons m' parts =>
          have hcommas : commas ((m :: m' :: parts).map Member.written) =
              m.written ++ ',' :: commas ((m' :: parts).map Member.written) := rfl
          rw [hcommas, List.length_append, List.length_cons] at hn
          have hstart : ∃ c ∈ m'.written.head?, isWhite c = false := ⟨'"', rfl, rfl⟩
          have hskip := skipWhite_append (start_commas hstart (parts.map Member.written))
            ('}' :: rest)
          have hkey := key_memberText hbody htext
            (',' :: (commas ((m' :: parts).map Member.written) ++ '}' :: rest))
          have hvalue := htext.value n
            (',' :: (commas ((m' :: parts).map Member.written) ++ '}' :: rest)) (by omega)
            (stops_comma _)
          have hrest := ih (List.cons_ne_nil _ _) (fun r hr ↦ h r (List.mem_cons_of_mem m hr)) n
            (by omega)
          rw [hcommas, List.append_assoc, List.cons_append, members, Member.written, hkey,
            Option.bind_eq_bind, Option.bind_some]
          dsimp only
          rw [hvalue]
          change (do
            let (l, s) ← members n
              (skipWhite (commas ((m' :: parts).map Member.written) ++ '}' :: rest))
            return ((m.name, m.v) :: l, s)) = _
          rw [List.map_cons, hskip]
          rw [List.map_cons] at hrest
          rw [hrest]
          rfl

theorem reads_object {parts : List Member} (h : ∀ m ∈ parts, m.Reads) :
    Reads ('{' :: (commas (parts.map Member.written) ++ ['}']))
      (.object (parts.map fun m ↦ (m.name, m.v))) := by
  refine ⟨⟨'{', rfl, rfl⟩, fun n rest hn _ ↦ ?_⟩
  obtain ⟨n, rfl⟩ := Nat.exists_eq_succ_of_ne_zero (Nat.ne_zero_of_lt hn)
  cases parts with
  | nil => rfl
  | cons m parts =>
      have hlength : (commas ((m :: parts).map Member.written)).length + 1 < n := by
        rw [List.length_cons, List.length_append] at hn
        exact Nat.lt_of_succ_lt_succ hn
      have hmembers := members_commas (List.cons_ne_nil m parts) h n rest hlength
      have hhead : ∃ t, commas ((m :: parts).map Member.written) ++ '}' :: rest = '"' :: t := by
        rw [List.map_cons]
        cases parts.map Member.written <;> exact ⟨_, rfl⟩
      obtain ⟨t, ht⟩ := hhead
      rw [ht] at hmembers
      rw [List.cons_append, List.append_assoc, List.singleton_append, ht, value]
      rw [skipWhite_nonwhite rfl]
      split
      next heq => cases heq
      next =>
        rw [hmembers]
        rfl

end JsonText
