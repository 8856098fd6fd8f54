import VPanel.Library.HexText
import Mathlib.Data.List.Chain
import Mathlib.Data.List.DropRight

/-!
# Format strings of `printf` and `scanf`

A format is a list of directives; of the conversions there is `%lx`, on
unsigned numbers of `w` bits.  White space in a format is printed as it stands
and scanned as any run of white space.  What a format prints, the same format
scans, provided no conversion is followed by text that could belong to a number.
-/

namespace StdioFormat

open HexText

/-- `isspace` in the C locale. -/
def isSpace (c : Char) : Bool := c ∈ [' ', '\t', '\n', '\x0b', '\x0c', '\r']

inductive Directive
  | white (c : Char) (h : isSpace c = true)
  | literal (c : Char) (h : isSpace c = false)
  | hexLong
  deriving DecidableEq

def Directive.ofChar (c : Char) : Directive :=
  if h : isSpace c = true then .white c h else .literal c (by simpa using h)

def directives : List Char → List Directive
  | [] => []
  | '%' :: 'l' :: 'x' :: cs => .hexLong :: directives cs
  | c :: cs => .ofChar c :: directives cs

def conversions (ds : List Directive) : ℕ := ds.count .hexLong

variable {w : ℕ}

/-- What `printf` writes.  The text ends where arguments are missing. -/
def render : List Directive → List (BitVec w) → List Char
  | [], _ => []
  | .white c _ :: ds, vs => c :: render ds vs
  | .literal c _ :: ds, vs => c :: render ds vs
  | .hexLong :: _, [] => []
  | .hexLong :: ds, v :: vs => Nat.toDigits 16 v.toNat ++ render ds vs

/-- One number as `strtoul` reads it, and the text after it. -/
def scanHex (s : List Char) : Option (BitVec w × List Char) :=
  let (negative, s) := stripSign s
  let digits := stripPrefix s
  let (n, rest) := readHex 0 digits
  if rest.length = digits.length then none
  else if 2 ^ w ≤ n then some (BitVec.allOnes w, rest)
  else some (if negative then -BitVec.ofNat w n else BitVec.ofNat w n, rest)

/-- The numbers a scan converted, and whether the input ended before it did. -/
structure Scanned (w : ℕ) where
  values : List (BitVec w)
  inputFailure : Bool

def Scanned.ret (r : Scanned w) : ℤ :=
  if r.inputFailure ∧ r.values = [] then -1 else r.values.length

def scan : List Directive → List Char → Scanned w
  | [], _ => ⟨[], false⟩
  | .white _ _ :: ds, s => scan ds (s.dropWhile isSpace)
  | .literal _ _ :: _, [] => ⟨[], true⟩
  | .literal c _ :: ds, a :: s => if a = c then scan ds s else ⟨[], false⟩
  | .hexLong :: ds, s =>
      match scanHex (s.dropWhile isSpace) with
      | some (v, rest) =>
          let r := scan ds rest
          ⟨v :: r.values, r.inputFailure⟩
      | none => ⟨[], (s.dropWhile isSpace).isEmpty⟩

/-! ## Numbers and what may follow them -/

/-- A character that is no part of a number, wherever it stands. -/
def EndsNumber (c : Char) : Prop := hexDigit? c = none ∧ c ≠ 'x' ∧ c ≠ 'X'

instance : DecidablePred EndsNumber := fun _ ↦ inferInstanceAs (Decidable (_ ∧ _))

def Follows (d e : Directive) : Prop :=
  d = .hexLong → match e with
    | .white c _ => EndsNumber c
    | .literal c _ => EndsNumber c
    | .hexLong => False

instance : DecidableRel Follows := fun d e ↦ by
  unfold Follows
  cases e <;> infer_instance

/-- Every conversion is followed by text that ends its number. -/
def Separated (ds : List Directive) : Prop := ds.IsChain Follows

instance (ds : List Directive) : Decidable (Separated ds) :=
  inferInstanceAs (Decidable (ds.IsChain Follows))

theorem Separated.tail {d : Directive} {ds : List Directive} (h : Separated (d :: ds)) :
    Separated ds :=
  List.IsChain.tail h

theorem hexDigit?_of_isSpace {c : Char} (hc : isSpace c = true) : hexDigit? c = none := by
  have hall : [' ', '\t', '\n', '\x0b', '\x0c', '\r'].all (fun c ↦ hexDigit? c = none) = true := by
    decide
  exact of_decide_eq_true (List.all_eq_true.mp hall c (of_decide_eq_true hc))

theorem isSpace_of_hexDigit {c : Char} (hc : (hexDigit? c).isSome) : isSpace c = false := by
  cases hspace : isSpace c with
  | false => rfl
  | true =>
      rw [hexDigit?_of_isSpace hspace] at hc
      cases hc

theorem dropWhile_isSpace_cons {c : Char} (hc : isSpace c = false) (s : List Char) :
    (c :: s).dropWhile isSpace = c :: s :=
  List.dropWhile_cons_of_neg (by rw [hc]; exact Bool.false_ne_true)

theorem toDigits_eq_cons (v : ℕ) :
    ∃ c s, Nat.toDigits 16 v = c :: s ∧ (hexDigit? c).isSome ∧ ∀ a ∈ s, (hexDigit? a).isSome := by
  obtain ⟨c, s, hcons⟩ := List.exists_cons_of_ne_nil (Nat.toDigits_ne_nil (n := v) (b := 16))
  refine ⟨c, s, hcons, ?_, ?_⟩
  · exact hexDigit?_of_mem_toDigits (v := v) (by rw [hcons]; exact List.mem_cons_self)
  · intro a ha
    exact hexDigit?_of_mem_toDigits (v := v) (by rw [hcons]; exact List.mem_cons_of_mem c ha)

theorem scanHex_toDigits (v : BitVec w) {rest : List Char} (hrest : ∀ c ∈ rest.head?, EndsNumber c) :
    scanHex (Nat.toDigits 16 v.toNat ++ rest) = some (v, rest) := by
  obtain ⟨c, s, hcons, hc, hs⟩ := toDigits_eq_cons v.toNat
  have hx : ∀ a ∈ (s ++ rest).head?, a ≠ 'x' ∧ a ≠ 'X' := by
    intro a ha
    cases s with
    | nil => exact (hrest a ha).2
    | cons b s =>
        obtain rfl : b = a := by simpa using ha
        exact ne_x_of_hexDigit (hs b List.mem_cons_self)
  have hread : readHex 0 (c :: (s ++ rest)) = (v.toNat, rest) := by
    rw [← List.cons_append, ← hcons, readHex_toDigits,
      readHex_stop v.toNat fun a ha ↦ (hrest a ha).1]
  have hlen : ¬rest.length = (c :: (s ++ rest)).length := by
    simp only [List.length_cons, List.length_append]
    omega
  rw [hcons, List.cons_append]
  simp only [scanHex, stripSign_cons hc, stripPrefix_cons hx, hread, if_neg hlen,
    if_neg (Nat.not_le.mpr v.isLt)]
  simp

/-! ## Scanning printed text -/

theorem conversions_white (c : Char) (h : isSpace c = true) (ds : List Directive) :
    conversions (.white c h :: ds) = conversions ds :=
  List.count_cons_of_ne (by simp)

theorem conversions_literal (c : Char) (h : isSpace c = false) (ds : List Directive) :
    conversions (.literal c h :: ds) = conversions ds :=
  List.count_cons_of_ne (by simp)

theorem exists_cons_of_conversions {ds : List Directive} {vs : List (BitVec w)}
    (h : vs.length = conversions (.hexLong :: ds)) :
    ∃ u us, vs = u :: us ∧ us.length = conversions ds := by
  rw [conversions, List.count_cons_self] at h
  obtain ⟨u, us, rfl⟩ := List.exists_cons_of_length_eq_add_one h
  exact ⟨u, us, rfl, Nat.succ_injective h⟩

theorem endsNumber_head_render {d : Directive} {ds : List Directive} (hd : Follows .hexLong d)
    (vs : List (BitVec w)) (rest : List Char) :
    ∀ c ∈ (render (d :: ds) vs ++ rest).head?, EndsNumber c := by
  intro c hc
  have hd := hd rfl
  cases d with
  | white a _ =>
      obtain rfl : a = c := by simpa [render] using hc
      exact hd
  | literal a _ =>
      obtain rfl : a = c := by simpa [render] using hc
      exact hd
  | hexLong => exact hd.elim

theorem scan_dropWhile_render (ds : List Directive) (vs : List (BitVec w)) (rest : List Char) :
    (scan ds ((render ds vs ++ rest).dropWhile isSpace) : Scanned w) =
      scan ds (render ds vs ++ rest) := by
  cases ds with
  | nil => rfl
  | cons d ds =>
      cases d with
      | white c hc => rw [scan, scan, List.dropWhile_idempotent]
      | literal c hc => rw [render, List.cons_append, dropWhile_isSpace_cons hc]
      | hexLong => rw [scan, scan, List.dropWhile_idempotent]

/-- A format reads back the arguments it printed. -/
theorem scan_render {ds : List Directive} (hds : Separated ds) {vs : List (BitVec w)}
    (hvs : vs.length = conversions ds) {rest : List Char}
    (hrest : ∀ c ∈ rest.head?, EndsNumber c) :
    scan ds (render ds vs ++ rest) = ⟨vs, false⟩ := by
  induction ds generalizing vs with
  | nil =>
      obtain rfl : vs = [] := List.eq_nil_of_length_eq_zero hvs
      rfl
  | cons d ds ih =>
      cases d with
      | white c hc =>
          rw [conversions_white] at hvs
          rw [render, scan, List.cons_append, List.dropWhile_cons_of_pos hc,
            scan_dropWhile_render, ih hds.tail hvs]
      | literal c hc =>
          rw [conversions_literal] at hvs
          rw [render, List.cons_append, scan, if_pos rfl, ih hds.tail hvs]
      | hexLong =>
          obtain ⟨v, vs, rfl, hvs'⟩ := exists_cons_of_conversions hvs
          have hends : ∀ c ∈ (render ds vs ++ rest).head?, EndsNumber c := by
            cases ds with
            | nil => exact hrest
            | cons e ds => exact endsNumber_head_render (List.isChain_cons_cons.mp hds).1 vs rest
          obtain ⟨c, s, hcons, hc, -⟩ := toDigits_eq_cons v.toNat
          rw [render, List.append_assoc, scan, hcons, List.cons_append,
            dropWhile_isSpace_cons (isSpace_of_hexDigit hc), ← List.cons_append, ← hcons,
            scanHex_toDigits v hends]
          simp only [ih hds.tail hvs']

/-! ## Length of printed text -/

def Directive.room (k : ℕ) : Directive → ℕ
  | .white _ _ => 1
  | .literal _ _ => 1
  | .hexLong => k

def room (k : ℕ) (ds : List Directive) : ℕ := (ds.map (Directive.room k)).sum

theorem length_toDigits_le {k : ℕ} (hw : w ≤ 4 * k) (hk : 0 < k) (v : BitVec w) :
    (Nat.toDigits 16 v.toNat).length ≤ k := by
  refine (Nat.length_toDigits_le_iff (by norm_num) hk).mpr ?_
  calc
    v.toNat < 2 ^ w := v.isLt
    _ ≤ 2 ^ (4 * k) := Nat.pow_le_pow_right two_pos hw
    _ = 16 ^ k := by rw [pow_mul]; norm_num

theorem length_render_le {k : ℕ} (hw : w ≤ 4 * k) (hk : 0 < k) (ds : List Directive)
    (vs : List (BitVec w)) : (render ds vs).length ≤ room k ds := by
  induction ds generalizing vs with
  | nil => exact Nat.le_refl 0
  | cons d ds ih =>
      rw [room, List.map_cons, List.sum_cons, ← room]
      cases d with
      | white c h =>
          have := ih vs
          rw [render, List.length_cons, Directive.room]
          omega
      | literal c h =>
          have := ih vs
          rw [render, List.length_cons, Directive.room]
          omega
      | hexLong =>
          cases vs with
          | nil => exact Nat.zero_le _
          | cons v vs =>
              rw [render, List.length_append, Directive.room]
              exact Nat.add_le_add (length_toDigits_le hw hk v) (ih vs)

theorem render_append (ds es : List Directive) {vs : List (BitVec w)}
    (hvs : vs.length = conversions ds) :
    render (ds ++ es) vs = render ds vs ++ render es ([] : List (BitVec w)) := by
  induction ds generalizing vs with
  | nil =>
      obtain rfl : vs = [] := List.eq_nil_of_length_eq_zero hvs
      rfl
  | cons d ds ih =>
      cases d with
      | white c h =>
          rw [conversions_white] at hvs
          rw [List.cons_append, render, render, ih hvs, List.cons_append]
      | literal c h =>
          rw [conversions_literal] at hvs
          rw [List.cons_append, render, render, ih hvs, List.cons_append]
      | hexLong =>
          obtain ⟨v, vs, rfl, hvs'⟩ := exists_cons_of_conversions hvs
          rw [List.cons_append, render, render, ih hvs', List.append_assoc]

theorem mem_render {ds : List Directive} {vs : List (BitVec w)} {c : Char}
    (h : c ∈ render ds vs) : (hexDigit? c).isSome ∨ .ofChar c ∈ ds := by
  induction ds generalizing vs with
  | nil => cases h
  | cons d ds ih =>
      cases d with
      | white a ha =>
          rcases List.mem_cons.mp h with rfl | h
          · rw [Directive.ofChar, dif_pos ha]
            exact Or.inr List.mem_cons_self
          · exact (ih h).imp_right (List.mem_cons_of_mem _)
      | literal a ha =>
          rcases List.mem_cons.mp h with rfl | h
          · rw [Directive.ofChar, dif_neg (by rw [ha]; exact Bool.false_ne_true)]
            exact Or.inr List.mem_cons_self
          · exact (ih h).imp_right (List.mem_cons_of_mem _)
      | hexLong =>
          cases vs with
          | nil => cases h
          | cons v vs =>
              rcases List.mem_append.mp h with h | h
              · exact Or.inl (hexDigit?_of_mem_toDigits h)
              · exact (ih h).imp_right (List.mem_cons_of_mem _)

/-! ## Buffers and lines -/

/-- `snprintf` into `size` characters: the length it returns and what it writes. -/
def snprintf (size : ℕ) (text : List Char) : ℕ × List Char :=
  (text.length, text.take (size - 1) ++ ['\x00'])

theorem snprintf_of_fits {size : ℕ} {text : List Char} (h : text.length + 1 ≤ size) :
    snprintf size text = (text.length, text ++ ['\x00']) := by
  rw [snprintf, List.take_of_length_le (by omega)]

/-- The part of a buffer that string functions look at. -/
def cString (buffer : List Char) : List Char := buffer.takeWhile (· ≠ '\x00')

theorem cString_of_not_mem {buffer : List Char} (h : '\x00' ∉ buffer) :
    cString buffer = buffer :=
  List.takeWhile_eq_self_iff.mpr fun _ hc ↦ decide_eq_true fun heq ↦ h (heq ▸ hc)

/-- `strncmp(a, b, n) == 0`. -/
def strncmpEq (a b : List Char) (n : ℕ) : Bool := (cString a).take n = (cString b).take n

/-- An open file: the offset of the next `read` and the characters read ahead. -/
structure Stream where
  pos : ℕ
  ahead : List Char

section Stream

-- `read` is the system call: from an offset to characters and the offset after them.
variable {ε : Type} (read : ℕ → Except ε (List Char × ℕ))

def getc (s : Stream) : Except ε (Option (Char × Stream)) :=
  match s.ahead with
  | c :: cs => .ok (some (c, ⟨s.pos, cs⟩))
  | [] =>
      match read s.pos with
      | .error e => .error e
      | .ok ([], _) => .ok none
      | .ok (c :: cs, pos) => .ok (some (c, ⟨pos, cs⟩))

def getLine : ℕ → Stream → Except ε (List Char)
  | 0, _ => .ok []
  | n + 1, s => do
      match ← getc read s with
      | none => .ok []
      | some (c, s) =>
          if c = '\n' then .ok [c]
          else do
            let cs ← getLine n s
            .ok (c :: cs)

/-- `fgets` into `size` characters; `none` is `NULL`. -/
def fgets (size : ℕ) (s : Stream) : Option (List Char) :=
  match getLine read (size - 1) s with
  | .error _ => none
  | .ok [] => none
  | .ok (c :: cs) => some (c :: cs)

theorem getLine_ahead {line : List Char} (hline : '\n' ∉ line) {n : ℕ} (hn : line.length < n)
    (pos : ℕ) (rest : List Char) :
    getLine read n ⟨pos, line ++ '\n' :: rest⟩ = .ok (line ++ ['\n']) := by
  induction line generalizing n with
  | nil =>
      obtain ⟨n, rfl⟩ := Nat.exists_eq_add_one.mpr hn
      rfl
  | cons c cs ih =>
      obtain ⟨n, rfl⟩ := Nat.exists_eq_add_one_of_ne_zero (Nat.ne_zero_of_lt hn)
      have hc : c ≠ '\n' := fun h ↦ hline (h ▸ List.mem_cons_self)
      have hcs := ih (fun h ↦ hline (List.mem_cons_of_mem c h)) (Nat.lt_of_succ_lt_succ hn)
      simp only [List.cons_append, getLine, getc, bind, Except.bind, if_neg hc, hcs]

theorem fgets_line {line : List Char} (hline : '\n' ∉ line) {size pos pos' : ℕ}
    (hsize : line.length + 2 ≤ size) (hread : read pos = .ok (line ++ ['\n'], pos')) :
    fgets read size ⟨pos, []⟩ = some (line ++ ['\n']) := by
  obtain ⟨n, rfl⟩ : ∃ n, size = n + 2 := ⟨size - 2, by omega⟩
  have hfill : getLine read (n + 1) ⟨pos, []⟩ = getLine read (n + 1) ⟨pos', line ++ ['\n']⟩ := by
    rw [getLine, getLine]
    cases line with
    | nil => simp [getc, hread]
    | cons c cs => simp [getc, hread]
  have hget := getLine_ahead read hline (n := n + 1) (by omega) pos' []
  rw [fgets, show n + 2 - 1 = n + 1 from rfl, hfill, hget]
  cases line <;> rfl

end Stream

end StdioFormat
