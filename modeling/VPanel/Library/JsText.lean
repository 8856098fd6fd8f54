import VPanel.Library.HexText

/-!
# JavaScript strings as hexadecimal numbers

`parseInt(s, 16)` skips white space, accepts a sign and a `0x` prefix and
reads the longest run of digits.  On up to thirteen digits the result is an
exact number.
-/

namespace JsText

open HexText

def strWhiteSpace : List Char :=
  ['\t', '\n', '\x0b', '\x0c', '\r', ' ', '\u00a0', '\u1680', '\u2000', '\u2001', '\u2002',
    '\u2003', '\u2004', '\u2005', '\u2006', '\u2007', '\u2008', '\u2009', '\u200a', '\u2028',
    '\u2029', '\u202f', '\u205f', '\u3000', '\ufeff']

/-- `parseInt(s, 16)`; `none` is `NaN`. -/
def parseInt16 (s : List Char) : Option ℤ :=
  let (negative, s) := stripSign (s.dropWhile fun c ↦ c ∈ strWhiteSpace)
  let digits := stripPrefix s
  let (n, rest) := readHex 0 digits
  if rest.length = digits.length then none
  else some (if negative then -(n : ℤ) else n)

def substring (s : List Char) (a b : ℕ) : List Char := (s.drop a).take (b - a)

/-- A number as a bit operator sees it: `NaN` counts as zero. -/
def toNumber (x : Option ℤ) : ℤ := x.getD 0

theorem hexDigit?_strWhiteSpace : ∀ c ∈ strWhiteSpace, hexDigit? c = none := by
  have hall : strWhiteSpace.all (fun c ↦ hexDigit? c = none) = true := by decide
  exact fun c hc ↦ of_decide_eq_true (List.all_eq_true.mp hall c hc)

theorem dropWhile_strWhiteSpace {c : Char} {s : List Char} (hc : (hexDigit? c).isSome) :
    (c :: s).dropWhile (fun c ↦ c ∈ strWhiteSpace) = c :: s := by
  have hnot : c ∉ strWhiteSpace := fun h ↦ by
    rw [hexDigit?_strWhiteSpace c h] at hc
    cases hc
  rw [List.dropWhile_cons_of_neg (by simpa using hnot)]

theorem parseInt16_fixedHex {digit : ℕ → Char} (hdigit : ReadsBack digit) {N : ℕ} (hN : 0 < N)
    (v : ℕ) : parseInt16 (fixedHex digit N v) = some ((v % 16 ^ N : ℕ) : ℤ) := by
  have hdigits : ∀ c ∈ fixedHex digit N v, (hexDigit? c).isSome := by
    intro c hc
    obtain ⟨d, hd, rfl⟩ := mem_fixedHex hc
    rw [hdigit d hd]
    rfl
  have hread : readHex 0 (fixedHex digit N v) = (v % 16 ^ N, []) := by
    have h := readHex_fixedHex hdigit N v 0 []
    rwa [List.append_nil, Nat.zero_mul, Nat.zero_add] at h
  have hlen := length_fixedHex digit N v
  obtain ⟨c, s, hcons⟩ := List.exists_cons_of_length_pos (hlen.symm ▸ hN)
  rw [hcons] at hdigits hread hlen ⊢
  have hc := hdigits c List.mem_cons_self
  have hshort : ¬([] : List Char).length = (c :: s).length := by simp
  have hpre : ∀ a ∈ s.head?, a ≠ 'x' ∧ a ≠ 'X' := fun a ha ↦
    ne_x_of_hexDigit (hdigits a (List.mem_cons_of_mem c (List.mem_of_mem_head? ha)))
  simp only [parseInt16, dropWhile_strWhiteSpace hc, stripSign_cons hc,
    stripPrefix_cons hpre, hread, if_neg hshort]
  rfl

end JsText
