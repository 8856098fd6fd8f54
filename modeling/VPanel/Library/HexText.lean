import Mathlib.Tactic.IntervalCases
import Mathlib.Tactic.Ring

/-!
# Hexadecimal text

Writing numbers in base sixteen, with a fixed number of digits or without
leading zeros, and reading a run of digits back.
-/

namespace HexText

def hexDigit? (c : Char) : Option ℕ :=
  if '0'.toNat ≤ c.toNat ∧ c.toNat ≤ '9'.toNat then some (c.toNat - '0'.toNat)
  else if 'a'.toNat ≤ c.toNat ∧ c.toNat ≤ 'f'.toNat then some (c.toNat - 'a'.toNat + 10)
  else if 'A'.toNat ≤ c.toNat ∧ c.toNat ≤ 'F'.toNat then some (c.toNat - 'A'.toNat + 10)
  else none

/-- Read the longest run of digits; `acc` is the value read so far. -/
def readHex : ℕ → List Char → ℕ × List Char
  | acc, [] => (acc, [])
  | acc, c :: cs =>
      match hexDigit? c with
      | some d => readHex (16 * acc + d) cs
      | none => (acc, c :: cs)

theorem readHex_stop (acc : ℕ) {rest : List Char}
    (h : ∀ c ∈ rest.head?, hexDigit? c = none) : readHex acc rest = (acc, rest) := by
  cases rest with
  | nil => rfl
  | cons c cs => rw [readHex, h c rfl]

theorem readHex_cons {c : Char} {d : ℕ} (h : hexDigit? c = some d) (acc : ℕ)
    (cs : List Char) : readHex acc (c :: cs) = readHex (16 * acc + d) cs := by
  rw [readHex, h]

/-- The lower `N` base-sixteen digits of a number, the highest first. -/
def fixedHex (digit : ℕ → Char) : ℕ → ℕ → List Char
  | 0, _ => []
  | N + 1, v => fixedHex digit N (v / 16) ++ [digit (v % 16)]

@[simp] theorem length_fixedHex (digit : ℕ → Char) (N v : ℕ) :
    (fixedHex digit N v).length = N := by
  induction N generalizing v with
  | zero => rfl
  | succ N ih => rw [fixedHex, List.length_append, ih, List.length_singleton]

theorem mem_fixedHex {digit : ℕ → Char} {N v : ℕ} {c : Char} (h : c ∈ fixedHex digit N v) :
    ∃ d < 16, c = digit d := by
  induction N generalizing v with
  | zero => simp [fixedHex] at h
  | succ N ih =>
      rcases List.mem_append.mp h with h | h
      · exact ih h
      · exact ⟨v % 16, Nat.mod_lt v (by norm_num), List.mem_singleton.mp h⟩

def ReadsBack (digit : ℕ → Char) : Prop := ∀ d < 16, hexDigit? (digit d) = some d

theorem readHex_fixedHex {digit : ℕ → Char} (hdigit : ReadsBack digit) (N v acc : ℕ)
    (rest : List Char) :
    readHex acc (fixedHex digit N v ++ rest) = readHex (acc * 16 ^ N + v % 16 ^ N) rest := by
  induction N generalizing v rest with
  | zero => simp [fixedHex, Nat.mod_one]
  | succ N ih =>
      have hlow := hdigit (v % 16) (Nat.mod_lt v (by norm_num))
      rw [fixedHex, List.append_assoc, ih, List.singleton_append, readHex_cons hlow,
        pow_succ', Nat.mod_mul]
      congr 1
      ring

theorem fixedHex_injective {digit : ℕ → Char} (hdigit : ReadsBack digit) {N v w : ℕ}
    (hv : v < 16 ^ N) (hw : w < 16 ^ N) (h : fixedHex digit N v = fixedHex digit N w) : v = w := by
  have hread := congrArg (fun cs ↦ (readHex 0 cs).1) h
  have hvalue : ∀ u < 16 ^ N, (readHex 0 (fixedHex digit N u)).1 = u := by
    intro u hu
    have hu' := readHex_fixedHex hdigit N u 0 []
    rw [List.append_nil, Nat.mod_eq_of_lt hu, Nat.zero_mul, Nat.zero_add] at hu'
    rw [hu']
    rfl
  simpa only [hvalue v hv, hvalue w hw] using hread

theorem fixedHex_add (digit : ℕ → Char) (M N v : ℕ) :
    fixedHex digit (M + N) v = fixedHex digit M (v / 16 ^ N) ++ fixedHex digit N v := by
  induction N generalizing v with
  | zero => simp [fixedHex]
  | succ N ih =>
      rw [← Nat.add_assoc, fixedHex, ih, fixedHex, List.append_assoc, Nat.div_div_eq_div_mul,
        ← pow_succ']

/-! ## Signs and prefixes -/

def stripSign : List Char → Bool × List Char
  | '-' :: s => (true, s)
  | '+' :: s => (false, s)
  | s => (false, s)

def stripPrefix : List Char → List Char
  | '0' :: 'x' :: s => s
  | '0' :: 'X' :: s => s
  | s => s

theorem stripSign_cons {c : Char} {s : List Char} (hc : (hexDigit? c).isSome) :
    stripSign (c :: s) = (false, c :: s) := by
  unfold stripSign
  split
  next heq => cases heq; exact absurd hc (by decide)
  next heq => cases heq; exact absurd hc (by decide)
  next => rfl

theorem stripPrefix_cons {c : Char} {s : List Char} (hs : ∀ a ∈ s.head?, a ≠ 'x' ∧ a ≠ 'X') :
    stripPrefix (c :: s) = c :: s := by
  unfold stripPrefix
  split
  next heq => cases heq; exact absurd rfl (hs 'x' rfl).1
  next heq => cases heq; exact absurd rfl (hs 'X' rfl).2
  next => rfl

theorem stripPrefix_of_ne {c : Char} (hc : c ≠ '0') (s : List Char) :
    stripPrefix (c :: s) = c :: s := by
  unfold stripPrefix
  split
  next heq => cases heq; exact absurd rfl hc
  next heq => cases heq; exact absurd rfl hc
  next => rfl

theorem ne_x_of_hexDigit {c : Char} (hc : (hexDigit? c).isSome) : c ≠ 'x' ∧ c ≠ 'X' := by
  constructor <;> rintro rfl <;> exact absurd hc (by decide)

/-! ## Lower case without leading zeros -/

theorem readsBack_digitChar : ReadsBack Nat.digitChar := by
  intro d hd
  interval_cases d <;> rfl

theorem readHex_toDigits (v : ℕ) (rest : List Char) :
    readHex 0 (Nat.toDigits 16 v ++ rest) = readHex v rest := by
  induction v using Nat.strong_induction_on generalizing rest with
  | _ v ih =>
      by_cases hv : v < 16
      · rw [Nat.toDigits_of_lt_base hv, List.singleton_append,
          readHex_cons (readsBack_digitChar v hv), Nat.mul_zero, Nat.zero_add]
      · have hdigit := readsBack_digitChar (v % 16) (Nat.mod_lt v (by norm_num))
        rw [Nat.toDigits_of_base_le (by norm_num) (by omega), List.append_assoc,
          ih (v / 16) (by omega), List.singleton_append, readHex_cons hdigit,
          Nat.div_add_mod]

theorem hexDigit?_of_mem_toDigits {v : ℕ} {c : Char} (h : c ∈ Nat.toDigits 16 v) :
    (hexDigit? c).isSome := by
  induction v using Nat.strong_induction_on with
  | _ v ih =>
      rw [Nat.toDigits_eq_if (by norm_num)] at h
      split at h
      next hv =>
        rw [List.mem_singleton.mp h, readsBack_digitChar v hv]
        rfl
      next hv =>
        rcases List.mem_append.mp h with h | h
        · exact ih (v / 16) (by omega) h
        · rw [List.mem_singleton.mp h, readsBack_digitChar _ (Nat.mod_lt v (by norm_num))]
          rfl

end HexText
