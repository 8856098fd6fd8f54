import VPanel.Library.JsonText

/-!
# The numbers in a text

A text is read for its numbers only: the longest runs of decimal digits, in
order.  Leading zeros and the words between the numbers carry no meaning.
-/

namespace TextNumbers

open JsonText (decimal)

/-- `pending` is the value of the digits directly before the text, if there are any. -/
def numbersFrom : Option ℕ → List Char → List ℕ
  | pending, [] => pending.toList
  | pending, c :: cs =>
      if c.isDigit then numbersFrom (some (10 * pending.getD 0 + (c.toNat - '0'.toNat))) cs
      else pending.toList ++ numbersFrom none cs

def numbersIn (text : List Char) : List ℕ := numbersFrom none text

/-- No run of digits goes on into the text. -/
def EndsNumber (text : List Char) : Prop := ∀ c ∈ text.head?, c.isDigit = false

theorem numbersFrom_digits {ds : List Char} (hds : ∀ c ∈ ds, c.isDigit = true) (n : ℕ)
    (rest : List Char) :
    numbersFrom (some n) (ds ++ rest) =
      numbersFrom (some (ds.foldl (fun n c ↦ 10 * n + (c.toNat - '0'.toNat)) n)) rest := by
  induction ds generalizing n with
  | nil => rfl
  | cons c ds ih =>
      obtain ⟨hc, hds⟩ := List.forall_mem_cons.mp hds
      rw [List.cons_append, numbersFrom, if_pos hc, ih hds]
      rfl

theorem numbersFrom_some {rest : List Char} (h : EndsNumber rest) (n : ℕ) :
    numbersFrom (some n) rest = n :: numbersIn rest := by
  cases rest with
  | nil => rfl
  | cons c cs =>
      have hc : ¬c.isDigit = true := Bool.eq_false_iff.mp (h c rfl)
      rw [numbersFrom, if_neg hc, numbersIn, numbersFrom, if_neg hc]
      rfl

theorem numbersIn_number {ds rest : List Char} (hne : ds ≠ [])
    (hds : ∀ c ∈ ds, c.isDigit = true) (hrest : EndsNumber rest) :
    numbersIn (ds ++ rest) = decimal ds :: numbersIn rest := by
  obtain ⟨c, ds, rfl⟩ := List.exists_cons_of_ne_nil hne
  obtain ⟨hc, hds⟩ := List.forall_mem_cons.mp hds
  rw [numbersIn, List.cons_append, numbersFrom, if_pos hc, numbersFrom_digits hds,
    numbersFrom_some hrest]
  rfl

theorem numbersIn_words {words : List Char} (h : ∀ c ∈ words, c.isDigit = false)
    (rest : List Char) : numbersIn (words ++ rest) = numbersIn rest := by
  induction words with
  | nil => rfl
  | cons c words ih =>
      obtain ⟨hc, hwords⟩ := List.forall_mem_cons.mp h
      rw [List.cons_append, numbersIn, numbersFrom, if_neg (Bool.eq_false_iff.mp hc)]
      exact ih hwords

/-! ## Numbers that are padded with zeros -/

/-- `text.padStart(n, '0')`. -/
def padStart (n : ℕ) (text : List Char) : List Char :=
  List.replicate (n - text.length) '0' ++ text

theorem decimal_replicate_append (k : ℕ) (ds : List Char) :
    decimal (List.replicate k '0' ++ ds) = decimal ds := by
  induction k with
  | zero => rfl
  | succ k ih =>
      rw [List.replicate_succ, List.cons_append]
      exact ih

theorem numbersIn_padStart (k n : ℕ) {rest : List Char} (hrest : EndsNumber rest) :
    numbersIn (padStart k (Nat.toDigits 10 n) ++ rest) = n :: numbersIn rest := by
  have hdigits : ∀ c ∈ padStart k (Nat.toDigits 10 n), c.isDigit = true := by
    intro c hc
    rcases List.mem_append.mp hc with hc | hc
    · rw [(List.mem_replicate.mp hc).2]
      rfl
    · exact JsonText.isDigit_toDigits hc
  have hne : padStart k (Nat.toDigits 10 n) ≠ [] :=
    List.append_ne_nil_of_right_ne_nil _ Nat.toDigits_ne_nil
  rw [numbersIn_number hne hdigits hrest, padStart, decimal_replicate_append,
    JsonText.decimal_toDigits]

theorem numbersIn_toDigits (n : ℕ) {rest : List Char} (hrest : EndsNumber rest) :
    numbersIn (Nat.toDigits 10 n ++ rest) = n :: numbersIn rest := by
  have hpad : padStart 0 (Nat.toDigits 10 n) = Nat.toDigits 10 n := by
    rw [padStart, Nat.zero_sub]
    rfl
  rw [← hpad]
  exact numbersIn_padStart 0 n hrest

end TextNumbers
