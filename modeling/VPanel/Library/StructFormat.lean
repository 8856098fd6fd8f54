import VPanel.Library.ByteCodec

/-!
# Packing integers by a format string

A format in standard mode names the widths of a sequence of unsigned
little-endian integers.  Packing checks the number of values and the range of
each; it undoes itself when the bytes are cut at the same widths again.
-/

namespace StructFormat

open ByteCodec

def itemSize : Char → Option ℕ
  | 'B' => some 1
  | 'H' => some 2
  | 'I' | 'L' => some 4
  | 'Q' => some 8
  | _ => none

/-- The widths behind the byte-order mark.  A number repeats the character that follows it,
and white space may stand between the items but not behind a number. -/
def readItems : Option ℕ → List Char → Option (List ℕ)
  | none, [] => some []
  | some _, [] => none
  | count, c :: cs =>
      if c.isDigit then readItems (some (10 * count.getD 0 + (c.toNat - '0'.toNat))) cs
      else if count = none ∧ c.isWhitespace then readItems none cs
      else do
        let size ← itemSize c
        let rest ← readItems none cs
        return List.replicate (count.getD 1) size ++ rest

/-- The items of a little-endian format; other byte-order marks are not covered. -/
def items : List Char → Option (List ℕ)
  | '<' :: cs => readItems none cs
  | _ => none

def InRange (size : ℕ) (v : ℤ) : Prop := 0 ≤ v ∧ v < 256 ^ size

instance (size : ℕ) (v : ℤ) : Decidable (InRange size v) := inferInstanceAs (Decidable (_ ∧ _))

/-- Pack one value for each width; `none` is the error of a wrong number of values or of a
value out of range. -/
def packItems : List ℕ → List ℤ → Option (List UInt8)
  | [], [] => some []
  | size :: sizes, v :: vs =>
      if InRange size v then (packItems sizes vs).map (leBytes size v.toNat ++ ·) else none
  | _, _ => none

/-- `struct.pack(fmt, *values)`. -/
def pack (fmt : List Char) (values : List ℤ) : Option (List UInt8) := do
  packItems (← items fmt) values

def Fits (fmt : List Char) (values : List ℤ) : Prop :=
  ∃ sizes, items fmt = some sizes ∧ List.Forall₂ InRange sizes values

theorem packItems_map {α : Type*} {size : α → ℕ} {value : α → ℤ} {xs : List α}
    (h : ∀ x ∈ xs, InRange (size x) (value x)) :
    packItems (xs.map size) (xs.map value) =
      some (xs.flatMap fun x ↦ leBytes (size x) (value x).toNat) := by
  induction xs with
  | nil => rfl
  | cons x xs ih =>
      rw [List.map_cons, List.map_cons, packItems, if_pos (h x List.mem_cons_self),
        ih fun y hy ↦ h y (List.mem_cons_of_mem x hy), Option.map_some, List.flatMap_cons]

theorem forall₂_map_iff {α : Type*} {size : α → ℕ} {value : α → ℤ} {xs : List α} :
    List.Forall₂ InRange (xs.map size) (xs.map value) ↔ ∀ x ∈ xs, InRange (size x) (value x) := by
  rw [List.forall₂_map_left_iff, List.forall₂_map_right_iff, List.forall₂_same]

theorem inRange_natCast {size n : ℕ} : InRange size (n : ℤ) ↔ n < 256 ^ size := by
  rw [InRange]
  constructor
  · rintro ⟨-, h⟩
    exact_mod_cast h
  · intro h
    exact ⟨Int.natCast_nonneg n, by exact_mod_cast h⟩

theorem InRange.toNat {size : ℕ} {v : ℤ} (h : InRange size v) : ((v.toNat : ℕ) : ℤ) = v :=
  Int.toNat_of_nonneg h.1

end StructFormat
