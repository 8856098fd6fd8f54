import Mathlib.Data.List.Sort
import Mathlib.Data.Nat.Notation

/-!
# Copies that are not atomic

A block of cells is copied one cell after the other while it changes.  The
copy may hold cells of several moments, later ones further back.
-/

namespace TornCopy

variable {α : Type} {store store' : ℕ → List α} {moments : List ℕ} {cells : List α}

/-- `cells` are the first cells of the block, each copied at the moment in the same place of
`moments`, which do not go back. -/
inductive Copied (store : ℕ → List α) : List ℕ → List α → Prop
  | start : Copied store [] []
  | copy {moments : List ℕ} {cells : List α} {now : ℕ} {a : α} (h : Copied store moments cells)
      (hle : ∀ m ∈ moments, m ≤ now) (ha : (store now)[cells.length]? = some a) :
      Copied store (moments ++ [now]) (cells ++ [a])

namespace Copied

theorem length_eq (h : Copied store moments cells) : moments.length = cells.length := by
  induction h with
  | start => rfl
  | copy _ _ _ ih => rw [List.length_append, List.length_append, ih]; rfl

theorem sorted (h : Copied store moments cells) : moments.Pairwise (· ≤ ·) := by
  induction h with
  | start => exact .nil
  | @copy moments cells now a _ hle _ ih =>
      refine List.pairwise_append.mpr ⟨ih, List.pairwise_singleton _ _, fun m hm m' hm' ↦ ?_⟩
      obtain rfl := List.mem_singleton.mp hm'
      exact hle m hm

theorem congr (h : Copied store moments cells) (heq : ∀ m ∈ moments, store m = store' m) :
    Copied store' moments cells := by
  induction h with
  | start => exact .start
  | @copy moments cells now a _ hle ha ih =>
      obtain ⟨hbefore, hnow⟩ := List.forall_mem_append.mp heq
      apply Copied.copy (ih hbefore) hle
      rw [← hnow now (List.mem_singleton_self now)]
      exact ha

/-- While the block does not change, the copy is its front. -/
theorem steady {block : List α} (h : Copied store moments cells)
    (hsteady : ∀ m ∈ moments, store m = block) : cells = block.take cells.length := by
  induction h with
  | start => exact List.take_zero.symm
  | @copy moments cells now a _ _ ha ih =>
      obtain ⟨hbefore, hnow⟩ := List.forall_mem_append.mp hsteady
      have hfront := ih hbefore
      rw [hnow now (List.mem_singleton_self now)] at ha
      rw [List.length_append, List.length_singleton, List.take_add_one, ha, ← hfront]
      rfl

/-- One change of the block cuts the copy in two parts, where the copying had come to. -/
theorem two_parts {lo : ℕ} (h : Copied store moments cells)
    (hcases : ∀ m ∈ moments, m = lo ∨ m = lo + 1) :
    cells = (store lo).take (moments.count lo) ++
      ((store (lo + 1)).take cells.length).drop (moments.count lo) := by
  induction h with
  | start => simp
  | @copy moments cells now a h hle ha ih =>
      obtain ⟨hbefore, hnow⟩ := List.forall_mem_append.mp hcases
      have hlength := h.length_eq
      rw [List.length_append, List.length_singleton, List.count_append]
      rcases hnow now (List.mem_singleton_self now) with rfl | rfl
      · have hall : ∀ m ∈ moments, m = now := by
          intro m hm
          have hle := hle m hm
          rcases hbefore m hm with h | h <;> omega
        have hcount : moments.count now = cells.length := by
          rw [List.count_eq_length.mpr fun m hm ↦ (hall m hm).symm, hlength]
        have hfront := h.steady fun m hm ↦ congrArg store (hall m hm)
        rw [hcount, List.count_singleton_self, List.take_add_one, ha, ← hfront,
          List.drop_eq_nil_of_le (List.length_take_le ..), List.append_nil]
        rfl
      · have hnone : [lo + 1].count lo = 0 := List.count_eq_zero_of_not_mem (by simp)
        have hcount : moments.count lo ≤ cells.length := hlength ▸ List.count_le_length
        have hbound := (List.getElem?_eq_some_iff.mp ha).1
        rw [hnone, Nat.add_zero, List.take_add_one, ha,
          List.drop_append_of_le_length (by rw [List.length_take]; omega), ← List.append_assoc,
          ← ih hbefore]
        rfl

end Copied

end TornCopy
