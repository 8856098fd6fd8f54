import Mathlib.Data.List.Nodup
import Mathlib.Logic.Function.Basic

/-!
# Linked lists in memory

Nodes hold the link to the next node, and a header holds the link to the first
one.  A place in the list is the header or a node, whose link is read or set.
-/

namespace LinkedChain

variable {ι : Type}

/-- The links from `p` on visit the nodes of the list, and end. -/
def Chain (next : ι → Option ι) : Option ι → List ι → Prop
  | p, [] => p = none
  | p, i :: l => p = some i ∧ Chain next (next i) l

/-- A header and the links of the nodes. -/
structure Links (ι : Type) where
  head : Option ι
  next : ι → Option ι

namespace Links

variable (L : Links ι)

/-- The link at a place, the header being `none`. -/
def follow : Option ι → Option ι
  | none => L.head
  | some i => L.next i

def set [DecidableEq ι] : Option ι → Option ι → Links ι
  | none, q => { L with head := q }
  | some i, q => { L with next := Function.update L.next i q }

def Holds (l : List ι) : Prop := Chain L.next L.head l

/-- The nodes that at most `n` links visit. -/
def walk (next : ι → Option ι) : ℕ → Option ι → List ι
  | 0, _ => []
  | _ + 1, none => []
  | n + 1, some i => i :: walk next n (next i)

end Links

variable {next : ι → Option ι} {p q : Option ι} {l pre post : List ι}

theorem Chain.eq_head? (h : Chain next p l) : p = l.head? := by
  cases l with
  | nil => exact h
  | cons i l => exact h.1

theorem Chain.walk_eq (h : Chain next p l) {n : ℕ} (hn : l.length ≤ n) :
    Links.walk next n p = l := by
  induction l generalizing p n with
  | nil =>
      rw [show p = none from h]
      cases n <;> rfl
  | cons i l ih =>
      obtain ⟨rfl, hrest⟩ := h
      cases n with
      | zero => exact absurd hn (Nat.not_succ_le_zero _)
      | succ n => rw [Links.walk, ih hrest (Nat.le_of_succ_le_succ hn)]

theorem Chain.congr {next' : ι → Option ι} (h : Chain next p l) (hsame : ∀ i ∈ l, next' i = next i) :
    Chain next' p l := by
  induction l generalizing p with
  | nil => exact h
  | cons i l ih =>
      obtain ⟨rfl, hrest⟩ := h
      refine ⟨rfl, ?_⟩
      rw [hsame i List.mem_cons_self]
      exact ih hrest fun j hj ↦ hsame j (List.mem_cons_of_mem i hj)

theorem Chain.follow {head : Option ι} (h : Chain next head (pre ++ post)) :
    Links.follow ⟨head, next⟩ pre.getLast? = post.head? := by
  induction pre generalizing head with
  | nil => exact h.eq_head?
  | cons i pre ih =>
      obtain ⟨rfl, hrest⟩ := h
      cases pre with
      | nil => exact hrest.eq_head?
      | cons j pre =>
          have hlast := List.getLast?_eq_some_getLast (List.cons_ne_nil j pre)
          have hfollow := ih hrest
          rw [List.getLast?_cons_cons, hlast]
          rwa [hlast] at hfollow

theorem Chain.drop {head : Option ι} (h : Chain next head (pre ++ post)) :
    Chain next post.head? post := by
  induction pre generalizing head with
  | nil =>
      have hhead : head = post.head? := h.eq_head?
      rwa [hhead] at h
  | cons i pre ih => exact ih h.2

section Relink

variable [DecidableEq ι]

theorem Chain.update {i : ι} (h : Chain next p l) (hi : i ∉ l) (q : Option ι) :
    Chain (Function.update next i q) p l := by
  apply h.congr
  intro j hj
  have hji : j ≠ i := by
    rintro rfl
    exact hi hj
  exact Function.update_of_ne hji ..

/-- To set the link at the place behind `pre` exchanges the rest of the list. -/
theorem Chain.relink {head : Option ι} {rest : List ι} (h : Chain next head (pre ++ post))
    (hpre : pre.Nodup) (hrest : Chain next q rest) (hdisjoint : ∀ i ∈ pre, i ∉ rest) :
    (Links.set ⟨head, next⟩ pre.getLast? q).Holds (pre ++ rest) := by
  induction pre generalizing head with
  | nil => exact hrest
  | cons i pre ih =>
      obtain ⟨rfl, htail⟩ := h
      obtain ⟨hi, hpre⟩ := List.nodup_cons.mp hpre
      cases pre with
      | nil =>
          refine ⟨rfl, ?_⟩
          change Chain (Function.update next i q) (Function.update next i q i) rest
          rw [Function.update_self]
          exact hrest.update (hdisjoint i List.mem_cons_self) q
      | cons j pre =>
          have hlast := List.getLast?_eq_some_getLast (List.cons_ne_nil j pre)
          have hne : i ≠ (j :: pre).getLast (List.cons_ne_nil j pre) := by
            intro heq
            rw [heq] at hi
            exact hi (List.getLast_mem _)
          have hkeep := ih htail hpre fun k hk ↦ hdisjoint k (List.mem_cons_of_mem i hk)
          rw [hlast] at hkeep
          rw [List.getLast?_cons_cons, hlast]
          refine ⟨rfl, ?_⟩
          change Chain _ (Function.update next _ q i) _
          rw [Function.update_of_ne hne]
          exact hkeep

theorem Links.set_comm {head p q r : Option ι} {n : ι} (hp : p ≠ some n) :
    (Links.set ⟨head, next⟩ p q).set (some n) r =
      Links.set ⟨head, Function.update next n r⟩ p q := by
  cases p with
  | none => rfl
  | some i =>
      have hne : i ≠ n := fun heq ↦ hp (congrArg some heq)
      change Links.mk head (Function.update (Function.update next i q) n r) = _
      rw [Function.update_comm hne]
      rfl

/-- A node is linked in behind `pre` by the link to it, and by its own link. -/
theorem Chain.insert {head : Option ι} {n : ι} (h : Chain next head (pre ++ post))
    (hnodup : (pre ++ post).Nodup) (hn : n ∉ pre ++ post) :
    ((Links.set ⟨head, next⟩ pre.getLast? (some n)).set (some n) post.head?).Holds
      (pre ++ n :: post) := by
  obtain ⟨hnpre, hnpost⟩ := not_or.mp fun hmem ↦ hn (List.mem_append.mpr hmem)
  obtain ⟨hpre, -, hdisjoint⟩ := List.nodup_append.mp hnodup
  have hpost : Chain next post.head? post := h.drop
  have hown : Chain (Function.update next n post.head?) (some n) (n :: post) := by
    refine ⟨rfl, ?_⟩
    rw [Function.update_self]
    exact hpost.update hnpost _
  have hplace : pre.getLast? ≠ some n := fun hlast ↦ hnpre (List.mem_of_getLast? hlast)
  rw [Links.set_comm hplace]
  apply (h.update hn post.head?).relink hpre hown
  rintro i hi hmem
  rcases List.mem_cons.mp hmem with rfl | hmem
  · exact hnpre hi
  · exact hdisjoint i hi i hmem rfl

/-- A node is taken out by the link at the place before it. -/
theorem Chain.unlink {head : Option ι} {i : ι} (h : Chain next head (pre ++ i :: post))
    (hnodup : (pre ++ i :: post).Nodup) :
    (Links.set ⟨head, next⟩ pre.getLast? (next i)).Holds (pre ++ post) := by
  obtain ⟨hpre, -, hdisjoint⟩ := List.nodup_append.mp hnodup
  have hrest : Chain next (next i) post := h.drop.2
  exact h.relink hpre hrest fun j hj hjpost ↦
    hdisjoint j hj j (List.mem_cons_of_mem i hjpost) rfl

end Relink

end LinkedChain
