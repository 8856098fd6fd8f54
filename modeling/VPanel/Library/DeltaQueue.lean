import Mathlib.Data.Int.Order.Basic
import Mathlib.Data.List.Sort

/-!
# Queues of differences

A queue of deadlines that stores with each entry the time from the deadline of
the entry before it.  The entries in front that are due have a time of zero or
less, the age of the deadline, and differences start over at the present.  A
tick then has to count down the due entries and one more.
-/

namespace DeltaQueue

variable {α : Type}

/-- The deadlines behind the times, when it is `now`. -/
def deadlines (now : ℤ) : List (ℤ × α) → List (ℤ × α)
  | [] => []
  | (d, a) :: q => (now + d, a) :: deadlines (now + max d 0) q

def insert (t : ℤ) (a : α) : List (ℤ × α) → List (ℤ × α)
  | [] => [(t, a)]
  | (d, b) :: q =>
      if d < t then (d, b) :: insert (if 0 < d then t - d else t) a q
      else (t, a) :: (d - t, b) :: q

def tick : List (ℤ × α) → List (ℤ × α)
  | [] => []
  | (d, a) :: q =>
      if 0 < d - 1 then (d - 1, a) :: q
      else if d - 1 = 0 then (d - 1, a) :: q
      else (d - 1, a) :: tick q

/-- The first entry is due. -/
def Due : List (ℤ × α) → Prop
  | [] => False
  | (d, _) :: _ => d ≤ 0

instance : (q : List (ℤ × α)) → Decidable (Due q)
  | [] => inferInstanceAs (Decidable False)
  | (d, _) :: _ => inferInstanceAs (Decidable (d ≤ 0))

def delay (d : ℤ) : List (ℤ × α) → List (ℤ × α)
  | [] => []
  | (e, b) :: q => (e + d, b) :: q

/-- Remove the first entry that `p` holds for. -/
def remove (p : α → Bool) : List (ℤ × α) → List (ℤ × α)
  | [] => []
  | (d, a) :: q => if p a then (if 0 < d then delay d q else q) else (d, a) :: remove p q

@[simp] theorem deadlines_nil (now : ℤ) : deadlines now ([] : List (ℤ × α)) = [] := rfl

@[simp] theorem deadlines_cons (now d : ℤ) (a : α) (q : List (ℤ × α)) :
    deadlines now ((d, a) :: q) = (now + d, a) :: deadlines (now + max d 0) q := rfl

@[simp] theorem map_snd_deadlines (now : ℤ) (q : List (ℤ × α)) :
    (deadlines now q).map Prod.snd = q.map Prod.snd := by
  induction q generalizing now with
  | nil => rfl
  | cons e q ih =>
      obtain ⟨d, a⟩ := e
      rw [deadlines_cons, List.map_cons, List.map_cons, ih]

theorem length_deadlines (now : ℤ) (q : List (ℤ × α)) : (deadlines now q).length = q.length := by
  have hmap := congrArg List.length (map_snd_deadlines now q)
  rwa [List.length_map, List.length_map] at hmap

/-- The entries behind due ones do not depend on them. -/
theorem deadlines_append {p : List (ℤ × α)} (h : ∀ e ∈ p, e.1 ≤ 0) (now : ℤ)
    (q : List (ℤ × α)) : deadlines now (p ++ q) = deadlines now p ++ deadlines now q := by
  induction p with
  | nil => rfl
  | cons e p ih =>
      obtain ⟨hd, hp⟩ := List.forall_mem_cons.mp h
      have hbase : now + max e.1 0 = now := by omega
      rw [List.cons_append, deadlines_cons, deadlines_cons, hbase, ih hp]
      rfl

theorem deadlines_tick (now : ℤ) (q : List (ℤ × α)) :
    deadlines (now + 1) (tick q) = deadlines now q := by
  induction q with
  | nil => rfl
  | cons e q ih =>
      obtain ⟨d, a⟩ := e
      have hhead : now + 1 + (d - 1) = now + d := by omega
      rw [tick]
      by_cases hpositive : 0 < d - 1
      · have hbase : now + 1 + max (d - 1) 0 = now + max d 0 := by omega
        rw [if_pos hpositive, deadlines_cons, deadlines_cons, hhead, hbase]
      · rw [if_neg hpositive]
        by_cases hzero : d - 1 = 0
        · have hbase : now + 1 + max (d - 1) 0 = now + max d 0 := by omega
          rw [if_pos hzero, deadlines_cons, deadlines_cons, hhead, hbase]
        · have hbase : now + 1 + max (d - 1) 0 = now + 1 := by omega
          have hbase' : now + max d 0 = now := by omega
          rw [if_neg hzero, deadlines_cons, deadlines_cons, hhead, hbase, hbase', ih]

theorem map_snd_tick (q : List (ℤ × α)) : (tick q).map Prod.snd = q.map Prod.snd := by
  have hmap := congrArg (List.map Prod.snd) (deadlines_tick 0 q)
  rwa [map_snd_deadlines, map_snd_deadlines] at hmap

/-! ## Insertion -/

def NotAfter (e f : ℤ × α) : Prop := e.1 ≤ f.1

instance : DecidableRel (NotAfter (α := α)) := fun e f ↦ inferInstanceAs (Decidable (e.1 ≤ f.1))

instance : Std.Total (NotAfter (α := α)) := ⟨fun e f ↦ Int.le_total e.1 f.1⟩

instance : IsTrans (ℤ × α) NotAfter := ⟨fun _ _ _ hef hfg ↦ Int.le_trans hef hfg⟩

/-- The new deadline goes before those that are not earlier. -/
theorem deadlines_insert {t : ℤ} (ht : 0 < t) (now : ℤ) (a : α) (q : List (ℤ × α)) :
    deadlines now (insert t a q) = (deadlines now q).orderedInsert NotAfter (now + t, a) := by
  induction q generalizing now t with
  | nil => rfl
  | cons e q ih =>
      obtain ⟨d, b⟩ := e
      rw [insert, deadlines_cons, List.orderedInsert_cons]
      by_cases hskip : d < t
      · have hafter : ¬NotAfter (now + t, a) (now + d, b) := by
          unfold NotAfter
          omega
        rw [if_pos hskip, if_neg hafter, deadlines_cons]
        by_cases hd : 0 < d
        · have hrest : now + t = now + max d 0 + (t - d) := by omega
          rw [if_pos hd, ih (by omega), hrest]
        · have hbase : now + max d 0 = now := by omega
          rw [if_neg hd, hbase, ih ht]
      · have hbefore : NotAfter (now + t, a) (now + d, b) := by
          unfold NotAfter
          omega
        have hnext : now + max t 0 + (d - t) = now + d := by omega
        have hbase : now + max t 0 + max (d - t) 0 = now + max d 0 := by omega
        rw [if_neg hskip, if_pos hbefore, deadlines_cons, deadlines_cons, hnext, hbase]

/-! ## Order -/

/-- The deadlines are in order, whatever the present is. -/
def Ordered (q : List (ℤ × α)) : Prop := (deadlines 0 q).Pairwise NotAfter

theorem deadlines_add (now c : ℤ) (q : List (ℤ × α)) :
    deadlines (now + c) q = (deadlines now q).map fun e ↦ (e.1 + c, e.2) := by
  induction q generalizing now with
  | nil => rfl
  | cons e q ih =>
      obtain ⟨d, a⟩ := e
      have hhead : now + c + d = now + d + c := by omega
      have hbase : now + c + max d 0 = now + max d 0 + c := by omega
      rw [deadlines_cons, deadlines_cons, List.map_cons, hhead, hbase, ih]

theorem ordered_iff (now : ℤ) (q : List (ℤ × α)) :
    Ordered q ↔ (deadlines now q).Pairwise NotAfter := by
  have hshift := deadlines_add 0 now q
  rw [Int.zero_add] at hshift
  rw [hshift, List.pairwise_map]
  apply List.Pairwise.iff
  intro e f
  unfold NotAfter
  omega

theorem Ordered.tick {q : List (ℤ × α)} (h : Ordered q) : Ordered (tick q) := by
  rw [ordered_iff 1]
  have htick := deadlines_tick 0 q
  rw [Int.zero_add] at htick
  rwa [htick]

theorem Ordered.insert {q : List (ℤ × α)} (h : Ordered q) {t : ℤ} (ht : 0 < t) (a : α) :
    Ordered (insert t a q) := by
  unfold Ordered
  rw [deadlines_insert ht]
  exact List.Pairwise.orderedInsert _ _ h

theorem Ordered.tail {d : ℤ} {a : α} {q : List (ℤ × α)} (h : Ordered ((d, a) :: q)) :
    Ordered q :=
  (ordered_iff (0 + max d 0) q).mpr (List.pairwise_cons.mp h).2

/-- Behind an entry that is not due no time is negative. -/
theorem Ordered.next_nonneg {d e : ℤ} {a b : α} {q : List (ℤ × α)}
    (h : Ordered ((d, a) :: (e, b) :: q)) (hd : 0 < d) : 0 ≤ e := by
  have hle : 0 + d ≤ 0 + max d 0 + e := (List.pairwise_cons.mp h).1 _ List.mem_cons_self
  omega

theorem Ordered.due_iff {q : List (ℤ × α)} (h : Ordered q) (now : ℤ) :
    Due q ↔ ∃ e ∈ deadlines now q, e.1 ≤ now := by
  cases q with
  | nil =>
      apply iff_of_false id
      rintro ⟨e, he, -⟩
      cases he
  | cons f q =>
      obtain ⟨d, a⟩ := f
      constructor
      · intro hdue
        have hd : d ≤ 0 := hdue
        exact ⟨(now + d, a), List.mem_cons_self, by omega⟩
      · rintro ⟨e, he, hle⟩
        have hhead : now + d ≤ e.1 := by
          rcases List.mem_cons.mp he with rfl | he
          · exact Int.le_refl _
          · exact (List.pairwise_cons.mp ((ordered_iff now _).mp h)).1 e he
        unfold Due
        omega

/-! ## Removal -/

theorem deadlines_delay {now d : ℤ} {q : List (ℤ × α)} (hd : 0 < d)
    (hnonneg : ∀ e b q', q = (e, b) :: q' → 0 ≤ e) :
    deadlines now (delay d q) = deadlines (now + d) q := by
  cases q with
  | nil => rfl
  | cons f q =>
      obtain ⟨e, b⟩ := f
      have he := hnonneg e b q rfl
      have hhead : now + (e + d) = now + d + e := by omega
      have hbase : now + max (e + d) 0 = now + d + max e 0 := by omega
      rw [delay, deadlines_cons, deadlines_cons, hhead, hbase]

theorem deadlines_remove {q : List (ℤ × α)} (h : Ordered q) (p : α → Bool) (now : ℤ) :
    deadlines now (remove p q) = (deadlines now q).eraseP fun e ↦ p e.2 := by
  induction q generalizing now with
  | nil => rfl
  | cons e q ih =>
      obtain ⟨d, a⟩ := e
      rw [remove, deadlines_cons]
      cases hp : p a with
      | false =>
          rw [List.eraseP_cons_of_neg (by simp [hp]), ← ih h.tail]
          rfl
      | true =>
          rw [List.eraseP_cons_of_pos (by simp [hp]), if_pos rfl]
          by_cases hd : 0 < d
          · have hbase : now + max d 0 = now + d := by omega
            rw [if_pos hd, hbase]
            apply deadlines_delay hd
            rintro f b q' rfl
            exact h.next_nonneg hd
          · have hbase : now + max d 0 = now := by omega
            rw [if_neg hd, hbase]

theorem Ordered.remove {q : List (ℤ × α)} (h : Ordered q) (p : α → Bool) :
    Ordered (remove p q) := by
  unfold Ordered
  rw [deadlines_remove h]
  exact List.Pairwise.sublist List.eraseP_sublist h

/-! ## Size of the times -/

/-- No time exceeds the distance to the latest deadline. -/
theorem time_le {q : List (ℤ × α)} {now bound : ℤ} (hbound : 0 ≤ bound)
    (hq : ∀ e ∈ deadlines now q, e.1 ≤ now + bound) : ∀ e ∈ q, e.1 ≤ bound := by
  induction q generalizing now bound with
  | nil => simp
  | cons f q ih =>
      obtain ⟨d, a⟩ := f
      have hd : now + d ≤ now + bound := hq _ List.mem_cons_self
      have hrest : ∀ e ∈ deadlines (now + max d 0) q,
          e.1 ≤ now + max d 0 + (bound - max d 0) := by
        intro e he
        have hle := hq e (List.mem_cons_of_mem _ he)
        omega
      have htail : ∀ e ∈ q, e.1 ≤ bound - max d 0 := ih (by omega) hrest
      intro e he
      rcases List.mem_cons.mp he with rfl | he
      · exact Int.le_of_add_le_add_left hd
      · have hle := htail e he
        omega

/-- No time is further below zero than the oldest deadline is in the past. -/
theorem neg_le_time {q : List (ℤ × α)} (h : Ordered q) {now age : ℤ} (hage : 0 ≤ age)
    (hq : ∀ e ∈ deadlines now q, now - age ≤ e.1) : ∀ e ∈ q, -age ≤ e.1 := by
  induction q generalizing now age with
  | nil => simp
  | cons f q ih =>
      obtain ⟨d, a⟩ := f
      have hd : now - age ≤ now + d := hq _ List.mem_cons_self
      have htail : ∀ e ∈ q, -age ≤ e.1 := by
        by_cases hpositive : 0 < d
        · have hrest : ∀ e ∈ deadlines (now + max d 0) q, now + max d 0 - 0 ≤ e.1 := by
            intro e he
            have hle : now + d ≤ e.1 :=
              (List.pairwise_cons.mp ((ordered_iff now _).mp h)).1 e he
            omega
          intro e he
          have hle := ih h.tail (Int.le_refl 0) hrest e he
          omega
        · have hrest : ∀ e ∈ deadlines (now + max d 0) q, now + max d 0 - age ≤ e.1 := by
            intro e he
            have hle := hq e (List.mem_cons_of_mem _ he)
            omega
          exact ih h.tail hage hrest
      intro e he
      rcases List.mem_cons.mp he with rfl | he
      · omega
      · exact htail e he

end DeltaQueue
