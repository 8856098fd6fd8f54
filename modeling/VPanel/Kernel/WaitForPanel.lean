import Mathlib.Data.BitVec
import Mathlib.Data.Fintype.Pi
import VPanel.Library.EventRun

/-!
# Waiting for the panel

The clock interrupt of the PDP-11 kernel counts its ticks in `panel_seq` and
wakes the processes that sleep on it.  The system call compares the count with
`last_seq`, the count at the latest return, which all processes share.  Both
are ints of 16 bits.
-/

namespace VPanel.Kernel

open EventRun

/-- Where a process stands in `sys_wait_for_panel`. -/
inductive Place
  | outside
  | testing
  /-- The test held, `tsleep` has not put the process to sleep yet. -/
  | fallingAsleep
  | asleep
  /-- Behind the loop. -/
  | leaving
  deriving DecidableEq

structure SeqKernel (n : ℕ) where
  panelSeq : BitVec 16
  lastSeq : BitVec 16
  place : Fin n → Place

inductive WaitEvent (n : ℕ)
  | tick
  | call (p : Fin n)
  | test (p : Fin n)
  | tsleep (p : Fin n)
  /-- A signal ends `tsleep`, which was called with `PCATCH`. -/
  | interrupt (p : Fin n)
  | leave (p : Fin n)
  deriving DecidableEq

namespace SeqKernel

variable {n : ℕ} (k : SeqKernel n)

def boot : SeqKernel n := ⟨0, 0, fun _ ↦ .outside⟩

def goTo (p : Fin n) (place : Place) : SeqKernel n :=
  { k with place := Function.update k.place p place }

def move (p : Fin n) (source target : Place) : Option (SeqKernel n) :=
  if k.place p = source then some (k.goTo p target) else none

def wakeup : SeqKernel n :=
  { k with place := fun p ↦ if k.place p = .asleep then .testing else k.place p }

/-- The end of `hardclock`. -/
def hardclock : SeqKernel n := { k with panelSeq := k.panelSeq + 1 }.wakeup

/-- A step, with the value `sys_wait_for_panel` returns. -/
def step : WaitEvent n → Option (SeqKernel n × Option (BitVec 16))
  | .tick => some (k.hardclock, none)
  | .call p => (k.move p .outside .testing).map (·, none)
  | .test p =>
      (k.move p .testing (if k.lastSeq = k.panelSeq then .fallingAsleep else .leaving)).map
        (·, none)
  | .tsleep p => (k.move p .fallingAsleep .asleep).map (·, none)
  | .interrupt p => (k.move p .asleep .testing).map (·, none)
  | .leave p =>
      ({ k with lastSeq := k.panelSeq }.move p .leaving .outside).map (·, some k.panelSeq)

/-- A process at this place leaves the loop when it runs on. -/
def ReturnsFrom : Place → Prop
  | .testing => k.lastSeq ≠ k.panelSeq
  | .leaving => True
  | _ => False

instance : (place : Place) → Decidable (k.ReturnsFrom place)
  | .testing => inferInstanceAs (Decidable (_ ≠ _))
  | .leaving => inferInstanceAs (Decidable True)
  | .outside | .fallingAsleep | .asleep => inferInstanceAs (Decidable False)

@[simp] theorem place_goTo_self (p : Fin n) (target : Place) :
    (k.goTo p target).place p = target := Function.update_self ..

theorem place_goTo_of_ne {p q : Fin n} (h : q ≠ p) (target : Place) :
    (k.goTo p target).place q = k.place q := Function.update_of_ne h ..

end SeqKernel

/-! ## Ticks and returns -/

/-- The number of ticks since boot, and what it was at the latest return and at the latest
return of each process. -/
structure History (n : ℕ) where
  ticks : ℕ
  latest : ℕ
  returnedAt : Fin n → ℕ

namespace History

variable {n : ℕ} (h : History n)

def boot : History n := ⟨0, 0, fun _ ↦ 0⟩

def next : WaitEvent n → History n
  | .tick => { h with ticks := h.ticks + 1 }
  | .leave p => { h with latest := h.ticks, returnedAt := Function.update h.returnedAt p h.ticks }
  | _ => h

/-- There was a tick since the process returned. -/
def Unserved (p : Fin n) : Prop := h.returnedAt p < h.ticks

instance (p : Fin n) : Decidable (h.Unserved p) := inferInstanceAs (Decidable (_ < _))

end History

structure Waiters (n : ℕ) where
  kernel : SeqKernel n
  history : History n

def waiters (n : ℕ) : Machine (Waiters n) (WaitEvent n) (Option (BitVec 16)) where
  initial := ⟨.boot, .boot⟩
  step s e := (s.kernel.step e).map fun (k, o) ↦ (⟨k, s.history.next e⟩, o)

variable {n : ℕ}

/-- Every process in a call can return exactly when there was a tick since it last returned. -/
def Delivers (s : Waiters n) : Prop :=
  ∀ p, s.kernel.place p ≠ .outside →
    (s.kernel.ReturnsFrom (s.kernel.place p) ↔ s.history.Unserved p)

instance (s : Waiters n) : Decidable (Delivers s) :=
  inferInstanceAs (Decidable (∀ _, _ → (_ ↔ _)))

/-- The step takes no tick away from a process, neither by a return of another one
nor by the wrap of the count nor between a test and the sleep that follows it. -/
def Undisturbed (s : Waiters n) : WaitEvent n → Prop
  | .tick => (∀ p, s.kernel.place p ≠ .fallingAsleep) ∧
      (65536 ∣ s.history.ticks + 1 - s.history.latest → ∀ p, s.kernel.place p ≠ .testing)
  | .call p => s.history.Unserved p → ¬65536 ∣ s.history.ticks - s.history.latest
  | .leave p => ∀ q, q ≠ p → s.kernel.place q = .testing → ¬s.history.Unserved q
  | _ => True

instance (s : Waiters n) : (e : WaitEvent n) → Decidable (Undisturbed s e)
  | .tick => inferInstanceAs (Decidable (_ ∧ _))
  | .call _ => inferInstanceAs (Decidable (_ → _))
  | .leave _ => inferInstanceAs (Decidable (∀ _, _ → _ → _))
  | .test _ | .tsleep _ | .interrupt _ => inferInstanceAs (Decidable True)

/-! ## The two counts -/

structure Waiters.Counts (s : Waiters n) : Prop where
  panelSeq : s.kernel.panelSeq = BitVec.ofNat 16 s.history.ticks
  lastSeq : s.kernel.lastSeq = BitVec.ofNat 16 s.history.latest
  latest : s.history.latest ≤ s.history.ticks
  returnedAt : ∀ p, s.history.returnedAt p ≤ s.history.latest
  leaving : ∀ p, s.kernel.place p = .leaving → s.history.Unserved p

theorem move_eq_some {k k' : SeqKernel n} {p : Fin n} {source target : Place} :
    k.move p source target = some k' ↔ k.place p = source ∧ k' = k.goTo p target := by
  rw [SeqKernel.move, Option.ite_none_right_eq_some, Option.some.injEq, eq_comm (a := k')]

/-- A step of one process inside the loop. -/
inductive Turn (k : SeqKernel n) (p : Fin n) : WaitEvent n → Place → Prop
  | call (h : k.place p = .outside) : Turn k p (.call p) .testing
  | test (h : k.place p = .testing) :
      Turn k p (.test p) (if k.lastSeq = k.panelSeq then .fallingAsleep else .leaving)
  | tsleep (h : k.place p = .fallingAsleep) : Turn k p (.tsleep p) .asleep
  | interrupt (h : k.place p = .asleep) : Turn k p (.interrupt p) .testing

variable {s t : Waiters n} {e : WaitEvent n} {o : Option (BitVec 16)}

theorem step_cases (h : (waiters n).step s e = some (t, o)) :
    (e = .tick ∧ t = ⟨s.kernel.hardclock, s.history.next .tick⟩) ∨
    (∃ p, e = .leave p ∧ s.kernel.place p = .leaving ∧
      t = ⟨{ s.kernel with lastSeq := s.kernel.panelSeq }.goTo p .outside,
        s.history.next (.leave p)⟩) ∨
    ∃ p target, Turn s.kernel p e target ∧ t = ⟨s.kernel.goTo p target, s.history⟩ := by
  obtain ⟨⟨k, o'⟩, hk, heq⟩ := Option.map_eq_some_iff.mp h
  obtain ⟨rfl, rfl⟩ : (⟨k, s.history.next e⟩ : Waiters n) = t ∧ o' = o := by simpa using heq
  cases e with
  | tick =>
      obtain ⟨rfl, -⟩ : s.kernel.hardclock = k ∧ none = o' := by simpa [SeqKernel.step] using hk
      exact .inl ⟨rfl, rfl⟩
  | leave p =>
      obtain ⟨hmove, -⟩ := eq_of_map_output hk
      obtain ⟨hplace, rfl⟩ := move_eq_some.mp hmove
      exact .inr (.inl ⟨p, rfl, hplace, rfl⟩)
  | call p =>
      obtain ⟨hmove, -⟩ := eq_of_map_output hk
      obtain ⟨hplace, rfl⟩ := move_eq_some.mp hmove
      exact .inr (.inr ⟨p, _, .call hplace, rfl⟩)
  | test p =>
      obtain ⟨hmove, -⟩ := eq_of_map_output hk
      obtain ⟨hplace, rfl⟩ := move_eq_some.mp hmove
      exact .inr (.inr ⟨p, _, .test hplace, rfl⟩)
  | tsleep p =>
      obtain ⟨hmove, -⟩ := eq_of_map_output hk
      obtain ⟨hplace, rfl⟩ := move_eq_some.mp hmove
      exact .inr (.inr ⟨p, _, .tsleep hplace, rfl⟩)
  | interrupt p =>
      obtain ⟨hmove, -⟩ := eq_of_map_output hk
      obtain ⟨hplace, rfl⟩ := move_eq_some.mp hmove
      exact .inr (.inr ⟨p, _, .interrupt hplace, rfl⟩)

theorem Waiters.Counts.lastSeq_ne_iff (h : s.Counts) :
    s.kernel.lastSeq ≠ s.kernel.panelSeq ↔ ¬65536 ∣ s.history.ticks - s.history.latest := by
  have hle := h.latest
  rw [h.panelSeq, h.lastSeq, Ne, BitVec.toNat_eq, BitVec.toNat_ofNat, BitVec.toNat_ofNat]
  omega

theorem Waiters.Counts.unserved (h : s.Counts) (hseq : s.kernel.lastSeq ≠ s.kernel.panelSeq)
    (p : Fin n) : s.history.Unserved p := by
  have hle := h.latest
  have hreturned := h.returnedAt p
  have hwrap := h.lastSeq_ne_iff.mp hseq
  unfold History.Unserved
  omega

theorem counts_boot : (waiters n).initial.Counts where
  panelSeq := rfl
  lastSeq := rfl
  latest := Nat.le_refl 0
  returnedAt _ := Nat.le_refl 0
  leaving _ h := nomatch h

theorem Waiters.Counts.goTo (h : s.Counts) {p : Fin n} {target : Place}
    (htarget : target = .leaving → s.history.Unserved p) :
    Waiters.Counts ⟨s.kernel.goTo p target, s.history⟩ where
  panelSeq := h.panelSeq
  lastSeq := h.lastSeq
  latest := h.latest
  returnedAt := h.returnedAt
  leaving q hq := by
    dsimp only at hq
    by_cases hqp : q = p
    · subst hqp
      rw [SeqKernel.place_goTo_self] at hq
      exact htarget hq
    · rw [SeqKernel.place_goTo_of_ne _ hqp] at hq
      exact h.leaving q hq

theorem Waiters.Counts.step (h : s.Counts) (hstep : (waiters n).step s e = some (t, o)) :
    t.Counts := by
  have hle := h.latest
  rcases step_cases hstep with ⟨-, rfl⟩ | ⟨p, -, hplace, rfl⟩ | ⟨p, target, hturn, rfl⟩
  · refine ⟨?_, h.lastSeq, Nat.le_succ_of_le hle, h.returnedAt, fun q hq ↦ ?_⟩
    · change s.kernel.panelSeq + 1 = BitVec.ofNat 16 (s.history.ticks + 1)
      rw [h.panelSeq, BitVec.ofNat_add]
      rfl
    · have hreturned := h.returnedAt q
      change s.history.returnedAt q < s.history.ticks + 1
      omega
  · refine ⟨h.panelSeq, h.panelSeq, Nat.le_refl _, fun q ↦ ?_, fun q hq ↦ ?_⟩
    · by_cases hqp : q = p
      · subst hqp
        exact (Function.update_self ..).le
      · have hreturned := h.returnedAt q
        change Function.update s.history.returnedAt p s.history.ticks q ≤ s.history.ticks
        rw [Function.update_of_ne hqp]
        omega
    · by_cases hqp : q = p
      · subst hqp
        cases (SeqKernel.place_goTo_self _ q _).symm.trans hq
      · have hq' := (SeqKernel.place_goTo_of_ne _ hqp _).symm.trans hq
        change Function.update s.history.returnedAt p s.history.ticks q < s.history.ticks
        rw [Function.update_of_ne hqp]
        exact h.leaving q hq'
  · apply h.goTo
    intro htarget
    cases hturn with
    | call hplace => cases htarget
    | test hplace =>
        by_cases hseq : s.kernel.lastSeq = s.kernel.panelSeq
        · rw [if_pos hseq] at htarget
          cases htarget
        · exact h.unserved hseq p
    | tsleep hplace => cases htarget
    | interrupt hplace => cases htarget

theorem counts_of_run {tr : List (WaitEvent n × Option (BitVec 16))}
    (h : Run (waiters n) tr s) : s.Counts :=
  h.invariant (I := fun _ s ↦ s.Counts) counts_boot fun _ _ _ _ _ hs hstep ↦ hs.step hstep

/-! ## Delivery -/

theorem delivers_goTo (hs : Delivers s) (p : Fin n) (target : Place) :
    Delivers ⟨s.kernel.goTo p target, s.history⟩ ↔
      (target ≠ .outside → (s.kernel.ReturnsFrom target ↔ s.history.Unserved p)) := by
  constructor
  · intro h
    have hp := h p
    rwa [SeqKernel.place_goTo_self] at hp
  · intro hp q
    dsimp only
    by_cases hqp : q = p
    · subst hqp
      rwa [SeqKernel.place_goTo_self]
    · rw [SeqKernel.place_goTo_of_ne _ hqp]
      exact hs q

theorem Waiters.Counts.unserved_tick (h : s.Counts) (p : Fin n) :
    (s.history.next .tick).Unserved p :=
  Nat.lt_succ_of_le ((h.returnedAt p).trans h.latest)

theorem delivers_tick (hc : s.Counts) (hd : Delivers s) :
    Undisturbed s .tick ↔ Delivers ⟨s.kernel.hardclock, s.history.next .tick⟩ := by
  have hseq : s.kernel.hardclock.lastSeq ≠ s.kernel.hardclock.panelSeq ↔
      ¬65536 ∣ s.history.ticks + 1 - s.history.latest :=
    (hc.step (e := .tick) rfl).lastSeq_ne_iff
  have hplace : ∀ p, s.kernel.hardclock.place p =
      if s.kernel.place p = .asleep then .testing else s.kernel.place p := fun _ ↦ rfl
  constructor
  · rintro ⟨hawake, hwrap⟩ p hout
    refine iff_of_true ?_ (hc.unserved_tick p)
    dsimp only at hout ⊢
    rw [hplace] at hout ⊢
    cases hp : s.kernel.place p with
    | outside => simp [hp] at hout
    | testing => exact hseq.mpr fun hdvd ↦ hwrap hdvd p hp
    | fallingAsleep => exact absurd hp (hawake p)
    | asleep =>
        -- a sleeping process has been served, so this tick is the first since the latest return
        have hserved : ¬s.history.Unserved p := by
          have hiff := hd p (by rw [hp]; simp)
          rw [hp] at hiff
          exact hiff.mpr
        have hreturned := hc.returnedAt p
        have hle := hc.latest
        unfold History.Unserved at hserved
        exact hseq.mpr (by omega)
    | leaving => exact trivial
  · intro hdeliver
    constructor
    · intro p hp
      have hiff := hdeliver p
      dsimp only at hiff
      rw [hplace, hp] at hiff
      exact (hiff (by simp)).mpr (hc.unserved_tick p)
    · intro hdvd p hp
      have hiff := hdeliver p
      dsimp only at hiff
      rw [hplace, hp] at hiff
      exact hseq.mp ((hiff (by simp)).mpr (hc.unserved_tick p)) hdvd

theorem delivers_leave (hd : Delivers s) {p : Fin n} :
    Undisturbed s (.leave p) ↔
      Delivers ⟨{ s.kernel with lastSeq := s.kernel.panelSeq }.goTo p .outside,
        s.history.next (.leave p)⟩ := by
  have hunserved : ∀ q, q ≠ p →
      ((s.history.next (.leave p)).Unserved q ↔ s.history.Unserved q) := by
    intro q hqp
    change Function.update s.history.returnedAt p s.history.ticks q < s.history.ticks ↔ _
    rw [Function.update_of_ne hqp]
    rfl
  constructor
  · intro hothers q hout
    dsimp only at hout ⊢
    by_cases hqp : q = p
    · subst hqp
      exact absurd (SeqKernel.place_goTo_self _ q _) hout
    · rw [SeqKernel.place_goTo_of_ne _ hqp] at hout ⊢
      dsimp only at hout ⊢
      rw [hunserved q hqp]
      have hiff := hd q hout
      cases hq : s.kernel.place q with
      | outside => exact absurd hq hout
      | testing => exact iff_of_false (fun hne ↦ hne rfl) (hothers q hqp hq)
      | fallingAsleep | asleep | leaving => rwa [hq] at hiff
  · intro hdeliver q hqp hq
    have hiff := hdeliver q
    dsimp only at hiff
    rw [SeqKernel.place_goTo_of_ne _ hqp, hunserved q hqp] at hiff
    dsimp only at hiff
    rw [hq] at hiff
    exact fun hq' ↦ (hiff (by simp)).mpr hq' rfl

theorem delivers_turn (hc : s.Counts) (hd : Delivers s) {p : Fin n} {target : Place}
    (hturn : Turn s.kernel p e target) :
    Undisturbed s e ↔ Delivers ⟨s.kernel.goTo p target, s.history⟩ := by
  rw [delivers_goTo hd]
  have hserved : ¬s.history.Unserved p → ¬s.kernel.lastSeq ≠ s.kernel.panelSeq :=
    fun hp hseq ↦ hp (hc.unserved hseq p)
  cases hturn with
  | call hplace =>
      have hlast := hc.lastSeq_ne_iff
      constructor
      · exact fun hcond _ ↦ ⟨fun hseq ↦ hc.unserved hseq p, fun hp ↦ hlast.mpr (hcond hp)⟩
      · exact fun hiff hp ↦ hlast.mp ((hiff (by simp)).mpr hp)
  | test hplace =>
      have hiff := hd p (by rw [hplace]; simp)
      rw [hplace] at hiff
      apply iff_of_true trivial
      intro _
      by_cases hseq : s.kernel.lastSeq = s.kernel.panelSeq
      · rw [if_pos hseq]
        exact iff_of_false id fun hp ↦ hiff.mpr hp hseq
      · rw [if_neg hseq]
        exact iff_of_true trivial (hiff.mp hseq)
  | tsleep hplace =>
      have hiff := hd p (by rw [hplace]; simp)
      rw [hplace] at hiff
      exact iff_of_true trivial fun _ ↦ hiff
  | interrupt hplace =>
      have hiff := hd p (by rw [hplace]; simp)
      rw [hplace] at hiff
      exact iff_of_true trivial fun _ ↦ iff_of_false (hserved hiff.mpr) hiff.mpr

theorem undisturbed_iff (hc : s.Counts) (hd : Delivers s)
    (hstep : (waiters n).step s e = some (t, o)) : Undisturbed s e ↔ Delivers t := by
  rcases step_cases hstep with ⟨rfl, rfl⟩ | ⟨p, rfl, -, rfl⟩ | ⟨p, target, hturn, rfl⟩
  · exact delivers_tick hc hd
  · exact delivers_leave hd
  · exact delivers_turn hc hd hturn

theorem delivers_boot : Delivers (waiters n).initial := fun _ hout ↦ absurd rfl hout

/-- As long as no step takes a tick away, every process in a call can return exactly when it has
an unserved tick, and the first step that takes one away ends that. -/
theorem delivers_of_undisturbed {tr : List (WaitEvent n × Option (BitVec 16))}
    (h : Run ((waiters n).within Undisturbed) tr s) :
    Delivers s ∧ ∀ e t o, (waiters n).step s e = some (t, o) → (Undisturbed s e ↔ Delivers t) := by
  have hdelivers : Delivers s := by
    induction h with
    | start => exact delivers_boot
    | step hrun hstep ih =>
        obtain ⟨hcond, hstep⟩ := within_step_eq_some.mp hstep
        exact (undisturbed_iff (counts_of_run hrun.of_within) ih hstep).mp hcond
  exact ⟨hdelivers, fun _ _ _ ↦ undisturbed_iff (counts_of_run h.of_within) hdelivers⟩

/-- A tick wakes two processes, and both test the count before either returns; then one of them
waits for the next tick while the other stays outside. -/
def bothServed : List (WaitEvent 2) :=
  [.call 0, .test 0, .tsleep 0, .call 1, .test 1, .tsleep 1, .tick, .test 0, .test 1, .leave 0,
    .leave 1, .call 0, .test 0, .tsleep 0, .tick]

theorem delivers_bothServed :
    ∃ tr s, tr.map Prod.fst = bothServed ∧ Run (waiters 2) tr s ∧
      tr.filterMap Prod.snd = [1, 1] ∧ s.kernel.place 0 = .testing ∧ s.history.Unserved 0 ∧
      s.history.Unserved 1 ∧ Delivers s := by
  have hfacts : (((waiters 2).within Undisturbed).replay (waiters 2).initial bothServed).map
      (fun r ↦ decide (r.1.filterMap Prod.snd = [1, 1] ∧ r.2.kernel.place 0 = .testing ∧
        r.2.history.Unserved 0 ∧ r.2.history.Unserved 1)) = some true := by decide
  obtain ⟨⟨tr, s⟩, hreplay, hs⟩ := Option.map_eq_some_iff.mp hfacts
  obtain ⟨hreturned, hplace, hfirst, hsecond⟩ := of_decide_eq_true hs
  have hrun := Run.replay .start hreplay
  exact ⟨tr, s, map_fst_replay hreplay, hrun.of_within, hreturned, hplace, hfirst, hsecond,
    (delivers_of_undisturbed hrun).1⟩

/-- Two processes sleep, a tick wakes both, and the first one returns. -/
def twoWaiters : List (WaitEvent 2) :=
  [.call 0, .test 0, .tsleep 0, .call 1, .test 1, .tsleep 1, .tick, .test 0, .leave 0]

/-- The second process finds the counts equal and sleeps again, though it has not been served. -/
theorem not_delivers_twoWaiters :
    ∃ tr s, tr.map Prod.fst = twoWaiters ∧ Run (waiters 2) tr s ∧ ¬Delivers s := by
  have hstolen : ((waiters 2).replay (waiters 2).initial twoWaiters).map
      (fun r ↦ decide (Delivers r.2)) = some false := by decide
  obtain ⟨⟨tr, s⟩, hreplay, hs⟩ := Option.map_eq_some_iff.mp hstolen
  exact ⟨tr, s, map_fst_replay hreplay, Run.replay .start hreplay, of_decide_eq_false hs⟩

end VPanel.Kernel
