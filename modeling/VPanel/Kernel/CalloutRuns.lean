import Mathlib.Data.List.Induction
import VPanel.Kernel.Callouts
import VPanel.Library.EventRun

/-!
# Runs of the callouts

The clock interrupts, the calls of `timeout` and `untimeout` and the turns of
`softclock` come in any order.  The table of callouts behaves like a list of
absolute deadlines with a clock.
-/

namespace VPanel.Kernel

open EventRun DeltaQueue

variable {F A : Type}

inductive CalloutEvent (F A : Type)
  | timeout (func : F) (arg : A) (time : ℤ)
  | untimeout (func : F) (arg : A)
  /-- A clock interrupt: whether profiling asks for `softclock` too, and whether it interrupted
  code of base priority. -/
  | hardclock (profiling basepri : Bool)
  /-- The next turn of the loop in `softclock`. -/
  | softclock
  deriving DecidableEq

/-- The call that a turn of `softclock` makes, with the time in the callout. -/
abbrev CalloutEffect (F A : Type) := Option ((F × A) × ℤ)

structure CalloutKernel (F A : Type) where
  table : CalloutTable F A
  /-- The loop of `softclock` is under way. -/
  running : Bool

namespace CalloutKernel

variable [DecidableEq F] [DecidableEq A] (k : CalloutKernel F A)

/-- `softclock` runs above base priority, so no interrupt finds base priority in it. -/
def Possible : CalloutEvent F A → Prop
  | .hardclock _ basepri => basepri = true → k.running = false
  | .softclock => k.running = true
  | _ => True

instance : (e : CalloutEvent F A) → Decidable (k.Possible e)
  | .hardclock _ _ => inferInstanceAs (Decidable (_ → _))
  | .softclock => inferInstanceAs (Decidable (_ = _))
  | .timeout _ _ _ | .untimeout _ _ => inferInstanceAs (Decidable True)

def handle : CalloutEvent F A → Except Halt (CalloutKernel F A × CalloutEffect F A)
  | .timeout func arg time => do
      let table ← k.table.timeout func arg time
      return ({ k with table }, none)
  | .untimeout func arg => do
      let table ← k.table.untimeout func arg
      return ({ k with table }, none)
  | .hardclock profiling basepri => do
      let (table, needsoft) ← k.table.hardclock profiling
      return (⟨table, k.running || (needsoft && basepri)⟩, none)
  | .softclock =>
      match k.table.softclock with
      | (table, none) => .ok (⟨table, false⟩, none)
      | (table, some call) => .ok ({ k with table }, some call)

def step (e : CalloutEvent F A) : Option (CalloutKernel F A × CalloutEffect F A) :=
  if k.Possible e then (k.handle e).toOption else none

theorem step_of_possible {e : CalloutEvent F A} (h : k.Possible e) :
    k.step e = (k.handle e).toOption := if_pos h

end CalloutKernel

def callouts [DecidableEq F] [DecidableEq A] (boot : CalloutTable F A) :
    Machine (CalloutKernel F A) (CalloutEvent F A) (CalloutEffect F A) where
  initial := ⟨boot, false⟩
  step := CalloutKernel.step

/-! ## Deadlines -/

/-- A clock that counts ticks, and the deadlines of the calls to be made, the earliest first. -/
structure Timers (C : Type) where
  now : ℤ
  pending : List (ℤ × C)
  running : Bool

namespace Timers

variable (a : Timers (F × A))

/-- The calls of deadlines that have come are made in order while `softclock` runs. -/
def serve : Timers (F × A) × CalloutEffect F A :=
  match a.pending with
  | [] => ({ a with running := false }, none)
  | (deadline, call) :: pending =>
      if deadline ≤ a.now then ({ a with pending }, some (call, deadline - a.now))
      else ({ a with running := false }, none)

def step [DecidableEq F] [DecidableEq A] (capacity : ℕ) :
    CalloutEvent F A → Option (Timers (F × A) × CalloutEffect F A)
  | .timeout func arg time =>
      if a.pending.length < capacity then
        some ({ a with
          pending := a.pending.orderedInsert NotAfter (a.now + max time 1, (func, arg)) }, none)
      else none
  | .untimeout func arg =>
      some ({ a with pending := a.pending.eraseP fun e ↦ decide (e.2 = (func, arg)) }, none)
  | .hardclock profiling basepri =>
      if basepri = true ∧ a.running = true then none
      else
        let due := a.pending.any fun e ↦ decide (e.1 ≤ a.now + 1)
        some (⟨a.now + 1, a.pending, a.running || ((profiling || due) && basepri)⟩, none)
  | .softclock => if a.running then some a.serve else none

end Timers

def timers (F A : Type) [DecidableEq F] [DecidableEq A] (capacity : ℕ) :
    Machine (Timers (F × A)) (CalloutEvent F A) (CalloutEffect F A) where
  initial := ⟨0, [], false⟩
  step a := a.step capacity

/-! ## The table stands for the deadlines -/

structure Represents (n : ℕ) (k : CalloutKernel F A) (a : Timers (F × A)) (queue unused : List ℕ) :
    Prop where
  lists : k.table.Lists queue unused
  ncallout : k.table.ncallout = n
  ordered : Ordered (k.table.entries queue)
  pending : a.pending = deadlines a.now (k.table.entries queue)
  running : a.running = k.running

def Represented (n : ℕ) (k : CalloutKernel F A) (a : Timers (F × A)) : Prop :=
  ∃ queue unused, Represents n k a queue unused

variable {n : ℕ} {k : CalloutKernel F A} {a : Timers (F × A)} {queue unused : List ℕ}

theorem Represents.length_pending (h : Represents n k a queue unused) :
    a.pending.length = queue.length := by
  rw [h.pending, length_deadlines, CalloutTable.entries, List.length_map]

theorem serve_idle {q : List (ℤ × (F × A))} (hpending : a.pending = deadlines a.now q)
    (hdue : ¬Due q) : a.serve = ({ a with running := false }, none) := by
  unfold Timers.serve
  rw [hpending]
  cases q with
  | nil => rfl
  | cons e q =>
      obtain ⟨d, call⟩ := e
      have hd : ¬d ≤ 0 := hdue
      exact if_neg (by omega)

section Steps

variable [DecidableEq F] [DecidableEq A]

theorem Represents.timeout (h : Represents n k a queue unused) (func : F) (arg : A) (time : ℤ) :
    Agree (Represented n) (k.step (.timeout func arg time)) (a.step n (.timeout func arg time)) := by
  have hlength := h.lists.length
  rw [h.ncallout] at hlength
  have hpossible : k.Possible (.timeout func arg time) := trivial
  rw [k.step_of_possible hpossible, Timers.step]
  cases unused with
  | nil =>
      have hfull : ¬a.pending.length < n := by
        rw [h.length_pending, ← hlength]
        exact Nat.lt_irrefl _
      rw [if_neg hfull, CalloutKernel.handle, CalloutTable.timeout_overflow h.lists]
      exact .impossible
  | cons p unused =>
      have hroom : a.pending.length < n := by
        rw [h.length_pending, ← hlength, List.length_cons]
        omega
      obtain ⟨table, queue', htimeout, hn, hlists, hentries⟩ := h.lists.timeout func arg time
      rw [if_pos hroom, CalloutKernel.handle, htimeout]
      have hpositive : 0 < max time 1 := by omega
      refine .step ⟨queue', unused, hlists, hn.trans h.ncallout, ?_, ?_, h.running⟩ _
      · change Ordered (table.entries queue')
        rw [hentries]
        exact h.ordered.insert hpositive _
      · change List.orderedInsert _ _ _ = deadlines a.now (table.entries queue')
        rw [hentries, deadlines_insert hpositive, h.pending]

theorem Represents.untimeout (h : Represents n k a queue unused) (func : F) (arg : A) :
    Agree (Represented n) (k.step (.untimeout func arg)) (a.step n (.untimeout func arg)) := by
  obtain ⟨table, queue', unused', hcancel, hn, hlists, hentries⟩ := h.lists.untimeout func arg
  have hpossible : k.Possible (.untimeout func arg) := trivial
  rw [k.step_of_possible hpossible, Timers.step, CalloutKernel.handle, hcancel]
  refine .step ⟨queue', unused', hlists, hn.trans h.ncallout, ?_, ?_, h.running⟩ _
  · change Ordered (table.entries queue')
    rw [hentries]
    exact h.ordered.remove _
  · change List.eraseP _ _ = deadlines a.now (table.entries queue')
    rw [hentries, deadlines_remove h.ordered, h.pending]

theorem Represents.hardclock (h : Represents n k a queue unused) (profiling basepri : Bool) :
    Agree (Represented n) (k.step (.hardclock profiling basepri))
      (a.step n (.hardclock profiling basepri)) := by
  rw [CalloutKernel.step, Timers.step]
  by_cases hpossible : basepri = true ∧ a.running = true
  · have himpossible : ¬k.Possible (.hardclock profiling basepri) := by
      intro hk
      have hfalse := hk hpossible.1
      rw [← h.running, hpossible.2] at hfalse
      cases hfalse
    rw [if_pos hpossible, if_neg himpossible]
    exact .impossible
  · have hk : k.Possible (.hardclock profiling basepri) := by
      intro hbase
      rw [← h.running]
      exact Bool.eq_false_iff.mpr fun hrunning ↦ hpossible ⟨hbase, hrunning⟩
    obtain ⟨table, htick, hn, hlists, hentries⟩ := h.lists.hardclock profiling
    have hordered := h.ordered.tick
    have hpending : a.pending = deadlines (a.now + 1) (table.entries queue) := by
      rw [hentries, deadlines_tick, h.pending]
    have hdue : (a.pending.any fun e ↦ decide (e.1 ≤ a.now + 1)) =
        decide (Due (tick (k.table.entries queue))) := by
      rw [hpending, Bool.eq_iff_iff, List.any_eq_true, decide_eq_true_iff, ← hentries]
      rw [← hentries] at hordered
      rw [hordered.due_iff (a.now + 1)]
      simp only [decide_eq_true_iff]
    rw [if_neg hpossible, if_pos hk, CalloutKernel.handle, htick, hdue, h.running]
    refine .step ⟨queue, unused, hlists, hn.trans h.ncallout, ?_, hpending, rfl⟩ _
    change Ordered (table.entries queue)
    rwa [hentries]

theorem Represents.softclock (h : Represents n k a queue unused) :
    Agree (Represented n) (k.step .softclock) (a.step n .softclock) := by
  rw [Timers.step]
  cases hrunning : a.running with
  | false =>
      have himpossible : ¬k.Possible .softclock := by
        intro hk
        have htrue : k.running = true := hk
        rw [← h.running, hrunning] at htrue
        cases htrue
      rw [CalloutKernel.step, if_neg himpossible]
      exact .impossible
  | true =>
      have hk : k.Possible .softclock := h.running.symm.trans hrunning
      rw [k.step_of_possible hk, CalloutKernel.handle, if_pos rfl]
      by_cases hdue : Due (k.table.entries queue)
      · cases queue with
        | nil => cases hdue
        | cons p rest =>
            obtain ⟨table, hserve, hn, hlists, hentries⟩ := h.lists.softclock_due hdue
            have hordered : Ordered (k.table.entries rest) := h.ordered.tail
            have htime : k.table.cTime p ≤ 0 := hdue
            have hbase : a.now + max (k.table.cTime p) 0 = a.now := by omega
            have hpending := h.pending
            rw [CalloutTable.entries_cons, deadlines_cons, hbase] at hpending
            have hlate : a.now + k.table.cTime p - a.now = k.table.cTime p := by omega
            have hcome : a.now + k.table.cTime p ≤ a.now := by omega
            rw [hserve, Timers.serve, hpending]
            dsimp only
            rw [if_pos hcome, hlate]
            rw [← hentries] at hordered
            refine .step ⟨rest, p :: unused, hlists, hn.trans h.ncallout, hordered, ?_, h.running⟩ _
            exact congrArg (deadlines a.now) hentries.symm
      · rw [h.lists.softclock_idle hdue, serve_idle h.pending hdue]
        exact .step ⟨queue, unused, h.lists, h.ncallout, h.ordered, h.pending, rfl⟩ _

theorem Represents.agree (h : Represents n k a queue unused) (e : CalloutEvent F A) :
    Agree (Represented n) (k.step e) (a.step n e) := by
  cases e with
  | timeout func arg time => exact h.timeout func arg time
  | untimeout func arg => exact h.untimeout func arg
  | hardclock profiling basepri => exact h.hardclock profiling basepri
  | softclock => exact h.softclock

theorem represents_boot {boot : CalloutTable F A} (h : boot.Lists [] unused) :
    Represents boot.ncallout (callouts boot).initial (timers F A boot.ncallout).initial [] unused where
  lists := h
  ncallout := rfl
  ordered := .nil
  pending := rfl
  running := rfl

theorem represented_run {boot : CalloutTable F A} (h : boot.Lists [] unused)
    {tr : List (CalloutEvent F A × CalloutEffect F A)} {k : CalloutKernel F A}
    (hrun : Run (callouts boot) tr k) :
    ∃ a, Run (timers F A boot.ncallout) tr a ∧ Represented boot.ncallout k a := by
  apply hrun.transfer ⟨[], unused, represents_boot h⟩
  rintro k a e ⟨queue, unused, hrepresents⟩
  exact hrepresents.agree e

/-- Kept as differences in linked lists, the deadlines have the runs they have as a list of
absolute times. -/
theorem callouts_traces {boot : CalloutTable F A} (h : boot.Lists [] unused)
    (tr : List (CalloutEvent F A × CalloutEffect F A)) :
    (∃ k, Run (callouts boot) tr k) ↔ ∃ a, Run (timers F A boot.ncallout) tr a := by
  refine traces_eq (R := Represented boot.ncallout) ⟨[], unused, represents_boot h⟩ ?_ tr
  rintro k a e ⟨queue, unused, hrepresents⟩
  exact hrepresents.agree e

end Steps

/-! ## What a run shows -/

/-- The calls asked for and the calls made, with their deadlines, and the calls given up. -/
structure CalloutHistory (F A : Type) where
  ticks : ℤ
  /-- The latest two ticks at base priority. -/
  base : ℤ
  previousBase : ℤ
  armed : List (ℤ × (F × A))
  called : List (ℤ × (F × A))
  untimeouts : List (F × A)

namespace CalloutHistory

variable (h : CalloutHistory F A)

def next : CalloutEvent F A × CalloutEffect F A → CalloutHistory F A
  | (.timeout func arg time, _) =>
      { h with armed := h.armed ++ [(h.ticks + max time 1, (func, arg))] }
  | (.untimeout func arg, _) => { h with untimeouts := h.untimeouts ++ [(func, arg)] }
  | (.hardclock _ true, _) =>
      { h with ticks := h.ticks + 1, base := h.ticks + 1, previousBase := h.base }
  | (.hardclock _ false, _) => { h with ticks := h.ticks + 1 }
  | (.softclock, some (call, late)) => { h with called := h.called ++ [(h.ticks + late, call)] }
  | (.softclock, none) => h

def ofTrace (tr : List (CalloutEvent F A × CalloutEffect F A)) : CalloutHistory F A :=
  tr.foldl next ⟨0, 0, 0, [], [], []⟩

@[simp] theorem ofTrace_concat (tr : List (CalloutEvent F A × CalloutEffect F A))
    (e : CalloutEvent F A × CalloutEffect F A) : ofTrace (tr ++ [e]) = (ofTrace tr).next e :=
  List.foldl_concat ..

end CalloutHistory

/-- Every call asked for is made, given up or pending, and no call is pending past two ticks at
base priority. -/
structure Timers.Accounts (h : CalloutHistory F A) (a : Timers (F × A)) : Prop where
  now : a.now = h.ticks
  bases : h.previousBase ≤ h.base ∧ h.base ≤ h.ticks
  ordered : a.pending.Pairwise NotAfter
  conserved : ∃ givenUp, h.armed.Perm (h.called ++ givenUp ++ a.pending) ∧
    (givenUp.map Prod.snd).Sublist h.untimeouts
  served : ∀ e ∈ a.pending, (if a.running then h.previousBase else h.base) < e.1

variable {h : CalloutHistory F A} {a' : Timers (F × A)} {o : CalloutEffect F A}

theorem Timers.Accounts.timeout (hacc : a.Accounts h) (func : F) (arg : A) (time : ℤ) :
    Timers.Accounts (h.next (.timeout func arg time, o)) { a with
      pending := a.pending.orderedInsert NotAfter (a.now + max time 1, (func, arg)) } := by
  obtain ⟨givenUp, hperm, hsub⟩ := hacc.conserved
  obtain ⟨hprevious, hbase⟩ := hacc.bases
  have hinsert := List.perm_orderedInsert NotAfter (a.now + max time 1, (func, arg)) a.pending
  refine ⟨hacc.now, hacc.bases, hacc.ordered.orderedInsert _ _, ⟨givenUp, ?_, hsub⟩, ?_⟩
  · change (h.armed ++ [(h.ticks + max time 1, (func, arg))]).Perm _
    rw [← hacc.now]
    have hlast := (hperm.append_right [(a.now + max time 1, (func, arg))]).trans
      (List.perm_append_singleton _ _)
    exact hlast.trans (List.perm_middle.symm.trans (hinsert.symm.append_left _))
  · intro e he
    have hnow := hacc.now
    rcases List.mem_cons.mp (hinsert.mem_iff.mp he) with rfl | he
    · change (if a.running then h.previousBase else h.base) < a.now + max time 1
      split <;> omega
    · exact hacc.served e he

theorem Timers.Accounts.untimeout [DecidableEq F] [DecidableEq A] (hacc : a.Accounts h) (func : F)
    (arg : A) : Timers.Accounts (h.next (.untimeout func arg, o)) { a with
      pending := a.pending.eraseP fun e ↦ decide (e.2 = (func, arg)) } := by
  obtain ⟨givenUp, hperm, hsub⟩ := hacc.conserved
  have hpending := List.eraseP_sublist (p := fun e ↦ decide (e.2 = (func, arg))) (l := a.pending)
  refine ⟨hacc.now, hacc.bases, hacc.ordered.sublist hpending, ?_,
    fun e he ↦ hacc.served e (hpending.subset he)⟩
  rcases List.exists_or_eq_self_of_eraseP (fun e ↦ decide (e.2 = (func, arg))) a.pending with
    heq | ⟨e, l₁, l₂, -, hmatch, hsplit, herase⟩
  · refine ⟨givenUp, ?_, hsub.trans (List.sublist_append_left _ _)⟩
    rw [heq]
    exact hperm
  · have hcall : e.2 = (func, arg) := of_decide_eq_true hmatch
    refine ⟨givenUp ++ [e], ?_, ?_⟩
    · rw [herase]
      rw [hsplit] at hperm
      have hmove : (h.called ++ givenUp ++ (l₁ ++ e :: l₂)).Perm
          (h.called ++ (givenUp ++ [e]) ++ (l₁ ++ l₂)) := by
        have hmiddle : (l₁ ++ e :: l₂).Perm (e :: (l₁ ++ l₂)) := List.perm_middle
        simpa using hmiddle.append_left (h.called ++ givenUp)
      exact hperm.trans hmove
    · rw [List.map_append, List.map_singleton, hcall]
      exact hsub.append_right _

theorem Timers.Accounts.hardclock (hacc : a.Accounts h) (profiling basepri : Bool)
    (hpossible : ¬(basepri = true ∧ a.running = true)) :
    Timers.Accounts (h.next (.hardclock profiling basepri, o)) ⟨a.now + 1, a.pending,
      a.running || ((profiling || a.pending.any fun e ↦ decide (e.1 ≤ a.now + 1)) && basepri)⟩ := by
  obtain ⟨hprevious, hbase⟩ := hacc.bases
  have hnow := hacc.now
  cases basepri with
  | false =>
      refine ⟨congrArg (· + 1) hnow, ⟨hprevious, ?_⟩, hacc.ordered, hacc.conserved, ?_⟩
      · change h.base ≤ h.ticks + 1
        omega
      · rw [Bool.and_false, Bool.or_false]
        exact hacc.served
  | true =>
      have hidle : a.running = false := Bool.eq_false_iff.mpr fun hr ↦ hpossible ⟨rfl, hr⟩
      have hserved := hacc.served
      rw [hidle] at hserved
      refine ⟨congrArg (· + 1) hnow, ⟨?_, Int.le_refl _⟩, hacc.ordered, hacc.conserved, ?_⟩
      · change h.base ≤ h.ticks + 1
        omega
      · intro e he
        rw [hidle, Bool.false_or, Bool.and_true]
        change (if _ then h.base else h.ticks + 1) < e.1
        split
        · exact hserved e he
        next hnone =>
          have hany := (Bool.or_eq_false_iff.mp (Bool.eq_false_iff.mpr hnone)).2
          have hlate : ¬e.1 ≤ a.now + 1 :=
            fun hle ↦ List.any_eq_false.mp hany e he (decide_eq_true hle)
          change h.ticks + 1 < e.1
          omega

/-- A turn of `softclock` makes the earliest call, or finds that none is due. -/
theorem serve_cases (a : Timers (F × A)) :
    (∃ deadline call rest, a.pending = (deadline, call) :: rest ∧ deadline ≤ a.now ∧
      a.serve = ({ a with pending := rest }, some (call, deadline - a.now))) ∨
    (a.pending = [] ∨ ∃ e rest, a.pending = e :: rest ∧ a.now < e.1) ∧
      a.serve = ({ a with running := false }, none) := by
  unfold Timers.serve
  cases hpending : a.pending with
  | nil => exact .inr ⟨.inl rfl, rfl⟩
  | cons e rest =>
      obtain ⟨deadline, call⟩ := e
      by_cases hdue : deadline ≤ a.now
      · exact .inl ⟨deadline, call, rest, rfl, hdue, if_pos hdue⟩
      · exact .inr ⟨.inr ⟨_, rest, rfl, Int.not_le.mp hdue⟩, if_neg hdue⟩

theorem Timers.Accounts.softclock (hacc : a.Accounts h) (hrunning : a.running = true) :
    Timers.Accounts (h.next (.softclock, a.serve.2)) a.serve.1 := by
  obtain ⟨hprevious, hbase⟩ := hacc.bases
  have hordered := hacc.ordered
  have hserved := hacc.served
  have hnow := hacc.now
  rw [hrunning] at hserved
  rcases serve_cases a with ⟨deadline, call, rest, hpending, hdue, hserve⟩ | ⟨hnone, hserve⟩
  · obtain ⟨givenUp, hperm, hsub⟩ := hacc.conserved
    rw [hpending] at hordered hserved hperm
    rw [hserve]
    refine ⟨hnow, hacc.bases, (List.pairwise_cons.mp hordered).2, ⟨givenUp, ?_, hsub⟩, ?_⟩
    · have hdeadline : h.ticks + (deadline - a.now) = deadline := by omega
      change h.armed.Perm (h.called ++ [(h.ticks + (deadline - a.now), call)] ++ givenUp ++ rest)
      rw [hdeadline]
      have hmove : (h.called ++ givenUp ++ (deadline, call) :: rest).Perm
          (h.called ++ [(deadline, call)] ++ givenUp ++ rest) := by
        have hmiddle : (givenUp ++ (deadline, call) :: rest).Perm
            ((deadline, call) :: (givenUp ++ rest)) := List.perm_middle
        simpa using hmiddle.append_left h.called
      exact hperm.trans hmove
    · intro e he
      rw [hrunning]
      exact hserved e (List.mem_cons_of_mem _ he)
  · rw [hserve]
    refine ⟨hnow, hacc.bases, hordered, hacc.conserved, fun e he ↦ ?_⟩
    change h.base < e.1
    rcases hnone with hnil | ⟨f, rest, hpending, hlater⟩
    · rw [hnil] at he
      cases he
    · rw [hpending] at hordered
      have he : e ∈ f :: rest := hpending ▸ he
      rcases List.mem_cons.mp he with rfl | he
      · omega
      · have hle : f.1 ≤ e.1 := (List.pairwise_cons.mp hordered).1 e he
        omega

theorem accounts_run [DecidableEq F] [DecidableEq A]
    {tr : List (CalloutEvent F A × CalloutEffect F A)} (hrun : Run (timers F A n) tr a) :
    a.Accounts (.ofTrace tr) := by
  refine hrun.invariant (I := fun tr a ↦ Timers.Accounts (.ofTrace tr) a) ?_ ?_
  · exact ⟨rfl, ⟨Int.le_refl _, Int.le_refl _⟩, .nil, ⟨[], .refl _, .refl _⟩,
      fun e he ↦ nomatch he⟩
  · intro tr a e a' o hacc hstep
    rw [CalloutHistory.ofTrace_concat]
    change a.step n e = some (a', o) at hstep
    cases e with
    | timeout func arg time =>
        obtain ⟨-, heq⟩ := Option.ite_none_right_eq_some.mp hstep
        cases heq
        exact hacc.timeout func arg time
    | untimeout func arg =>
        cases hstep
        exact hacc.untimeout func arg
    | hardclock profiling basepri =>
        obtain ⟨hpossible, heq⟩ := Option.ite_none_left_eq_some.mp hstep
        cases heq
        exact hacc.hardclock profiling basepri hpossible
    | softclock =>
        obtain ⟨hrunning, heq⟩ := Option.ite_none_right_eq_some.mp hstep
        have hserve := hacc.softclock hrunning
        rw [Option.some.inj heq] at hserve
        exact hserve

/-! ## The runs of the table -/

/-- The calls that the table holds, with their deadlines. -/
def CalloutTable.pending (t : CalloutTable F A) (now : ℤ) : List (ℤ × (F × A)) :=
  deadlines now (t.entries t.queue)

theorem Represents.pending_eq (h : Represents n k a queue unused) :
    a.pending = k.table.pending a.now := by
  rw [CalloutTable.pending, h.lists.queue_eq, h.pending]

variable {tr : List (CalloutEvent F A × CalloutEffect F A)}

theorem ticks_next (h : CalloutHistory F A) (e : CalloutEvent F A × CalloutEffect F A) :
    h.ticks ≤ (h.next e).ticks := by
  obtain ⟨event, o⟩ := e
  cases event with
  | timeout | untimeout => exact Int.le_refl _
  | hardclock profiling basepri =>
      have hle : h.ticks ≤ h.ticks + 1 := by omega
      cases basepri <;> exact hle
  | softclock => cases o <;> exact Int.le_refl _

theorem armed_next (h : CalloutHistory F A) (e : CalloutEvent F A × CalloutEffect F A) :
    (h.next e).armed = h.armed ∨ ∃ func arg time, e.1 = .timeout func arg time ∧
      (h.next e).armed = h.armed ++ [(h.ticks + max time 1, (func, arg))] := by
  obtain ⟨event, o⟩ := e
  cases event with
  | timeout func arg time => exact .inr ⟨func, arg, time, rfl, rfl⟩
  | untimeout => exact .inl rfl
  | hardclock profiling basepri => cases basepri <;> exact .inl rfl
  | softclock => cases o <;> exact .inl rfl

theorem armed_le {bound : ℤ} (hbound : 1 ≤ bound)
    (hall : ∀ e ∈ tr, ∀ func arg time, e.1 = .timeout func arg time → time ≤ bound) :
    ∀ e ∈ (CalloutHistory.ofTrace tr).armed, e.1 ≤ (CalloutHistory.ofTrace tr).ticks + bound := by
  induction tr using List.reverseRecOn with
  | nil => simp [CalloutHistory.ofTrace]
  | append_singleton tr e ih =>
      have ih := ih fun f hf ↦ hall f (List.mem_append_left _ hf)
      have hticks := ticks_next (CalloutHistory.ofTrace tr) e
      rw [CalloutHistory.ofTrace_concat]
      intro f hf
      rcases armed_next (CalloutHistory.ofTrace tr) e with hsame | ⟨func, arg, time, he, hnew⟩
      · rw [hsame] at hf
        have hle := ih f hf
        omega
      · have htime := hall e (List.mem_append_right _ List.mem_cons_self) func arg time he
        rw [hnew] at hf
        rcases List.mem_append.mp hf with hf | hf
        · have hle := ih f hf
          omega
        · obtain rfl := List.mem_singleton.mp hf
          dsimp only
          omega

section Runs

variable [DecidableEq F] [DecidableEq A] {boot : CalloutTable F A}

theorem represented_accounts (h : boot.Lists [] unused) (hrun : Run (callouts boot) tr k) :
    ∃ a queue unused, Represents boot.ncallout k a queue unused ∧ a.Accounts (.ofTrace tr) := by
  obtain ⟨a, hrun', queue, unused', hrepresents⟩ := represented_run h hrun
  exact ⟨a, queue, unused', hrepresents, accounts_run hrun'⟩

/-- Two callouts, both free. -/
def twoCallouts : CalloutTable ℕ ℕ where
  ncallout := 2
  cTime _ := 0
  cArg _ := 0
  cFunc _ := 0
  cNext i := if i = 0 then some 1 else none
  calltodo := none
  callfree := some 0

theorem lists_twoCallouts : twoCallouts.Lists [] [0, 1] := ⟨rfl, ⟨rfl, rfl, rfl⟩, .refl _⟩

/-- The second timeout is due first, and the other one is given up. -/
def twoTimeouts : List (CalloutEvent ℕ ℕ × CalloutEffect ℕ ℕ) :=
  [(.timeout 7 1 2, none), (.timeout 8 0 0, none), (.hardclock false false, none),
    (.hardclock false true, none), (.softclock, some ((8, 0), -1)), (.untimeout 7 1, none),
    (.softclock, none), (.timeout 9 0 5, none)]

theorem timers_twoTimeouts : ∃ a, Run (timers ℕ ℕ 2) twoTimeouts a := by
  have htrace : ((timers ℕ ℕ 2).replay (timers ℕ ℕ 2).initial (twoTimeouts.map Prod.fst)).map
      Prod.fst = some twoTimeouts := by decide
  obtain ⟨⟨tr, a⟩, hreplay, rfl⟩ := Option.map_eq_some_iff.mp htrace
  exact ⟨a, Run.replay .start hreplay⟩

theorem callouts_traces_twoTimeouts : ∃ k, Run (callouts twoCallouts) twoTimeouts k :=
  (callouts_traces lists_twoCallouts twoTimeouts).mpr timers_twoTimeouts

theorem callouts_twoTimeouts : ∃ k, Run (callouts twoCallouts) twoTimeouts k := by
  have htrace : ((callouts twoCallouts).replay (callouts twoCallouts).initial
      (twoTimeouts.map Prod.fst)).map Prod.fst = some twoTimeouts := by decide
  obtain ⟨⟨tr, k⟩, hreplay, rfl⟩ := Option.map_eq_some_iff.mp htrace
  exact ⟨k, Run.replay .start hreplay⟩

/-- No call is lost or made twice, none is made early or out of order, and none is still pending
when the second tick at base priority after its deadline comes. -/
theorem callouts_served (h : boot.Lists [] unused) (hrun : Run (callouts boot) tr k) :
    let history := CalloutHistory.ofTrace tr
    let pending := k.table.pending history.ticks
    (∃ givenUp, history.armed.Perm (history.called ++ givenUp ++ pending) ∧
      (givenUp.map Prod.snd).Sublist history.untimeouts) ∧
    (∀ e ∈ pending, (if k.running then history.previousBase else history.base) < e.1) ∧
    ∀ k' call late, k.step .softclock = some (k', some (call, late)) →
      late ≤ 0 ∧ ∀ e ∈ pending, history.ticks + late ≤ e.1 := by
  obtain ⟨a, queue, unused', hrepresents, hacc⟩ := represented_accounts h hrun
  have hpending := hrepresents.pending_eq
  rw [hacc.now] at hpending
  dsimp only
  rw [← hpending, ← hrepresents.running]
  refine ⟨hacc.conserved, hacc.served, fun k' call late hstep ↦ ?_⟩
  have hagree := hrepresents.softclock
  rw [hstep, Timers.step] at hagree
  have hordered := hacc.ordered
  have hnow := hacc.now
  cases hrunning : a.running with
  | false =>
      rw [hrunning] at hagree
      cases hagree
  | true =>
      rw [hrunning, if_pos rfl] at hagree
      rcases serve_cases a with ⟨deadline, call', rest, hfirst, hdue, hserve⟩ | ⟨-, hserve⟩
      · rw [hserve] at hagree
        cases hagree
        rw [hfirst] at hordered ⊢
        refine ⟨by omega, fun e he ↦ ?_⟩
        rcases List.mem_cons.mp he with rfl | he
        · dsimp only
          omega
        · have hle : deadline ≤ e.1 := (List.pairwise_cons.mp hordered).1 e he
          omega
      · rw [hserve] at hagree
        cases hagree

theorem callouts_served_twoTimeouts :
    ∃ k, Run (callouts twoCallouts) twoTimeouts k ∧
      ∀ e ∈ k.table.pending 2, (if k.running then 0 else 2) < e.1 := by
  obtain ⟨k, hrun⟩ := callouts_twoTimeouts
  exact ⟨k, hrun, (callouts_served lists_twoCallouts hrun).2.1⟩

theorem handle_error_iff (h : Represents n k a queue unused) (e : CalloutEvent F A) (halt : Halt) :
    k.handle e = .error halt ↔ halt = .timeoutTableOverflow ∧ queue.length = n ∧
      ∃ func arg time, e = .timeout func arg time := by
  have hlength := h.lists.length
  rw [h.ncallout] at hlength
  cases e with
  | timeout func arg time =>
      cases unused with
      | nil =>
          rw [CalloutKernel.handle, CalloutTable.timeout_overflow h.lists]
          constructor
          · intro herror
            cases herror
            exact ⟨rfl, hlength, func, arg, time, rfl⟩
          · rintro ⟨rfl, -, -⟩
            rfl
      | cons p unused =>
          obtain ⟨table, queue', htimeout, -, -, -⟩ := h.lists.timeout func arg time
          rw [CalloutKernel.handle, htimeout]
          rw [List.length_cons] at hlength
          apply iff_of_false
          · intro herror
            cases herror
          · rintro ⟨-, hfull, -⟩
            omega
  | untimeout func arg =>
      obtain ⟨table, queue', unused', hcancel, -, -, -⟩ := h.lists.untimeout func arg
      rw [CalloutKernel.handle, hcancel]
      apply iff_of_false
      · intro herror
        cases herror
      · rintro ⟨-, -, func', arg', time, he⟩
        cases he
  | hardclock profiling basepri =>
      obtain ⟨table, htick, -, -, -⟩ := h.lists.hardclock profiling
      rw [CalloutKernel.handle, htick]
      apply iff_of_false
      · intro herror
        cases herror
      · rintro ⟨-, -, func, arg, time, he⟩
        cases he
  | softclock =>
      apply iff_of_false
      · intro herror
        rw [CalloutKernel.handle] at herror
        split at herror <;> cases herror
      · rintro ⟨-, -, func, arg, time, he⟩
        cases he

/-- The callouts are the queue and the free ones, nothing but a `timeout` without a free one
stops the kernel, and the times stay within the range from the age of the tick before the latest
at base priority to the largest argument of `timeout`. -/
theorem callouts_within (h : boot.Lists [] unused) (hrun : Run (callouts boot) tr k) {bound : ℤ}
    (hbound : 1 ≤ bound)
    (hall : ∀ e ∈ tr, ∀ func arg time, e.1 = .timeout func arg time → time ≤ bound) :
    (k.table.queue ++ k.table.unused).Perm (List.range boot.ncallout) ∧
    (∀ e halt, k.handle e = .error halt ↔ halt = .timeoutTableOverflow ∧
      k.table.queue.length = boot.ncallout ∧ ∃ func arg time, e = .timeout func arg time) ∧
    ∀ p ∈ k.table.queue, k.table.cTime p ≤ bound ∧
      (CalloutHistory.ofTrace tr).previousBase - (CalloutHistory.ofTrace tr).ticks ≤ k.table.cTime p := by
  obtain ⟨a, queue, unused', hrepresents, hacc⟩ := represented_accounts h hrun
  rw [hrepresents.lists.queue_eq, hrepresents.lists.unused_eq]
  refine ⟨?_, handle_error_iff hrepresents, fun p hp ↦ ?_⟩
  · rw [← hrepresents.ncallout]
    exact hrepresents.lists.slots
  · have hentry : (k.table.cTime p, (k.table.cFunc p, k.table.cArg p)) ∈ k.table.entries queue :=
      List.mem_map_of_mem hp
    have hpending := hrepresents.pending
    rw [hacc.now] at hpending
    obtain ⟨givenUp, hperm, -⟩ := hacc.conserved
    obtain ⟨hprevious, hbase⟩ := hacc.bases
    have hhigh : ∀ e ∈ deadlines (CalloutHistory.ofTrace tr).ticks (k.table.entries queue),
        e.1 ≤ (CalloutHistory.ofTrace tr).ticks + bound := by
      intro e he
      rw [← hpending] at he
      exact armed_le hbound hall e (hperm.symm.subset (List.mem_append_right _ he))
    have hlow : ∀ e ∈ deadlines (CalloutHistory.ofTrace tr).ticks (k.table.entries queue),
        (CalloutHistory.ofTrace tr).ticks -
          ((CalloutHistory.ofTrace tr).ticks - (CalloutHistory.ofTrace tr).previousBase) ≤ e.1 := by
      intro e he
      rw [← hpending] at he
      have hserved := hacc.served e he
      split at hserved <;> omega
    have hle := time_le (by omega) hhigh _ hentry
    have hge := neg_le_time hrepresents.ordered (by omega) hlow _ hentry
    dsimp only at hle hge
    exact ⟨hle, by omega⟩

theorem callouts_within_twoTimeouts :
    ∃ k, Run (callouts twoCallouts) twoTimeouts k ∧ ∀ p ∈ k.table.queue, k.table.cTime p ≤ 5 := by
  obtain ⟨k, hrun⟩ := callouts_twoTimeouts
  have hall : ∀ e ∈ twoTimeouts, ∀ func arg time, e.1 = .timeout func arg time → time ≤ 5 := by
    intro e he func arg time heq
    simp only [twoTimeouts, List.mem_cons, List.not_mem_nil, or_false] at he
    rcases he with rfl | rfl | rfl | rfl | rfl | rfl | rfl | rfl <;> cases heq <;> decide
  have hwithin := callouts_within lists_twoCallouts hrun (by decide) hall
  exact ⟨k, hrun, fun p hp ↦ (hwithin.2.2 p hp).1⟩

end Runs

end VPanel.Kernel
