import VPanel.Kernel.Callouts
import VPanel.Kernel.PhysAddr
import VPanel.Wire.PanelStates

/-!
# The clock interrupt of the PDP-11 kernel

One interrupt counts down the callouts, charges the running process and its
interval timers, advances the date and copies the interrupted state to the
panel.  Signals are posted to the process that the tick is charged to.
-/

namespace VPanel.Kernel

open Wire

structure ITimer where
  itValue : ℕ
  itInterval : ℕ
  deriving DecidableEq

inductive Signal
  | sigvtalrm | sigxcpu | sigprof
  deriving DecidableEq

/-- What `hardclock` uses of the `u` area.  The counts, limits and timers are longs that are taken
not to wrap. -/
structure User where
  ruUtime : ℕ
  ruStime : ℕ
  itimerVirtual : ITimer
  itimerProf : ITimer
  rlimCur : ℕ
  rlimMax : ℕ
  prScale : ℕ
  deriving DecidableEq

/-- `lbolt` stays within a second; the seconds are a long that is taken not to wrap. -/
structure Date where
  lbolt : ℤ
  adjdelta : ℤ
  tvSec : ℤ
  deriving DecidableEq

/-- The interrupted state: the registers, the modes that the status word tells, and whether the
processor is idle. -/
structure Interrupt where
  r0 : BitVec 16
  pc : BitVec 16
  ps : BitVec 16
  aprRegs : AprRegs
  usermode : Bool
  basepri : Bool
  noproc : Bool

/-! ## The process -/

/-- The timer after a tick, and whether it has expired. -/
def ITimer.countDown (t : ITimer) : ITimer × Bool :=
  if t.itValue = 0 then (t, false)
  else if t.itValue - 1 = 0 then (⟨t.itInterval, t.itInterval⟩, true)
  else (⟨t.itValue - 1, t.itInterval⟩, false)

def chargeMode (i : Interrupt) (u : User) : User × List Signal :=
  if i.usermode then
    let (timer, expired) := u.itimerVirtual.countDown
    ({ u with ruUtime := u.ruUtime + 1, itimerVirtual := timer },
      if expired then [.sigvtalrm] else [])
  else ({ u with ruStime := if i.noproc then u.ruStime else u.ruStime + 1 }, [])

def checkLimit (hz : ℕ) (u : User) : User × List Signal :=
  if u.ruUtime + u.ruStime + 1 > u.rlimCur then
    ({ u with rlimCur := if u.rlimCur < u.rlimMax then u.rlimCur + 5 * hz else u.rlimCur },
      [.sigxcpu])
  else (u, [])

def chargeProf (u : User) : User × List Signal :=
  let (timer, expired) := u.itimerProf.countDown
  ({ u with itimerProf := timer }, if expired then [.sigprof] else [])

/-- The part of `hardclock` that charges the tick. -/
def charge (hz : ℕ) (i : Interrupt) (u : User) : User × List Signal :=
  let (u, virtual) := chargeMode i u
  if i.noproc then (u, virtual)
  else
    let (u, limit) := checkLimit hz u
    let (u, prof) := chargeProf u
    (u, virtual ++ limit ++ prof)

/-! ## The date -/

def Date.adjust (d : Date) : Date :=
  if d.adjdelta ≠ 0 then
    if d.adjdelta > 0 then { d with lbolt := d.lbolt + 1, adjdelta := d.adjdelta - 1 }
    else { d with lbolt := d.lbolt - 1, adjdelta := d.adjdelta + 1 }
  else d

def Date.tick (hz : ℕ) (d : Date) : Date :=
  let d := d.adjust
  if d.lbolt + 1 ≥ hz then { d with lbolt := d.lbolt + 1 - hz, tvSec := d.tvSec + 1 }
  else { d with lbolt := d.lbolt + 1 }

/-! ## The interrupt -/

structure HardClock (F A : Type) where
  table : CalloutTable F A
  u : User
  date : Date
  panel : PdpPanelState
  panelSeq : BitVec 16

variable {F A : Type}

/-- The state after the interrupt, with the signals that it posts and whether it starts
`softclock`. -/
def hardclock (hz : ℕ) (k : HardClock F A) (i : Interrupt) :
    Except Halt (HardClock F A × List Signal × Bool) := do
  let (table, needsoft) ← k.table.hardclock (i.usermode && k.u.prScale ≠ 0)
  let (u, signals) := charge hz i k.u
  let panel := { k.panel with
    psAddress := decodePhysAddr i.aprRegs i.pc i.ps
    psData := i.r0
    psPsw := i.ps }
  return (⟨table, u, k.date.tick hz, panel, k.panelSeq + 1⟩, signals, needsoft && i.basepri)

/-! ## The date over a run -/

inductive DateEvent
  | tick
  /-- The system call that sets what is left to adjust. -/
  | adjtime (delta : ℤ)
  deriving DecidableEq

namespace Date

/-- The ticks that the date stands for. -/
def elapsed (hz : ℕ) (d : Date) : ℤ := hz * d.tvSec + d.lbolt

def InRange (hz : ℕ) (d : Date) : Prop := 0 ≤ d.lbolt ∧ d.lbolt < hz

def next (hz : ℕ) (d : Date) : DateEvent → Date
  | .tick => d.tick hz
  | .adjtime delta => { d with adjdelta := delta }

def run (hz : ℕ) (d : Date) (es : List DateEvent) : Date := es.foldl (next hz) d

variable {hz : ℕ} {d : Date}

theorem adjust_spec (d : Date) :
    d.adjust.lbolt = d.lbolt + d.adjdelta.sign ∧
      d.adjust.adjdelta = d.adjdelta - d.adjdelta.sign ∧ d.adjust.tvSec = d.tvSec := by
  unfold adjust
  by_cases hzero : d.adjdelta = 0
  · rw [if_neg (not_not.mpr hzero), hzero]
    simp
  · rw [if_pos hzero]
    by_cases hpositive : d.adjdelta > 0
    · rw [if_pos hpositive, Int.sign_eq_one_of_pos hpositive]
      exact ⟨rfl, rfl, rfl⟩
    · rw [if_neg hpositive, Int.sign_eq_neg_one_of_neg (by omega)]
      exact ⟨rfl, rfl, rfl⟩

theorem sign_bounds (n : ℤ) : -1 ≤ n.sign ∧ n.sign ≤ 1 := by
  rcases Int.sign_trichotomy n with h | h | h <;> omega

/-- A tick adds one, and moves one between the date and what is left to adjust. -/
theorem tick_spec (hz2 : 2 ≤ hz) (h : d.InRange hz) :
    (d.tick hz).InRange hz ∧ (d.tick hz).adjdelta = d.adjdelta - d.adjdelta.sign ∧
      (d.tick hz).elapsed hz = d.elapsed hz + 1 + d.adjdelta.sign := by
  obtain ⟨hlow, hhigh⟩ := h
  obtain ⟨hlbolt, hdelta, hsec⟩ := d.adjust_spec
  obtain ⟨hmin, hmax⟩ := sign_bounds d.adjdelta
  have hnonneg : 0 ≤ d.lbolt + 1 + d.adjdelta.sign := by omega
  unfold tick elapsed InRange
  dsimp only
  by_cases hwrap : d.adjust.lbolt + 1 ≥ hz
  · rw [if_pos hwrap, hdelta, hsec, hlbolt]
    dsimp only
    rw [Int.mul_add]
    omega
  · rw [if_neg hwrap, hdelta, hsec, hlbolt]
    dsimp only
    omega

theorem run_append (es fs : List DateEvent) :
    d.run hz (es ++ fs) = (d.run hz es).run hz fs := List.foldl_append

theorem inRange_run (hz2 : 2 ≤ hz) (h : d.InRange hz) (es : List DateEvent) :
    (d.run hz es).InRange hz ∧ d.elapsed hz ≤ (d.run hz es).elapsed hz ∧
      (d.run hz es).elapsed hz ≤ d.elapsed hz + 2 * es.count .tick := by
  induction es generalizing d with
  | nil => exact ⟨h, Int.le_refl _, by simp [run]⟩
  | cons e es ih =>
      cases e with
      | tick =>
          obtain ⟨hrange, -, helapsed⟩ := tick_spec hz2 h
          obtain ⟨hmin, hmax⟩ := sign_bounds d.adjdelta
          obtain ⟨hrange', hlow, hhigh⟩ := ih hrange
          rw [List.count_cons_self]
          refine ⟨hrange', ?_, ?_⟩
          · change d.elapsed hz ≤ ((d.tick hz).run hz es).elapsed hz
            omega
          · change ((d.tick hz).run hz es).elapsed hz ≤ _
            push_cast
            omega
      | adjtime delta =>
          have hrange : ({ d with adjdelta := delta } : Date).InRange hz := h
          obtain ⟨hrange', hlow, hhigh⟩ := ih hrange
          have hne : DateEvent.adjtime delta ≠ .tick := fun heq ↦ nomatch heq
          rw [List.count_cons_of_ne hne]
          exact ⟨hrange', hlow, hhigh⟩

/-- What `n` ticks take over of an adjustment. -/
def taken (n : ℕ) (delta : ℤ) : ℤ := max (-n) (min n delta)

theorem taken_succ (n : ℕ) (delta : ℤ) :
    delta.sign + taken n (delta - delta.sign) = taken (n + 1) delta := by
  unfold taken
  rcases Int.sign_trichotomy delta with h | h | h
  · have hdelta := Int.sign_eq_one_iff_pos.mp h
    rw [h]
    omega
  · have hdelta := Int.sign_eq_zero_iff_zero.mp h
    rw [h]
    omega
  · have hdelta := Int.sign_eq_neg_one_iff_neg.mp h
    rw [h]
    omega

theorem run_ticks (hz2 : 2 ≤ hz) (h : d.InRange hz) (n : ℕ) :
    (d.run hz (List.replicate n .tick)).adjdelta = d.adjdelta - taken n d.adjdelta ∧
      (d.run hz (List.replicate n .tick)).elapsed hz =
        d.elapsed hz + n + taken n d.adjdelta := by
  induction n generalizing d with
  | zero =>
      have hnone : taken 0 d.adjdelta = 0 := by
        unfold taken
        omega
      rw [hnone]
      simp [run]
  | succ n ih =>
      obtain ⟨hrange, hdelta, helapsed⟩ := tick_spec hz2 h
      obtain ⟨hleft, hpast⟩ := ih hrange
      have htaken := taken_succ n d.adjdelta
      rw [hdelta] at hleft hpast
      rw [List.replicate_succ]
      change ((d.tick hz).run hz _).adjdelta = _ ∧ ((d.tick hz).run hz _).elapsed hz = _
      push_cast
      omega

/-- The date never goes back, at most two ticks are added in one, and an adjustment is taken over
one tick at a time until it is used up. -/
theorem date_run (hz2 : 2 ≤ hz) (h : d.InRange hz) (es : List DateEvent) :
    (d.run hz es).InRange hz ∧ (d.run hz es).tvSec = (d.run hz es).elapsed hz / hz ∧
    (d.elapsed hz ≤ (d.run hz es).elapsed hz ∧
      (d.run hz es).elapsed hz ≤ d.elapsed hz + 2 * es.count .tick) ∧
    ∀ delta (n : ℕ),
      let d' := d.run hz (es ++ .adjtime delta :: List.replicate n .tick)
      d'.elapsed hz = (d.run hz es).elapsed hz + n + taken n delta ∧
        d'.adjdelta = delta - taken n delta := by
  obtain ⟨hrange, hlow, hhigh⟩ := inRange_run hz2 h es
  refine ⟨hrange, ?_, ⟨hlow, hhigh⟩, fun delta n ↦ ?_⟩
  · have hsec := Int.add_mul_ediv_left (d.run hz es).lbolt (d.run hz es).tvSec
      (show (hz : ℤ) ≠ 0 by omega)
    have hzero : (d.run hz es).lbolt / (hz : ℤ) = 0 := Int.ediv_eq_zero_of_lt hrange.1 hrange.2
    rw [elapsed, Int.add_comm, hsec, hzero, Int.zero_add]
  · rw [run_append]
    have hrange' : ({ d.run hz es with adjdelta := delta } : Date).InRange hz := hrange
    obtain ⟨hleft, hpast⟩ := run_ticks hz2 hrange' n
    exact ⟨hpast, hleft⟩

theorem date_run_hundred :
    (run 100 ⟨99, 0, 7⟩ [.adjtime 1, .tick]).tvSec =
      (run 100 ⟨99, 0, 7⟩ [.adjtime 1, .tick]).elapsed 100 / 100 :=
  (date_run (by decide) ⟨by decide, by decide⟩ _).2.1

end Date

/-! ## The process over a run -/

namespace ITimer

/-- The timer after `n` ticks, and how often it has expired. -/
def run : ℕ → ITimer → ITimer × ℕ
  | 0, t => (t, 0)
  | n + 1, t =>
      let (t, expired) := t.countDown
      let (t, count) := run n t
      (t, (if expired then 1 else 0) + count)

theorem run_succ (n : ℕ) (t : ITimer) :
    run (n + 1) t = ((run n t.countDown.1).1,
      (if t.countDown.2 then 1 else 0) + (run n t.countDown.1).2) := rfl

def expirations (t : ITimer) (n : ℕ) : ℕ :=
  if t.itValue = 0 ∨ n < t.itValue then 0 else 1 + (n - t.itValue) / t.itInterval

def remaining (t : ITimer) (n : ℕ) : ℕ :=
  if t.itValue = 0 then 0
  else if n < t.itValue then t.itValue - n
  else if t.itInterval = 0 then 0
  else t.itInterval - (n - t.itValue) % t.itInterval

theorem expirations_reload (w n : ℕ) : expirations ⟨w, w⟩ n = n / w := by
  unfold expirations
  dsimp only
  rw [Nat.div_eq n w]
  by_cases hnone : w = 0 ∨ n < w
  · rw [if_pos hnone, if_neg (by omega)]
  · rw [if_neg hnone, if_pos (by omega), Nat.add_comm]

theorem remaining_reload (w n : ℕ) : remaining ⟨w, w⟩ n = if w = 0 then 0 else w - n % w := by
  unfold remaining
  dsimp only
  by_cases hzero : w = 0
  · rw [if_pos hzero, if_pos hzero]
  · rw [if_neg hzero, if_neg hzero, if_neg hzero]
    by_cases hlt : n < w
    · rw [if_pos hlt, Nat.mod_eq_of_lt hlt]
    · rw [if_neg hlt, Nat.mod_eq_sub_mod (Nat.not_lt.mp hlt)]

theorem expirations_one (w n : ℕ) : expirations ⟨1, w⟩ (n + 1) = 1 + n / w := by
  have hexpired : ¬(1 = 0 ∨ n + 1 < 1) := by omega
  exact if_neg hexpired

theorem remaining_one (w n : ℕ) : remaining ⟨1, w⟩ (n + 1) = remaining ⟨w, w⟩ n := by
  rw [remaining_reload]
  have hexpired : ¬n + 1 < 1 := by omega
  exact (if_neg Nat.one_ne_zero).trans (if_neg hexpired)

theorem expirations_succ {v : ℕ} (hv : v ≠ 0) (w n : ℕ) :
    expirations ⟨v + 1, w⟩ (n + 1) = expirations ⟨v, w⟩ n := by
  simp [expirations, hv]

theorem remaining_succ {v : ℕ} (hv : v ≠ 0) (w n : ℕ) :
    remaining ⟨v + 1, w⟩ (n + 1) = remaining ⟨v, w⟩ n := by
  simp [remaining, hv]

/-- The first expiry comes after the value, the others at each interval, if there is one. -/
theorem run_eq (n : ℕ) (t : ITimer) :
    t.run n = (⟨t.remaining n, t.itInterval⟩, t.expirations n) := by
  obtain ⟨v, w⟩ := t
  induction n generalizing v with
  | zero =>
      have hremaining : remaining ⟨v, w⟩ 0 = v := by
        unfold remaining
        dsimp only
        split_ifs <;> omega
      have hnone : expirations ⟨v, w⟩ 0 = 0 := if_pos (by dsimp only; omega)
      rw [hremaining, hnone]
      rfl
  | succ n ih =>
      rw [run, countDown]
      dsimp only
      cases v with
      | zero =>
          rw [if_pos rfl, ih]
          rfl
      | succ v =>
          rw [if_neg (Nat.succ_ne_zero v), Nat.add_sub_cancel]
          by_cases hexpires : v = 0
          · subst hexpires
            rw [if_pos rfl, ih, expirations_reload, expirations_one, remaining_one]
            rfl
          · rw [if_neg hexpires, ih, expirations_succ hexpires, remaining_succ hexpires]
            dsimp only
            rw [if_neg Bool.false_ne_true, Nat.zero_add]

end ITimer

/-- Interrupts that charge one process, with the signals they post to it. -/
def chargeAll (hz : ℕ) : User → List Interrupt → User × List Signal
  | u, [] => (u, [])
  | u, i :: is =>
      let (u, signals) := charge hz i u
      let (u, rest) := chargeAll hz u is
      (u, signals ++ rest)

def ticksCharged (is : List Interrupt) : ℕ := is.countP fun i ↦ !i.noproc

def userTicks (is : List Interrupt) : ℕ := is.countP fun i ↦ i.usermode

def post (p : Prop) [Decidable p] (s : Signal) : List Signal := if p then [s] else []

theorem count_post (p : Prop) [Decidable p] (s s' : Signal) :
    (post p s).count s' = if s = s' ∧ p then 1 else 0 := by
  unfold post
  by_cases hp : p
  · simp [hp, List.count_singleton]
  · simp [hp]

/-- The process after the part that depends on the mode. -/
def User.charged (i : Interrupt) (u : User) : User := { u with
  ruUtime := u.ruUtime + (if i.usermode then 1 else 0)
  ruStime := u.ruStime + (if i.usermode ∨ i.noproc then 0 else 1)
  itimerVirtual := if i.usermode then u.itimerVirtual.countDown.1 else u.itimerVirtual }

def User.OverLimit (u : User) : Prop := u.rlimCur < u.ruUtime + u.ruStime + 1

instance (u : User) : Decidable u.OverLimit := inferInstanceAs (Decidable (_ < _))

def User.nextLimit (hz : ℕ) (u : User) : ℕ :=
  if u.OverLimit ∧ u.rlimCur < u.rlimMax then u.rlimCur + 5 * hz else u.rlimCur

theorem chargeMode_spec (i : Interrupt) (u : User) :
    chargeMode i u =
      (u.charged i, post (i.usermode ∧ u.itimerVirtual.countDown.2) .sigvtalrm) := by
  unfold chargeMode User.charged post
  cases i.usermode <;> cases i.noproc <;> simp

theorem checkLimit_spec (hz : ℕ) (u : User) :
    checkLimit hz u = ({ u with rlimCur := u.nextLimit hz }, post u.OverLimit .sigxcpu) := by
  unfold checkLimit User.nextLimit post
  by_cases hover : u.OverLimit
  · have hover' : u.ruUtime + u.ruStime + 1 > u.rlimCur := hover
    rw [if_pos hover', if_pos hover]
    simp only [hover, true_and]
  · have hover' : ¬u.ruUtime + u.ruStime + 1 > u.rlimCur := hover
    rw [if_neg hover', if_neg hover, if_neg fun h ↦ hover h.1]

theorem charge_idle (hz : ℕ) {i : Interrupt} (hi : i.noproc = true) (u : User) :
    charge hz i u =
      (u.charged i, post (i.usermode ∧ u.itimerVirtual.countDown.2) .sigvtalrm) := by
  unfold charge
  rw [chargeMode_spec, hi]
  rfl

theorem charge_running (hz : ℕ) {i : Interrupt} (hi : i.noproc = false) (u : User) :
    charge hz i u = ({ u.charged i with
        itimerProf := u.itimerProf.countDown.1
        rlimCur := (u.charged i).nextLimit hz },
      post (i.usermode ∧ u.itimerVirtual.countDown.2) .sigvtalrm ++
        post (u.charged i).OverLimit .sigxcpu ++ post u.itimerProf.countDown.2 .sigprof) := by
  unfold charge
  rw [chargeMode_spec, hi]
  dsimp only
  rw [if_neg Bool.false_ne_true, checkLimit_spec]
  rfl

theorem charge_counts (hz : ℕ) (i : Interrupt) (u : User) :
    (charge hz i u).1.ruUtime = (u.charged i).ruUtime ∧
    (charge hz i u).1.ruStime = (u.charged i).ruStime ∧
    (charge hz i u).1.itimerVirtual = (u.charged i).itimerVirtual ∧
    (charge hz i u).2.count .sigvtalrm =
      (if i.usermode ∧ u.itimerVirtual.countDown.2 then 1 else 0) ∧
    (charge hz i u).1.itimerProf =
      (if i.noproc then u.itimerProf else u.itimerProf.countDown.1) ∧
    (charge hz i u).2.count .sigprof =
      (if ¬i.noproc ∧ u.itimerProf.countDown.2 then 1 else 0) := by
  cases hi : i.noproc with
  | true =>
      rw [charge_idle hz hi]
      simp [count_post, User.charged]
  | false =>
      rw [charge_running hz hi]
      refine ⟨rfl, rfl, rfl, ?_, rfl, ?_⟩
      · rw [List.count_append, List.count_append, count_post, count_post, count_post]
        simp
      · rw [List.count_append, List.count_append, count_post, count_post, count_post]
        simp

theorem chargeAll_times (hz : ℕ) (is : List Interrupt) (u : User) :
    (chargeAll hz u is).1.ruUtime = u.ruUtime + userTicks is ∧
      (chargeAll hz u is).1.ruStime =
        u.ruStime + is.countP fun i ↦ !i.usermode && !i.noproc := by
  induction is generalizing u with
  | nil => exact ⟨rfl, rfl⟩
  | cons i is ih =>
      obtain ⟨hutime, hstime, -, -, -, -⟩ := charge_counts hz i u
      obtain ⟨hutime', hstime'⟩ := ih (charge hz i u).1
      unfold userTicks at *
      rw [List.countP_cons, List.countP_cons]
      constructor
      · change (chargeAll hz (charge hz i u).1 is).1.ruUtime = _
        rw [hutime', hutime]
        unfold User.charged
        dsimp only
        omega
      · change (chargeAll hz (charge hz i u).1 is).1.ruStime = _
        rw [hstime', hstime]
        unfold User.charged
        cases i.usermode <;> cases i.noproc <;> simp
        omega

theorem chargeAll_timers (hz : ℕ) (is : List Interrupt) (u : User) :
    ((chargeAll hz u is).1.itimerVirtual, (chargeAll hz u is).2.count .sigvtalrm) =
        u.itimerVirtual.run (userTicks is) ∧
      ((chargeAll hz u is).1.itimerProf, (chargeAll hz u is).2.count .sigprof) =
        u.itimerProf.run (ticksCharged is) := by
  induction is generalizing u with
  | nil => exact ⟨rfl, rfl⟩
  | cons i is ih =>
      obtain ⟨-, -, hvirtual, hvtalrm, hprof, hsigprof⟩ := charge_counts hz i u
      obtain ⟨hvirtual', hprof'⟩ := ih (charge hz i u).1
      unfold userTicks ticksCharged at *
      rw [List.countP_cons, List.countP_cons]
      change ((chargeAll hz (charge hz i u).1 is).1.itimerVirtual,
          ((charge hz i u).2 ++ (chargeAll hz (charge hz i u).1 is).2).count .sigvtalrm) = _ ∧
        ((chargeAll hz (charge hz i u).1 is).1.itimerProf,
          ((charge hz i u).2 ++ (chargeAll hz (charge hz i u).1 is).2).count .sigprof) = _
      rw [List.count_append, List.count_append, hvtalrm, hsigprof]
      rw [hvirtual] at hvirtual'
      rw [hprof] at hprof'
      constructor
      · cases hmode : i.usermode with
        | false => simpa [hmode, User.charged] using hvirtual'
        | true =>
            have hcharged : (u.charged i).itimerVirtual = u.itimerVirtual.countDown.1 := by
              simp [User.charged, hmode]
            rw [hcharged] at hvirtual'
            rw [if_pos rfl, ITimer.run_succ, ← hvirtual']
            simp
      · cases hnoproc : i.noproc with
        | true => simpa [hnoproc] using hprof'
        | false =>
            rw [hnoproc, if_neg Bool.false_ne_true] at hprof'
            rw [Bool.not_false, if_pos rfl, ITimer.run_succ, ← hprof']
            simp

/-- No tick is charged twice or to the wrong mode, and the timers expire after their values and
then at their intervals, in user ticks and in ticks of the process, whatever the order of the
ticks is. -/
theorem chargeAll_exact (hz : ℕ) (is : List Interrupt) (u : User) :
    let (u', signals) := chargeAll hz u is
    u'.ruUtime = u.ruUtime + userTicks is ∧
    u'.ruStime = u.ruStime + is.countP (fun i ↦ !i.usermode && !i.noproc) ∧
    u'.itimerVirtual.itValue = u.itimerVirtual.remaining (userTicks is) ∧
    signals.count .sigvtalrm = u.itimerVirtual.expirations (userTicks is) ∧
    u'.itimerProf.itValue = u.itimerProf.remaining (ticksCharged is) ∧
    signals.count .sigprof = u.itimerProf.expirations (ticksCharged is) := by
  obtain ⟨hutime, hstime⟩ := chargeAll_times hz is u
  obtain ⟨hvirtual, hprof⟩ := chargeAll_timers hz is u
  rw [ITimer.run_eq] at hvirtual hprof
  obtain ⟨hvirtual, hvtalrm⟩ := Prod.mk.inj hvirtual
  obtain ⟨hprof, hsigprof⟩ := Prod.mk.inj hprof
  exact ⟨hutime, hstime, congrArg ITimer.itValue hvirtual, hvtalrm,
    congrArg ITimer.itValue hprof, hsigprof⟩

/-! ## The processor time limit -/

def User.used (u : User) : ℕ := u.ruUtime + u.ruStime

theorem used_charge (hz : ℕ) (i : Interrupt) (u : User) :
    (charge hz i u).1.used = (u.charged i).used := by
  obtain ⟨hutime, hstime, -⟩ := charge_counts hz i u
  unfold User.used
  rw [hutime, hstime]

theorem used_charged {i : Interrupt} (hmode : i.usermode = true → i.noproc = false) (u : User) :
    (u.charged i).used = u.used + if i.noproc then 0 else 1 := by
  unfold User.used User.charged
  cases hi : i.usermode with
  | false =>
      cases i.noproc <;> simp
      omega
  | true =>
      rw [hmode hi]
      simp
      omega

theorem le_nextLimit (hz : ℕ) (u : User) : u.rlimCur ≤ u.nextLimit hz := by
  unfold User.nextLimit
  split <;> omega

theorem charge_limit (hz : ℕ) (i : Interrupt) (u : User) :
    u.rlimCur ≤ (charge hz i u).1.rlimCur ∧ (charge hz i u).1.rlimMax = u.rlimMax := by
  cases hi : i.noproc with
  | true =>
      rw [charge_idle hz hi]
      exact ⟨Nat.le_refl _, rfl⟩
  | false =>
      rw [charge_running hz hi]
      exact ⟨le_nextLimit hz (u.charged i), rfl⟩

theorem chargeAll_mono (hz : ℕ) (is : List Interrupt) (u : User) :
    u.rlimCur ≤ (chargeAll hz u is).1.rlimCur ∧ (chargeAll hz u is).1.rlimMax = u.rlimMax ∧
      u.used ≤ (chargeAll hz u is).1.used := by
  obtain ⟨hutime, hstime⟩ := chargeAll_times hz is u
  have hused : u.used ≤ (chargeAll hz u is).1.used := by
    unfold User.used
    omega
  refine ⟨?_, ?_, hused⟩
  · clear hutime hstime hused
    induction is generalizing u with
    | nil => exact Nat.le_refl _
    | cons i is ih => exact (charge_limit hz i u).1.trans (ih _)
  · clear hutime hstime hused
    induction is generalizing u with
    | nil => rfl
    | cons i is ih => exact (ih _).trans (charge_limit hz i u).2

/-- The limit is ahead of the time used, by `k` extensions and no more than needed. -/
structure LimitKept (hz : ℕ) (u u' : User) (k : ℕ) : Prop where
  extended : u'.rlimCur = u.rlimCur + 5 * hz * k
  ahead : u'.used < u'.rlimCur
  needed : 0 < k → u'.rlimCur ≤ u'.used + 5 * hz

theorem LimitKept.trans {hz : ℕ} {u u' u'' : User} {k l : ℕ} (h : LimitKept hz u u' k)
    (h' : LimitKept hz u' u'' l) (hused : u'.used ≤ u''.used) : LimitKept hz u u'' (k + l) := by
  refine ⟨?_, h'.ahead, fun hkl ↦ ?_⟩
  · rw [h'.extended, h.extended, Nat.mul_add, Nat.add_assoc]
  · by_cases hl : 0 < l
    · exact h'.needed hl
    · have hl : l = 0 := by omega
      have hneeded := h.needed (by omega)
      rw [h'.extended, hl, Nat.mul_zero]
      omega

theorem charge_sigxcpu (hz : ℕ) (i : Interrupt) (u : User) :
    (charge hz i u).1.rlimCur = (if i.noproc then u.rlimCur else (u.charged i).nextLimit hz) ∧
      (charge hz i u).2.count .sigxcpu =
        if i.noproc = false ∧ (u.charged i).OverLimit then 1 else 0 := by
  cases hi : i.noproc with
  | true =>
      rw [charge_idle hz hi, count_post]
      exact ⟨rfl, by simp⟩
  | false =>
      rw [charge_running hz hi, List.count_append, List.count_append, count_post, count_post,
        count_post]
      exact ⟨rfl, by simp⟩

theorem limitKept_charge {hz : ℕ} (hpos : 0 < hz) {i : Interrupt}
    (hmode : i.usermode = true → i.noproc = false) {u : User} (hbelow : u.used < u.rlimCur)
    (hmax : u.rlimCur < u.rlimMax) :
    LimitKept hz u (charge hz i u).1 ((charge hz i u).2.count .sigxcpu) := by
  have hused := used_charge hz i u
  have hcharged := used_charged hmode u
  obtain ⟨hcur, hcount⟩ := charge_sigxcpu hz i u
  rw [hcount]
  cases hi : i.noproc with
  | true =>
      rw [hi, if_pos rfl] at hcharged hcur
      rw [if_neg fun h ↦ nomatch h.1]
      exact ⟨hcur, by omega, fun hnone ↦ absurd hnone (Nat.lt_irrefl 0)⟩
  | false =>
      rw [hi, if_neg Bool.false_ne_true] at hcharged hcur
      have hover : (u.charged i).OverLimit ↔ u.rlimCur < (u.charged i).used + 1 := Iff.rfl
      by_cases hsignal : (u.charged i).OverLimit
      · have hnext : (u.charged i).nextLimit hz = u.rlimCur + 5 * hz := if_pos ⟨hsignal, hmax⟩
        have hlimit := hover.mp hsignal
        rw [if_pos ⟨rfl, hsignal⟩]
        exact ⟨by omega, by omega, fun _ ↦ by omega⟩
      · have hnext : (u.charged i).nextLimit hz = u.rlimCur := if_neg fun h ↦ hsignal h.1
        have hlimit := mt hover.mpr hsignal
        rw [if_neg fun h ↦ hsignal h.2]
        exact ⟨by omega, by omega, fun hnone ↦ absurd hnone (Nat.lt_irrefl 0)⟩

/-- As long as the limit stays below its maximum, it is kept ahead of the time used, by one
signal for each extension. -/
theorem chargeAll_limit {hz : ℕ} (hpos : 0 < hz) (is : List Interrupt)
    (hmode : ∀ i ∈ is, i.usermode = true → i.noproc = false) (u : User)
    (hbelow : u.used < u.rlimCur)
    (hmax : (chargeAll hz u is).1.rlimCur < (chargeAll hz u is).1.rlimMax) :
    LimitKept hz u (chargeAll hz u is).1 ((chargeAll hz u is).2.count .sigxcpu) := by
  induction is generalizing u with
  | nil => exact ⟨rfl, hbelow, fun hnone ↦ absurd hnone (Nat.lt_irrefl 0)⟩
  | cons i is ih =>
      obtain ⟨hcur, hmax', hused⟩ := chargeAll_mono hz is (charge hz i u).1
      obtain ⟨hcur₁, hmax₁⟩ := charge_limit hz i u
      change (chargeAll hz (charge hz i u).1 is).1.rlimCur <
        (chargeAll hz (charge hz i u).1 is).1.rlimMax at hmax
      have hfirst := limitKept_charge hpos (hmode i List.mem_cons_self) hbelow (by omega)
      have hrest := ih (fun j hj ↦ hmode j (List.mem_cons_of_mem i hj)) _ hfirst.ahead hmax
      have hboth := hfirst.trans hrest hused
      rwa [← List.count_append] at hboth

/-- A process that reaches a limit of two ticks in the third one of three. -/
theorem chargeAll_limit_three :
    let i : Interrupt := ⟨0, 0, 0, fun _ ↦ 0, true, true, false⟩
    let u : User := ⟨0, 0, ⟨0, 0⟩, ⟨0, 0⟩, 2, 1000, 0⟩
    LimitKept 60 u (chargeAll 60 u [i, i, i]).1 1 := by
  refine chargeAll_limit (by decide) [_, _, _] ?_ _ (by decide) (by decide)
  intro i hi _
  simp only [List.mem_cons, List.not_mem_nil, or_false] at hi
  rcases hi with rfl | rfl | rfl <;> rfl

/-! ## Interrupts in a row -/

/-- `softclock` at the end of an interrupt. -/
def softclockIf (soft : Bool) (table : CalloutTable F A) :
    Except Halt (CalloutTable F A × List ((F × A) × ℤ)) :=
  if soft then CalloutTable.softclocks (table.ncallout + 1) table else .ok (table, [])

/-- Interrupts one after the other, with the signals they post and the calls they make.  One that
finds base priority runs `softclock`, whose functions leave this state alone. -/
def hardclocks (hz : ℕ) : HardClock F A → List Interrupt →
    Except Halt (HardClock F A × List Signal × List ((F × A) × ℤ))
  | k, [] => .ok (k, [], [])
  | k, i :: is => do
      let (k, signals, soft) ← hardclock hz k i
      let (table, calls) ← softclockIf soft k.table
      let (k, signals', calls') ← hardclocks hz { k with table } is
      return (k, signals ++ signals', calls ++ calls')

/-- What the panel shows of an interrupt. -/
def Interrupt.show (i : Interrupt) (panel : PdpPanelState) : PdpPanelState := { panel with
  psAddress := decodePhysAddr i.aprRegs i.pc i.ps
  psData := i.r0
  psPsw := i.ps }

/-- How a queue is served by an interrupt or more: the callouts in front are called when they are
due, and the others keep their deadlines. -/
structure Serves (t t' : CalloutTable F A) (queue : List ℕ) (ticks : ℕ)
    (calls : List ((F × A) × ℤ)) : Prop where
  lists : ∃ unused, t'.Lists (queue.drop calls.length) unused
  called : calls.map Prod.fst = ((t.entries queue).take calls.length).map Prod.snd
  due : ∀ call ∈ calls, call.2 ≤ 0
  deadlines : ∀ now, DeltaQueue.deadlines (now + ticks) (t'.entries (queue.drop calls.length)) =
    (DeltaQueue.deadlines now (t.entries queue)).drop calls.length

theorem map_snd_entries {t t' : CalloutTable F A} {l l' : List ℕ} {now now' : ℤ} {n : ℕ}
    (h : DeltaQueue.deadlines now' (t'.entries l') = (DeltaQueue.deadlines now (t.entries l)).drop n) :
    (t'.entries l').map Prod.snd = ((t.entries l).map Prod.snd).drop n := by
  have hmap := congrArg (List.map Prod.snd) h
  rwa [DeltaQueue.map_snd_deadlines, List.map_drop, DeltaQueue.map_snd_deadlines] at hmap

theorem Serves.trans {t t' t'' : CalloutTable F A} {queue : List ℕ} {ticks ticks' : ℕ}
    {calls calls' : List ((F × A) × ℤ)} (h : Serves t t' queue ticks calls)
    (h' : Serves t' t'' (queue.drop calls.length) ticks' calls') :
    Serves t t'' queue (ticks + ticks') (calls ++ calls') where
  lists := by
    obtain ⟨unused, hlists⟩ := h'.lists
    rw [List.drop_drop] at hlists
    exact ⟨unused, by rwa [List.length_append]⟩
  called := by
    have hrest := map_snd_entries (h.deadlines 0)
    rw [List.map_append, h.called, h'.called, List.map_take, List.map_take, hrest,
      List.length_append, List.map_take, List.take_add]
  due := List.forall_mem_append.mpr ⟨h.due, h'.due⟩
  deadlines now := by
    have hlater := h'.deadlines (now + ticks)
    rw [List.drop_drop, h.deadlines now, List.drop_drop] at hlater
    rw [List.length_append, ← hlater]
    push_cast
    rw [Int.add_assoc]

/-- One interrupt: `softclock` is run when it is needed and base priority was interrupted, and
then nothing is left due. -/
theorem hardclock_serves (hz : ℕ) {k : HardClock F A} {queue unused : List ℕ}
    (h : k.table.Lists queue unused) (i : Interrupt) :
    ∃ table table' soft calls,
      hardclock hz k i = .ok (⟨table, (charge hz i k.u).1, k.date.tick hz, i.show k.panel,
        k.panelSeq + 1⟩, (charge hz i k.u).2, soft) ∧
      softclockIf soft table = .ok (table', calls) ∧
      Serves k.table table' queue 1 calls ∧
      (i.basepri = true → ¬DeltaQueue.Due (table'.entries (queue.drop calls.length))) := by
  obtain ⟨table, htick, -, hlists, hentries⟩ := h.hardclock (i.usermode && k.u.prScale ≠ 0)
  have hdeadlines : ∀ now, DeltaQueue.deadlines (now + 1) (table.entries queue) =
      DeltaQueue.deadlines now (k.table.entries queue) := fun now ↦ by
    rw [hentries, DeltaQueue.deadlines_tick]
  have hfirst : ∃ soft, hardclock hz k i = .ok (⟨table, (charge hz i k.u).1, k.date.tick hz,
      i.show k.panel, k.panelSeq + 1⟩, (charge hz i k.u).2, soft) ∧
      (i.basepri = true → soft = false → ¬DeltaQueue.Due (table.entries queue)) := by
    unfold hardclock
    rw [htick]
    refine ⟨_, rfl, fun hbase hsoft hdue ↦ ?_⟩
    rw [hentries] at hdue
    simp [hbase, hdue] at hsoft
  obtain ⟨soft, hfirst, hidle⟩ := hfirst
  cases soft with
  | false =>
      refine ⟨table, table, false, [], hfirst, rfl, ⟨⟨unused, hlists⟩, rfl, nofun, ?_⟩, ?_⟩
      · exact fun now ↦ hdeadlines now
      · exact fun hbase ↦ hidle hbase rfl
  | true =>
      obtain ⟨table', served, left, unused', rfl, hlists', hloop, hleft, hserved, hnone⟩ :=
        hlists.softclocks (Nat.lt_succ_of_le hlists.queue_le)
      have hlength : ((table.entries served).map Prod.swap).length = served.length := by
        simp [CalloutTable.entries]
      have hdrop : (served ++ left).drop ((table.entries served).map Prod.swap).length = left := by
        rw [hlength, List.drop_left]
      refine ⟨table, table', true, _, hfirst, hloop, ⟨?_, ?_, ?_, fun now ↦ ?_⟩, ?_⟩
      · exact ⟨unused', by rwa [hdrop]⟩
      · have hsnd : (table.entries (served ++ left)).map Prod.snd =
            (k.table.entries (served ++ left)).map Prod.snd := by
          rw [hentries, DeltaQueue.map_snd_tick]
        rw [hlength, List.map_take, ← hsnd, CalloutTable.entries_append, List.map_append,
          List.take_left' (by simp [CalloutTable.entries]), List.map_map]
        rfl
      · intro call hcall
        obtain ⟨e, he, rfl⟩ := List.mem_map.mp hcall
        exact hserved e he
      · have hlater := hdeadlines now
        rw [CalloutTable.entries_append, DeltaQueue.deadlines_append hserved] at hlater
        rw [hdrop, hleft, ← hlater, hlength]
        refine (List.drop_left' ?_).symm
        rw [DeltaQueue.length_deadlines]
        simp [CalloutTable.entries]
      · rw [hdrop]
        exact fun _ ↦ hnone

/-- The interrupts end, call what is due at base priority, keep the other deadlines, and charge,
count and show what each of them does by itself; the panel shows the latest one. -/
theorem hardclocks_spec (hz : ℕ) {k : HardClock F A} {queue unused : List ℕ}
    (h : k.table.Lists queue unused) (is : List Interrupt) :
    ∃ k' calls, hardclocks hz k is = .ok (k', (chargeAll hz k.u is).2, calls) ∧
      Serves k.table k'.table queue is.length calls ∧
      (∀ i ∈ is.getLast?, i.basepri = true →
        ¬DeltaQueue.Due (k'.table.entries (queue.drop calls.length))) ∧
      k'.u = (chargeAll hz k.u is).1 ∧
      k'.date = k.date.run hz (List.replicate is.length .tick) ∧
      k'.panel = (is.getLast?.elim k.panel fun i ↦ i.show k.panel) ∧
      k'.panelSeq = k.panelSeq + BitVec.ofNat 16 is.length := by
  induction is generalizing k queue unused with
  | nil =>
      refine ⟨k, [], rfl, ⟨⟨unused, h⟩, rfl, nofun, fun now ↦ ?_⟩, nofun, rfl, rfl, rfl, ?_⟩
      · simp
      · simp
  | cons i is ih =>
      obtain ⟨table, table', soft, calls, hfirst, hsoft, hserves, hidle⟩ := hardclock_serves hz h i
      obtain ⟨unused', hlists⟩ := hserves.lists
      let k₁ : HardClock F A := ⟨table', (charge hz i k.u).1, k.date.tick hz, i.show k.panel,
        k.panelSeq + 1⟩
      obtain ⟨k', calls', hrest, hserves', hlast, hu, hdate, hpanel, hseq⟩ := ih (k := k₁) hlists
      refine ⟨k', calls ++ calls', ?_, ?_, fun j hj hbase ↦ ?_, hu, hdate, ?_, ?_⟩
      · change hardclocks hz ⟨table', (charge hz i k.u).1, k.date.tick hz, i.show k.panel,
          k.panelSeq + 1⟩ is = _ at hrest
        simp only [hardclocks, hfirst, hsoft, hrest, bind, Except.bind, pure, Except.pure]
        rfl
      · rw [List.length_cons, Nat.add_comm]
        exact hserves.trans hserves'
      · cases is with
        | nil =>
            cases hrest
            obtain rfl : i = j := Option.some.inj hj
            rw [List.append_nil]
            exact hidle hbase
        | cons i' is =>
            have hleft := hlast j hj hbase
            rwa [List.drop_drop, ← List.length_append] at hleft
      · rw [hpanel, List.getLast?_cons]
        cases is.getLast? <;> rfl
      · rw [hseq, List.length_cons, Nat.add_comm is.length, BitVec.ofNat_add, ← BitVec.add_assoc]
        rfl

/-- One callout, due in two ticks, at boot. -/
def oneQueued : HardClock ℕ ℕ where
  table := ⟨1, fun _ ↦ 2, fun _ ↦ 5, fun _ ↦ 7, fun _ ↦ none, some 0, none⟩
  u := ⟨0, 0, ⟨0, 0⟩, ⟨0, 0⟩, 1000, 1000, 0⟩
  date := ⟨0, 0, 0⟩
  panel := ⟨0, 0, 0, 0, 0, 0, 0⟩
  panelSeq := 0

/-- An interrupt of the idle processor, at base priority or above. -/
def idleInterrupt (r0 : BitVec 16) (basepri : Bool) : Interrupt :=
  ⟨r0, 0o1000, 0, fun _ ↦ 0, false, basepri, true⟩

/-- The callout becomes due above base priority and is called a tick later, at base priority. -/
theorem hardclocks_oneQueued :
    ∃ k', hardclocks 60 oneQueued [idleInterrupt 7 true, idleInterrupt 8 false,
        idleInterrupt 9 true] = .ok (k', [], [((7, 5), -1)]) ∧
      (∃ unused, k'.table.Lists [] unused) ∧ k'.panelSeq = 3 ∧ k'.panel.psData = 9 := by
  have hlists : oneQueued.table.Lists [0] [] := ⟨⟨rfl, rfl⟩, rfl, .refl _⟩
  obtain ⟨k', calls, hrun, hserves, -, -, -, hpanel, hseq⟩ := hardclocks_spec 60 hlists
    [idleInterrupt 7 true, idleInterrupt 8 false, idleInterrupt 9 true]
  have hcalls : ∃ k, hardclocks 60 oneQueued [idleInterrupt 7 true, idleInterrupt 8 false,
      idleInterrupt 9 true] = .ok (k, [], [((7, 5), -1)]) := ⟨_, rfl⟩
  obtain ⟨k, hk⟩ := hcalls
  rw [hrun] at hk
  cases hk
  refine ⟨k', hrun, hserves.lists, hseq, ?_⟩
  rw [hpanel]
  rfl

end VPanel.Kernel
