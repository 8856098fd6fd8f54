import Mathlib.Logic.Function.Basic
import VPanel.Library.EventRun
import VPanel.Library.Prescaler

/-!
# The two clocks of NetBSD

The real-time clock calls `hardclock` on each CPU.  A second clock, if there is
one, calls `statclock`; it runs faster while a process is being profiled, and
each CPU notices that at its next tick.

The lock of a process does not protect `profprocs` and `psdiv`, which all CPUs
share: a CPU that is in the middle of `startprofclock`, `stopprofclock` or
`statclock` may find that another one has changed them.
-/

namespace VPanel.Kernel.StatClock

open EventRun

/-! ## Frequencies -/

/-- What `cpu_initclocks` leaves in the variables. -/
structure Frequencies where
  hz : ℕ
  stathz : ℕ
  profhz : ℕ
  schedhz : ℕ
  /-- `profsrc == PROFSRC_CLOCK`. -/
  profsrcClock : Bool
  /-- `LWP_PC` is defined. -/
  lwpPc : Bool

/-- The frequency of the statistics. -/
def Frequencies.i (f : Frequencies) : ℕ := if f.stathz ≠ 0 then f.stathz else f.hz

/-- The profiling frequency is required to be a multiple of that of the statistics. -/
structure Frequencies.Required (f : Frequencies) : Prop where
  hz_pos : 0 < f.hz
  dvd : f.i ∣ f.profhz

structure Clocks where
  stathz : ℕ
  profhz : ℕ
  schedhz : ℕ
  psratio : ℕ
  hardscheddiv : ℕ
  profsrcClock : Bool
  lwpPc : Bool

/-- `initclocks`, unless it panics. -/
def initclocks (f : Frequencies) : Option Clocks :=
  let profhz := if f.profhz = 0 then f.i else f.profhz
  let hardscheddiv := if f.schedhz = 0 then f.hz / 16 else 0
  if f.schedhz = 0 ∧ hardscheddiv = 0 then none
  else some ⟨f.stathz, profhz, f.schedhz, profhz / f.i, hardscheddiv, f.profsrcClock, f.lwpPc⟩

/-! ## State -/

inductive CpState
  | user | nice | sys | intr | idle
  deriving DecidableEq

/-- The members of `struct schedstate_percpu`. -/
structure SchedState where
  spcSchedticks : ℤ
  spcPsdiv : ℤ
  spcPscnt : ℤ
  spcCpTime : CpState → ℕ

/-- The members of `struct proc`.  The tick counters here, of the CPUs and of the LWPs are taken not
to wrap. -/
structure ProcStat where
  /-- `PST_PROFIL` in `p_stflag`. -/
  profil : Bool
  pNice : ℤ
  pUticks : ℕ
  pSticks : ℕ
  pIticks : ℕ

structure ClockFrame where
  usermode : Bool
  intr : Bool
  pc : ℕ
  deriving DecidableEq

/-- What a CPU executes when a clock interrupts it. -/
structure Current (P L : Type) where
  /-- `ci_onproc` with its process, unless it is an idle LWP. -/
  onproc : Option (L × P)
  /-- `LP_INTR` in `l_pflag` of `curlwp`. -/
  lpIntr : Bool
  /-- `LWP_PC` of `ci_onproc`. -/
  lwpPc : ℕ
  deriving DecidableEq

/-- Where a CPU stands in a function that uses what other CPUs may change. -/
inductive Doing (P L : Type)
  | other
  /-- In `startprofclock`, or else in `stopprofclock`, with what was read of `profprocs`. -/
  | counting (starts : Bool) (profprocs : ℤ)
  /-- In one of them, with what `psdiv` is to be set to. -/
  | dividing (psdiv : ℤ)
  /-- In `statclock`, behind the comparison of the divisors. -/
  | ticking (frame : ClockFrame) (cur : Current P L)
  deriving DecidableEq

structure StatKernel (C P L : Type) where
  profprocs : ℤ
  psdiv : ℤ
  hardclockTicks : BitVec 32
  /-- `ps_frame` of the panel. -/
  psFrame : Option ClockFrame
  cpu : C → SchedState
  proc : P → ProcStat
  lCpticks : L → ℕ
  doing : C → Doing P L

/-- What an interrupt has the rest of the kernel do. -/
structure Effect (L : Type) where
  /-- The argument of `setstatclockrate`. -/
  setstatclockrate : Option ℕ
  addupcIntr : Option (L × ℕ)
  /-- `schedclock` is called; it passes an LWP that is not idle to `sched_schedclock`. -/
  schedclock : Bool
  schedSchedclock : Option L
  panelUpdateTick : Bool
  deriving DecidableEq

def Effect.none {L : Type} : Effect L := ⟨.none, .none, false, .none, false⟩

section Functions

variable {C P L : Type} [DecidableEq C] [DecidableEq P] [DecidableEq L] (cl : Clocks)
  (k : StatKernel C P L)

def StatKernel.setCpu (c : C) (spc : SchedState) : StatKernel C P L :=
  { k with cpu := Function.update k.cpu c spc }

def StatKernel.setProc (p : P) (stat : ProcStat) : StatKernel C P L :=
  { k with proc := Function.update k.proc p stat }

def StatKernel.setDoing (c : C) (doing : Doing P L) : StatKernel C P L :=
  { k with doing := Function.update k.doing c doing }

/-! ## Profiling -/

/-- Up to the point where `profprocs` is read. -/
def startprofclock (c : C) (p : P) : StatKernel C P L :=
  if (k.proc p).profil then k
  else (k.setProc p { k.proc p with profil := true }).setDoing c (.counting true k.profprocs)

def stopprofclock (c : C) (p : P) : StatKernel C P L :=
  if (k.proc p).profil then
    (k.setProc p { k.proc p with profil := false }).setDoing c (.counting false k.profprocs)
  else k

/-- `profprocs` is written and compared. -/
def writeProfprocs (c : C) : Bool → ℤ → StatKernel C P L
  | true, read =>
      { k with profprocs := read + 1 }.setDoing c
        (if read + 1 = 1 ∧ cl.stathz ≠ 0 then .dividing cl.psratio else .other)
  | false, read =>
      { k with profprocs := read - 1 }.setDoing c
        (if read - 1 = 0 ∧ cl.stathz ≠ 0 then .dividing 1 else .other)

def writePsdiv (c : C) (psdiv : ℤ) : StatKernel C P L := { k with psdiv }.setDoing c .other

/-! ## The statistics clock -/

/-- The divisor of a CPU after it was compared with `psdiv`. -/
def noticeDivisor (psdiv : ℤ) (spc : SchedState) : SchedState × Option ℕ :=
  if spc.spcPsdiv ≠ psdiv then
    ({ spc with spcPsdiv := psdiv, spcPscnt := psdiv },
      some (if psdiv = 1 then cl.stathz else cl.profhz))
  else (spc, none)

/-- The profiling sample of a tick, from the process on the CPU. -/
def sample (frame : ClockFrame) (cur : Current P L) : Option (L × ℕ) :=
  match cur.onproc with
  | none => none
  | some (l, p) =>
      if (k.proc p).profil && cl.profsrcClock then
        if frame.usermode then some (l, frame.pc)
        else if cl.lwpPc then some (l, cur.lwpPc) else none
      else none

def nzero : ℤ := 20

def cpState (frame : ClockFrame) (cur : Current P L) : CpState :=
  match frame.usermode, cur.onproc with
  | true, some (_, p) => if (k.proc p).pNice > nzero then .nice else .user
  | true, none => .user
  | false, onproc =>
      if frame.intr || cur.lpIntr then .intr
      else if onproc.isSome then .sys else .idle

def ProcStat.charge (stat : ProcStat) : CpState → ProcStat
  | .user | .nice => { stat with pUticks := stat.pUticks + 1 }
  | .intr => { stat with pIticks := stat.pIticks + 1 }
  | .sys => { stat with pSticks := stat.pSticks + 1 }
  | .idle => stat

def SchedState.charge (spc : SchedState) (s : CpState) : SchedState :=
  { spc with spcCpTime := Function.update spc.spcCpTime s (spc.spcCpTime s + 1) }

/-- Charge a tick to the CPU, and to the process and the LWP on it. -/
def StatKernel.charge (c : C) (s : CpState) (onproc : Option (L × P)) : StatKernel C P L :=
  let k := k.setCpu c ((k.cpu c).charge s)
  match onproc with
  | none => k
  | some (l, p) =>
      { k.setProc p ((k.proc p).charge s) with
        lCpticks := Function.update k.lCpticks l (k.lCpticks l + 1) }

/-- `statclock` up to the lock of the process.  It reads `psdiv` several times, with nothing in
between that would have a compiler read it again; the model reads it once. -/
def compareDivisor (c : C) : StatKernel C P L × Option ℕ :=
  let (spc, rate) := noticeDivisor cl k.psdiv (k.cpu c)
  (k.setCpu c spc, rate)

/-- `statclock` behind it; `psdiv` is read again. -/
def countTick (c : C) (frame : ClockFrame) (cur : Current P L) :
    StatKernel C P L × Option (L × ℕ) :=
  let spc := k.cpu c
  if 0 < spc.spcPscnt - 1 then
    (k.setCpu c { spc with spcPscnt := spc.spcPscnt - 1 }, sample cl k frame cur)
  else
    ((k.setCpu c { spc with spcPscnt := k.psdiv }).charge c (cpState k frame cur) cur.onproc,
      sample cl k frame cur)

/-- A CPU in user mode is not idle. -/
def asserted (frame : ClockFrame) (cur : Current P L) : Bool :=
  !(frame.usermode && cur.onproc.isNone)

/-- `statclock` on a CPU while no other one changes `psdiv`. -/
def statclock (c : C) (frame : ClockFrame) (cur : Current P L) :
    Option (StatKernel C P L × Option ℕ × Option (L × ℕ)) :=
  if asserted frame cur then
    let (k, rate) := compareDivisor cl k c
    let (k, sampled) := countTick cl k c frame cur
    some (k, rate, sampled)
  else none

/-! ## The real-time clock -/

/-- The divider that calls `schedclock` when nothing else does. -/
def divideSched (spc : SchedState) : SchedState × Bool :=
  if cl.schedhz = 0 then
    if spc.spcSchedticks - 1 ≤ 0 then ({ spc with spcSchedticks := cl.hardscheddiv }, true)
    else ({ spc with spcSchedticks := spc.spcSchedticks - 1 }, false)
  else (spc, false)

def hardclock (primary c : C) (frame : ClockFrame) (cur : Current P L) :
    Option (StatKernel C P L × Effect L) := do
  let k := { k with psFrame := if c = primary then some frame else k.psFrame }
  -- Without a clock of their own the statistics are run from here, and `psdiv` stays 1.
  let (k, rate, sampled) ←
    if cl.stathz = 0 then statclock cl k c frame cur else some (k, none, none)
  let (spc, due) := divideSched cl (k.cpu c)
  return ({ k.setCpu c spc with
      hardclockTicks := if c = primary then k.hardclockTicks + 1 else k.hardclockTicks },
    ⟨rate, sampled, due, if due then cur.onproc.map Prod.fst else none, c = primary⟩)

/-! ## Runs -/

inductive ClockEvent (C P L : Type)
  | startprofclock (c : C) (p : P)
  | stopprofclock (c : C) (p : P)
  | writeProfprocs (c : C)
  | writePsdiv (c : C) (psdiv : ℤ)
  | setNice (p : P) (nice : ℤ)
  | statclock (c : C) (frame : ClockFrame) (cur : Current P L)
  | countTick (c : C)
  | hardclock (c : C) (frame : ClockFrame) (cur : Current P L)
  deriving DecidableEq

/-- The lock that is held in a section keeps interrupts from its CPU, and the two clocks of a CPU do
not interrupt each other. -/
def StatKernel.step (primary : C) : ClockEvent C P L → Option (StatKernel C P L × Effect L)
  | .startprofclock c p =>
      if k.doing c = .other then some (startprofclock k c p, .none) else none
  | .stopprofclock c p =>
      if k.doing c = .other then some (stopprofclock k c p, .none) else none
  | .writeProfprocs c =>
      match k.doing c with
      | .counting starts read => some (writeProfprocs cl k c starts read, .none)
      | _ => none
  | .writePsdiv c psdiv =>
      if k.doing c = .dividing psdiv then some (writePsdiv k c psdiv, .none) else none
  | .setNice p nice => some (k.setProc p { k.proc p with pNice := nice }, .none)
  | .statclock c frame cur =>
      if cl.stathz ≠ 0 ∧ k.doing c = .other ∧ asserted frame cur then
        let (k, rate) := compareDivisor cl k c
        some (k.setDoing c (.ticking frame cur), { Effect.none with setstatclockrate := rate })
      else none
  | .countTick c =>
      match k.doing c with
      | .ticking frame cur =>
          let (k, sampled) := countTick cl k c frame cur
          some (k.setDoing c .other, { Effect.none with addupcIntr := sampled })
      | _ => none
  | .hardclock c frame cur =>
      if k.doing c = .other then hardclock cl k primary c frame cur else none

def clocks (primary : C) (boot : StatKernel C P L) :
    Machine (StatKernel C P L) (ClockEvent C P L) (Effect L) where
  initial := boot
  step k := k.step cl primary

end Functions

/-! ## Before the first interrupt -/

theorem Frequencies.Required.i_pos {f : Frequencies} (hf : f.Required) : 0 < f.i := by
  unfold Frequencies.i
  split
  · omega
  · exact hf.hz_pos

theorem initclocks_spec {f : Frequencies} (hf : f.Required) {cl : Clocks}
    (h : initclocks f = some cl) :
    cl.stathz = f.stathz ∧ cl.schedhz = f.schedhz ∧ 0 < cl.profhz ∧ 1 ≤ cl.psratio ∧
      (cl.stathz ≠ 0 → cl.profhz / cl.stathz = cl.psratio) ∧
      (cl.schedhz = 0 → 1 ≤ cl.hardscheddiv ∧ cl.hardscheddiv = f.hz / 16) := by
  have hi := hf.i_pos
  have hprofhz : 0 < (if f.profhz = 0 then f.i else f.profhz) ∧
      f.i ∣ (if f.profhz = 0 then f.i else f.profhz) := by
    split
    · exact ⟨hi, Nat.dvd_refl _⟩
    · exact ⟨by omega, hf.dvd⟩
  rw [initclocks, Option.ite_none_left_eq_some] at h
  obtain ⟨hsched, h⟩ := h
  cases h
  dsimp only
  refine ⟨rfl, rfl, hprofhz.1, ?_, fun hz ↦ ?_, fun hz ↦ ?_⟩
  · exact Nat.div_pos (Nat.le_of_dvd hprofhz.1 hprofhz.2) hi
  · rw [show f.i = f.stathz from if_pos hz]
  · rw [if_pos hz] at hsched ⊢
    exact ⟨by omega, rfl⟩

section Boot

variable {C P L : Type} {boot : StatKernel C P L}

/-- The ticks that a CPU has charged to any state. -/
def SchedState.charges (spc : SchedState) : ℕ :=
  spc.spcCpTime .user + spc.spcCpTime .nice + spc.spcCpTime .sys + spc.spcCpTime .intr +
    spc.spcCpTime .idle

/-- Before the first interrupt.  `initclocks` has set `psdiv`; the counters of the CPUs are zero
or one. -/
structure Boot (k : StatKernel C P L) : Prop where
  profprocs : k.profprocs = 0
  psdiv : k.psdiv = 1
  hardclockTicks : k.hardclockTicks = 0
  psFrame : k.psFrame = none
  counters : ∀ c, (k.cpu c).spcPsdiv ≤ 1 ∧ (k.cpu c).spcPscnt ≤ 1 ∧ (k.cpu c).spcSchedticks ≤ 1
  spcCpTime : ∀ c s, (k.cpu c).spcCpTime s = 0
  profil : ∀ p, (k.proc p).profil = false
  ticks : ∀ p, (k.proc p).pUticks = 0 ∧ (k.proc p).pSticks = 0 ∧ (k.proc p).pIticks = 0
  lCpticks : ∀ l, k.lCpticks l = 0
  doing : ∀ c, k.doing c = .other

theorem Boot.charges (h : Boot boot) (c : C) : (boot.cpu c).charges = 0 := by
  have hzero := h.spcCpTime c
  rw [SchedState.charges, hzero, hzero, hzero, hzero, hzero]

end Boot

/-! ## What the steps change -/

/-- Two states of a CPU that its statistics clock does not tell apart. -/
def Same (spc spc' : SchedState) : Prop :=
  spc'.spcPsdiv = spc.spcPsdiv ∧ spc'.spcPscnt = spc.spcPscnt ∧ spc'.charges = spc.charges

theorem Same.refl (spc : SchedState) : Same spc spc := ⟨rfl, rfl, rfl⟩

section SetCpu

variable {C P L : Type} [DecidableEq C] {k : StatKernel C P L} {c : C}

theorem setCpu_self (spc : SchedState) : (k.setCpu c spc).cpu c = spc := Function.update_self ..

theorem setCpu_of_ne (spc : SchedState) {c' : C} (h : c' ≠ c) :
    (k.setCpu c spc).cpu c' = k.cpu c' := Function.update_of_ne h ..

theorem doing_setDoing (c : C) (d : Doing P L) : (k.setDoing c d).doing c = d :=
  Function.update_self ..

theorem doing_setDoing_of_ne {c c' : C} (h : c' ≠ c) (d : Doing P L) :
    (k.setDoing c d).doing c' = k.doing c' := Function.update_of_ne h ..

end SetCpu

section Steps

variable {C P L : Type} [DecidableEq C] [DecidableEq P] [DecidableEq L] {cl : Clocks}
  {k k' : StatKernel C P L} {primary c : C} {frame : ClockFrame} {cur : Current P L}

/-- A CPU after the second part of `statclock`, but for the states that it charges. -/
structure Counted (psdiv : ℤ) (spc spc' : SchedState) : Prop where
  schedticks : spc'.spcSchedticks = spc.spcSchedticks
  spcPsdiv : spc'.spcPsdiv = spc.spcPsdiv
  counted : spc'.spcPscnt = (Prescaler.tick psdiv spc.spcPscnt).1
  charged : spc'.charges = spc.charges + if (Prescaler.tick psdiv spc.spcPscnt).2 then 1 else 0

theorem noticeDivisor_cases (cl : Clocks) (psdiv : ℤ) (spc : SchedState) :
    spc.spcPsdiv = psdiv ∧ noticeDivisor cl psdiv spc = (spc, none) ∨
      spc.spcPsdiv ≠ psdiv ∧ noticeDivisor cl psdiv spc =
        ({ spc with spcPsdiv := psdiv, spcPscnt := psdiv },
          some (if psdiv = 1 then cl.stathz else cl.profhz)) := by
  by_cases h : spc.spcPsdiv = psdiv
  · exact Or.inl ⟨h, if_neg fun hne ↦ hne h⟩
  · exact Or.inr ⟨h, if_pos h⟩

theorem charge_cpu (s : CpState) (onproc : Option (L × P)) :
    (k.charge c s onproc).cpu = (k.setCpu c ((k.cpu c).charge s)).cpu := by
  cases onproc <;> rfl

theorem charges_charge (spc : SchedState) (s : CpState) :
    (spc.charge s).charges = spc.charges + 1 := by
  cases s <;> simp [SchedState.charges, SchedState.charge] <;> omega

theorem noticeDivisor_keeps (cl : Clocks) (psdiv : ℤ) (spc : SchedState) :
    (noticeDivisor cl psdiv spc).1.spcPsdiv = psdiv ∧
      (noticeDivisor cl psdiv spc).1.spcSchedticks = spc.spcSchedticks ∧
      (noticeDivisor cl psdiv spc).1.charges = spc.charges := by
  rcases noticeDivisor_cases cl psdiv spc with ⟨hsame, heq⟩ | ⟨-, heq⟩
  · rw [heq]
    exact ⟨hsame, rfl, rfl⟩
  · rw [heq]
    exact ⟨rfl, rfl, rfl⟩

/-- A tick that counts, or one that charges. -/
theorem countTick_cases (cl : Clocks) (k : StatKernel C P L) (c : C) (frame : ClockFrame)
    (cur : Current P L) :
    1 < (k.cpu c).spcPscnt ∧ (countTick cl k c frame cur).1 =
        k.setCpu c { k.cpu c with spcPscnt := (k.cpu c).spcPscnt - 1 } ∨
      (k.cpu c).spcPscnt ≤ 1 ∧ (countTick cl k c frame cur).1 =
        (k.setCpu c { k.cpu c with spcPscnt := k.psdiv }).charge c (cpState k frame cur)
          cur.onproc := by
  unfold countTick
  dsimp only
  split
  · exact Or.inl ⟨by omega, rfl⟩
  · exact Or.inr ⟨by omega, rfl⟩

theorem statclock_eq_some {r : StatKernel C P L × Option ℕ × Option (L × ℕ)}
    (h : statclock cl k c frame cur = some r) :
    asserted frame cur = true ∧
      r.1 = (countTick cl (k.setCpu c (noticeDivisor cl k.psdiv (k.cpu c)).1) c frame cur).1 := by
  obtain ⟨hasserted, heq⟩ := Option.ite_none_right_eq_some.mp h
  cases heq
  exact ⟨hasserted, rfl⟩

/-- What the ticks of the clocks leave alone. -/
structure Framed (k k' : StatKernel C P L) : Prop where
  psdiv : k'.psdiv = k.psdiv
  profprocs : k'.profprocs = k.profprocs
  profil : ∀ p, (k'.proc p).profil = (k.proc p).profil
  doing : k'.doing = k.doing

theorem charge_frame (s : CpState) (onproc : Option (L × P)) :
    Framed k (k.charge c s onproc) ∧ (k.charge c s onproc).hardclockTicks = k.hardclockTicks ∧
      (k.charge c s onproc).psFrame = k.psFrame := by
  cases onproc with
  | none => exact ⟨⟨rfl, rfl, fun _ ↦ rfl, rfl⟩, rfl, rfl⟩
  | some lp =>
      obtain ⟨l, q⟩ := lp
      refine ⟨⟨rfl, rfl, fun p ↦ ?_, rfl⟩, rfl, rfl⟩
      change (Function.update k.proc q ((k.proc q).charge s) p).profil = _
      by_cases hp : p = q
      · subst hp
        rw [Function.update_self]
        cases s <;> rfl
      · rw [Function.update_of_ne hp]

/-- The second part of `statclock` changes the CPU and leaves the rest of the clocks alone. -/
theorem countTick_spec (cl : Clocks) (k : StatKernel C P L) (c : C) (frame : ClockFrame)
    (cur : Current P L) :
    let k' := (countTick cl k c frame cur).1
    Counted k.psdiv (k.cpu c) (k'.cpu c) ∧ (∀ c' ≠ c, k'.cpu c' = k.cpu c') ∧ Framed k k' ∧
      k'.hardclockTicks = k.hardclockTicks ∧ k'.psFrame = k.psFrame := by
  dsimp only
  rcases countTick_cases cl k c frame cur with ⟨hcount, hk⟩ | ⟨hcount, hk⟩
  · rw [hk]
    refine ⟨?_, fun c' hc ↦ setCpu_of_ne _ hc, ⟨rfl, rfl, fun _ ↦ rfl, rfl⟩, rfl, rfl⟩
    rw [setCpu_self]
    refine ⟨rfl, rfl, ?_, ?_⟩
    · rw [Prescaler.tick_pos hcount]
    · rw [Prescaler.tick_pos hcount]
      rfl
  · obtain ⟨hframed, hticks, hframe⟩ := charge_frame (c := c)
      (k := k.setCpu c { k.cpu c with spcPscnt := k.psdiv }) (cpState k frame cur) cur.onproc
    rw [hk, charge_cpu]
    refine ⟨?_, fun c' hc ↦ ?_, ⟨hframed.psdiv, hframed.profprocs, hframed.profil, hframed.doing⟩,
      hticks, hframe⟩
    · rw [setCpu_self, setCpu_self]
      refine ⟨rfl, rfl, ?_, ?_⟩
      · rw [Prescaler.tick_fires hcount]
        rfl
      · rw [Prescaler.tick_fires hcount, charges_charge]
        rfl
    · rw [setCpu_of_ne _ hc, setCpu_of_ne _ hc]

theorem statclock_spec {r : StatKernel C P L × Option ℕ × Option (L × ℕ)}
    (h : statclock cl k c frame cur = some r) :
    Counted k.psdiv (noticeDivisor cl k.psdiv (k.cpu c)).1 (r.1.cpu c) ∧
      (∀ c' ≠ c, r.1.cpu c' = k.cpu c') ∧ Framed k r.1 ∧
      r.1.hardclockTicks = k.hardclockTicks ∧ r.1.psFrame = k.psFrame := by
  obtain ⟨-, hr⟩ := statclock_eq_some h
  obtain ⟨hcounted, hother, hframed, hticks, hframe⟩ := countTick_spec cl
    (k.setCpu c (noticeDivisor cl k.psdiv (k.cpu c)).1) c frame cur
  rw [setCpu_self] at hcounted
  rw [hr]
  refine ⟨hcounted, fun c' hc ↦ (hother c' hc).trans (setCpu_of_ne _ hc),
    ⟨hframed.psdiv, hframed.profprocs, hframed.profil, hframed.doing⟩, hticks, hframe⟩

theorem hardclock_cases {r : StatKernel C P L × Effect L}
    (h : hardclock cl k primary c frame cur = some r) :
    let k₀ := { k with psFrame := if c = primary then some frame else k.psFrame }
    ∃ k₁ rate sampled,
      (cl.stathz = 0 ∧ statclock cl k₀ c frame cur = some (k₁, rate, sampled) ∨
        cl.stathz ≠ 0 ∧ (k₁, rate, sampled) = (k₀, none, none)) ∧
      r = ({ k₁.setCpu c (divideSched cl (k₁.cpu c)).1 with
          hardclockTicks := if c = primary then k₁.hardclockTicks + 1 else k₁.hardclockTicks },
        ⟨rate, sampled, (divideSched cl (k₁.cpu c)).2,
          if (divideSched cl (k₁.cpu c)).2 then cur.onproc.map Prod.fst else none,
          c = primary⟩) := by
  unfold hardclock at h
  by_cases hz : cl.stathz = 0
  · rw [if_pos hz, Option.bind_eq_bind, Option.bind_eq_some_iff] at h
    obtain ⟨⟨k₁, rate, sampled⟩, hstat, h⟩ := h
    cases h
    exact ⟨k₁, rate, sampled, Or.inl ⟨hz, hstat⟩, rfl⟩
  · rw [if_neg hz] at h
    cases h
    exact ⟨_, _, _, Or.inr ⟨hz, rfl⟩, rfl⟩

theorem divideSched_eq (hz : cl.schedhz = 0) (spc : SchedState) :
    divideSched cl spc =
      ({ spc with spcSchedticks := (Prescaler.tick cl.hardscheddiv spc.spcSchedticks).1 },
        (Prescaler.tick cl.hardscheddiv spc.spcSchedticks).2) := by
  rw [divideSched, if_pos hz]
  by_cases h : 1 < spc.spcSchedticks
  · rw [if_neg (by omega), Prescaler.tick_pos h]
  · rw [if_pos (by omega), Prescaler.tick_fires (by omega)]

theorem divideSched_same (spc : SchedState) : Same spc (divideSched cl spc).1 := by
  unfold divideSched
  split_ifs <;> exact Same.refl spc

/-- A CPU after a tick of the real-time clock. -/
structure Hard (cl : Clocks) (psdiv : ℤ) (spc spc' : SchedState) (due : Bool) : Prop where
  schedticks : cl.schedhz = 0 →
    (spc'.spcSchedticks, due) = Prescaler.tick cl.hardscheddiv spc.spcSchedticks
  separate : cl.stathz ≠ 0 → Same spc spc'
  driven : cl.stathz = 0 →
    ∃ spc₁, Counted psdiv (noticeDivisor cl psdiv spc).1 spc₁ ∧ Same spc₁ spc'

theorem hardclock_spec {r : StatKernel C P L × Effect L}
    (h : hardclock cl k primary c frame cur = some r) :
    Hard cl k.psdiv (k.cpu c) (r.1.cpu c) r.2.schedclock ∧ (∀ c' ≠ c, r.1.cpu c' = k.cpu c') ∧
      Framed k r.1 ∧
      (r.1.hardclockTicks = k.hardclockTicks + if c = primary then 1 else 0) ∧
      (r.1.psFrame = if c = primary then some frame else k.psFrame) ∧
      r.2.panelUpdateTick = decide (c = primary) := by
  obtain ⟨k₁, rate, sampled, hstat, rfl⟩ := hardclock_cases h
  have hframed : Framed k k₁ ∧ (∀ c' ≠ c, k₁.cpu c' = k.cpu c') ∧
      (k₁.cpu c).spcSchedticks = (k.cpu c).spcSchedticks ∧
      k₁.hardclockTicks = k.hardclockTicks ∧
      k₁.psFrame = (if c = primary then some frame else k.psFrame) ∧
      (cl.stathz = 0 →
        Counted k.psdiv (noticeDivisor cl k.psdiv (k.cpu c)).1 (k₁.cpu c)) ∧
      (cl.stathz ≠ 0 → k₁.cpu c = k.cpu c) := by
    rcases hstat with ⟨hz, hstat⟩ | ⟨hz, heq⟩
    · obtain ⟨hcounted, hother, hframed, hticks, hframe⟩ := statclock_spec hstat
      exact ⟨⟨hframed.psdiv, hframed.profprocs, hframed.profil, hframed.doing⟩, hother,
        hcounted.schedticks.trans (noticeDivisor_keeps cl k.psdiv (k.cpu c)).2.1, hticks, hframe,
        fun _ ↦ hcounted, fun hne ↦ absurd hz hne⟩
    · cases heq
      exact ⟨⟨rfl, rfl, fun _ ↦ rfl, rfl⟩, fun _ _ ↦ rfl, rfl, rfl, rfl, fun h0 ↦ absurd h0 hz,
        fun _ ↦ rfl⟩
  obtain ⟨hframed, hother, hsched, hticks, hframe, hdriven, hseparate⟩ := hframed
  have hself : (k₁.setCpu c (divideSched cl (k₁.cpu c)).1).cpu c =
      (divideSched cl (k₁.cpu c)).1 := setCpu_self _
  have hsame : Same (k₁.cpu c) (divideSched cl (k₁.cpu c)).1 := divideSched_same _
  refine ⟨⟨fun hz ↦ ?_, fun hz ↦ ?_, fun hz ↦ ?_⟩, fun c' hc ↦ ?_,
    ⟨hframed.psdiv, hframed.profprocs, hframed.profil, hframed.doing⟩, ?_, hframe, rfl⟩
  · dsimp only
    rw [hself, divideSched_eq hz, hsched]
  · dsimp only
    rw [hself, ← hseparate hz]
    exact hsame
  · dsimp only
    rw [hself]
    exact ⟨_, hdriven hz, hsame⟩
  · exact (setCpu_of_ne _ hc).trans (hother c' hc)
  · dsimp only
    rw [hticks]
    split
    · rfl
    · exact (BitVec.add_zero _).symm

end Steps

/-! ## What a step does -/

section Cases

variable {C P L : Type} [DecidableEq C] [DecidableEq P] {cl : Clocks} {k : StatKernel C P L}
  {primary : C}

/-- A process is marked, and its section begun unless it was marked before. -/
theorem profclock_cases (k : StatKernel C P L) (c : C) (p : P) :
    (startprofclock k c p = k ∨ (k.proc p).profil = false ∧ startprofclock k c p =
        (k.setProc p { k.proc p with profil := true }).setDoing c (.counting true k.profprocs)) ∧
      (stopprofclock k c p = k ∨ (k.proc p).profil = true ∧ stopprofclock k c p =
        (k.setProc p { k.proc p with profil := false }).setDoing c
          (.counting false k.profprocs)) := by
  unfold startprofclock stopprofclock
  cases hp : (k.proc p).profil with
  | true => exact ⟨Or.inl rfl, Or.inr ⟨rfl, rfl⟩⟩
  | false => exact ⟨Or.inr ⟨rfl, rfl⟩, Or.inl rfl⟩

variable [DecidableEq L]

theorem step_writeProfprocs {c : C} {r : StatKernel C P L × Effect L}
    (h : k.step cl primary (.writeProfprocs c) = some r) :
    ∃ starts read, k.doing c = .counting starts read ∧
      r = (writeProfprocs cl k c starts read, .none) := by
  rw [StatKernel.step] at h
  split at h
  · exact ⟨_, _, ‹_›, (Option.some.inj h).symm⟩
  · cases h

theorem step_statclock {c : C} {frame : ClockFrame} {cur : Current P L}
    {r : StatKernel C P L × Effect L}
    (h : k.step cl primary (.statclock c frame cur) = some r) :
    (cl.stathz ≠ 0 ∧ k.doing c = .other ∧ asserted frame cur) ∧
      r = ((k.setCpu c (noticeDivisor cl k.psdiv (k.cpu c)).1).setDoing c (.ticking frame cur),
        { Effect.none with setstatclockrate := (noticeDivisor cl k.psdiv (k.cpu c)).2 }) := by
  obtain ⟨hguard, heq⟩ := Option.ite_none_right_eq_some.mp h
  exact ⟨hguard, (Option.some.inj heq).symm⟩

theorem step_countTick {c : C} {r : StatKernel C P L × Effect L}
    (h : k.step cl primary (.countTick c) = some r) :
    ∃ frame cur, k.doing c = .ticking frame cur ∧
      r.1 = (countTick cl k c frame cur).1.setDoing c .other := by
  rw [StatKernel.step] at h
  split at h
  · obtain rfl := Option.some.inj h
    exact ⟨_, _, ‹_›, rfl⟩
  · cases h

end Cases

end VPanel.Kernel.StatClock
