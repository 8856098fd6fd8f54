import Mathlib.Tactic.NormNum
import VPanel.Wire.PanelStates

/-!
# The CPU percentage of the macOS client

`get_system_stats` computes with the 32-bit tick counters of the host and
keeps those of its previous call in a static variable.  Sums, differences and
the multiplication by 100 all wrap.
-/

namespace VPanel.Client.Macos

open Wire

/-- `cpu_ticks` of a `host_cpu_load_info`. -/
structure CpuTicks where
  user : BitVec 32
  system : BitVec 32
  idle : BitVec 32
  nice : BitVec 32
  deriving DecidableEq

namespace CpuTicks

def zero : CpuTicks := ⟨0, 0, 0, 0⟩

def delta (cpuinfo prevCpuinfo : CpuTicks) : CpuTicks where
  user := cpuinfo.user - prevCpuinfo.user
  system := cpuinfo.system - prevCpuinfo.system
  idle := cpuinfo.idle - prevCpuinfo.idle
  nice := cpuinfo.nice - prevCpuinfo.nice

def total (t : CpuTicks) : BitVec 32 := t.user + t.system + t.idle + t.nice

/-- The assignment to `cpu_usage`, made when the total is positive. -/
def usage (t : CpuTicks) (cpuUsage : BitVec 32) : BitVec 32 :=
  if 0 < t.total then (100 * (t.user + t.system)) / t.total else cpuUsage

end CpuTicks

structure VmStat where
  freeCount : BitVec 32
  activeCount : BitVec 32
  inactiveCount : BitVec 32
  wireCount : BitVec 32

def VmStat.usage (v : VmStat) (pageSize : BitVec 64) (memoryUsage : BitVec 32) : BitVec 32 :=
  let totalMem :=
    (v.freeCount + v.activeCount + v.inactiveCount + v.wireCount).setWidth 64 * pageSize
  let usedMem := (v.activeCount + v.inactiveCount + v.wireCount).setWidth 64 * pageSize
  if 0 < totalMem then ((100 * usedMem) / totalMem).setWidth 32 else memoryUsage

/-- What the system calls of `get_system_stats` deliver; `none` is a failure.  The load average
is the product with 100, converted to an integer. -/
structure SystemReads where
  hostStatistics : Option CpuTicks
  hostStatistics64 : Option (BitVec 64 × VmStat)
  getloadavg : Option (BitVec 32)
  procPidinfo : Option (BitVec 32)

/-- The static variables. -/
structure StatsStatics where
  prevCpuinfo : CpuTicks
  firstCall : Bool

def StatsStatics.initial : StatsStatics := ⟨.zero, true⟩

/-- The part of `get_system_stats` under the success of `host_statistics`. -/
def cpuLoad (statics : StatsStatics) (cpuinfo : CpuTicks) (cpuUsage : BitVec 32) :
    StatsStatics × BitVec 32 :=
  if statics.firstCall then (⟨cpuinfo, false⟩, cpuinfo.usage cpuUsage)
  else (⟨cpuinfo, false⟩, (cpuinfo.delta statics.prevCpuinfo).usage cpuUsage)

def getSystemStats (statics : StatsStatics) (reads : SystemReads) (panel : MacosPanelState) :
    StatsStatics × MacosPanelState :=
  let (statics, cpuUsage) :=
    match reads.hostStatistics with
    | some cpuinfo => cpuLoad statics cpuinfo panel.cpuUsage
    | none => (statics, panel.cpuUsage)
  let memoryUsage :=
    match reads.hostStatistics64 with
    | some (pageSize, vmStat) => vmStat.usage pageSize panel.memoryUsage
    | none => panel.memoryUsage
  (statics,
    { panel with
      cpuUsage := cpuUsage, memoryUsage := memoryUsage
      loadAverage := reads.getloadavg.getD panel.loadAverage
      threadCount := reads.procPidinfo.getD panel.threadCount })

/-! ## The loop -/

/-- The registers of a thread and the clock. -/
structure ThreadState where
  pc : BitVec 64
  sp : BitVec 64
  fp : BitVec 64
  lr : BitVec 64
  x0 : BitVec 64
  x1 : BitVec 64
  machAbsoluteTime : BitVec 64

def captureCpuState (state : ThreadState) (panel : MacosPanelState) : MacosPanelState :=
  { panel with
    pc := state.pc, sp := state.sp, fp := state.fp, lr := state.lr, x0 := state.x0
    x1 := state.x1, architecture := 1, timestamp := state.machAbsoluteTime.setWidth 32 }

structure Frame where
  /-- `none` when the capture fails; the panel is then left as it is. -/
  thread : Option ThreadState
  reads : SystemReads

structure LoopState where
  statics : StatsStatics
  panel : MacosPanelState

/-- One pass of `send_frames` up to the packet. -/
def LoopState.frame (c : LoopState) (f : Frame) : LoopState :=
  let panel := f.thread.elim c.panel fun state ↦ captureCpuState state c.panel
  let (statics, panel) := getSystemStats c.statics f.reads panel
  ⟨statics, panel⟩

/-- The panel is not initialised before the loop. -/
def LoopState.run (panel : MacosPanelState) (fs : List Frame) : LoopState :=
  fs.foldl LoopState.frame ⟨.initial, panel⟩

/-! ## The exact percentage -/

def lastTicks (fs : List Frame) : Option CpuTicks :=
  (fs.filterMap fun f ↦ f.reads.hostStatistics).getLast?

/-- The amounts a call has to use: the counters at the first success, later what each of them has
gained since the call before, modulo their width. -/
def usedTicks (previous : Option CpuTicks) (cpuinfo : CpuTicks) : CpuTicks :=
  match previous with
  | none => cpuinfo
  | some last =>
      { user := cpuinfo.user - last.user, system := cpuinfo.system - last.system
        idle := cpuinfo.idle - last.idle, nice := cpuinfo.nice - last.nice }

def CpuTicks.busy (t : CpuTicks) : ℕ := t.user.toNat + t.system.toNat

def CpuTicks.sum (t : CpuTicks) : ℕ := t.busy + t.idle.toNat + t.nice.toNat

/-- The percentage is the floor of the exact quotient when the sum of the amounts fits
into 32 bits, and is left alone when the sum is zero. -/
structure UsageExact (t : CpuTicks) (before after : BitVec 32) : Prop where
  exact : 0 < t.sum → t.sum < 2 ^ 32 →
    after.toNat = 100 * t.busy / t.sum ∧ after.toNat ≤ 100
  unchanged : t.sum = 0 → after = before

theorem toNat_total {t : CpuTicks} (h : t.sum < 2 ^ 32) : t.total.toNat = t.sum := by
  unfold CpuTicks.sum CpuTicks.busy at h ⊢
  simp only [CpuTicks.total, BitVec.toNat_add]
  omega

theorem toNat_usage {t : CpuTicks} (hpos : 0 < t.sum) (hsum : t.sum < 2 ^ 32)
    (before : BitVec 32) : (t.usage before).toNat = 100 * t.busy % 2 ^ 32 / t.sum := by
  have htotal := toNat_total hsum
  have hactive : 0 < t.total := by
    rw [BitVec.lt_def, htotal]
    exact hpos
  have hproduct : (100 * (t.user + t.system)).toNat = 100 * t.busy % 2 ^ 32 := by
    rw [BitVec.toNat_mul, BitVec.toNat_add, CpuTicks.busy]
    exact Nat.mul_mod_mod 100 _ _
  rw [CpuTicks.usage, if_pos hactive, BitVec.toNat_udiv, hproduct, htotal]

/-- A wrapped product is smaller by at least the modulus, so its quotient by a smaller number is
smaller too. -/
theorem mod_div_eq_iff {x t m : ℕ} (ht : 0 < t) (hm : t < m) : x % m / t = x / t ↔ x < m := by
  constructor
  · intro heq
    by_contra hge
    have hwrap : x % m + t ≤ x := by
      have hdiv := Nat.mod_add_div x m
      have hone : 1 ≤ x / m := (Nat.one_le_div_iff (by omega)).mpr (by omega)
      have hmul : m ≤ m * (x / m) := Nat.le_mul_of_pos_right m hone
      omega
    have hless : x % m / t + 1 ≤ x / t := by
      rw [← Nat.add_div_right _ ht]
      exact Nat.div_le_div_right hwrap
    omega
  · intro hlt
    rw [Nat.mod_eq_of_lt hlt]

theorem usageExact_iff (t : CpuTicks) (before : BitVec 32) :
    UsageExact t before (t.usage before) ↔
      (0 < t.sum → t.sum < 2 ^ 32 → 100 * t.busy < 2 ^ 32) := by
  constructor
  · intro h hpos hsum
    have hexact := (h.exact hpos hsum).1
    rw [toNat_usage hpos hsum] at hexact
    exact (mod_div_eq_iff hpos hsum).mp hexact
  · intro hfits
    refine ⟨fun hpos hsum ↦ ?_, fun hzero ↦ ?_⟩
    · have hbusy : t.busy ≤ t.sum := by
        unfold CpuTicks.sum
        omega
      rw [toNat_usage hpos hsum, (mod_div_eq_iff hpos hsum).mpr (hfits hpos hsum)]
      refine ⟨rfl, Nat.div_le_of_le_mul ?_⟩
      rw [Nat.mul_comm t.sum]
      exact Nat.mul_le_mul_left 100 hbusy
    · have htotal := toNat_total (t := t) (by omega)
      apply if_neg
      rw [BitVec.lt_def, htotal, hzero]
      exact Nat.lt_irrefl 0

/-! ## Runs -/

def Remembers (statics : StatsStatics) (last : Option CpuTicks) : Prop :=
  last.elim (statics.firstCall = true) fun ticks ↦ statics = ⟨ticks, false⟩

theorem frame_of_none (c : LoopState) {f : Frame} (h : f.reads.hostStatistics = none) :
    (c.frame f).statics = c.statics := by
  simp only [LoopState.frame, getSystemStats, h]

theorem frame_of_some {c : LoopState} {last : Option CpuTicks} (hc : Remembers c.statics last)
    {f : Frame} {ticks : CpuTicks} (h : f.reads.hostStatistics = some ticks) :
    (c.frame f).statics = ⟨ticks, false⟩ ∧
      (c.frame f).panel.cpuUsage = (usedTicks last ticks).usage c.panel.cpuUsage := by
  have hkeep : (f.thread.elim c.panel fun state ↦ captureCpuState state c.panel).cpuUsage =
      c.panel.cpuUsage := by
    cases f.thread <;> rfl
  simp only [LoopState.frame, getSystemStats, h, hkeep]
  cases last with
  | none =>
      have hfirst : c.statics.firstCall = true := hc
      simp [cpuLoad, hfirst, usedTicks]
  | some previous =>
      have hstatics : c.statics = ⟨previous, false⟩ := hc
      simp [cpuLoad, hstatics, usedTicks, CpuTicks.delta]

theorem lastTicks_concat (fs : List Frame) (f : Frame) :
    lastTicks (fs ++ [f]) = f.reads.hostStatistics.or (lastTicks fs) := by
  rw [lastTicks, List.filterMap_append]
  cases h : f.reads.hostStatistics with
  | none => simp [h, lastTicks]
  | some ticks => simp [h]

theorem run_concat (panel : MacosPanelState) (fs : List Frame) (f : Frame) :
    LoopState.run panel (fs ++ [f]) = (LoopState.run panel fs).frame f := by
  rw [LoopState.run, List.foldl_append]
  rfl

theorem remembers_run (panel : MacosPanelState) (fs : List Frame) :
    Remembers (LoopState.run panel fs).statics (lastTicks fs) := by
  induction fs using List.reverseRecOn with
  | nil => rfl
  | append_singleton fs f ih =>
      rw [run_concat, lastTicks_concat]
      cases h : f.reads.hostStatistics with
      | none =>
          rw [frame_of_none _ h]
          exact ih
      | some ticks => exact (frame_of_some ih h).1

/-- After any run the next percentage is exact if and only if a hundred times the busy ticks
fit into 32 bits. -/
theorem cpuUsage_exact_iff (panel : MacosPanelState) (fs : List Frame) {f : Frame}
    {ticks : CpuTicks} (h : f.reads.hostStatistics = some ticks) :
    UsageExact (usedTicks (lastTicks fs) ticks) (LoopState.run panel fs).panel.cpuUsage
        (LoopState.run panel (fs ++ [f])).panel.cpuUsage ↔
      (0 < (usedTicks (lastTicks fs) ticks).sum → (usedTicks (lastTicks fs) ticks).sum < 2 ^ 32 →
        100 * (usedTicks (lastTicks fs) ticks).busy < 2 ^ 32) := by
  rw [run_concat, (frame_of_some (remembers_run panel fs) h).2]
  exact usageExact_iff _ _

def blankPanel : MacosPanelState := ⟨0, 0, 0, 0, 0, 0, 0, 0, 0, 0, 0, 0⟩

def ticksOnly (ticks : CpuTicks) : Frame := ⟨none, some ticks, none, none, none⟩

/-- The second call of a run, over a wrap of the user counter. -/
theorem cpuUsage_exact_wrapped :
    UsageExact ⟨20, 10, 60, 10⟩
      (LoopState.run blankPanel [ticksOnly ⟨0xfffffff0, 5, 100, 0⟩]).panel.cpuUsage
      (LoopState.run blankPanel
        ([ticksOnly ⟨0xfffffff0, 5, 100, 0⟩] ++ [ticksOnly ⟨4, 15, 160, 10⟩])).panel.cpuUsage :=
  (cpuUsage_exact_iff blankPanel [ticksOnly ⟨0xfffffff0, 5, 100, 0⟩]
    (f := ticksOnly ⟨4, 15, 160, 10⟩) rfl).mpr fun _ _ ↦ by decide

/-- Five days of one busy processor at 100 ticks a second: the first call stores 0 for 100. -/
theorem not_usageExact_busy_host :
    ¬UsageExact ⟨42949673, 0, 0, 0⟩ 0
      (LoopState.run blankPanel ([] ++ [ticksOnly ⟨42949673, 0, 0, 0⟩])).panel.cpuUsage :=
  fun h ↦ absurd (h.exact (by decide) (by decide)).1 (by decide)

end VPanel.Client.Macos
