import Mathlib.Data.Fintype.Card
import Mathlib.Tactic.Linarith
import VPanel.Kernel.StatClock

/-!
# The time that the statistics clock charges

A CPU charges one tick for each period of the statistics, also when its clock
is made faster and slower on the way, but for the ticks in the middle of which
another CPU does that.
-/

namespace VPanel.Kernel.StatClock

open EventRun

/-! ## Profiled processes -/

def StatKernel.profiled {C P L : Type} [Fintype P] (k : StatKernel C P L) : Finset P :=
  Finset.univ.filter fun p ↦ (k.proc p).profil = true

theorem mem_profiled {C P L : Type} [Fintype P] {k : StatKernel C P L} {p : P} :
    p ∈ k.profiled ↔ (k.proc p).profil = true := by
  simp [StatKernel.profiled]

section Profiling

variable {C P L : Type} {cl : Clocks} {k k' : StatKernel C P L}

def Doing.inSection : Doing P L → Bool
  | .counting _ _ | .dividing _ => true
  | .other | .ticking _ _ => false

/-- The divisor of the clocks while so many processes are profiled. -/
def divisor (cl : Clocks) (n : ℕ) : ℤ := if cl.stathz ≠ 0 ∧ 0 < n then cl.psratio else 1

/-- The divisor changes with the first profiled process only. -/
theorem divisor_succ {n : ℕ} (h : ¬(n = 0 ∧ cl.stathz ≠ 0)) :
    divisor cl (n + 1) = divisor cl n := by
  by_cases hz : cl.stathz = 0
  · simp [divisor, hz]
  · have hn : 0 < n := Nat.pos_of_ne_zero fun hn ↦ h ⟨hn, hz⟩
    simp [divisor, hn]

theorem divisor_one {cl : Clocks} (hz : cl.stathz ≠ 0) : divisor cl 1 = cl.psratio :=
  if_pos ⟨hz, Nat.one_pos⟩

theorem divisor_zero (cl : Clocks) : divisor cl 0 = 1 := if_neg fun h ↦ absurd h.2 (lt_irrefl 0)

variable [Fintype P]

/-- The divisor is the ratio of the clocks as long as a process is profiled. -/
structure Profiling (cl : Clocks) (k : StatKernel C P L) : Prop where
  profprocs : k.profprocs = k.profiled.card
  psdiv : k.psdiv = if cl.stathz ≠ 0 ∧ k.profiled.Nonempty then (cl.psratio : ℤ) else 1

/-- The variables while a CPU is in a section, and all others are out of it. -/
def Midway (cl : Clocks) (k : StatKernel C P L) : Doing P L → Prop
  | .counting true read => ∃ n, k.profiled.card = n + 1 ∧ read = n ∧ k.psdiv = divisor cl n
  | .counting false read =>
      ∃ n, k.profiled.card = n ∧ read = n + 1 ∧ k.psdiv = divisor cl (n + 1)
  | .dividing psdiv => k.profprocs = k.profiled.card ∧ psdiv = divisor cl k.profiled.card
  | .other | .ticking _ _ => True

/-- The variables while no CPU is in a section. -/
def Settled (cl : Clocks) (k : StatKernel C P L) : Prop :=
  k.profprocs = k.profiled.card ∧ k.psdiv = divisor cl k.profiled.card

/-- At most one CPU is in a section. -/
structure Serial (cl : Clocks) (k : StatKernel C P L) : Prop where
  single : ∀ c c', (k.doing c).inSection → (k.doing c').inSection → c = c'
  midway : ∀ c, Midway cl k (k.doing c)
  settled : (∀ c, (k.doing c).inSection = false) → Settled cl k

theorem Serial.profiling (h : Serial cl k) (hout : ∀ c, (k.doing c).inSection = false) :
    Profiling cl k := by
  obtain ⟨hprofprocs, hpsdiv⟩ := h.settled hout
  refine ⟨hprofprocs, hpsdiv.trans ?_⟩
  rw [divisor]
  simp only [Finset.card_pos]

theorem Midway.congr {d : Doing P L} (h : Midway cl k d) (hprofprocs : k'.profprocs = k.profprocs)
    (hpsdiv : k'.psdiv = k.psdiv) (hprofiled : k'.profiled = k.profiled) : Midway cl k' d := by
  cases d with
  | counting starts read =>
      cases starts <;> simpa only [Midway, hpsdiv, hprofiled] using h
  | dividing psdiv => simpa only [Midway, hprofprocs, hprofiled] using h
  | other | ticking => exact h

theorem profiled_congr (h : ∀ p, (k'.proc p).profil = (k.proc p).profil) :
    k'.profiled = k.profiled := by
  ext p
  rw [mem_profiled, mem_profiled, h]

/-- A step that is in no section and changes nothing that the sections use. -/
theorem Serial.keep (h : Serial cl k) (hprofprocs : k'.profprocs = k.profprocs)
    (hpsdiv : k'.psdiv = k.psdiv) (hprofil : ∀ p, (k'.proc p).profil = (k.proc p).profil)
    (hdoing : ∀ c, k'.doing c = k.doing c ∨
      (k'.doing c).inSection = false ∧ (k.doing c).inSection = false) : Serial cl k' := by
  have hprofiled := profiled_congr hprofil
  have hin : ∀ c, (k'.doing c).inSection = (k.doing c).inSection := by
    intro c
    rcases hdoing c with heq | ⟨hnew, hold⟩
    · rw [heq]
    · rw [hnew, hold]
  refine ⟨fun c c' hc hc' ↦ ?_, fun c ↦ ?_, fun hout ↦ ?_⟩
  · rw [hin] at hc hc'
    exact h.single c c' hc hc'
  · rcases hdoing c with heq | ⟨hnew, -⟩
    · rw [heq]
      exact (h.midway c).congr hprofprocs hpsdiv hprofiled
    · cases hd : k'.doing c with
      | counting | dividing => simp [hd, Doing.inSection] at hnew
      | other | ticking => exact trivial
  · rw [Settled, hprofprocs, hpsdiv, hprofiled]
    exact h.settled fun c ↦ (hin c).symm.trans (hout c)

theorem Serial.others (h : Serial cl k) {c : C} (hc : (k.doing c).inSection = true) :
    ∀ c' ≠ c, (k.doing c').inSection = false := by
  intro c' hne
  exact Bool.eq_false_iff.mpr fun hc' ↦ hne (h.single c' c hc' hc)

theorem Boot.serial (h : Boot k) : Serial cl k := by
  have hnone : k.profiled = ∅ := by
    apply Finset.eq_empty_of_forall_notMem
    intro p hp
    exact Bool.false_ne_true ((h.profil p).symm.trans (mem_profiled.mp hp))
  have hout : ∀ c, (k.doing c).inSection = false := by
    intro c
    rw [h.doing]
    rfl
  refine ⟨fun c c' hc ↦ ?_, fun c ↦ ?_, fun _ ↦ ⟨?_, ?_⟩⟩
  · exact absurd ((hout c).symm.trans hc) Bool.false_ne_true
  · rw [h.doing]
    trivial
  · rw [hnone, h.profprocs]
    rfl
  · rw [hnone, h.psdiv, Finset.card_empty, divisor_zero]

theorem profiled_setProc [DecidableEq P] (k : StatKernel C P L) (p : P) (profil : Bool) :
    (k.setProc p { k.proc p with profil }).profiled =
      if profil then insert p k.profiled else k.profiled.erase p := by
  ext q
  rw [mem_profiled]
  by_cases hq : q = p
  · subst hq
    cases profil <;> simp [StatKernel.setProc]
  · cases profil <;> simp [StatKernel.setProc, hq, mem_profiled]

variable [DecidableEq C]

/-- What a CPU in a section does next, or one that enters a section. -/
theorem Serial.setDoing {c : C} {d : Doing P L}
    (hothers : ∀ c' ≠ c, (k.doing c').inSection = false) (hmidway : Midway cl k d)
    (hsettled : d.inSection = false → Settled cl k) : Serial cl (k.setDoing c d) := by
  have hout : ∀ c' ≠ c, ((k.setDoing c d).doing c').inSection = false := by
    intro c' hne
    rw [doing_setDoing_of_ne hne]
    exact hothers c' hne
  have honly : ∀ c', ((k.setDoing c d).doing c').inSection → c' = c := by
    intro c' hc'
    by_contra hne
    exact Bool.false_ne_true ((hout c' hne).symm.trans hc')
  refine ⟨fun a b ha hb ↦ (honly a ha).trans (honly b hb).symm, fun c' ↦ ?_, fun hall ↦ ?_⟩
  · by_cases hc : c' = c
    · rw [hc, doing_setDoing]
      exact hmidway.congr rfl rfl rfl
    · have hc' := hout c' hc
      cases hd : (k.setDoing c d).doing c' with
      | counting | dividing => simp [hd, Doing.inSection] at hc'
      | other | ticking => exact trivial
  · have hc := hall c
    rw [doing_setDoing] at hc
    exact hsettled hc

theorem Serial.writeProfprocs (h : Serial cl k) {c : C} {starts : Bool} {read : ℤ}
    (hc : k.doing c = .counting starts read) : Serial cl (writeProfprocs cl k c starts read) := by
  have hothers := h.others (c := c) (by rw [hc]; rfl)
  have hmidway := h.midway c
  rw [hc] at hmidway
  cases starts with
  | true =>
      obtain ⟨n, hcard, rfl, hpsdiv⟩ := hmidway
      have hprofprocs : ((n : ℤ) + 1) = k.profiled.card := by rw [hcard, Nat.cast_succ]
      rw [StatClock.writeProfprocs]
      by_cases hfirst : (n : ℤ) + 1 = 1 ∧ cl.stathz ≠ 0
      · obtain rfl : n = 0 := by omega
        rw [if_pos hfirst]
        refine Serial.setDoing hothers ⟨hprofprocs, ?_⟩ nofun
        exact (divisor_one hfirst.2).symm.trans (congrArg (divisor cl) hcard.symm)
      · rw [if_neg hfirst]
        refine Serial.setDoing hothers trivial fun _ ↦ ⟨hprofprocs, ?_⟩
        change k.psdiv = divisor cl k.profiled.card
        rw [hpsdiv, hcard, divisor_succ fun hz ↦ hfirst ⟨by omega, hz.2⟩]
  | false =>
      obtain ⟨n, hcard, rfl, hpsdiv⟩ := hmidway
      have hprofprocs : (n : ℤ) + 1 - 1 = k.profiled.card := by
        rw [hcard]
        exact add_sub_cancel_right _ _
      rw [StatClock.writeProfprocs]
      by_cases hlast : (n : ℤ) + 1 - 1 = 0 ∧ cl.stathz ≠ 0
      · obtain rfl : n = 0 := by omega
        rw [if_pos hlast]
        refine Serial.setDoing hothers ⟨hprofprocs, ?_⟩ nofun
        exact (divisor_zero cl).symm.trans (congrArg (divisor cl) hcard.symm)
      · rw [if_neg hlast]
        refine Serial.setDoing hothers trivial fun _ ↦ ⟨hprofprocs, ?_⟩
        change k.psdiv = divisor cl k.profiled.card
        rw [hpsdiv, hcard, divisor_succ fun hz ↦ hlast ⟨by omega, hz.2⟩]

theorem Serial.writePsdiv (h : Serial cl k) {c : C} {psdiv : ℤ}
    (hc : k.doing c = .dividing psdiv) : Serial cl (writePsdiv k c psdiv) := by
  have hothers := h.others (c := c) (by rw [hc]; rfl)
  have hmidway := h.midway c
  rw [hc] at hmidway
  exact Serial.setDoing hothers trivial fun _ ↦ hmidway

variable [DecidableEq P]

theorem Serial.startprofclock (h : Serial cl k) (hout : ∀ c, (k.doing c).inSection = false)
    (c : C) (p : P) : Serial cl (startprofclock k c p) := by
  obtain ⟨hsame | ⟨hp, heq⟩, -⟩ := profclock_cases k c p
  · rwa [hsame]
  · obtain ⟨hprofprocs, hpsdiv⟩ := h.settled hout
    have hnew : p ∉ k.profiled := fun hmem ↦
      Bool.false_ne_true (hp.symm.trans (mem_profiled.mp hmem))
    have hcard := congrArg Finset.card (profiled_setProc k p true)
    rw [if_pos rfl, Finset.card_insert_of_notMem hnew] at hcard
    rw [heq]
    exact Serial.setDoing (fun c' _ ↦ hout c') ⟨_, hcard, hprofprocs, hpsdiv⟩ nofun

theorem Serial.stopprofclock (h : Serial cl k) (hout : ∀ c, (k.doing c).inSection = false)
    (c : C) (p : P) : Serial cl (stopprofclock k c p) := by
  obtain ⟨-, hsame | ⟨hp, heq⟩⟩ := profclock_cases k c p
  · rwa [hsame]
  · obtain ⟨hprofprocs, hpsdiv⟩ := h.settled hout
    have herase := Finset.card_erase_add_one (mem_profiled.mpr hp)
    have hcard := congrArg Finset.card (profiled_setProc k p false)
    rw [if_neg Bool.false_ne_true] at hcard
    rw [← herase] at hprofprocs hpsdiv
    rw [heq]
    exact Serial.setDoing (fun c' _ ↦ hout c')
      ⟨_, hcard, hprofprocs.trans (Nat.cast_succ _), hpsdiv⟩ nofun

end Profiling

/-! ## The time that is charged -/

section Runs

variable {C P L : Type} {cl : Clocks} {k k' boot : StatKernel C P L} {primary c : C}

/-- The clock of a CPU, with the time since boot in periods of the profiling frequency; how often
`psdiv` was set to another value than 1; what it is, and what the CPU found at its latest tick; and
the ticks of the CPU at the end of which it was another one. -/
structure StatHistory where
  rate : ℕ
  elapsed : ℕ
  starts : ℕ
  psdiv : ℤ
  noticed : ℤ
  torn : ℕ

/-- The ticks that are still to be counted before one is charged. -/
def SchedState.waiting (spc : SchedState) : ℤ := max spc.spcPscnt 1 - 1

/-- The clock of the CPU is not running faster than the statistics.  A torn tick leaves a counter
that is too high for that. -/
structure Slow (cl : Clocks) (spc : SchedState) (h : StatHistory) (charges : ℤ) : Prop where
  spcPsdiv : spc.spcPsdiv ≤ 1
  spcPscnt : spc.spcPscnt ≤ cl.psratio
  rate : h.rate = cl.stathz
  charged : cl.psratio * charges ≤ (h.elapsed + (cl.psratio - 1) * h.torn : ℤ)
  /-- Were `psdiv` noticed at the next tick, that tick would not be charged. -/
  missed : h.elapsed + (h.psdiv - 1) + cl.psratio * spc.waiting ≤
    cl.psratio * charges + (cl.psratio - 1) * h.starts +
      cl.psratio * (cl.psratio - 1) * (h.torn : ℤ)

structure Fast (cl : Clocks) (spc : SchedState) (h : StatHistory) (ticks : ℤ) : Prop where
  ratio : 1 < cl.psratio
  spcPsdiv : spc.spcPsdiv = cl.psratio
  spcPscnt : 1 ≤ spc.spcPscnt ∧ spc.spcPscnt ≤ cl.psratio
  rate : h.rate = cl.profhz
  charged : cl.psratio * spc.charges + (cl.psratio - spc.spcPscnt) + ticks + (cl.psratio - 1) ≤
    (h.elapsed + (cl.psratio - 1) * h.torn : ℤ)
  missed : (h.elapsed : ℤ) ≤ cl.psratio * spc.charges + (cl.psratio - spc.spcPscnt) + ticks +
    (cl.psratio - 1) * h.starts + cl.psratio * (cl.psratio - 1) * (h.torn : ℤ)

/-- A CPU out of its ticks, or in the middle of one, for which the history is a tick ahead. -/
def Paced (cl : Clocks) (spc : SchedState) (h : StatHistory) : Bool → Prop
  | false => Slow cl spc h spc.charges ∨ Fast cl spc h 0
  | true => h.noticed = spc.spcPsdiv ∧ (Slow cl spc h (spc.charges + 1) ∨ Fast cl spc h 1)

def Doing.inTick : Doing P L → Bool
  | .ticking _ _ => true
  | .other | .counting _ _ | .dividing _ => false

structure Measured (cl : Clocks) (c : C) (k : StatKernel C P L) (h : StatHistory) : Prop where
  psdiv : h.psdiv = k.psdiv
  values : k.psdiv = 1 ∨ k.psdiv = cl.psratio
  writes : ∀ c psdiv, k.doing c = .dividing psdiv → psdiv = 1 ∨ psdiv = cl.psratio
  pace : Paced cl (k.cpu c) h (k.doing c).inTick

section Pace

variable {spc spc' : SchedState} {h : StatHistory}

/-- The history at the beginning of a tick. -/
def StatHistory.notice (cl : Clocks) (spc : SchedState) (h : StatHistory) : StatHistory :=
  { h with rate := (noticeDivisor cl h.psdiv spc).2.getD h.rate,
           elapsed := h.elapsed + cl.profhz / h.rate, noticed := h.psdiv }

/-- The history at its end. -/
def StatHistory.count (h : StatHistory) : StatHistory :=
  { h with torn := h.torn + if h.psdiv = h.noticed then 0 else 1 }

@[simp] theorem notice_psdiv : (h.notice cl spc).psdiv = h.psdiv := rfl

@[simp] theorem notice_starts : (h.notice cl spc).starts = h.starts := rfl

@[simp] theorem notice_torn : (h.notice cl spc).torn = h.torn := rfl

@[simp] theorem count_psdiv : h.count.psdiv = h.psdiv := rfl

@[simp] theorem count_elapsed : h.count.elapsed = h.elapsed := rfl

@[simp] theorem count_starts : h.count.starts = h.starts := rfl

theorem torn_le_count (h : StatHistory) : (h.torn : ℤ) ≤ h.count.torn := by
  change (h.torn : ℤ) ≤ (h.torn + if h.psdiv = h.noticed then 0 else 1 : ℕ)
  split_ifs <;> omega

theorem torn_count (h : StatHistory) (hne : h.psdiv ≠ h.noticed) : h.count.torn = h.torn + 1 := by
  rw [StatHistory.count, if_neg hne]

theorem waiting_nonneg (spc : SchedState) : 0 ≤ spc.waiting := by
  unfold SchedState.waiting
  omega

theorem waiting_of_le (h : spc.spcPscnt ≤ 1) : spc.waiting = 0 := by
  unfold SchedState.waiting
  omega

theorem waiting_of_lt (h : 1 < spc.spcPscnt) : spc.waiting = spc.spcPscnt - 1 := by
  unfold SchedState.waiting
  omega

/-- A torn tick may lie between what was charged and the time. -/
theorem Slow.tear {charges : ℤ} (hpos : 1 ≤ cl.psratio) (hslow : Slow cl spc h charges) :
    Slow cl spc h.count charges := by
  have hratio : (0 : ℤ) ≤ cl.psratio - 1 := by omega
  have hmore := torn_le_count h
  have hcharged := mul_le_mul_of_nonneg_left hmore hratio
  have hmissed := mul_le_mul_of_nonneg_left hmore (mul_nonneg (Int.natCast_nonneg cl.psratio) hratio)
  refine ⟨hslow.spcPsdiv, hslow.spcPscnt, hslow.rate, ?_, ?_⟩
  · exact hslow.charged.trans (Int.add_le_add_left hcharged _)
  · exact hslow.missed.trans (Int.add_le_add_left hmissed _)

theorem Fast.tear {ticks : ℤ} (hfast : Fast cl spc h ticks) : Fast cl spc h.count ticks := by
  have hratio : (0 : ℤ) ≤ cl.psratio - 1 := by
    have := hfast.ratio
    omega
  have hmore := torn_le_count h
  have hcharged := mul_le_mul_of_nonneg_left hmore hratio
  have hmissed := mul_le_mul_of_nonneg_left hmore (mul_nonneg (Int.natCast_nonneg cl.psratio) hratio)
  refine ⟨hfast.ratio, hfast.spcPsdiv, hfast.spcPscnt, hfast.rate, ?_, ?_⟩
  · exact hfast.charged.trans (Int.add_le_add_left hcharged _)
  · exact hfast.missed.trans (Int.add_le_add_left hmissed _)

theorem Slow.notice (hperiod : cl.profhz / cl.stathz = cl.psratio) (hpos : 1 ≤ cl.psratio)
    (hvalues : h.psdiv = 1 ∨ h.psdiv = cl.psratio) (hslow : Slow cl spc h spc.charges) :
    Slow cl (noticeDivisor cl h.psdiv spc).1 (h.notice cl spc)
        ((noticeDivisor cl h.psdiv spc).1.charges + 1) ∨
      Fast cl (noticeDivisor cl h.psdiv spc).1 (h.notice cl spc) 1 := by
  have helapsed : (h.notice cl spc).elapsed = h.elapsed + cl.psratio := by
    rw [StatHistory.notice, hslow.rate, hperiod]
  obtain ⟨hnoticed, -, hcharges⟩ := noticeDivisor_keeps cl h.psdiv spc
  have hlow := hslow.charged
  have hhigh := hslow.missed
  have hwaiting := mul_nonneg (Int.natCast_nonneg cl.psratio) (waiting_nonneg spc)
  by_cases hone : h.psdiv = 1
  · -- The clock goes on as it is, or the counter that it had at boot is set.
    have hcount : (noticeDivisor cl h.psdiv spc).1.spcPscnt ≤ cl.psratio ∧
        (noticeDivisor cl h.psdiv spc).1.waiting ≤ spc.waiting ∧
        (h.notice cl spc).rate = cl.stathz := by
      rcases noticeDivisor_cases cl h.psdiv spc with ⟨-, heq⟩ | ⟨-, heq⟩
      · rw [StatHistory.notice, heq]
        exact ⟨hslow.spcPscnt, le_rfl, hslow.rate⟩
      · rw [StatHistory.notice, heq, if_pos hone, waiting_of_le hone.le]
        exact ⟨by dsimp only; omega, waiting_nonneg spc, rfl⟩
    obtain ⟨hcnt, hless, hrate⟩ := hcount
    have hless := mul_le_mul_of_nonneg_left hless (Int.natCast_nonneg cl.psratio)
    left
    refine ⟨hnoticed.trans_le hone.le, hcnt, hrate, ?_, ?_⟩
    · rw [helapsed, hcharges, notice_torn]
      push_cast
      linarith
    · rw [helapsed, hcharges, notice_torn, notice_psdiv, notice_starts]
      push_cast
      linarith
  · -- The faster divisor is noticed; the tick that was to be charged is counted as a short one.
    have hratio := hvalues.resolve_left hone
    have hspc := hslow.spcPsdiv
    have hfast : 1 < cl.psratio := by omega
    have hcount : (noticeDivisor cl h.psdiv spc).1.spcPscnt = cl.psratio ∧
        (h.notice cl spc).rate = cl.profhz := by
      rcases noticeDivisor_cases cl h.psdiv spc with ⟨hsame, -⟩ | ⟨-, heq⟩
      · omega
      · rw [StatHistory.notice, heq, if_neg hone]
        exact ⟨hratio, rfl⟩
    obtain ⟨hcnt, hrate⟩ := hcount
    right
    refine ⟨hfast, hnoticed.trans hratio, ⟨by omega, hcnt.le⟩, hrate, ?_, ?_⟩
    · rw [helapsed, hcharges, hcnt, notice_torn]
      push_cast
      linarith
    · rw [helapsed, hcharges, hcnt, notice_torn, notice_starts]
      push_cast
      linarith

theorem Fast.notice (hpos : 0 < cl.profhz) (hvalues : h.psdiv = 1 ∨ h.psdiv = cl.psratio)
    (hfast : Fast cl spc h 0) :
    Slow cl (noticeDivisor cl h.psdiv spc).1 (h.notice cl spc)
        ((noticeDivisor cl h.psdiv spc).1.charges + 1) ∨
      Fast cl (noticeDivisor cl h.psdiv spc).1 (h.notice cl spc) 1 := by
  have helapsed : (h.notice cl spc).elapsed = h.elapsed + 1 := by
    rw [StatHistory.notice, hfast.rate, Nat.div_self hpos]
  obtain ⟨hnoticed, -, hcharges⟩ := noticeDivisor_keeps cl h.psdiv spc
  have hratio := hfast.ratio
  obtain ⟨hcnt, hle⟩ := hfast.spcPscnt
  have hlow := hfast.charged
  have hhigh := hfast.missed
  rcases noticeDivisor_cases cl h.psdiv spc with ⟨hsame, heq⟩ | ⟨hother, heq⟩
  · have hrate : (h.notice cl spc).rate = cl.profhz := by
      rw [StatHistory.notice, heq]
      exact hfast.rate
    have hcount : (noticeDivisor cl h.psdiv spc).1.spcPscnt = spc.spcPscnt := by rw [heq]
    right
    refine ⟨hratio, hnoticed.trans (hsame.symm.trans hfast.spcPsdiv), ?_, hrate, ?_, ?_⟩
    · rw [hcount]
      exact ⟨hcnt, hle⟩
    · rw [helapsed, hcharges, hcount, notice_torn]
      push_cast
      linarith
    · rw [helapsed, hcharges, hcount, notice_torn, notice_starts]
      push_cast
      linarith
  · -- One period of the statistics is charged for the part of it that has passed.
    have hone : h.psdiv = 1 := by
      rcases hvalues with hone | hpsdiv
      · exact hone
      · exact absurd (hfast.spcPsdiv.trans hpsdiv.symm) hother
    have hrate : (h.notice cl spc).rate = cl.stathz := by
      rw [StatHistory.notice, heq, if_pos hone]
      rfl
    have hcount : (noticeDivisor cl h.psdiv spc).1.spcPscnt = 1 := by
      rw [heq]
      exact hone
    left
    refine ⟨hnoticed.trans_le hone.le, by omega, hrate, ?_, ?_⟩
    · rw [helapsed, hcharges, notice_torn]
      push_cast
      linarith
    · rw [helapsed, hcharges, waiting_of_le hcount.le, notice_torn, notice_psdiv, notice_starts]
      push_cast
      linarith

theorem Slow.count (hpos : 1 ≤ cl.psratio) (hvalues : h.psdiv = 1 ∨ h.psdiv = cl.psratio)
    (hnoticed : h.noticed = spc.spcPsdiv) (hslow : Slow cl spc h (spc.charges + 1))
    (hcounted : Counted h.psdiv spc spc') : Slow cl spc' h.count spc'.charges := by
  have hspc := hcounted.spcPsdiv.trans_le hslow.spcPsdiv
  have hle := hslow.spcPscnt
  have hlow := hslow.charged
  have hhigh := hslow.missed
  have hcnt := hcounted.counted
  have hcharges := hcounted.charged
  by_cases hcount : 1 < spc.spcPscnt
  · -- The counter was set in a torn tick, and is counted down.
    rw [Prescaler.tick_pos hcount] at hcnt hcharges
    have hwaiting : spc'.waiting = spc.waiting - 1 := by
      unfold SchedState.waiting
      dsimp only at hcnt
      omega
    apply Slow.tear hpos
    refine ⟨hspc, by dsimp only at hcnt; omega, hslow.rate, ?_, ?_⟩
    · rw [hcharges, if_neg Bool.false_ne_true]
      push_cast
      linarith
    · rw [hcharges, hwaiting, if_neg Bool.false_ne_true]
      push_cast
      linarith
  · rw [Prescaler.tick_fires (by omega)] at hcnt hcharges
    dsimp only at hcnt
    rw [waiting_of_le (by omega)] at hhigh
    by_cases hone : h.psdiv = 1
    · apply Slow.tear hpos
      refine ⟨hspc, by omega, hslow.rate, ?_, ?_⟩
      · rw [hcharges, if_pos rfl]
        exact_mod_cast hlow
      · rw [hcharges, if_pos rfl, waiting_of_le (by omega)]
        exact_mod_cast hhigh
    · -- Another CPU has set `psdiv` after this one had noticed that it was 1.
      have hratio := hvalues.resolve_left hone
      have hnew := hslow.spcPsdiv
      have htorn := torn_count h (by omega)
      have hwaiting : spc'.waiting = cl.psratio - 1 := by
        unfold SchedState.waiting
        omega
      have hfast : (0 : ℤ) ≤ cl.psratio - 1 := by omega
      refine ⟨hspc, by omega, hslow.rate, ?_, ?_⟩
      · rw [hcharges, if_pos rfl, htorn, count_elapsed]
        push_cast
        linarith
      · rw [hcharges, if_pos rfl, htorn, hwaiting, count_elapsed, count_psdiv, count_starts]
        push_cast
        linarith

theorem Fast.count (hvalues : h.psdiv = 1 ∨ h.psdiv = cl.psratio)
    (hnoticed : h.noticed = spc.spcPsdiv) (hfast : Fast cl spc h 1)
    (hcounted : Counted h.psdiv spc spc') : Fast cl spc' h.count 0 := by
  have hratio := hfast.ratio
  have hspc := hcounted.spcPsdiv.trans hfast.spcPsdiv
  obtain ⟨hone, hle⟩ := hfast.spcPscnt
  have hlow := hfast.charged
  have hhigh := hfast.missed
  have hcnt := hcounted.counted
  have hcharges := hcounted.charged
  by_cases hcount : 1 < spc.spcPscnt
  · rw [Prescaler.tick_pos hcount] at hcnt hcharges
    dsimp only at hcnt
    apply Fast.tear
    refine ⟨hratio, hspc, ⟨by omega, by omega⟩, hfast.rate, ?_, ?_⟩
    · rw [hcharges, if_neg Bool.false_ne_true, hcnt]
      push_cast
      linarith
    · rw [hcharges, if_neg Bool.false_ne_true, hcnt]
      push_cast
      linarith
  · rw [Prescaler.tick_fires (by omega)] at hcnt hcharges
    dsimp only at hcnt
    have hlast : spc.spcPscnt = 1 := by omega
    rw [hlast] at hlow hhigh
    by_cases hsame : h.psdiv = cl.psratio
    · apply Fast.tear
      refine ⟨hratio, hspc, ⟨by omega, by omega⟩, hfast.rate, ?_, ?_⟩
      · rw [hcharges, if_pos rfl, hcnt, hsame]
        push_cast
        linarith
      · rw [hcharges, if_pos rfl, hcnt, hsame]
        push_cast
        linarith
    · -- Another CPU has set `psdiv` to 1 after this one had noticed the ratio.
      have hpsdiv := hvalues.resolve_right hsame
      have hnew := hfast.spcPsdiv
      have htorn := torn_count h (by omega)
      have hfast' : (0 : ℤ) ≤ cl.psratio - 1 := by omega
      have hmore := mul_nonneg (Int.natCast_nonneg cl.psratio) hfast'
      refine ⟨hratio, hspc, ⟨by omega, by omega⟩, hfast.rate, ?_, ?_⟩
      · rw [hcharges, if_pos rfl, hcnt, hpsdiv, htorn, count_elapsed]
        push_cast
        linarith
      · rw [hcharges, if_pos rfl, hcnt, hpsdiv, htorn, count_elapsed, count_starts]
        push_cast
        linarith

/-- The history when a CPU writes `psdiv`. -/
def StatHistory.write (psdiv : ℤ) (h : StatHistory) : StatHistory :=
  { h with psdiv, starts := h.starts + if psdiv = 1 then 0 else 1 }

@[simp] theorem write_psdiv (psdiv : ℤ) : (h.write psdiv).psdiv = psdiv := rfl

@[simp] theorem write_elapsed (psdiv : ℤ) : (h.write psdiv).elapsed = h.elapsed := rfl

@[simp] theorem write_torn (psdiv : ℤ) : (h.write psdiv).torn = h.torn := rfl

theorem starts_write_one : (h.write 1).starts = h.starts := rfl

theorem starts_write {psdiv : ℤ} (hne : psdiv ≠ 1) : (h.write psdiv).starts = h.starts + 1 := by
  rw [StatHistory.write, if_neg hne]

theorem Slow.write {charges psdiv : ℤ} (hpos : 1 ≤ cl.psratio)
    (hvalues : h.psdiv = 1 ∨ h.psdiv = cl.psratio) (hwrite : psdiv = 1 ∨ psdiv = cl.psratio)
    (hslow : Slow cl spc h charges) : Slow cl spc (h.write psdiv) charges := by
  have hhigh := hslow.missed
  refine ⟨hslow.spcPsdiv, hslow.spcPscnt, hslow.rate, hslow.charged, ?_⟩
  have hone : 1 ≤ h.psdiv := by
    rcases hvalues with heq | heq <;> omega
  rw [write_psdiv, write_elapsed, write_torn]
  by_cases hnew : psdiv = 1
  · subst hnew
    rw [starts_write_one]
    linarith
  · have hratio := hwrite.resolve_left hnew
    rw [starts_write hnew]
    push_cast
    linarith

theorem Fast.write {ticks psdiv : ℤ} (hfast : Fast cl spc h ticks) :
    Fast cl spc (h.write psdiv) ticks := by
  have hratio := hfast.ratio
  have hhigh := hfast.missed
  refine ⟨hratio, hfast.spcPsdiv, hfast.spcPscnt, hfast.rate, hfast.charged, ?_⟩
  rw [write_elapsed, write_torn]
  by_cases hnew : psdiv = 1
  · subst hnew
    rw [starts_write_one]
    linarith
  · rw [starts_write hnew]
    push_cast
    linarith

/-- The clock of a CPU does not tell two states of it apart. -/
theorem Paced.of_same {tick : Bool} (hpaced : Paced cl spc h tick) (hsame : Same spc spc') :
    Paced cl spc' h tick := by
  obtain ⟨hspc, hcnt, hcharges⟩ := hsame
  have hslow : ∀ charges, Slow cl spc h charges → Slow cl spc' h charges := by
    intro charges hslow
    have hwaiting : spc'.waiting = spc.waiting := by rw [SchedState.waiting, hcnt, SchedState.waiting]
    exact ⟨hspc.trans_le hslow.spcPsdiv, hcnt.trans_le hslow.spcPscnt, hslow.rate, hslow.charged,
      hwaiting ▸ hslow.missed⟩
  have hfast : ∀ ticks, Fast cl spc h ticks → Fast cl spc' h ticks := by
    intro ticks hfast
    refine ⟨hfast.ratio, hspc.trans hfast.spcPsdiv, ?_, hfast.rate, ?_, ?_⟩
    · rw [hcnt]
      exact hfast.spcPscnt
    · rw [hcharges, hcnt]
      exact hfast.charged
    · rw [hcharges, hcnt]
      exact hfast.missed
  cases tick with
  | false =>
      rw [Paced, hcharges]
      exact hpaced.imp (hslow _) (hfast _)
  | true =>
      rw [Paced, hcharges, hspc]
      exact ⟨hpaced.1, hpaced.2.imp (hslow _) (hfast _)⟩

theorem Paced.write {tick : Bool} {psdiv : ℤ} (hpos : 1 ≤ cl.psratio)
    (hvalues : h.psdiv = 1 ∨ h.psdiv = cl.psratio) (hwrite : psdiv = 1 ∨ psdiv = cl.psratio)
    (hpaced : Paced cl spc h tick) : Paced cl spc (h.write psdiv) tick := by
  cases tick with
  | false => exact hpaced.imp (Slow.write hpos hvalues hwrite) Fast.write
  | true =>
      exact ⟨hpaced.1, hpaced.2.imp (Slow.write hpos hvalues hwrite) Fast.write⟩

end Pace

section Step

/-- A step that neither writes `psdiv` nor ticks on the CPU. -/
theorem Measured.keep {h : StatHistory} (hk : Measured cl c k h) (hpsdiv : k'.psdiv = k.psdiv)
    (hsame : Same (k.cpu c) (k'.cpu c)) (htick : (k'.doing c).inTick = (k.doing c).inTick)
    (hwrites : ∀ c psdiv, k'.doing c = .dividing psdiv →
      k.doing c = .dividing psdiv ∨ psdiv = 1 ∨ psdiv = cl.psratio) : Measured cl c k' h := by
  refine ⟨hk.psdiv.trans hpsdiv.symm, hpsdiv ▸ hk.values, fun c psdiv hc ↦ ?_, ?_⟩
  · exact (hwrites c psdiv hc).elim (hk.writes c psdiv) id
  · rw [htick]
    exact hk.pace.of_same hsame

variable [DecidableEq C]

def StatHistory.next (cl : Clocks) (c : C) (h : StatHistory) :
    ClockEvent C P L × Effect L → StatHistory
  | (.writePsdiv _ psdiv, _) => h.write psdiv
  | (.statclock c' _ _, effect) =>
      if c' = c then
        { h with rate := effect.setstatclockrate.getD h.rate,
                 elapsed := h.elapsed + cl.profhz / h.rate, noticed := h.psdiv }
      else h
  | (.countTick c', _) => if c' = c then h.count else h
  | _ => h

def StatHistory.ofTrace (cl : Clocks) (c : C) (tr : List (ClockEvent C P L × Effect L)) :
    StatHistory := tr.foldl (StatHistory.next cl c) ⟨cl.stathz, 0, 0, 1, 1, 0⟩

theorem ofTrace_concat (tr : List (ClockEvent C P L × Effect L)) (x : ClockEvent C P L × Effect L) :
    StatHistory.ofTrace cl c (tr ++ [x]) = (StatHistory.ofTrace cl c tr).next cl c x :=
  List.foldl_concat ..

/-- Only what a CPU has come to itself is new among the writes that are on their way. -/
theorem dividing_setDoing {c' c'' : C} {d : Doing P L} {psdiv : ℤ}
    (h : (k.setDoing c' d).doing c'' = .dividing psdiv) :
    d = .dividing psdiv ∨ k.doing c'' = .dividing psdiv := by
  by_cases hne : c'' = c'
  · rw [hne, doing_setDoing] at h
    exact Or.inl h
  · rw [doing_setDoing_of_ne hne] at h
    exact Or.inr h

/-- A CPU goes on with something else that is no tick. -/
theorem Measured.setDoing {h : StatHistory} (hk : Measured cl c k h) {c' : C} {d : Doing P L}
    (hpsdiv : k'.psdiv = k.psdiv) (hsame : Same (k.cpu c) (k'.cpu c))
    (hdoing : k'.doing = k.doing) (hold : c' = c → (k.doing c').inTick = d.inTick)
    (hd : ∀ psdiv, d = .dividing psdiv → psdiv = 1 ∨ psdiv = cl.psratio) :
    Measured cl c (k'.setDoing c' d) h := by
  refine hk.keep hpsdiv hsame ?_ fun c'' psdiv hc ↦ ?_
  · by_cases hc : c = c'
    · rw [hc, doing_setDoing, hold hc.symm]
    · rw [doing_setDoing_of_ne hc, hdoing]
  · rw [← hdoing]
    exact (dividing_setDoing hc).symm.imp_right (hd psdiv)

theorem Measured.write {h : StatHistory} (hk : Measured cl c k h) (hpos : 1 ≤ cl.psratio) {c' : C}
    {psdiv : ℤ} (hdividing : k.doing c' = .dividing psdiv) :
    Measured cl c (writePsdiv k c' psdiv) (h.write psdiv) := by
  have hwrite := hk.writes c' psdiv hdividing
  have hvalues : h.psdiv = 1 ∨ h.psdiv = cl.psratio := hk.psdiv ▸ hk.values
  refine ⟨rfl, hwrite, fun c'' psdiv' hc ↦ ?_, ?_⟩
  · exact (dividing_setDoing hc).elim nofun (hk.writes c'' psdiv')
  · have htick : ((writePsdiv k c' psdiv).doing c).inTick = (k.doing c).inTick := by
      by_cases hc : c = c'
      · rw [hc, writePsdiv, doing_setDoing, hdividing]
        rfl
      · rw [writePsdiv, doing_setDoing_of_ne hc]
    rw [htick]
    exact hk.pace.write hpos hvalues hwrite

/-- The first half of a tick of the CPU itself. -/
theorem Measured.notice {h : StatHistory} (hk : Measured cl c k h)
    (hperiod : cl.profhz / cl.stathz = cl.psratio) (hpos : 1 ≤ cl.psratio)
    (hprofhz : 0 < cl.profhz) (hother : k.doing c = .other) {frame : ClockFrame}
    {cur : Current P L} :
    Measured cl c ((k.setCpu c (noticeDivisor cl k.psdiv (k.cpu c)).1).setDoing c
      (.ticking frame cur)) (h.notice cl (k.cpu c)) := by
  have hpace := hk.pace
  have hvalues : h.psdiv = 1 ∨ h.psdiv = cl.psratio := hk.psdiv ▸ hk.values
  rw [hother] at hpace
  refine ⟨hk.psdiv, hk.values, fun c'' psdiv hd ↦ ?_, ?_⟩
  · exact (dividing_setDoing hd).elim nofun (hk.writes c'' psdiv)
  · rw [doing_setDoing]
    change Paced cl ((k.setCpu c _).cpu c) _ true
    rw [setCpu_self, ← hk.psdiv]
    refine ⟨(noticeDivisor_keeps cl h.psdiv (k.cpu c)).1.symm, ?_⟩
    rcases hpace with hslow | hfast
    · exact hslow.notice hperiod hpos hvalues
    · exact hfast.notice hprofhz hvalues

/-- The second half of it. -/
theorem Measured.count {h : StatHistory} (hk : Measured cl c k h) (hpos : 1 ≤ cl.psratio)
    {frame : ClockFrame} {cur : Current P L} (hticking : k.doing c = .ticking frame cur)
    (hcounted : Counted k.psdiv (k.cpu c) (k'.cpu c)) (hpsdiv : k'.psdiv = k.psdiv)
    (hdoing : k'.doing = k.doing) : Measured cl c (k'.setDoing c .other) h.count := by
  have hpace := hk.pace
  have hvalues : h.psdiv = 1 ∨ h.psdiv = cl.psratio := hk.psdiv ▸ hk.values
  rw [hticking] at hpace
  rw [← hk.psdiv] at hcounted
  refine ⟨hk.psdiv.trans hpsdiv.symm, ?_, fun c'' psdiv hd ↦ ?_, ?_⟩
  · change k'.psdiv = 1 ∨ k'.psdiv = cl.psratio
    rw [hpsdiv]
    exact hk.values
  · rcases dividing_setDoing hd with hd | hd
    · cases hd
    · rw [hdoing] at hd
      exact hk.writes c'' psdiv hd
  · rw [doing_setDoing]
    obtain ⟨hnoticed, hslow | hfast⟩ := hpace
    · exact Or.inl (hslow.count hpos hvalues hnoticed hcounted)
    · exact Or.inr (hfast.count hvalues hnoticed hcounted)

variable [DecidableEq P] [DecidableEq L]

theorem Measured.step (hperiod : cl.profhz / cl.stathz = cl.psratio) (hpos : 1 ≤ cl.psratio)
    (hprofhz : 0 < cl.profhz) (hz : cl.stathz ≠ 0) {h : StatHistory} (hk : Measured cl c k h)
    {e : ClockEvent C P L} {r : StatKernel C P L × Effect L}
    (hstep : k.step cl primary e = some r) : Measured cl c r.1 (h.next cl c (e, r.2)) := by
  cases e with
  | startprofclock c' p =>
      obtain ⟨hother, heq⟩ := Option.ite_none_right_eq_some.mp hstep
      cases heq
      obtain ⟨hsame | ⟨-, heq⟩, -⟩ := profclock_cases k c' p
      · rw [hsame]
        exact hk
      · rw [heq]
        exact hk.setDoing rfl (Same.refl _) rfl (fun _ ↦ by rw [hother]; rfl) nofun
  | stopprofclock c' p =>
      obtain ⟨hother, heq⟩ := Option.ite_none_right_eq_some.mp hstep
      cases heq
      obtain ⟨-, hsame | ⟨-, heq⟩⟩ := profclock_cases k c' p
      · rw [hsame]
        exact hk
      · rw [heq]
        exact hk.setDoing rfl (Same.refl _) rfl (fun _ ↦ by rw [hother]; rfl) nofun
  | writeProfprocs c' =>
      obtain ⟨starts, read, hcounting, rfl⟩ := step_writeProfprocs hstep
      cases starts with
      | true =>
          refine hk.setDoing rfl (Same.refl _) rfl (fun _ ↦ ?_) fun psdiv hd ↦ ?_
          · rw [hcounting]
            split_ifs <;> rfl
          · split_ifs at hd
            exact Or.inr (Doing.dividing.inj hd).symm
      | false =>
          refine hk.setDoing rfl (Same.refl _) rfl (fun _ ↦ ?_) fun psdiv hd ↦ ?_
          · rw [hcounting]
            split_ifs <;> rfl
          · split_ifs at hd
            exact Or.inl (Doing.dividing.inj hd).symm
  | writePsdiv c' psdiv =>
      obtain ⟨hdividing, heq⟩ := Option.ite_none_right_eq_some.mp hstep
      cases heq
      exact hk.write hpos hdividing
  | setNice p nice =>
      cases hstep
      exact hk.keep rfl (Same.refl _) rfl fun _ _ ↦ Or.inl
  | statclock c' frame cur =>
      obtain ⟨⟨-, hother, -⟩, rfl⟩ := step_statclock hstep
      by_cases hc : c' = c
      · subst hc
        have hnext : h.next cl c' (.statclock c' frame cur, { Effect.none with
            setstatclockrate := (noticeDivisor cl k.psdiv (k.cpu c')).2 }) =
              h.notice cl (k.cpu c') := by
          rw [StatHistory.next, if_pos rfl, StatHistory.notice, hk.psdiv]
        rw [hnext]
        exact hk.notice hperiod hpos hprofhz hother
      · rw [StatHistory.next, if_neg hc]
        refine hk.setDoing rfl ?_ rfl (fun heq ↦ absurd heq hc) nofun
        rw [setCpu_of_ne _ (Ne.symm hc)]
        exact Same.refl _
  | countTick c' =>
      obtain ⟨frame, cur, hticking, hr⟩ := step_countTick hstep
      obtain ⟨hcounted, hothers, hframed, -⟩ := countTick_spec cl k c' frame cur
      rw [hr]
      by_cases hc : c' = c
      · subst hc
        rw [StatHistory.next, if_pos rfl]
        exact hk.count hpos hticking hcounted hframed.psdiv hframed.doing
      · rw [StatHistory.next, if_neg hc]
        refine hk.setDoing hframed.psdiv ?_ hframed.doing (fun heq ↦ absurd heq hc) nofun
        rw [hothers c (Ne.symm hc)]
        exact Same.refl _
  | hardclock c' frame cur =>
      obtain ⟨hother, hhardclock⟩ := Option.ite_none_right_eq_some.mp hstep
      obtain ⟨hhard, hothers, hframed, -⟩ := hardclock_spec hhardclock
      refine hk.keep hframed.psdiv ?_ (by rw [hframed.doing]) fun _ _ hd ↦ Or.inl ?_
      · by_cases hc : c' = c
        · subst hc
          exact hhard.separate hz
        · rw [hothers c (Ne.symm hc)]
          exact Same.refl _
      · rwa [hframed.doing] at hd

end Step

end Runs

/-! ## Every run -/

section Results

variable {C P L : Type} [DecidableEq C] [DecidableEq P] [DecidableEq L] {cl : Clocks}
  {boot k : StatKernel C P L} {primary : C} {tr : List (ClockEvent C P L × Effect L)}

/-- No CPU enters a section while another one is in one. -/
def NoOverlap (k : StatKernel C P L) : ClockEvent C P L → Prop
  | .startprofclock _ _ | .stopprofclock _ _ => ∀ c, (k.doing c).inSection = false
  | .writeProfprocs _ | .writePsdiv _ _ | .setNice _ _ | .statclock _ _ _ | .countTick _
  | .hardclock _ _ _ => True

instance [Fintype C] (k : StatKernel C P L) : ∀ e, Decidable (NoOverlap k e)
  | .startprofclock _ _ | .stopprofclock _ _ =>
      inferInstanceAs (Decidable (∀ c, (k.doing c).inSection = false))
  | .writeProfprocs _ | .writePsdiv _ _ | .setNice _ _ | .statclock _ _ _ | .countTick _
  | .hardclock _ _ _ => isTrue trivial

theorem Serial.step [Fintype P] (h : Serial cl k) {e : ClockEvent C P L}
    {r : StatKernel C P L × Effect L} (halone : NoOverlap k e)
    (hstep : k.step cl primary e = some r) : Serial cl r.1 := by
  cases e with
  | startprofclock c p =>
      obtain ⟨-, heq⟩ := Option.ite_none_right_eq_some.mp hstep
      cases heq
      exact h.startprofclock halone c p
  | stopprofclock c p =>
      obtain ⟨-, heq⟩ := Option.ite_none_right_eq_some.mp hstep
      cases heq
      exact h.stopprofclock halone c p
  | writeProfprocs c =>
      obtain ⟨starts, read, hcounting, rfl⟩ := step_writeProfprocs hstep
      exact h.writeProfprocs hcounting
  | writePsdiv c psdiv =>
      obtain ⟨hdividing, heq⟩ := Option.ite_none_right_eq_some.mp hstep
      cases heq
      exact h.writePsdiv hdividing
  | setNice p nice =>
      cases hstep
      refine h.keep rfl rfl (fun q ↦ ?_) fun _ ↦ Or.inl rfl
      by_cases hq : q = p
      · simp [StatKernel.setProc, hq]
      · simp [StatKernel.setProc, hq]
  | statclock c frame cur =>
      obtain ⟨⟨-, hother, -⟩, rfl⟩ := step_statclock hstep
      refine h.keep rfl rfl (fun _ ↦ rfl) fun c' ↦ ?_
      by_cases hc : c' = c
      · rw [hc, doing_setDoing, hother]
        exact Or.inr ⟨rfl, rfl⟩
      · exact Or.inl (doing_setDoing_of_ne hc _)
  | countTick c =>
      obtain ⟨frame, cur, hticking, hr⟩ := step_countTick hstep
      obtain ⟨-, -, hframed, -⟩ := countTick_spec cl k c frame cur
      rw [hr]
      refine h.keep hframed.profprocs hframed.psdiv hframed.profil fun c' ↦ ?_
      by_cases hc : c' = c
      · rw [hc, doing_setDoing, hticking]
        exact Or.inr ⟨rfl, rfl⟩
      · rw [doing_setDoing_of_ne hc, hframed.doing]
        exact Or.inl rfl
  | hardclock c frame cur =>
      obtain ⟨-, hhardclock⟩ := Option.ite_none_right_eq_some.mp hstep
      obtain ⟨-, -, hframed, -⟩ := hardclock_spec hhardclock
      apply h.keep hframed.profprocs hframed.psdiv hframed.profil
      intro c'
      rw [hframed.doing]
      exact Or.inl rfl

/-- While a process is profiled, and only then, the divisor is the ratio of the clocks. -/
theorem profiling_divides [Fintype C] [Fintype P] (hboot : Boot boot)
    (h : Run ((clocks cl primary boot).within NoOverlap) tr k)
    (hout : ∀ c, (k.doing c).inSection = false) : Profiling cl k := by
  have hserial : Serial cl k := by
    refine Run.invariant (I := fun _ k ↦ Serial cl k) hboot.serial ?_ h
    intro tr k e k' o hk hstep
    obtain ⟨halone, hstep⟩ := within_step_eq_some.mp hstep
    exact hk.step halone hstep
  exact hserial.profiling hout

/-- What a CPU has charged is not ahead of its clock, and behind it by less than one tick, and one
more for each time the clocks were to be faster.  A tick in the middle of which another CPU changes
that may bring the charges forward by a part of a tick, or delay them by the ratio less one. -/
theorem charges_keep_time {f : Frequencies} (hf : f.Required) (hcl : initclocks f = some cl)
    (hz : f.stathz ≠ 0) (hboot : Boot boot) (h : Run (clocks cl primary boot) tr k) {c : C}
    (hout : (k.doing c).inTick = false) :
    let history := StatHistory.ofTrace cl c tr
    cl.psratio * (k.cpu c).charges ≤ history.elapsed + (cl.psratio - 1) * history.torn ∧
      history.elapsed ≤
        cl.psratio * (k.cpu c).charges + (cl.psratio - 1) * (history.starts + 1) +
          cl.psratio * (cl.psratio - 1) * history.torn := by
  obtain ⟨hstathz, -, hprofhz, hpos, hperiod, -⟩ := initclocks_spec hf hcl
  rw [← hstathz] at hz
  have hmeasured : Measured cl c k (StatHistory.ofTrace cl c tr) := by
    refine Run.invariant (I := fun tr k ↦ Measured cl c k (StatHistory.ofTrace cl c tr)) ?_ ?_ h
    · obtain ⟨hspc, hcnt, -⟩ := hboot.counters c
      change Measured cl c boot _
      refine ⟨hboot.psdiv.symm, Or.inl hboot.psdiv, fun c psdiv hc ↦ ?_, ?_⟩
      · rw [hboot.doing] at hc
        cases hc
      · rw [hboot.doing]
        refine Or.inl ⟨hspc, by omega, rfl, ?_, ?_⟩
        · simp [hboot.charges, StatHistory.ofTrace]
        · simp [hboot.charges, waiting_of_le hcnt, StatHistory.ofTrace]
    · intro tr k e k' o hk hstep
      rw [ofTrace_concat]
      exact hk.step (hperiod hz) hpos hprofhz hz hstep
  have hle : (0 : ℤ) ≤ cl.psratio - 1 := by omega
  have hpace := hmeasured.pace
  rw [hout] at hpace
  dsimp only
  zify [hpos]
  rcases hpace with hslow | hfast
  · have hlow := hslow.charged
    have hhigh := hslow.missed
    have hwaiting := mul_nonneg (Int.natCast_nonneg cl.psratio) (waiting_nonneg (k.cpu c))
    have hone : 1 ≤ (StatHistory.ofTrace cl c tr).psdiv := by
      have hpsdiv := hmeasured.psdiv
      rcases hmeasured.values with heq | heq <;> omega
    constructor <;> linarith
  · have hlow := hfast.charged
    have hhigh := hfast.missed
    have hratio := hfast.ratio
    obtain ⟨hcnt, hcntle⟩ := hfast.spcPscnt
    constructor <;> linarith

/-! A machine with two CPUs, whose clocks are made ten times as fast while a process is profiled. -/

def tenfold : Frequencies := ⟨100, 100, 1000, 0, true, true⟩

def tenfoldClocks : Clocks := ⟨100, 1000, 0, 10, 6, true, true⟩

def twoProcesses : StatKernel Bool Bool Bool where
  profprocs := 0
  psdiv := 1
  hardclockTicks := 0
  psFrame := none
  cpu _ := ⟨0, 0, 0, fun _ ↦ 0⟩
  proc _ := ⟨false, nzero, 0, 0, 0⟩
  lCpticks _ := 0
  doing _ := .other

theorem boot_twoProcesses : Boot twoProcesses :=
  ⟨rfl, rfl, rfl, rfl, fun _ ↦ ⟨zero_le_one, zero_le_one, zero_le_one⟩, fun _ _ ↦ rfl,
    fun _ ↦ rfl, fun _ ↦ ⟨rfl, rfl, rfl⟩, fun _ ↦ rfl, fun _ ↦ rfl⟩

theorem required_tenfold : tenfold.Required := ⟨by decide, by decide⟩

theorem initclocks_tenfold : initclocks tenfold = some tenfoldClocks := rfl

/-- A tick, another one in the middle of which the second CPU makes the clocks faster, and two
that are counted. -/
def profiledTicks : List (ClockEvent Bool Bool Bool) :=
  let frame : ClockFrame := ⟨true, false, 0⟩
  let cur : Current Bool Bool := ⟨some (false, false), false, 0⟩
  [.hardclock false frame cur, .statclock false frame cur, .countTick false,
    .startprofclock true true, .writeProfprocs true, .statclock false frame cur,
    .writePsdiv true 10, .countTick false, .statclock false frame cur, .countTick false,
    .statclock false frame cur, .countTick false]

theorem replay_profiledTicks : ∃ tr k,
    Run ((clocks tenfoldClocks false twoProcesses).within NoOverlap) tr k ∧
      tr.map Prod.fst = profiledTicks ∧ (∀ c, k.doing c = .other) ∧
      (StatHistory.ofTrace tenfoldClocks false tr).elapsed = 31 ∧
      (StatHistory.ofTrace tenfoldClocks false tr).torn = 1 ∧ (k.cpu false).charges = 2 := by
  have hend : (((clocks tenfoldClocks false twoProcesses).within NoOverlap).replay twoProcesses
      profiledTicks).map (fun r ↦ (((StatHistory.ofTrace tenfoldClocks false r.1).elapsed,
        (StatHistory.ofTrace tenfoldClocks false r.1).torn, (r.2.cpu false).charges),
        r.2.doing false, r.2.doing true)) = some ((31, 1, 2), .other, .other) := by decide
  obtain ⟨⟨tr, k⟩, hreplay, heq⟩ := Option.map_eq_some_iff.mp hend
  obtain ⟨hcounts, hdoing⟩ := Prod.mk.inj heq
  obtain ⟨helapsed, hrest⟩ := Prod.mk.inj hcounts
  obtain ⟨htorn, hcharges⟩ := Prod.mk.inj hrest
  obtain ⟨hfirst, hsecond⟩ := Prod.mk.inj hdoing
  refine ⟨tr, k, Run.replay .start hreplay, map_fst_replay hreplay, ?_, helapsed, htorn, hcharges⟩
  rintro (_ | _)
  · exact hfirst
  · exact hsecond

theorem profiling_divides_profiled : ∃ tr k,
    Run ((clocks tenfoldClocks false twoProcesses).within NoOverlap) tr k ∧
      tr.map Prod.fst = profiledTicks ∧ Profiling tenfoldClocks k := by
  obtain ⟨tr, k, hrun, hevents, hout, -⟩ := replay_profiledTicks
  refine ⟨tr, k, hrun, hevents, profiling_divides boot_twoProcesses hrun fun c ↦ ?_⟩
  rw [hout]
  rfl

theorem charges_keep_time_profiled : ∃ tr k,
    Run (clocks tenfoldClocks false twoProcesses) tr k ∧ tr.map Prod.fst = profiledTicks ∧
      let history := StatHistory.ofTrace tenfoldClocks false tr
      history.elapsed = 31 ∧ history.torn = 1 ∧ (k.cpu false).charges = 2 ∧
        10 * (k.cpu false).charges ≤ history.elapsed + 9 * history.torn ∧
        history.elapsed ≤
          10 * (k.cpu false).charges + 9 * (history.starts + 1) + 90 * history.torn := by
  obtain ⟨tr, k, hrun, hevents, hout, helapsed, htorn, hcharges⟩ := replay_profiledTicks
  refine ⟨tr, k, hrun.of_within, hevents, helapsed, htorn, hcharges, ?_⟩
  apply charges_keep_time required_tenfold initclocks_tenfold (by decide) boot_twoProcesses
    hrun.of_within
  rw [hout]
  rfl

/-- The second process is started to be profiled while the first one is stopped; the number of
both is lost. -/
def overlappingSections : List (ClockEvent Bool Bool Bool) :=
  [.startprofclock false false, .writeProfprocs false, .writePsdiv false 10,
    .startprofclock true true, .stopprofclock false false, .writeProfprocs true,
    .writeProfprocs false, .writePsdiv false 1]

theorem profiling_overlapped : ∃ tr k, Run (clocks tenfoldClocks false twoProcesses) tr k ∧
    tr.map Prod.fst = overlappingSections ∧ (∀ c, (k.doing c).inSection = false) ∧
      ¬Profiling tenfoldClocks k := by
  have hend : ((clocks tenfoldClocks false twoProcesses).replay twoProcesses
      overlappingSections).map (fun r ↦ (r.2.profprocs, (r.2.proc true).profil,
        (r.2.doing false).inSection, (r.2.doing true).inSection)) =
        some (0, true, false, false) := by decide
  obtain ⟨⟨tr, k⟩, hreplay, heq⟩ := Option.map_eq_some_iff.mp hend
  obtain ⟨hprofprocs, hrest⟩ := Prod.mk.inj heq
  obtain ⟨hprofil, hdoing⟩ := Prod.mk.inj hrest
  obtain ⟨hfirst, hsecond⟩ := Prod.mk.inj hdoing
  refine ⟨tr, k, Run.replay .start hreplay, map_fst_replay hreplay, ?_, fun hprofiling ↦ ?_⟩
  · rintro (_ | _)
    · exact hfirst
    · exact hsecond
  · have hsome : 0 < k.profiled.card := Finset.card_pos.mpr ⟨true, mem_profiled.mpr hprofil⟩
    have hnone : (0 : ℤ) = k.profiled.card := hprofprocs.symm.trans hprofiling.profprocs
    omega

end Results

end VPanel.Kernel.StatClock
