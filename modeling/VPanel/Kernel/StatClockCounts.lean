import Mathlib.Algebra.BigOperators.Fin
import VPanel.Kernel.StatClockTime

/-!
# What the clocks count

The ticks of the real-time clock, and the charges of the CPUs against those of
the processes and LWPs.
-/

namespace VPanel.Kernel.StatClock

open EventRun

/-! ## What the real-time clock drives -/

section PanelFrames

variable {C P L : Type} {tr : List (ClockEvent C P L × Effect L)}

/-- The frames of the interrupts that the panel is updated at. -/
def panelFrames (tr : List (ClockEvent C P L × Effect L)) : List ClockFrame :=
  tr.filterMap fun x ↦
    match x.1 with
    | .hardclock _ frame _ => if x.2.panelUpdateTick then some frame else none
    | _ => none

theorem panelFrames_concat {c' : C} {frame : ClockFrame} {cur : Current P L} {effect : Effect L} :
    panelFrames (tr ++ [(.hardclock c' frame cur, effect)]) =
    panelFrames tr ++ if effect.panelUpdateTick then [frame] else [] := by
  rw [panelFrames, List.filterMap_append]
  congr 1
  cases hpanel : effect.panelUpdateTick <;> simp [hpanel]

end PanelFrames

section Driven

variable {C P L : Type} [DecidableEq C] {cl : Clocks} {k k' : StatKernel C P L} {primary c : C}
  {tr : List (ClockEvent C P L × Effect L)}

def ClockEvent.isHardclock (c : C) : ClockEvent C P L → Bool
  | .hardclock c' _ _ => c' = c
  | _ => false

def hardclocksOn (c : C) (tr : List (ClockEvent C P L × Effect L)) : ℕ :=
  tr.countP fun x ↦ x.1.isHardclock c

def schedclocksOn (c : C) (tr : List (ClockEvent C P L × Effect L)) : ℕ :=
  tr.countP fun x ↦ x.1.isHardclock c && x.2.schedclock

/-- What a CPU does only if there is a statistics clock. -/
def Doing.separate : Doing P L → Bool
  | .dividing _ | .ticking _ _ => true
  | .other | .counting _ _ => false

/-- The counters of a CPU and of the kernel, from the interrupts of the real-time clock. -/
structure Driven (cl : Clocks) (primary c : C) (tr : List (ClockEvent C P L × Effect L))
    (k : StatKernel C P L) : Prop where
  hardclockTicks : k.hardclockTicks = BitVec.ofNat 32 (hardclocksOn primary tr)
  panel : (panelFrames tr).length = hardclocksOn primary tr ∧ k.psFrame = (panelFrames tr).getLast?
  schedticks : cl.schedhz = 0 → (k.cpu c).spcSchedticks ≤ cl.hardscheddiv ∧
    cl.hardscheddiv * schedclocksOn c tr +
        Prescaler.passed cl.hardscheddiv (k.cpu c).spcSchedticks =
      (cl.hardscheddiv - 1 + hardclocksOn c tr : ℤ)
  separate : cl.stathz = 0 → ∀ c, (k.doing c).separate = false
  charges : cl.stathz = 0 → k.psdiv = 1 ∧ (k.cpu c).spcPscnt ≤ 1 ∧
    (k.cpu c).charges = hardclocksOn c tr

theorem Counted.one {spc spc' : SchedState} (h : Counted 1 (noticeDivisor cl 1 spc).1 spc')
    (hcnt : spc.spcPscnt ≤ 1) : spc'.spcPscnt = 1 ∧ spc'.charges = spc.charges + 1 := by
  have hnoticed : (noticeDivisor cl 1 spc).1.spcPscnt ≤ 1 := by
    rcases noticeDivisor_cases cl 1 spc with ⟨-, heq⟩ | ⟨-, heq⟩
    · rwa [heq]
    · rw [heq]
  have hcounted := h.counted
  have hcharged := h.charged
  rw [Prescaler.tick_fires hnoticed] at hcounted hcharged
  exact ⟨hcounted, hcharged.trans (congrArg (· + 1) (noticeDivisor_keeps cl 1 spc).2.2)⟩

/-- An event that is no interrupt of the real-time clock. -/
theorem Driven.other (h : Driven cl primary c tr k) {x : ClockEvent C P L × Effect L}
    (hx : ∀ c, x.1.isHardclock c = false) (hpanel : panelFrames [x] = [])
    (hticks : k'.hardclockTicks = k.hardclockTicks) (hframe : k'.psFrame = k.psFrame)
    (hsched : (k'.cpu c).spcSchedticks = (k.cpu c).spcSchedticks)
    (hseparate : cl.stathz = 0 → ∀ c, (k'.doing c).separate = false)
    (hcharges : cl.stathz = 0 → k'.psdiv = k.psdiv ∧ k'.cpu c = k.cpu c) :
    Driven cl primary c (tr ++ [x]) k' := by
  have hcount : ∀ c, hardclocksOn c (tr ++ [x]) = hardclocksOn c tr := by
    intro c
    simp [hardclocksOn, hx]
  have hfires : schedclocksOn c (tr ++ [x]) = schedclocksOn c tr := by
    simp [schedclocksOn, hx]
  have hframes : panelFrames (tr ++ [x]) = panelFrames tr := by
    rw [panelFrames, List.filterMap_append]
    exact (congrArg (panelFrames tr ++ ·) hpanel).trans (List.append_nil _)
  refine ⟨?_, ?_, fun hz ↦ ?_, hseparate, fun hz ↦ ?_⟩
  · rw [hcount, hticks, h.hardclockTicks]
  · rw [hcount, hframes, hframe]
    exact h.panel
  · rw [hcount, hfires, hsched]
    exact h.schedticks hz
  · rw [hcount, (hcharges hz).1, (hcharges hz).2]
    exact h.charges hz

section Concat

variable {c' : C} {frame : ClockFrame} {cur : Current P L} {effect : Effect L}

theorem hardclocksOn_concat : hardclocksOn c (tr ++ [(.hardclock c' frame cur, effect)]) =
    hardclocksOn c tr + if c' = c then 1 else 0 := by
  simp [hardclocksOn, ClockEvent.isHardclock, List.countP_append, List.countP_singleton]

theorem schedclocksOn_concat : schedclocksOn c (tr ++ [(.hardclock c' frame cur, effect)]) =
    schedclocksOn c tr + if c' = c ∧ effect.schedclock = true then 1 else 0 := by
  simp [schedclocksOn, ClockEvent.isHardclock, List.countP_append, List.countP_singleton]

end Concat

/-- A CPU goes on with something that needs no statistics clock. -/
theorem Driven.setDoing (h : Driven cl primary c tr k) {x : ClockEvent C P L × Effect L} {c' : C}
    {d : Doing P L} (hx : ∀ c, x.1.isHardclock c = false) (hpanel : panelFrames [x] = [])
    (hticks : k'.hardclockTicks = k.hardclockTicks) (hframe : k'.psFrame = k.psFrame)
    (hcpu : k'.cpu = k.cpu) (hpsdiv : k'.psdiv = k.psdiv) (hdoing : k'.doing = k.doing)
    (hd : cl.stathz = 0 → d.separate = false) :
    Driven cl primary c (tr ++ [x]) (k'.setDoing c' d) := by
  refine h.other hx hpanel hticks hframe ?_ (fun hz c'' ↦ ?_) fun _ ↦ ⟨hpsdiv, congrFun hcpu c⟩
  · exact congrArg (fun cpu ↦ (cpu c).spcSchedticks) hcpu
  · by_cases hc : c'' = c'
    · rw [hc, doing_setDoing]
      exact hd hz
    · rw [doing_setDoing_of_ne hc, hdoing]
      exact h.separate hz c''

/-- An interrupt of the real-time clock. -/
theorem Driven.hardclock [DecidableEq P] [DecidableEq L]
    (hdiv : cl.schedhz = 0 → 1 ≤ cl.hardscheddiv) (h : Driven cl primary c tr k) {c' : C}
    {frame : ClockFrame} {cur : Current P L} {r : StatKernel C P L × Effect L}
    (hhardclock : hardclock cl k primary c' frame cur = some r) :
    Driven cl primary c (tr ++ [(.hardclock c' frame cur, r.2)]) r.1 := by
  obtain ⟨hhard, hother, hframed, hticks, hframe, hpanel⟩ := hardclock_spec hhardclock
  refine ⟨?_, ?_, fun hz ↦ ?_, ?_, fun hz ↦ ?_⟩
  · rw [hticks, hardclocksOn_concat, h.hardclockTicks, BitVec.ofNat_add]
    split <;> rfl
  · obtain ⟨hlength, hlast⟩ := h.panel
    rw [hardclocksOn_concat, panelFrames_concat, hpanel, hframe]
    by_cases hprimary : c' = primary
    · simp [hprimary, hlength]
    · simp [hprimary, hlength, hlast]
  · obtain ⟨hle, hcount⟩ := h.schedticks hz
    rw [hardclocksOn_concat, schedclocksOn_concat]
    by_cases hc : c' = c
    · subst hc
      have htick := hhard.schedticks hz
      have hd : (1 : ℤ) ≤ cl.hardscheddiv := by exact_mod_cast hdiv hz
      have hrange := Prescaler.tick_mem hd hle
      have hpassed := Prescaler.passed_tick (c := (k.cpu c').spcSchedticks) hd
      rw [← htick] at hrange hpassed
      refine ⟨hrange.2, ?_⟩
      cases hdue : r.2.schedclock with
      | true =>
          rw [hdue, if_pos rfl] at hpassed
          rw [if_pos rfl, if_pos ⟨rfl, rfl⟩]
          push_cast
          linarith
      | false =>
          rw [hdue, if_neg Bool.false_ne_true] at hpassed
          rw [if_pos rfl, if_neg fun hboth ↦ Bool.false_ne_true hboth.2]
          push_cast
          linarith
    · rw [hother c (Ne.symm hc), if_neg hc, if_neg fun hboth ↦ hc hboth.1]
      exact ⟨hle, hcount⟩
  · rw [hframed.doing]
    exact h.separate
  · obtain ⟨hpsdiv, hcnt, hcharges⟩ := h.charges hz
    rw [hardclocksOn_concat, hframed.psdiv]
    refine ⟨hpsdiv, ?_⟩
    by_cases hc : c' = c
    · subst hc
      obtain ⟨spc, hcounted, -, hcnt', hcharges'⟩ := hhard.driven hz
      rw [hpsdiv] at hcounted
      obtain ⟨hone, hmore⟩ := hcounted.one hcnt
      rw [hcnt', hcharges', hone, hmore, hcharges, if_pos rfl]
      exact ⟨le_rfl, rfl⟩
    · rw [hother c (Ne.symm hc), if_neg hc]
      exact ⟨hcnt, hcharges⟩

theorem Driven.step [DecidableEq P] [DecidableEq L] (hdiv : cl.schedhz = 0 → 1 ≤ cl.hardscheddiv)
    (h : Driven cl primary c tr k)
    {e : ClockEvent C P L} {r : StatKernel C P L × Effect L}
    (hstep : k.step cl primary e = some r) : Driven cl primary c (tr ++ [(e, r.2)]) r.1 := by
  have hsame : ∀ e : ClockEvent C P L, (∀ c, e.isHardclock c = false) →
      panelFrames [(e, Effect.none)] = [] → Driven cl primary c (tr ++ [(e, .none)]) k :=
    fun e he hpanel ↦ h.other he hpanel rfl rfl rfl h.separate fun _ ↦ ⟨rfl, rfl⟩
  cases e with
  | startprofclock c' p =>
      obtain ⟨-, heq⟩ := Option.ite_none_right_eq_some.mp hstep
      cases heq
      obtain ⟨heq | ⟨-, heq⟩, -⟩ := profclock_cases k c' p
      · rw [heq]
        exact hsame _ (fun _ ↦ rfl) rfl
      · rw [heq]
        exact h.setDoing (fun _ ↦ rfl) rfl rfl rfl rfl rfl rfl fun _ ↦ rfl
  | stopprofclock c' p =>
      obtain ⟨-, heq⟩ := Option.ite_none_right_eq_some.mp hstep
      cases heq
      obtain ⟨-, heq | ⟨-, heq⟩⟩ := profclock_cases k c' p
      · rw [heq]
        exact hsame _ (fun _ ↦ rfl) rfl
      · rw [heq]
        exact h.setDoing (fun _ ↦ rfl) rfl rfl rfl rfl rfl rfl fun _ ↦ rfl
  | writeProfprocs c' =>
      obtain ⟨starts, read, -, rfl⟩ := step_writeProfprocs hstep
      cases starts with
      | true =>
          refine h.setDoing (fun _ ↦ rfl) rfl rfl rfl rfl rfl rfl fun hz ↦ ?_
          rw [if_neg fun hfirst ↦ hfirst.2 hz]
          rfl
      | false =>
          refine h.setDoing (fun _ ↦ rfl) rfl rfl rfl rfl rfl rfl fun hz ↦ ?_
          rw [if_neg fun hlast ↦ hlast.2 hz]
          rfl
  | writePsdiv c' psdiv =>
      obtain ⟨hdividing, heq⟩ := Option.ite_none_right_eq_some.mp hstep
      cases heq
      have hseparate : cl.stathz ≠ 0 := by
        intro hz
        have hfalse := h.separate hz c'
        rw [hdividing] at hfalse
        cases hfalse
      exact h.other (fun _ ↦ rfl) rfl rfl rfl rfl (fun hz ↦ absurd hz hseparate)
        fun hz ↦ absurd hz hseparate
  | setNice p nice =>
      cases hstep
      exact h.other (fun _ ↦ rfl) rfl rfl rfl rfl h.separate fun _ ↦ ⟨rfl, rfl⟩
  | statclock c' frame cur =>
      obtain ⟨⟨hz, -⟩, rfl⟩ := step_statclock hstep
      refine h.other (fun _ ↦ rfl) rfl rfl rfl ?_ (fun hzero ↦ absurd hzero hz)
        fun hzero ↦ absurd hzero hz
      change ((k.setCpu c' _).cpu c).spcSchedticks = _
      by_cases hc : c = c'
      · rw [hc, setCpu_self]
        exact (noticeDivisor_keeps cl k.psdiv (k.cpu c')).2.1
      · rw [setCpu_of_ne _ hc]
  | countTick c' =>
      obtain ⟨frame, cur, hticking, hr⟩ := step_countTick hstep
      obtain ⟨hcounted, hother, -, hticks, hframe⟩ := countTick_spec cl k c' frame cur
      have hz : cl.stathz ≠ 0 := by
        intro hz
        have hfalse := h.separate hz c'
        rw [hticking] at hfalse
        cases hfalse
      rw [hr]
      refine h.other (fun _ ↦ rfl) ?_ hticks hframe ?_ (fun hzero ↦ absurd hzero hz)
        fun hzero ↦ absurd hzero hz
      · rfl
      · change ((countTick cl k c' frame cur).1.cpu c).spcSchedticks = _
        by_cases hc : c = c'
        · rw [hc]
          exact hcounted.schedticks
        · rw [hother c hc]
  | hardclock c' frame cur =>
      obtain ⟨-, hhardclock⟩ := Option.ite_none_right_eq_some.mp hstep
      exact h.hardclock hdiv hhardclock

end Driven

/-! ## The ticks of CPUs, processes and LWPs -/

theorem sum_update {α β : Type} [Fintype α] [DecidableEq α] (f : α → β) (a : α) (b : β)
    (g : β → ℕ) : (∑ x, g (Function.update f a b x)) + g (f a) = (∑ x, g (f x)) + g b := by
  have hrest : ∑ x ∈ Finset.univ.erase a, g (Function.update f a b x) =
      ∑ x ∈ Finset.univ.erase a, g (f x) := by
    apply Finset.sum_congr rfl
    intro x hx
    rw [Function.update_of_ne (Finset.ne_of_mem_erase hx)]
  rw [← Finset.add_sum_erase _ (fun x ↦ g (Function.update f a b x)) (Finset.mem_univ a),
    ← Finset.add_sum_erase _ (fun x ↦ g (f x)) (Finset.mem_univ a), hrest, Function.update_self]
  omega

section Fits

variable {C P L : Type} {k : StatKernel C P L}

/-- A state is charged to the process on the CPU, if any. -/
def Fits (s : CpState) (onproc : Option (L × P)) : Prop :=
  match s with
  | .user | .nice | .sys => onproc ≠ none
  | .intr => True
  | .idle => onproc = none

theorem fits_cpState {frame : ClockFrame} {cur : Current P L}
    (hmode : frame.usermode = true → cur.onproc ≠ none) :
    Fits (cpState k frame cur) cur.onproc := by
  unfold cpState
  cases huser : frame.usermode with
  | true =>
      cases honproc : cur.onproc with
      | none => exact absurd honproc (hmode huser)
      | some lp =>
          dsimp only
          split <;> exact Option.some_ne_none lp
  | false =>
      dsimp only
      cases honproc : cur.onproc with
      | none => split <;> simp [Fits]
      | some lp => split <;> simp [Fits]

end Fits

section Balance

variable {C P L : Type} [Fintype C] {cl : Clocks} {k k' boot : StatKernel C P L}
  {primary c : C}

def StatKernel.total (k : StatKernel C P L) (s : CpState) : ℕ := ∑ c, (k.cpu c).spcCpTime s

theorem total_charge [DecidableEq C] [DecidableEq P] [DecidableEq L] (s t : CpState)
    (onproc : Option (L × P)) :
    (k.charge c s onproc).total t = k.total t + if t = s then 1 else 0 := by
  have hsum := sum_update k.cpu c ((k.cpu c).charge s) fun spc ↦ spc.spcCpTime t
  have hnew : ((k.cpu c).charge s).spcCpTime t =
      (k.cpu c).spcCpTime t + if t = s then 1 else 0 := by
    by_cases ht : t = s
    · subst ht
      simp [SchedState.charge]
    · simp [SchedState.charge, ht]
  rw [StatKernel.total, charge_cpu, StatKernel.setCpu, StatKernel.total]
  dsimp only at hsum ⊢
  omega

variable [Fintype P] [Fintype L]

/-- What the CPUs have charged is what the processes, and their LWPs, were charged.  An interrupt
of an idle CPU is charged to no process. -/
structure Balanced (k : StatKernel C P L) : Prop where
  user : k.total .user + k.total .nice = ∑ p, (k.proc p).pUticks
  sys : k.total .sys = ∑ p, (k.proc p).pSticks
  intr : ∑ p, (k.proc p).pIticks ≤ k.total .intr
  lwps : ∑ l, k.lCpticks l =
    (∑ p, (k.proc p).pUticks) + (∑ p, (k.proc p).pSticks) + ∑ p, (k.proc p).pIticks

theorem Balanced.setProc [DecidableEq P] (h : Balanced k) {p : P} {stat : ProcStat}
    (hticks : stat.pUticks = (k.proc p).pUticks ∧ stat.pSticks = (k.proc p).pSticks ∧
      stat.pIticks = (k.proc p).pIticks) : Balanced (k.setProc p stat) := by
  have hproc : ∀ g : ProcStat → ℕ, g stat = g (k.proc p) →
      ∑ q, g ((k.setProc p stat).proc q) = ∑ q, g (k.proc q) := by
    intro g hg
    have hsum := sum_update k.proc p stat g
    rw [hg] at hsum
    exact Nat.add_right_cancel hsum
  obtain ⟨huticks, hsticks, hiticks⟩ := hticks
  refine ⟨?_, ?_, ?_, ?_⟩
  · rw [hproc _ huticks]
    exact h.user
  · rw [hproc _ hsticks]
    exact h.sys
  · rw [hproc _ hiticks]
    exact h.intr
  · rw [hproc _ huticks, hproc _ hsticks, hproc _ hiticks]
    exact h.lwps

variable [DecidableEq C]

theorem Balanced.setCpu (h : Balanced k) {spc : SchedState}
    (hsame : spc.spcCpTime = (k.cpu c).spcCpTime) : Balanced (k.setCpu c spc) := by
  have htotal : ∀ s, (k.setCpu c spc).total s = k.total s := by
    intro s
    have hsum := sum_update k.cpu c spc fun spc ↦ spc.spcCpTime s
    rw [hsame] at hsum
    exact Nat.add_right_cancel hsum
  refine ⟨?_, ?_, ?_, h.lwps⟩
  · rw [htotal, htotal]
    exact h.user
  · rw [htotal]
    exact h.sys
  · rw [htotal]
    exact h.intr

theorem Balanced.compareDivisor (h : Balanced k) :
    Balanced (k.setCpu c (noticeDivisor cl k.psdiv (k.cpu c)).1) := by
  apply h.setCpu
  rcases noticeDivisor_cases cl k.psdiv (k.cpu c) with ⟨-, heq⟩ | ⟨-, heq⟩ <;> rw [heq]

/-- The CPUs that are in the middle of a tick have passed its assertion. -/
structure Charging (k : StatKernel C P L) : Prop where
  balanced : Balanced k
  ticking : ∀ c frame cur, k.doing c = .ticking frame cur → asserted frame cur = true

theorem Charging.setDoing (h : Charging k) (hbalanced : Balanced k') (hdoing : k'.doing = k.doing)
    {d : Doing P L} (hd : ∀ frame cur, d = .ticking frame cur → asserted frame cur = true) :
    Charging (k'.setDoing c d) := by
  refine ⟨⟨hbalanced.user, hbalanced.sys, hbalanced.intr, hbalanced.lwps⟩, fun c' frame cur hc ↦ ?_⟩
  by_cases heq : c' = c
  · rw [heq, doing_setDoing] at hc
    exact hd frame cur hc
  · rw [doing_setDoing_of_ne heq, hdoing] at hc
    exact h.ticking c' frame cur hc

variable [DecidableEq P] [DecidableEq L]

theorem Balanced.charge (h : Balanced k) {s : CpState} {onproc : Option (L × P)}
    (hfits : Fits s onproc) : Balanced (k.charge c s onproc) := by
  obtain ⟨huser, hsys, hintr, hlwps⟩ := h
  have hu := total_charge (k := k) (c := c) s .user onproc
  have hn := total_charge (k := k) (c := c) s .nice onproc
  have hs := total_charge (k := k) (c := c) s .sys onproc
  have hi := total_charge (k := k) (c := c) s .intr onproc
  cases onproc with
  | none =>
      have hproc : (k.charge c s (none : Option (L × P))).proc = k.proc := rfl
      have hnone : (if CpState.user = s then 1 else 0) = 0 ∧
          (if CpState.nice = s then 1 else 0) = 0 ∧ (if CpState.sys = s then 1 else 0) = 0 := by
        cases s <;> simp_all [Fits]
      refine ⟨?_, ?_, ?_, hlwps⟩ <;> rw [hproc] <;> omega
  | some lp =>
      obtain ⟨l, p⟩ := lp
      have hproc : ∀ g : ProcStat → ℕ,
          (∑ q, g ((k.charge c s (some (l, p))).proc q)) + g (k.proc p) =
            (∑ q, g (k.proc q)) + g ((k.proc p).charge s) :=
        sum_update k.proc p _
      have hlwp : (∑ m, (k.charge c s (some (l, p))).lCpticks m) + k.lCpticks l =
          (∑ m, k.lCpticks m) + (k.lCpticks l + 1) := sum_update k.lCpticks l _ id
      have huticks := hproc ProcStat.pUticks
      have hsticks := hproc ProcStat.pSticks
      have hiticks := hproc ProcStat.pIticks
      cases s with
      | idle => cases hfits
      | user | nice | sys | intr =>
          simp only [reduceCtorEq, if_true, if_false] at hu hn hs hi
          simp only [ProcStat.charge] at huticks hsticks hiticks
          constructor <;> omega

theorem Balanced.countTick (h : Balanced k) {frame : ClockFrame} {cur : Current P L}
    (hasserted : asserted frame cur = true) : Balanced (countTick cl k c frame cur).1 := by
  have hmode : frame.usermode = true → cur.onproc ≠ none := by
    intro huser hnone
    simp [asserted, huser, hnone] at hasserted
  rcases countTick_cases cl k c frame cur with ⟨-, hk⟩ | ⟨-, hk⟩
  · rw [hk]
    exact h.setCpu rfl
  · have hreloaded : Balanced (k.setCpu c { k.cpu c with spcPscnt := k.psdiv }) := h.setCpu rfl
    rw [hk]
    exact hreloaded.charge (fits_cpState hmode)

theorem Balanced.statclock (h : Balanced k) {frame : ClockFrame} {cur : Current P L}
    {r : StatKernel C P L × Option ℕ × Option (L × ℕ)}
    (hstat : statclock cl k c frame cur = some r) : Balanced r.1 := by
  obtain ⟨hasserted, hr⟩ := statclock_eq_some hstat
  rw [hr]
  exact h.compareDivisor.countTick hasserted

theorem Balanced.hardclock (h : Balanced k) {frame : ClockFrame} {cur : Current P L}
    {r : StatKernel C P L × Effect L} (hhard : hardclock cl k primary c frame cur = some r) :
    Balanced r.1 := by
  obtain ⟨k₁, rate, sampled, hstat, rfl⟩ := hardclock_cases hhard
  have hframe : Balanced { k with psFrame := if c = primary then some frame else k.psFrame } :=
    ⟨h.user, h.sys, h.intr, h.lwps⟩
  have hbalanced : Balanced k₁ := by
    rcases hstat with ⟨-, hstat⟩ | ⟨-, heq⟩
    · exact hframe.statclock hstat
    · cases heq
      exact hframe
  have hsame : (divideSched cl (k₁.cpu c)).1.spcCpTime = (k₁.cpu c).spcCpTime := by
    unfold divideSched
    split_ifs <;> rfl
  have hdone := hbalanced.setCpu hsame
  exact ⟨hdone.user, hdone.sys, hdone.intr, hdone.lwps⟩

theorem Charging.step (h : Charging k) {e : ClockEvent C P L} {r : StatKernel C P L × Effect L}
    (hstep : k.step cl primary e = some r) : Charging r.1 := by
  have hmarked : ∀ p profil, Balanced (k.setProc p { k.proc p with profil }) :=
    fun p profil ↦ h.balanced.setProc ⟨rfl, rfl, rfl⟩
  have hdivided : ∀ profprocs psdiv, Balanced { k with profprocs, psdiv } := by
    obtain ⟨huser, hsys, hintr, hlwps⟩ := h.balanced
    exact fun _ _ ↦ ⟨huser, hsys, hintr, hlwps⟩
  cases e with
  | startprofclock c p =>
      obtain ⟨-, heq⟩ := Option.ite_none_right_eq_some.mp hstep
      cases heq
      obtain ⟨heq | ⟨-, heq⟩, -⟩ := profclock_cases k c p
      · rwa [heq]
      · rw [heq]
        exact h.setDoing (hmarked p true) rfl nofun
  | stopprofclock c p =>
      obtain ⟨-, heq⟩ := Option.ite_none_right_eq_some.mp hstep
      cases heq
      obtain ⟨-, heq | ⟨-, heq⟩⟩ := profclock_cases k c p
      · rwa [heq]
      · rw [heq]
        exact h.setDoing (hmarked p false) rfl nofun
  | writeProfprocs c =>
      obtain ⟨starts, read, -, rfl⟩ := step_writeProfprocs hstep
      cases starts with
      | true =>
          refine h.setDoing (hdivided (read + 1) k.psdiv) rfl fun frame cur hd ↦ ?_
          split_ifs at hd
      | false =>
          refine h.setDoing (hdivided (read - 1) k.psdiv) rfl fun frame cur hd ↦ ?_
          split_ifs at hd
  | writePsdiv c psdiv =>
      obtain ⟨-, heq⟩ := Option.ite_none_right_eq_some.mp hstep
      cases heq
      exact h.setDoing (hdivided k.profprocs psdiv) rfl nofun
  | setNice p nice =>
      cases hstep
      exact ⟨h.balanced.setProc ⟨rfl, rfl, rfl⟩, h.ticking⟩
  | statclock c frame cur =>
      obtain ⟨⟨-, -, hasserted⟩, rfl⟩ := step_statclock hstep
      refine h.setDoing h.balanced.compareDivisor rfl fun frame' cur' hd ↦ ?_
      cases hd
      exact hasserted
  | countTick c =>
      obtain ⟨frame, cur, hticking, hr⟩ := step_countTick hstep
      obtain ⟨-, -, hframed, -⟩ := countTick_spec cl k c frame cur
      rw [hr]
      exact h.setDoing (h.balanced.countTick (h.ticking c frame cur hticking)) hframed.doing nofun
  | hardclock c frame cur =>
      obtain ⟨-, hhardclock⟩ := Option.ite_none_right_eq_some.mp hstep
      obtain ⟨-, -, hframed, -⟩ := hardclock_spec hhardclock
      refine ⟨h.balanced.hardclock hhardclock, ?_⟩
      rw [hframed.doing]
      exact h.ticking

end Balance

/-! ## Every run -/

section Results

variable {C P L : Type} [DecidableEq C] [DecidableEq P] [DecidableEq L] {cl : Clocks}
  {boot k : StatKernel C P L} {primary : C} {tr : List (ClockEvent C P L × Effect L)}

/-- No tick is charged to a process that a CPU is not charged for, and none twice. -/
theorem ticks_balance [Fintype C] [Fintype P] [Fintype L] (hboot : Boot boot)
    (h : Run (clocks cl primary boot) tr k) : Balanced k := by
  have hcharging : Charging k := by
    refine Run.invariant (I := fun _ k ↦ Charging k) ⟨?_, fun c frame cur hc ↦ ?_⟩ ?_ h
    · have htotal : ∀ s, boot.total s = 0 :=
        fun s ↦ Finset.sum_eq_zero fun c _ ↦ hboot.spcCpTime c s
      have hproc : ∀ p, _ := hboot.ticks
      change Balanced boot
      constructor <;> simp [htotal, hproc, hboot.lCpticks]
    · cases (hboot.doing c).symm.trans hc
    · exact fun tr k e k' o hk hstep ↦ hk.step hstep
  exact hcharging.balanced

theorem ticks_balance_profiled : ∃ tr k,
    Run (clocks tenfoldClocks false twoProcesses) tr k ∧ (k.cpu false).charges = 2 ∧
      Balanced k := by
  obtain ⟨tr, k, hrun, -, -, -, -, hcharges⟩ := replay_profiledTicks
  exact ⟨tr, k, hrun.of_within, hcharges, ticks_balance boot_twoProcesses hrun.of_within⟩

/-- Everything that is counted off the real-time clock is exact, `hardclock_ticks` up to the width
of an `int`. -/
theorem hardclock_drives {f : Frequencies} (hf : f.Required) (hcl : initclocks f = some cl)
    (hboot : Boot boot) (h : Run (clocks cl primary boot) tr k) (c : C) :
    (f.schedhz = 0 →
      schedclocksOn c tr = (hardclocksOn c tr + f.hz / 16 - 1) / (f.hz / 16)) ∧
    (f.stathz = 0 → (k.cpu c).charges = hardclocksOn c tr) ∧
    k.hardclockTicks = BitVec.ofNat 32 (hardclocksOn primary tr) ∧
    (panelFrames tr).length = hardclocksOn primary tr ∧ k.psFrame = (panelFrames tr).getLast? := by
  obtain ⟨hstathz, hschedhz, -, -, -, hsched⟩ := initclocks_spec hf hcl
  have hdriven : Driven cl primary c tr k := by
    refine Run.invariant (I := fun tr k ↦ Driven cl primary c tr k) ?_ ?_ h
    · obtain ⟨hspc, hcnt, hticks⟩ := hboot.counters c
      change Driven cl primary c [] boot
      refine ⟨hboot.hardclockTicks, ⟨rfl, hboot.psFrame⟩, fun hz ↦ ?_, fun hz c ↦ ?_,
        fun hz ↦ ?_⟩
      · obtain ⟨hd, -⟩ := hsched hz
        have hmax : max (boot.cpu c).spcSchedticks 1 = 1 := max_eq_right hticks
        refine ⟨by omega, ?_⟩
        rw [Prescaler.passed, hmax]
        simp [schedclocksOn, hardclocksOn]
      · rw [hboot.doing]
        rfl
      · exact ⟨hboot.psdiv, hcnt, hboot.charges c⟩
    · exact fun tr k e k' o hk hstep ↦ hk.step (fun hz ↦ (hsched hz).1) hstep
  refine ⟨fun hz ↦ ?_, fun hz ↦ ?_, hdriven.hardclockTicks, hdriven.panel⟩
  · rw [← hschedhz] at hz
    obtain ⟨hd, hdiv⟩ := hsched hz
    obtain ⟨hle, hcount⟩ := hdriven.schedticks hz
    have hfired := Prescaler.fired_eq (by exact_mod_cast hd) hle hcount
    rw [← hdiv]
    zify [show 1 ≤ hardclocksOn c tr + cl.hardscheddiv by omega]
    rw [hfired]
    congr 1
    omega
  · rw [← hstathz] at hz
    exact (hdriven.charges hz).2.2

theorem hardclock_drives_profiled : ∃ tr k,
    Run (clocks tenfoldClocks false twoProcesses) tr k ∧ tr.map Prod.fst = profiledTicks ∧
      schedclocksOn false tr = (hardclocksOn false tr + 6 - 1) / 6 ∧
      k.hardclockTicks = BitVec.ofNat 32 (hardclocksOn false tr) := by
  obtain ⟨tr, k, hrun, hevents, -⟩ := replay_profiledTicks
  obtain ⟨hsched, -, hticks, -⟩ := hardclock_drives required_tenfold initclocks_tenfold
    boot_twoProcesses hrun.of_within false
  exact ⟨tr, k, hrun.of_within, hevents, hsched rfl, hticks⟩

end Results

end VPanel.Kernel.StatClock
