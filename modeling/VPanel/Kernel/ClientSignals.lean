import Mathlib.Data.Int.Notation
import Mathlib.Data.List.Nodup
import VPanel.Library.EventRun

/-!
# Signals from the VAX clock interrupt

`kern_clock.c` keeps the pid of the panel client and looks it up among the
processes at each tick.  The process table belongs to the rest of the kernel;
it is modelled by the steps that create processes, end them and free their pids.
-/

namespace VPanel.Kernel

open EventRun

inductive PStat
  | sidl | sactive | sdying | sstop | szomb | sdead
  deriving DecidableEq

/-- A process.  No two processes ever have the same `id`; `onAllproc` is false
once a zombie was moved to another list. -/
structure Proc where
  id : ℕ
  pPid : ℤ
  pStat : PStat
  onAllproc : Bool
  deriving DecidableEq

def Proc.isDead (p : Proc) : Bool := p.pStat = .szomb ∨ p.pStat = .sdead

structure ClockKernel where
  procs : List Proc
  created : ℕ
  panelNotificationEnabled : ℤ
  panelClientPid : ℤ
  deriving DecidableEq

def ClockKernel.boot : ClockKernel := ⟨[], 0, 1, 0⟩

namespace ClockKernel

variable (k : ClockKernel)

def allproc : List Proc := k.procs.filter (·.onAllproc)

/-! ## The two sysctl nodes -/

/-- The outcome of `sysctl_lookup` in a handler. -/
inductive Lookup
  | error (errno : ℤ)
  /-- `newp == NULL`. -/
  | read
  | write (value : ℤ)
  deriving DecidableEq

def einval : ℤ := 22

def sysctlPanelNotificationEnabled : Lookup → ℤ × ClockKernel
  | .error errno => (errno, k)
  | .read => (0, k)
  | .write enabled =>
      if enabled ≠ 0 ∧ enabled ≠ 1 then (einval, k)
      else (0, { k with panelNotificationEnabled := enabled })

def sysctlPanelClientPid : Lookup → ℤ × ClockKernel
  | .error errno => (errno, k)
  | .read => (0, k)
  | .write pid =>
      if pid < 0 then (einval, k)
      else (0, { k with panelClientPid := pid })

/-! ## The tick -/

/-- `panel_notify_userspace`, with the process it sends `SIGUSR1` to. -/
def panelNotifyUserspace : ClockKernel × Option Proc :=
  if k.panelNotificationEnabled = 0 ∨ k.panelClientPid ≤ 0 then (k, none)
  else
    match k.allproc.find? (fun p ↦ p.pPid = k.panelClientPid) with
    | some p =>
        if p.isDead then ({ k with panelClientPid := 0 }, none)
        else (k, some p)
    | none => ({ k with panelClientPid := 0 }, none)

/-! ## Processes -/

def fork (pid : ℤ) : Option ClockKernel :=
  if 0 ≤ pid ∧ pid ∉ k.procs.map Proc.pPid then
    some { k with procs := ⟨k.created, pid, .sidl, true⟩ :: k.procs, created := k.created + 1 }
  else none

def modify (id : ℕ) (f : Proc → Proc) : ClockKernel :=
  { k with procs := k.procs.map fun p ↦ if p.id = id then f p else p }

def find (id : ℕ) : Option Proc := k.procs.find? (·.id = id)

/-- Change the status of a process that is not dead; exiting is such a change. -/
def setStat (id : ℕ) (stat : PStat) : Option ClockKernel := do
  let p ← k.find id
  if p.isDead then none else some (k.modify id fun p ↦ { p with pStat := stat })

/-- Take a dead process off `allproc`. -/
def bury (id : ℕ) : Option ClockKernel := do
  let p ← k.find id
  if p.isDead then some (k.modify id fun p ↦ { p with onAllproc := false }) else none

def reap (id : ℕ) : Option ClockKernel := do
  let p ← k.find id
  if p.isDead then some { k with procs := k.procs.filter fun q ↦ ¬q.id = id } else none

end ClockKernel

/-! ## Runs -/

open ClockKernel (Lookup)

inductive ClockEvent
  | setEnabled (lookup : Lookup)
  | setClientPid (lookup : Lookup)
  | fork (pid : ℤ)
  | setStat (id : ℕ) (stat : PStat)
  | bury (id : ℕ)
  | reap (id : ℕ)
  | tick
  deriving DecidableEq

def ClockKernel.step (k : ClockKernel) : ClockEvent → Option (ClockKernel × Option Proc)
  | .setEnabled lookup => some ((k.sysctlPanelNotificationEnabled lookup).2, none)
  | .setClientPid lookup => some ((k.sysctlPanelClientPid lookup).2, none)
  | .fork pid => (k.fork pid).map (·, none)
  | .setStat id stat => (k.setStat id stat).map (·, none)
  | .bury id => (k.bury id).map (·, none)
  | .reap id => (k.reap id).map (·, none)
  | .tick => some k.panelNotifyUserspace

/-- The kernel together with the process that owned the pid when it was last set. -/
structure Watched where
  kernel : ClockKernel
  owner : Option ℕ
  deriving DecidableEq

def ClockKernel.ownerOf (k : ClockKernel) (pid : ℤ) : Option ℕ :=
  (k.procs.find? (·.pPid = pid)).map Proc.id

/-- A successful write of the pid decides the owner anew. -/
def Watched.nextOwner (s : Watched) : ClockEvent → Option ℕ
  | .setClientPid (.write pid) => if pid < 0 then s.owner else s.kernel.ownerOf pid
  | _ => s.owner

def clock : Machine Watched ClockEvent (Option Proc) where
  initial := ⟨.boot, none⟩
  step s e := (s.kernel.step e).map fun (k, signalled) ↦ (⟨k, s.nextOwner e⟩, signalled)

/-- No process other than the owner can be signalled by the next step. -/
def OnlyOwner (s : Watched) : Prop :=
  ∀ e t p, clock.step s e = some (t, some p) → s.owner = some p.id

/-- The step creates no process with the pid that is registered. -/
def NoReuse (s : Watched) (e : ClockEvent) : Prop :=
  0 < s.kernel.panelClientPid → e ≠ .fork s.kernel.panelClientPid

instance (s : Watched) (e : ClockEvent) : Decidable (NoReuse s e) :=
  inferInstanceAs (Decidable (_ → _))

/-! ## What a step can do -/

def Proc.key (p : Proc) : ℕ × ℤ := (p.id, p.pPid)

namespace ClockKernel

variable {k k' : ClockKernel}

theorem map_key_modify (id : ℕ) {f : Proc → Proc} (hf : ∀ p, (f p).key = p.key) :
    (k.modify id f).procs.map Proc.key = k.procs.map Proc.key := by
  rw [modify, List.map_map]
  apply List.map_congr_left
  intro p _
  rw [Function.comp_apply]
  split
  · exact hf p
  · rfl

theorem panelNotifyUserspace_spec :
    (∃ pid, k.panelNotifyUserspace.1 = { k with panelClientPid := pid } ∧
      (pid = k.panelClientPid ∨ pid = 0)) ∧
    ∀ p, k.panelNotifyUserspace.2 = some p →
      p ∈ k.procs ∧ 0 < k.panelClientPid ∧ p.pPid = k.panelClientPid := by
  unfold panelNotifyUserspace
  split
  next => exact ⟨⟨_, rfl, .inl rfl⟩, fun p hp ↦ nomatch hp⟩
  next hactive =>
    split
    next p hfind =>
      split
      next => exact ⟨⟨0, rfl, .inr rfl⟩, fun p hp ↦ nomatch hp⟩
      next =>
        refine ⟨⟨_, rfl, .inl rfl⟩, fun q hq ↦ ?_⟩
        obtain rfl : p = q := by simpa using hq
        refine ⟨List.mem_of_mem_filter (List.mem_of_find?_eq_some hfind), ?_, ?_⟩
        · omega
        · simpa using List.find?_some hfind
    next => exact ⟨⟨0, rfl, .inr rfl⟩, fun p hp ↦ nomatch hp⟩

/-- The steps that neither create a process nor register a pid. -/
structure Maintains (k : ClockKernel) (e : ClockEvent) (k' : ClockKernel)
    (signalled : Option Proc) : Prop where
  keys : (k'.procs.map Proc.key).Sublist (k.procs.map Proc.key)
  created : k'.created = k.created
  clientPid : k'.panelClientPid = k.panelClientPid ∨ k'.panelClientPid = 0
  rejected : ∀ pid, e = .setClientPid (.write pid) → pid < 0
  signalled : ∀ p, signalled = some p →
    p ∈ k.procs ∧ 0 < k.panelClientPid ∧ p.pPid = k.panelClientPid

theorem maintains_of_keys {e : ClockEvent} {procs : List Proc} (enabled : ℤ)
    (hkeys : (procs.map Proc.key).Sublist (k.procs.map Proc.key))
    (he : ∀ pid, e = .setClientPid (.write pid) → pid < 0) :
    k.Maintains e { k with procs := procs, panelNotificationEnabled := enabled } none where
  keys := hkeys
  created := rfl
  clientPid := .inl rfl
  rejected := he
  signalled _ h := nomatch h

theorem maintains_self {e : ClockEvent}
    (he : ∀ pid, e = .setClientPid (.write pid) → pid < 0) : k.Maintains e k none :=
  maintains_of_keys k.panelNotificationEnabled (List.Sublist.refl _) he

theorem maintains_modify {e : ClockEvent} (id : ℕ) {f : Proc → Proc}
    (hf : ∀ p, (f p).key = p.key) (he : ∀ pid, e = .setClientPid (.write pid) → pid < 0) :
    k.Maintains e (k.modify id f) none := by
  refine maintains_of_keys k.panelNotificationEnabled ?_ he
  exact (map_key_modify id hf) ▸ List.Sublist.refl _

theorem step_fork {pid : ℤ} {signalled : Option Proc}
    (h : k.step (.fork pid) = some (k', signalled)) :
    pid ∉ k.procs.map Proc.pPid ∧ signalled = none ∧
      k' = { k with procs := ⟨k.created, pid, .sidl, true⟩ :: k.procs,
                    created := k.created + 1 } := by
  obtain ⟨hfork, rfl⟩ := eq_of_map_output h
  obtain ⟨⟨-, hfree⟩, hk⟩ := Option.ite_none_right_eq_some.mp hfork
  exact ⟨hfree, rfl, (Option.some.inj hk).symm⟩

theorem step_cases {e : ClockEvent} {signalled : Option Proc}
    (h : k.step e = some (k', signalled)) :
    (∃ pid, e = .fork pid ∧ pid ∉ k.procs.map Proc.pPid ∧ signalled = none ∧
      k' = { k with procs := ⟨k.created, pid, .sidl, true⟩ :: k.procs,
                    created := k.created + 1 }) ∨
    (∃ pid, e = .setClientPid (.write pid) ∧ 0 ≤ pid ∧ signalled = none ∧
      k' = { k with panelClientPid := pid }) ∨
    k.Maintains e k' signalled := by
  cases e with
  | setEnabled lookup =>
      obtain ⟨rfl, rfl⟩ : (k.sysctlPanelNotificationEnabled lookup).2 = k' ∧ none = signalled := by
        simpa [step] using h
      refine Or.inr (Or.inr ?_)
      cases lookup with
      | error errno => exact maintains_self fun pid hpid ↦ nomatch hpid
      | read => exact maintains_self fun pid hpid ↦ nomatch hpid
      | write enabled =>
          rw [sysctlPanelNotificationEnabled]
          split
          · exact maintains_self fun pid hpid ↦ nomatch hpid
          · exact maintains_of_keys enabled (List.Sublist.refl _) fun pid hpid ↦ nomatch hpid
  | setClientPid lookup =>
      obtain ⟨rfl, rfl⟩ : (k.sysctlPanelClientPid lookup).2 = k' ∧ none = signalled := by
        simpa [step] using h
      cases lookup with
      | error errno => exact Or.inr (Or.inr (maintains_self fun pid hpid ↦ nomatch hpid))
      | read => exact Or.inr (Or.inr (maintains_self fun pid hpid ↦ nomatch hpid))
      | write pid =>
          rw [sysctlPanelClientPid]
          split
          next hneg =>
            refine Or.inr (Or.inr (maintains_self fun pid' hpid ↦ ?_))
            cases hpid
            exact hneg
          next hpos => exact Or.inr (Or.inl ⟨pid, rfl, by omega, rfl, rfl⟩)
  | fork pid =>
      obtain ⟨hfree, hnone, hk⟩ := step_fork h
      exact Or.inl ⟨pid, rfl, hfree, hnone, hk⟩
  | setStat id stat =>
      obtain ⟨hstat, rfl⟩ := eq_of_map_output h
      obtain ⟨p, -, hset⟩ := Option.bind_eq_some_iff.mp hstat
      obtain ⟨-, hk⟩ := Option.ite_none_left_eq_some.mp hset
      obtain rfl := Option.some.inj hk
      exact Or.inr (Or.inr (maintains_modify id (fun _ ↦ rfl) fun pid hpid ↦ nomatch hpid))
  | bury id =>
      obtain ⟨hbury, rfl⟩ := eq_of_map_output h
      obtain ⟨p, -, hset⟩ := Option.bind_eq_some_iff.mp hbury
      obtain ⟨-, hk⟩ := Option.ite_none_right_eq_some.mp hset
      obtain rfl := Option.some.inj hk
      exact Or.inr (Or.inr (maintains_modify id (fun _ ↦ rfl) fun pid hpid ↦ nomatch hpid))
  | reap id =>
      obtain ⟨hreap, rfl⟩ := eq_of_map_output h
      obtain ⟨p, -, hset⟩ := Option.bind_eq_some_iff.mp hreap
      obtain ⟨-, hk⟩ := Option.ite_none_right_eq_some.mp hset
      obtain rfl := Option.some.inj hk
      exact Or.inr (Or.inr (maintains_of_keys k.panelNotificationEnabled
        (List.filter_sublist.map Proc.key) fun pid hpid ↦ nomatch hpid))
  | tick =>
      obtain ⟨⟨pid, hk, hpid⟩, hsig⟩ := panelNotifyUserspace_spec (k := k)
      have htick : k.panelNotifyUserspace = (k', signalled) := Option.some.inj h
      rw [htick] at hk hsig
      subst hk
      exact Or.inr (Or.inr ⟨List.Sublist.refl _, rfl, hpid,
        fun pid' hpid' ↦ (nomatch hpid'), hsig⟩)

theorem Maintains.exists_mem {e : ClockEvent} {signalled : Option Proc}
    (h : k.Maintains e k' signalled) {q : Proc} (hq : q ∈ k'.procs) :
    ∃ p ∈ k.procs, p.id = q.id ∧ p.pPid = q.pPid := by
  obtain ⟨p, hp, hkey⟩ := List.mem_map.mp (h.keys.subset (List.mem_map_of_mem hq))
  exact ⟨p, hp, congrArg Prod.fst hkey, congrArg Prod.snd hkey⟩

theorem Maintains.sublist_pids {e : ClockEvent} {signalled : Option Proc}
    (h : k.Maintains e k' signalled) :
    (k'.procs.map Proc.pPid).Sublist (k.procs.map Proc.pPid) := by
  have hsnd := h.keys.map Prod.snd
  rwa [List.map_map, List.map_map] at hsnd

theorem ownerOf_eq (hdistinct : (k.procs.map Proc.pPid).Nodup) {p : Proc} (hp : p ∈ k.procs) :
    k.ownerOf p.pPid = some p.id := by
  rw [ownerOf, find?_of_nodup hdistinct hp, Option.map_some]

theorem exists_of_ownerOf {pid : ℤ} {id : ℕ} (h : k.ownerOf pid = some id) :
    ∃ p ∈ k.procs, p.id = id := by
  obtain ⟨p, hfind, hid⟩ := Option.map_eq_some_iff.mp h
  exact ⟨p, List.mem_of_find?_eq_some hfind, hid⟩

end ClockKernel

/-! ## Invariants -/

theorem clock_step {s t : Watched} {e : ClockEvent} {signalled : Option Proc}
    (h : clock.step s e = some (t, signalled)) :
    s.kernel.step e = some (t.kernel, signalled) ∧ t.owner = s.nextOwner e := by
  obtain ⟨⟨k, o⟩, hk, heq⟩ := Option.map_eq_some_iff.mp h
  obtain ⟨rfl, rfl⟩ : (⟨k, s.nextOwner e⟩ : Watched) = t ∧ o = signalled := by simpa using heq
  exact ⟨hk, rfl⟩

theorem Watched.nextOwner_of_rejected {s : Watched} {e : ClockEvent}
    (h : ∀ pid, e = .setClientPid (.write pid) → pid < 0) : s.nextOwner e = s.owner := by
  unfold nextOwner
  split
  next pid => rw [if_pos (h pid rfl)]
  next => rfl

structure Watched.Sound (s : Watched) : Prop where
  distinct : (s.kernel.procs.map Proc.pPid).Nodup
  fresh : ∀ p ∈ s.kernel.procs, p.id < s.kernel.created
  owner : ∀ id, s.owner = some id → id < s.kernel.created

def Watched.Tracks (s : Watched) : Prop :=
  ∀ p ∈ s.kernel.procs, 0 < s.kernel.panelClientPid → p.pPid = s.kernel.panelClientPid →
    s.owner = some p.id

theorem Watched.Sound.step {s t : Watched} {e : ClockEvent} {signalled : Option Proc}
    (h : s.Sound) (hstep : clock.step s e = some (t, signalled)) : t.Sound := by
  obtain ⟨hk, howner⟩ := clock_step hstep
  rcases ClockKernel.step_cases hk with ⟨pid, rfl, hfree, -, ht⟩ | ⟨pid, rfl, hpid, -, ht⟩ | hkeep
  · refine ⟨?_, ?_, ?_⟩
    · rw [ht, List.map_cons, List.nodup_cons]
      exact ⟨hfree, h.distinct⟩
    · intro p hp
      rw [ht] at hp ⊢
      rcases List.mem_cons.mp hp with rfl | hp
      · exact Nat.lt_succ_self _
      · exact Nat.lt_succ_of_lt (h.fresh p hp)
    · intro id hid
      rw [ht]
      exact Nat.lt_succ_of_lt (h.owner id (by rw [← hid, howner]; rfl))
  · refine ⟨by rw [ht]; exact h.distinct, by rw [ht]; exact h.fresh, ?_⟩
    intro id hid
    rw [howner, Watched.nextOwner, if_neg (by omega)] at hid
    obtain ⟨p, hp, rfl⟩ := ClockKernel.exists_of_ownerOf hid
    rw [ht]
    exact h.fresh p hp
  · refine ⟨hkeep.sublist_pids.nodup h.distinct, ?_, ?_⟩
    · intro q hq
      obtain ⟨p, hp, hid, -⟩ := hkeep.exists_mem hq
      rw [hkeep.created, ← hid]
      exact h.fresh p hp
    · intro id hid
      rw [hkeep.created]
      exact h.owner id (by rw [← hid, howner, s.nextOwner_of_rejected hkeep.rejected])

theorem Watched.Tracks.step {s t : Watched} {e : ClockEvent} {signalled : Option Proc}
    (h : s.Tracks) (hsound : s.Sound) (hreuse : NoReuse s e)
    (hstep : clock.step s e = some (t, signalled)) : t.Tracks := by
  obtain ⟨hk, howner⟩ := clock_step hstep
  intro q hq hpos hpid
  rw [howner]
  rcases ClockKernel.step_cases hk with ⟨pid, rfl, -, -, ht⟩ | ⟨pid, rfl, hnneg, -, ht⟩ | hkeep
  · rw [ht] at hq hpos hpid
    rcases List.mem_cons.mp hq with rfl | hq
    · exact absurd (congrArg ClockEvent.fork hpid) (hreuse hpos)
    · exact h q hq hpos hpid
  · rw [ht] at hq hpos hpid
    rw [Watched.nextOwner, if_neg (by omega)]
    have hq' := ClockKernel.ownerOf_eq hsound.distinct hq
    rwa [hpid] at hq'
  · rw [s.nextOwner_of_rejected hkeep.rejected]
    obtain ⟨p, hp, hid, hpp⟩ := hkeep.exists_mem hq
    rw [← hid]
    rcases hkeep.clientPid with hsame | hzero
    · exact h p hp (hsame ▸ hpos) (by rw [hpp, hpid, hsame])
    · omega

theorem Watched.Tracks.onlyOwner {s : Watched} (h : s.Tracks) : OnlyOwner s := by
  intro e t p hstep
  rcases ClockKernel.step_cases (clock_step hstep).1 with ⟨-, -, -, hnone, -⟩ |
      ⟨-, -, -, hnone, -⟩ | hkeep
  · cases hnone
  · cases hnone
  · obtain ⟨hp, hpos, hpid⟩ := hkeep.signalled p rfl
    exact h p hp hpos hpid

theorem sound_of_run {tr : List (ClockEvent × Option Proc)} {s : Watched} (h : Run clock tr s) :
    s.Sound :=
  h.invariant (I := fun _ s ↦ s.Sound)
    ⟨List.nodup_nil, fun _ hp ↦ (nomatch hp), fun _ hid ↦ nomatch hid⟩
    fun _ _ _ _ _ hs hstep ↦ hs.step hstep

theorem tracks_of_run {tr : List (ClockEvent × Option Proc)} {s : Watched}
    (h : Run (clock.within NoReuse) tr s) : s.Tracks := by
  induction h with
  | start => exact fun _ hp ↦ nomatch hp
  | step hrun hstep ih =>
      obtain ⟨hreuse, hstep⟩ := within_step_eq_some.mp hstep
      exact ih.step (sound_of_run hrun.of_within) hreuse hstep

/-! ## Reuse of the registered pid -/

theorem not_onlyOwner_of_reuse {s t u : Watched} {e : ClockEvent} {o o' : Option Proc}
    (hs : s.Sound) (hreuse : ¬NoReuse s e) (hstep : clock.step s e = some (t, o))
    (hon : clock.step t (.setEnabled (.write 1)) = some (u, o')) : ¬OnlyOwner u := by
  obtain ⟨hpos, rfl⟩ : 0 < s.kernel.panelClientPid ∧ e = .fork s.kernel.panelClientPid := by
    simpa [NoReuse] using hreuse
  obtain ⟨hk, howner⟩ := clock_step hstep
  obtain ⟨-, -, ht⟩ := ClockKernel.step_fork hk
  obtain rfl : (⟨{ t.kernel with panelNotificationEnabled := 1 }, t.owner⟩ : Watched) = u :=
    congrArg Prod.fst (Option.some.inj hon)
  have htick : clock.step ⟨{ t.kernel with panelNotificationEnabled := 1 }, t.owner⟩ .tick =
      some (⟨{ t.kernel with panelNotificationEnabled := 1 }, t.owner⟩,
        some ⟨s.kernel.created, s.kernel.panelClientPid, .sidl, true⟩) := by
    have hactive : ¬s.kernel.panelClientPid ≤ 0 := by omega
    simp [clock, ClockKernel.step, ClockKernel.panelNotifyUserspace, ClockKernel.allproc, ht,
      Proc.isDead, Watched.nextOwner, hactive]
  intro honly
  have hstranger := honly _ _ _ htick
  rw [howner] at hstranger
  exact absurd (hs.owner _ hstranger) (Nat.lt_irrefl _)

/-- As long as no process is created with the registered pid, only the owner is
signalled; the first such process is signalled in the owner's place once
notifications are on. -/
theorem onlyOwner_of_noReuse {tr : List (ClockEvent × Option Proc)} {s : Watched}
    (h : Run (clock.within NoReuse) tr s) :
    OnlyOwner s ∧
      ∀ e t u o o', clock.step s e = some (t, o) →
        clock.step t (.setEnabled (.write 1)) = some (u, o') → (NoReuse s e ↔ OnlyOwner u) := by
  have hsound := sound_of_run h.of_within
  refine ⟨(tracks_of_run h).onlyOwner, fun e t u o o' hstep hon ↦ ⟨fun hreuse ↦ ?_, fun hu ↦ ?_⟩⟩
  · have ht := h.step (within_step_eq_some.mpr ⟨hreuse, hstep⟩)
    have hrest : NoReuse t (.setEnabled (.write 1)) := fun _ h ↦ nomatch h
    exact (tracks_of_run (ht.step (within_step_eq_some.mpr ⟨hrest, hon⟩))).onlyOwner
  · by_contra hreuse
    exact not_onlyOwner_of_reuse hsound hreuse hstep hon hu

def otherPids : List ClockEvent :=
  [.fork 100, .setStat 0 .sactive, .setClientPid (.write 100), .fork 101, .tick,
    .setEnabled (.write 0), .setStat 1 .szomb, .bury 1, .reap 1, .fork 101, .setEnabled (.write 1)]

def afterOtherPids : Watched :=
  ⟨⟨[⟨2, 101, .sidl, true⟩, ⟨0, 100, .sactive, true⟩], 3, 1, 100⟩, some 0⟩

theorem onlyOwner_afterOtherPids :
    OnlyOwner afterOtherPids ∧
      clock.step afterOtherPids .tick = some (afterOtherPids, some ⟨0, 100, .sactive, true⟩) := by
  obtain ⟨tr, -, hrun⟩ : ∃ tr, tr.map Prod.fst = otherPids ∧
      Run (clock.within NoReuse) tr afterOtherPids :=
    exists_run_of_replay (by decide)
  exact ⟨(onlyOwner_of_noReuse hrun).1, by decide⟩

/-- A client registers, notifications are turned off, the client exits, its pid
is freed and given to another process, and notifications are turned on again. -/
def pidReuse : List ClockEvent :=
  [.fork 100, .setStat 0 .sactive, .setClientPid (.write 100), .tick, .setEnabled (.write 0),
    .setStat 0 .szomb, .bury 0, .tick, .reap 0, .fork 100, .setStat 1 .sactive,
    .setEnabled (.write 1)]

def afterPidReuse : Watched := ⟨⟨[⟨1, 100, .sactive, true⟩], 2, 1, 100⟩, some 0⟩

/-- The tick after that run signals the second process. -/
theorem not_onlyOwner_afterPidReuse :
    (∃ tr, tr.map Prod.fst = pidReuse ∧ Run clock tr afterPidReuse) ∧
      ¬OnlyOwner afterPidReuse := by
  refine ⟨exists_run_of_replay (by decide), fun honly ↦ ?_⟩
  have hstranger := honly .tick afterPidReuse ⟨1, 100, .sactive, true⟩ (by decide)
  exact absurd hstranger (by decide)

end VPanel.Kernel
