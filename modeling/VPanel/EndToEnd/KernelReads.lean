import VPanel.Kernel.HardClock
import VPanel.Kernel.WaitForPanel
import VPanel.Library.EventRun
import VPanel.Library.TornCopy
import VPanel.Wire.Clients

/-!
# From the clock interrupt to the client

The client of a PDP-11 reads the panel from the memory of the kernel while the
clock interrupt writes it.  The read copies one byte after the other and may be
interrupted anywhere; the client waits for the panel only behind its frame.
-/

namespace VPanel.EndToEnd

open EventRun Kernel ObjectLayout TornCopy Wire

/-! ## The panel in memory -/

def panelBytes (s : PdpPanelState) : List UInt8 :=
  (pdpPanelState .pdp11).store Abi.pdp11.order s.members (List.replicate 16 0)

/-- The panel that a client finds in sixteen bytes. -/
def panelOfBytes (bytes : List UInt8) : PdpPanelState where
  psAddress := BitVec.ofNat 32 ((pdpPanelState .pdp11).load Abi.pdp11.order bytes .psAddress)
  psData := BitVec.ofNat 16 ((pdpPanelState .pdp11).load Abi.pdp11.order bytes .psData)
  psPsw := BitVec.ofNat 16 ((pdpPanelState .pdp11).load Abi.pdp11.order bytes .psPsw)
  psMser := BitVec.ofNat 16 ((pdpPanelState .pdp11).load Abi.pdp11.order bytes .psMser)
  psCpuErr := BitVec.ofNat 16 ((pdpPanelState .pdp11).load Abi.pdp11.order bytes .psCpuErr)
  psMmr0 := BitVec.ofNat 16 ((pdpPanelState .pdp11).load Abi.pdp11.order bytes .psMmr0)
  psMmr3 := BitVec.ofNat 16 ((pdpPanelState .pdp11).load Abi.pdp11.order bytes .psMmr3)

@[simp] theorem length_panelBytes (s : PdpPanelState) : (panelBytes s).length = 16 :=
  ObjType.length_store _ _ _ (by decide)

theorem ofNat_load_panelBytes {s : PdpPanelState} {f : PdpField} {w : ℕ} {v : BitVec w}
    (hv : s.members f = v.toNat) (hwidth : 256 ^ (pdpPanelState .pdp11).width f = 2 ^ w) :
    BitVec.ofNat w ((pdpPanelState .pdp11).load Abi.pdp11.order (panelBytes s) f) = v := by
  have hload : (pdpPanelState .pdp11).load Abi.pdp11.order (panelBytes s) f =
      s.members f % 256 ^ (pdpPanelState .pdp11).width f :=
    ObjType.load_store _ _ _ (by decide) f
  rw [hload, hv, hwidth, Nat.mod_eq_of_lt v.isLt, BitVec.ofNat_toNat, BitVec.setWidth_eq]

theorem panelOfBytes_panelBytes (s : PdpPanelState) : panelOfBytes (panelBytes s) = s := by
  unfold panelOfBytes
  rw [ofNat_load_panelBytes (f := .psAddress) (v := s.psAddress) rfl (by decide),
    ofNat_load_panelBytes (f := .psData) (v := s.psData) rfl (by decide),
    ofNat_load_panelBytes (f := .psPsw) (v := s.psPsw) rfl (by decide),
    ofNat_load_panelBytes (f := .psMser) (v := s.psMser) rfl (by decide),
    ofNat_load_panelBytes (f := .psCpuErr) (v := s.psCpuErr) rfl (by decide),
    ofNat_load_panelBytes (f := .psMmr0) (v := s.psMmr0) rfl (by decide),
    ofNat_load_panelBytes (f := .psMmr3) (v := s.psMmr3) rfl (by decide)]

/-! ## The machine -/

/-- Where the client stands in the loop of `send_frames`. -/
inductive ClientPlace
  /-- In `read_panel_from_kmem`, with the bytes copied so far. -/
  | reading (bytes : List UInt8)
  /-- Behind `sendto`. -/
  | sent
  /-- In `wait_for_panel`. -/
  | waiting
  deriving DecidableEq

structure PdpHost (n : ℕ) where
  kernel : SeqKernel n
  panel : PdpPanelState
  client : ClientPlace

inductive HostEvent (n : ℕ)
  | hardclock (i : Interrupt)
  /-- A step of a process in `sys_wait_for_panel`. -/
  | process (e : WaitEvent n)
  /-- The next byte of the read. -/
  | copy
  /-- The packet is passed to `sendto`; its padding holds what was on the stack. -/
  | sendto (junk : ℕ → UInt8)

section

variable {n : ℕ}

/-- What a step in `sys_wait_for_panel` means to the client, which is process `p`. -/
def ClientPlace.next (p : Fin n) (c : ClientPlace) : WaitEvent n → Option ClientPlace
  | .tick => none
  | .call q => if q = p then if c = .sent then some .waiting else none else some c
  | .leave q => if q = p then some (.reading []) else some c
  | .test _ | .tsleep _ | .interrupt _ => some c

/-- A failure of `lseek`, `read` or `sendto` ends the loop: the client takes no more steps. -/
def PdpHost.step (p : Fin n) (s : PdpHost n) :
    HostEvent n → Option (PdpHost n × Option (List UInt8))
  | .hardclock i => some (⟨s.kernel.hardclock, i.show s.panel, s.client⟩, none)
  | .process e => do
      let client ← s.client.next p e
      let (kernel, _) ← s.kernel.step e
      return (⟨kernel, s.panel, client⟩, none)
  | .copy =>
      match s.client with
      | .reading bytes => (panelBytes s.panel)[bytes.length]?.map fun b ↦
          ({ s with client := .reading (bytes ++ [b]) }, none)
      | _ => none
  | .sendto junk =>
      match s.client with
      | .reading bytes =>
          if bytes.length = 16 then
            some ({ s with client := .sent }, some (pdpSendFrames (panelOfBytes bytes) junk))
          else none
      | _ => none

/-- The kernel and its client `p`, from the start of the client's loop on. -/
def pdpWithClient (p : Fin n) (boot : PdpPanelState) :
    Machine (PdpHost n) (HostEvent n) (Option (List UInt8)) where
  initial := ⟨.boot, boot, .reading []⟩
  step := PdpHost.step p

/-! ## What a run shows -/

abbrev HostTrace (n : ℕ) := List (HostEvent n × Option (List UInt8))

def interrupts (tr : HostTrace n) : List Interrupt :=
  tr.filterMap fun e ↦ match e.1 with
    | .hardclock i => some i
    | _ => none

def hostFrames (tr : HostTrace n) : List (List UInt8) := tr.filterMap Prod.snd

/-- The panel behind the first `m` interrupts. -/
def panelAt (boot : PdpPanelState) (is : List Interrupt) (m : ℕ) : PdpPanelState :=
  (is.take m).foldl (fun panel i ↦ i.show panel) boot

/-- The interrupts so far, how many there were at each byte of the read under way, and how many at
each byte of the reads whose frames were sent. -/
structure ReadLog where
  interrupts : ℕ
  current : List ℕ
  reads : List (List ℕ)

def ReadLog.next (l : ReadLog) : HostEvent n → ReadLog
  | .hardclock _ => { l with interrupts := l.interrupts + 1 }
  | .process _ => l
  | .copy => { l with current := l.current ++ [l.interrupts] }
  | .sendto _ => { l with current := [], reads := l.reads ++ [l.current] }

def readLog (tr : HostTrace n) : ReadLog := tr.foldl (fun l e ↦ l.next e.1) ⟨0, [], []⟩

/-- What the reads find: the memory behind each number of interrupts. -/
def panelMemory (boot : PdpPanelState) (is : List Interrupt) (m : ℕ) : List UInt8 :=
  panelBytes (panelAt boot is m)

/-- A frame of sixteen bytes that were read when there had been `ms` interrupts. -/
structure FrameRead (boot : PdpPanelState) (is : List Interrupt) (ms : List ℕ)
    (frame : List UInt8) : Prop where
  length : ms.length = 16
  within : ∀ m ∈ ms, m ≤ is.length
  sent : ∃ bytes junk, Copied (panelMemory boot is) ms bytes ∧
    frame = pdpSendFrames (panelOfBytes bytes) junk

theorem readLog_concat (tr : HostTrace n) (e : HostEvent n × Option (List UInt8)) :
    readLog (tr ++ [e]) = (readLog tr).next e.1 := List.foldl_concat ..

theorem panelAt_append {boot : PdpPanelState} {is js : List Interrupt} {m : ℕ}
    (hm : m ≤ is.length) : panelAt boot (is ++ js) m = panelAt boot is m := by
  rw [panelAt, List.take_append_of_le_length hm, panelAt]

theorem panelAt_concat (boot : PdpPanelState) (is : List Interrupt) (i : Interrupt) :
    panelAt boot (is ++ [i]) (is.length + 1) = i.show (panelAt boot is is.length) := by
  have hall : (is ++ [i]).length = is.length + 1 := List.length_append
  rw [panelAt, ← hall, List.take_length, List.foldl_concat, panelAt, List.take_length]

section Read

variable {boot : PdpPanelState} {is : List Interrupt} {ms : List ℕ} {frame : List UInt8}

theorem length_panelMemory (m : ℕ) : (panelMemory boot is m).length = 16 :=
  length_panelBytes (panelAt boot is m)

theorem copied_append {bytes : List UInt8} (h : Copied (panelMemory boot is) ms bytes)
    (hms : ∀ m ∈ ms, m ≤ is.length) (js : List Interrupt) :
    Copied (panelMemory boot (is ++ js)) ms bytes :=
  h.congr fun m hm ↦ congrArg panelBytes (panelAt_append (hms m hm)).symm

theorem FrameRead.append (h : FrameRead boot is ms frame) (js : List Interrupt) :
    FrameRead boot (is ++ js) ms frame := by
  obtain ⟨bytes, junk, hcopied, hframe⟩ := h.sent
  refine ⟨h.length, fun m hm ↦ ?_, bytes, junk, copied_append hcopied h.within js, hframe⟩
  rw [List.length_append]
  exact Nat.le_add_right_of_le (h.within m hm)

theorem eq_panelMemory {bytes : List UInt8} {m : ℕ} (h : Copied (panelMemory boot is) ms bytes)
    (hlength : ms.length = 16) (hms : ∀ k ∈ ms, k = m) : bytes = panelMemory boot is m := by
  have hfront := h.steady fun k hk ↦ congrArg (panelMemory boot is) (hms k hk)
  rwa [← h.length_eq, hlength, List.take_of_length_le (length_panelMemory m).le] at hfront

/-- A read during which no interrupt came finds the panel of the latest one before it. -/
theorem FrameRead.whole (h : FrameRead boot is ms frame) {m : ℕ} (hms : ∀ k ∈ ms, k = m) :
    ∃ junk, frame = pdpSendFrames (panelAt boot is m) junk := by
  obtain ⟨bytes, junk, hcopied, hframe⟩ := h.sent
  have hpanel : panelOfBytes bytes = panelAt boot is m := by
    rw [eq_panelMemory hcopied h.length hms]
    exact panelOfBytes_panelBytes _
  exact ⟨junk, hframe.trans (congrArg (pdpSendFrames · junk) hpanel)⟩

/-- A read during which one interrupt came has the bytes from before it in front. -/
theorem FrameRead.torn (h : FrameRead boot is ms frame) {m : ℕ}
    (hms : ∀ k ∈ ms, k = m ∨ k = m + 1) :
    ∃ junk, frame = pdpSendFrames (panelOfBytes ((panelBytes (panelAt boot is m)).take (ms.count m) ++
      (panelBytes (panelAt boot is (m + 1))).drop (ms.count m))) junk := by
  obtain ⟨bytes, junk, hcopied, hframe⟩ := h.sent
  have hparts := hcopied.two_parts hms
  have hall : (panelMemory boot is (m + 1)).take bytes.length = panelMemory boot is (m + 1) := by
    rw [← hcopied.length_eq, h.length]
    exact List.take_of_length_le (length_panelMemory (m + 1)).le
  rw [hall] at hparts
  refine ⟨junk, hframe.trans ?_⟩
  exact congrArg (fun bytes ↦ pdpSendFrames (panelOfBytes bytes) junk) hparts

end Read

/-- What a step does. -/
inductive HostStep (p : Fin n) (s : PdpHost n) :
    HostEvent n → PdpHost n → Option (List UInt8) → Prop
  | hardclock (i : Interrupt) :
      HostStep p s (.hardclock i) ⟨s.kernel.hardclock, i.show s.panel, s.client⟩ none
  | process {e : WaitEvent n} {client : ClientPlace} {kernel : SeqKernel n}
      {result : Option (BitVec 16)} (hclient : s.client.next p e = some client)
      (hkernel : s.kernel.step e = some (kernel, result)) :
      HostStep p s (.process e) ⟨kernel, s.panel, client⟩ none
  | copy {bytes : List UInt8} {b : UInt8} (hclient : s.client = .reading bytes)
      (hb : (panelBytes s.panel)[bytes.length]? = some b) :
      HostStep p s .copy { s with client := .reading (bytes ++ [b]) } none
  | sendto {bytes : List UInt8} (junk : ℕ → UInt8) (hclient : s.client = .reading bytes)
      (hlength : bytes.length = 16) :
      HostStep p s (.sendto junk) { s with client := .sent }
        (some (pdpSendFrames (panelOfBytes bytes) junk))

theorem hostStep_of_step {p : Fin n} {s t : PdpHost n} {e : HostEvent n}
    {o : Option (List UInt8)} (h : s.step p e = some (t, o)) : HostStep p s e t o := by
  cases e with
  | hardclock i =>
      cases h
      exact .hardclock i
  | process e =>
      simp only [PdpHost.step, Option.bind_eq_bind, Option.bind_eq_some_iff] at h
      obtain ⟨client, hclient, ⟨kernel, result⟩, hkernel, heq⟩ := h
      cases heq
      exact .process hclient hkernel
  | copy =>
      rw [PdpHost.step] at h
      split at h
      · rename_i bytes hclient
        obtain ⟨b, hb, heq⟩ := Option.map_eq_some_iff.mp h
        cases heq
        exact .copy hclient hb
      · cases h
  | sendto junk =>
      rw [PdpHost.step] at h
      split at h
      · rename_i bytes hclient
        obtain ⟨hlength, heq⟩ := Option.ite_none_right_eq_some.mp h
        cases heq
        exact .sendto junk hclient hlength
      · cases h

/-! ## Frames and interrupts -/

def ClientPlace.bytes : ClientPlace → List UInt8
  | .reading bytes => bytes
  | .sent | .waiting => []

/-- The frames are what the log has as their reads, and the read under way comes behind them. -/
structure HostReads (boot : PdpPanelState) (tr : HostTrace n) (s : PdpHost n) : Prop where
  count : (readLog tr).interrupts = (interrupts tr).length
  reads : List.Forall₂ (FrameRead boot (interrupts tr)) (readLog tr).reads (hostFrames tr)
  order : ((readLog tr).reads.flatten ++ (readLog tr).current).Pairwise (· ≤ ·)
  within : ∀ m ∈ (readLog tr).reads.flatten ++ (readLog tr).current, m ≤ (interrupts tr).length
  panel : s.panel = panelAt boot (interrupts tr) (interrupts tr).length
  current : Copied (panelMemory boot (interrupts tr)) (readLog tr).current s.client.bytes

theorem interrupts_concat (tr : HostTrace n) (e : HostEvent n × Option (List UInt8)) :
    interrupts (tr ++ [e]) = interrupts tr ++ interrupts [e] := List.filterMap_append

theorem hostFrames_concat (tr : HostTrace n) (e : HostEvent n × Option (List UInt8)) :
    hostFrames (tr ++ [e]) = hostFrames tr ++ hostFrames [e] := List.filterMap_append

theorem interrupts_quiet {e : HostEvent n × Option (List UInt8)} (h : interrupts [e] = [])
    (tr : HostTrace n) : interrupts (tr ++ [e]) = interrupts tr := by
  rw [interrupts_concat, h, List.append_nil]

theorem hostFrames_quiet {e : HostEvent n × Option (List UInt8)} (h : hostFrames [e] = [])
    (tr : HostTrace n) : hostFrames (tr ++ [e]) = hostFrames tr := by
  rw [hostFrames_concat, h, List.append_nil]

theorem bytes_next {p : Fin n} {c c' : ClientPlace} {e : WaitEvent n} (h : c.next p e = some c')
    (hleave : e = .leave p → c = .waiting) : c'.bytes = c.bytes := by
  cases e with
  | tick => cases h
  | call q =>
      rw [ClientPlace.next] at h
      split_ifs at h with _ hsent
      · cases h
        rw [hsent]
        rfl
      · cases h
        rfl
  | leave q =>
      rw [ClientPlace.next] at h
      split_ifs at h with hq
      · cases h
        rw [hleave (congrArg _ hq)]
        rfl
      · cases h
        rfl
  | test q => exact congrArg _ (Option.some.inj h).symm
  | tsleep q => exact congrArg _ (Option.some.inj h).symm
  | interrupt q => exact congrArg _ (Option.some.inj h).symm

section Step

variable {p : Fin n} {boot : PdpPanelState} {tr : HostTrace n} {s t : PdpHost n}
  {e : HostEvent n} {o : Option (List UInt8)}

theorem HostReads.hardclock (hs : HostReads boot tr s) (i : Interrupt) :
    HostReads boot (tr ++ [(.hardclock i, none)])
      ⟨s.kernel.hardclock, i.show s.panel, s.client⟩ := by
  have hinterrupts : interrupts (tr ++ [(.hardclock i, none)]) = interrupts tr ++ [i] :=
    interrupts_concat tr _
  have hframes : hostFrames (tr ++ [(.hardclock i, none)]) = hostFrames tr := by
    rw [hostFrames_concat]
    exact List.append_nil _
  have hlength : (interrupts tr ++ [i]).length = (interrupts tr).length + 1 := List.length_append
  have hcurrent : ∀ m ∈ (readLog tr).current, m ≤ (interrupts tr).length :=
    (List.forall_mem_append.mp hs.within).2
  constructor
  · rw [readLog_concat, hinterrupts, hlength, ← hs.count]
    rfl
  · rw [readLog_concat, hinterrupts, hframes]
    exact hs.reads.imp fun ms frame h ↦ h.append [i]
  · rw [readLog_concat]
    exact hs.order
  · rw [readLog_concat, hinterrupts, hlength]
    exact fun m hm ↦ Nat.le_succ_of_le (hs.within m hm)
  · rw [hinterrupts, hlength, panelAt_concat, ← hs.panel]
  · rw [readLog_concat, hinterrupts]
    exact copied_append hs.current hcurrent [i]

/-- A step in `sys_wait_for_panel`. -/
theorem HostReads.process (hs : HostReads boot tr s) (e : WaitEvent n) {kernel : SeqKernel n}
    {client : ClientPlace} (hbytes : client.bytes = s.client.bytes) :
    HostReads boot (tr ++ [(.process e, none)]) ⟨kernel, s.panel, client⟩ := by
  constructor
  · rw [readLog_concat, interrupts_quiet rfl]
    exact hs.count
  · rw [readLog_concat, interrupts_quiet rfl, hostFrames_quiet rfl]
    exact hs.reads
  · rw [readLog_concat]
    exact hs.order
  · rw [readLog_concat, interrupts_quiet rfl]
    exact hs.within
  · rw [interrupts_quiet rfl]
    exact hs.panel
  · rw [readLog_concat, interrupts_quiet rfl, hbytes]
    exact hs.current

/-- The next byte is what the memory holds behind all interrupts so far. -/
theorem HostReads.copy (hs : HostReads boot tr s) {bytes : List UInt8} {b : UInt8}
    (hclient : s.client = .reading bytes) (hb : (panelBytes s.panel)[bytes.length]? = some b) :
    HostReads boot (tr ++ [(.copy, none)]) { s with client := .reading (bytes ++ [b]) } := by
  have hcurrent := hs.current
  rw [hclient] at hcurrent
  rw [hs.panel] at hb
  have hlog : (readLog (tr ++ [(.copy, none)])).current =
      (readLog tr).current ++ [(interrupts tr).length] := by
    rw [readLog_concat, ← hs.count]
    rfl
  have hreads : (readLog (tr ++ [(.copy, none)])).reads = (readLog tr).reads := by
    rw [readLog_concat]
    rfl
  constructor
  · rw [readLog_concat, interrupts_quiet rfl]
    exact hs.count
  · rw [hreads, interrupts_quiet rfl, hostFrames_quiet rfl]
    exact hs.reads
  · rw [hreads, hlog, ← List.append_assoc]
    refine List.pairwise_append.mpr ⟨hs.order, List.pairwise_singleton _ _, fun m hm m' hm' ↦ ?_⟩
    obtain rfl := List.mem_singleton.mp hm'
    exact hs.within m hm
  · rw [hreads, hlog, interrupts_quiet rfl, ← List.append_assoc]
    exact List.forall_mem_append.mpr ⟨hs.within, List.forall_mem_singleton.mpr le_rfl⟩
  · rw [interrupts_quiet rfl]
    exact hs.panel
  · rw [hlog, interrupts_quiet rfl]
    exact .copy hcurrent (fun m hm ↦ hs.within m (List.mem_append_right _ hm)) hb

theorem HostReads.sendto (hs : HostReads boot tr s) {bytes : List UInt8} (junk : ℕ → UInt8)
    (hclient : s.client = .reading bytes) (hlength : bytes.length = 16) :
    HostReads boot (tr ++ [(.sendto junk, some (pdpSendFrames (panelOfBytes bytes) junk))])
      { s with client := .sent } := by
  have hcurrent := hs.current
  rw [hclient] at hcurrent
  have hread : FrameRead boot (interrupts tr) (readLog tr).current
      (pdpSendFrames (panelOfBytes bytes) junk) :=
    ⟨hcurrent.length_eq.trans hlength, fun m hm ↦ hs.within m (List.mem_append_right _ hm), bytes,
      junk, hcurrent, rfl⟩
  have hmoments : ((readLog tr).reads ++ [(readLog tr).current]).flatten ++ [] =
      (readLog tr).reads.flatten ++ (readLog tr).current := by simp
  constructor
  · rw [readLog_concat, interrupts_quiet rfl]
    exact hs.count
  · rw [readLog_concat, interrupts_quiet rfl, hostFrames_concat]
    exact List.rel_append hs.reads (.cons hread .nil)
  · rw [readLog_concat]
    change (((readLog tr).reads ++ [(readLog tr).current]).flatten ++ []).Pairwise (· ≤ ·)
    rw [hmoments]
    exact hs.order
  · rw [readLog_concat, interrupts_quiet rfl]
    change ∀ m ∈ ((readLog tr).reads ++ [(readLog tr).current]).flatten ++ [], m ≤ _
    rw [hmoments]
    exact hs.within
  · rw [interrupts_quiet rfl]
    exact hs.panel
  · rw [readLog_concat]
    exact .start

theorem HostReads.step (hs : HostReads boot tr s) (h : HostStep p s e t o)
    (hleave : e = .process (.leave p) → s.client = .waiting) :
    HostReads boot (tr ++ [(e, o)]) t := by
  cases h with
  | hardclock i => exact hs.hardclock i
  | @process e client kernel result hclient hkernel =>
      exact hs.process e (bytes_next hclient fun he ↦ hleave (congrArg _ he))
  | copy hclient hb => exact hs.copy hclient hb
  | sendto junk hclient hlength => exact hs.sendto junk hclient hlength

end Step

/-! ## At most one frame an interrupt -/

def returns (p : Fin n) (tr : HostTrace n) : ℕ :=
  tr.countP fun e ↦ match e.1 with
    | .process (.leave q) => q = p
    | _ => false

/-- A frame of the client that no return of `wait_for_panel` followed yet. -/
def ClientPlace.unanswered : ClientPlace → ℕ
  | .reading _ => 0
  | .sent | .waiting => 1

structure HostCounts (p : Fin n) (tr : HostTrace n) (s : PdpHost n) (w : Waiters n) : Prop where
  kernel : w.kernel = s.kernel
  counts : w.Counts
  ticks : w.history.ticks = (interrupts tr).length
  returned : returns p tr ≤ w.history.returnedAt p
  inside : s.client = .waiting ↔ s.kernel.place p ≠ .outside
  sent : (hostFrames tr).length = returns p tr + s.client.unanswered

theorem returns_concat (p : Fin n) (tr : HostTrace n) (e : HostEvent n × Option (List UInt8)) :
    returns p (tr ++ [e]) = returns p tr + returns p [e] := List.countP_append

theorem place_hardclock_iff (k : SeqKernel n) (p : Fin n) :
    k.hardclock.place p ≠ .outside ↔ k.place p ≠ .outside := by
  change (if k.place p = .asleep then Place.testing else k.place p) ≠ .outside ↔ _
  by_cases h : k.place p = .asleep
  · rw [if_pos h, h]
    decide
  · rw [if_neg h]

section Count

variable {p : Fin n} {tr : HostTrace n} {s t : PdpHost n} {w : Waiters n} {e : HostEvent n}
  {o : Option (List UInt8)}

/-- A step that is no return and sends nothing. -/
theorem HostCounts.quiet (hs : HostCounts p tr s w) {w' : Waiters n} (hw' : w'.kernel = t.kernel)
    (hcounts : w'.Counts)
    (hticks : w'.history.ticks = w.history.ticks + (interrupts [(e, o)]).length)
    (hreturned : w'.history.returnedAt p = w.history.returnedAt p)
    (hinside : t.client = .waiting ↔ t.kernel.place p ≠ .outside)
    (hreturns : returns p [(e, o)] = 0) (hframes : hostFrames [(e, o)] = [])
    (hclient : t.client.unanswered = s.client.unanswered) :
    HostCounts p (tr ++ [(e, o)]) t w' where
  kernel := hw'
  counts := hcounts
  ticks := by rw [hticks, hs.ticks, interrupts_concat, List.length_append]
  returned := by
    rw [returns_concat, hreturns, hreturned]
    exact hs.returned
  inside := hinside
  sent := by
    rw [hostFrames_concat, hframes, List.append_nil, returns_concat, hreturns, hclient]
    exact hs.sent

theorem HostCounts.place_goTo (hs : HostCounts p tr s w) {q : Fin n} {source target : Place}
    (hq : w.kernel.place q = source) (hsource : source ≠ .outside) (htarget : target ≠ .outside) :
    (w.kernel.goTo q target).place p ≠ .outside ↔ s.kernel.place p ≠ .outside := by
  rw [← hs.kernel]
  by_cases hp : p = q
  · subst hp
    rw [SeqKernel.place_goTo_self, hq]
    exact iff_of_true htarget hsource
  · rw [SeqKernel.place_goTo_of_ne _ hp]

/-- The client returns from `wait_for_panel`, which it can only after a tick. -/
theorem HostCounts.leave (hs : HostCounts p tr s w) (hplace : w.kernel.place p = .leaving)
    {k : SeqKernel n} (hk : k.place p = .outside)
    (hcounts : Waiters.Counts ⟨k, w.history.next (.leave p)⟩) :
    HostCounts p (tr ++ [(.process (.leave p), none)]) ⟨k, s.panel, .reading []⟩
      ⟨k, w.history.next (.leave p)⟩ := by
  have hwaiting : s.client = .waiting := by
    rw [hs.inside, ← hs.kernel, hplace]
    decide
  have hone :
      returns p [((.process (.leave p), none) : HostEvent n × Option (List UInt8))] = 1 := by
    rw [returns, List.countP_singleton]
    exact if_pos (decide_eq_true rfl)
  have hserved := hs.counts.leaving p hplace
  have hreturnedAt : (w.history.next (.leave p)).returnedAt p = w.history.ticks :=
    Function.update_self ..
  have hreturned := hs.returned
  constructor
  · rfl
  · exact hcounts
  · rw [interrupts_concat]
    exact hs.ticks.trans (congrArg List.length (List.append_nil _).symm)
  · rw [returns_concat, hone, hreturnedAt]
    exact Nat.lt_of_le_of_lt hreturned hserved
  · exact iff_of_false nofun fun hne ↦ hne hk
  · rw [hostFrames_concat, returns_concat, hone]
    have hsent := hs.sent
    rw [hwaiting] at hsent
    exact (congrArg List.length (List.append_nil _)).trans hsent

/-- A step in `sys_wait_for_panel` that leaves the client where it is. -/
theorem HostCounts.other (hs : HostCounts p tr s w) {e : WaitEvent n} {k : SeqKernel n}
    {h : History n} (hcounts : Waiters.Counts ⟨k, h⟩) (hticks : h.ticks = w.history.ticks)
    (hreturned : h.returnedAt p = w.history.returnedAt p)
    (hplace : k.place p ≠ .outside ↔ s.kernel.place p ≠ .outside) (he : e ≠ .leave p) :
    HostCounts p (tr ++ [(.process e, none)]) ⟨k, s.panel, s.client⟩ ⟨k, h⟩ := by
  have hnone : returns p [((.process e, none) : HostEvent n × Option (List UInt8))] = 0 := by
    rw [returns, List.countP_singleton]
    cases e with
    | leave q => exact if_neg fun hq ↦ he (congrArg _ (of_decide_eq_true hq))
    | tick => rfl
    | call q => rfl
    | test q => rfl
    | tsleep q => rfl
    | interrupt q => rfl
  exact hs.quiet rfl hcounts hticks hreturned (hs.inside.trans hplace.symm) hnone rfl rfl

theorem HostCounts.process (hs : HostCounts p tr s w) {e : WaitEvent n} {client : ClientPlace}
    {kernel : SeqKernel n} {result : Option (BitVec 16)} (hclient : s.client.next p e = some client)
    (hkernel : s.kernel.step e = some (kernel, result)) :
    ∃ w', HostCounts p (tr ++ [(.process e, none)]) ⟨kernel, s.panel, client⟩ w' := by
  have hstep : (waiters n).step w e = some (⟨kernel, w.history.next e⟩, result) := by
    change (w.kernel.step e).map _ = _
    rw [hs.kernel, hkernel]
    rfl
  have hcounts := hs.counts.step hstep
  refine ⟨⟨kernel, w.history.next e⟩, ?_⟩
  rcases step_cases hstep with ⟨rfl, -⟩ | ⟨q, rfl, hplace, heq⟩ | ⟨q, target, hturn, heq⟩
  · cases hclient
  · obtain ⟨rfl, -⟩ := Waiters.mk.inj heq
    rw [ClientPlace.next] at hclient
    by_cases hq : q = p
    · subst hq
      rw [if_pos rfl] at hclient
      cases hclient
      exact hs.leave hplace (SeqKernel.place_goTo_self ..) hcounts
    · rw [if_neg hq] at hclient
      cases hclient
      have hother := SeqKernel.place_goTo_of_ne { w.kernel with lastSeq := w.kernel.panelSeq }
        (fun h ↦ hq h.symm : p ≠ q) .outside
      apply hs.other hcounts rfl
      · exact Function.update_of_ne (fun h ↦ hq h.symm) ..
      · rw [hother, ← hs.kernel]
      · exact fun h ↦ hq (WaitEvent.leave.inj h)
  · obtain ⟨rfl, hhistory⟩ := Waiters.mk.inj heq
    rw [hhistory] at hcounts ⊢
    cases hturn with
    | call hplace =>
        rw [ClientPlace.next] at hclient
        by_cases hq : q = p
        · subst hq
          rw [if_pos rfl] at hclient
          obtain ⟨hsent, heq⟩ := Option.ite_none_right_eq_some.mp hclient
          cases heq
          apply hs.quiet rfl hcounts rfl rfl _ rfl rfl
          · rw [hsent]
            rfl
          · apply iff_of_true rfl
            dsimp only
            rw [SeqKernel.place_goTo_self]
            decide
        · rw [if_neg hq] at hclient
          cases hclient
          apply hs.other hcounts rfl rfl
          · rw [SeqKernel.place_goTo_of_ne _ (fun h ↦ hq h.symm : p ≠ q), hs.kernel]
          · exact nofun
    | test hplace =>
        cases hclient
        have htarget : (if w.kernel.lastSeq = w.kernel.panelSeq then Place.fallingAsleep
            else .leaving) ≠ .outside := by
          split_ifs <;> decide
        exact hs.other hcounts rfl rfl (hs.place_goTo hplace (by decide) htarget) nofun
    | tsleep hplace =>
        cases hclient
        exact hs.other hcounts rfl rfl (hs.place_goTo hplace (by decide) (by decide)) nofun
    | interrupt hplace =>
        cases hclient
        exact hs.other hcounts rfl rfl (hs.place_goTo hplace (by decide) (by decide)) nofun

theorem HostCounts.sendto (hs : HostCounts p tr s w) {bytes : List UInt8} (junk : ℕ → UInt8)
    (hclient : s.client = .reading bytes) :
    HostCounts p (tr ++ [(.sendto junk, some (pdpSendFrames (panelOfBytes bytes) junk))])
      { s with client := .sent } w := by
  have hsent := hs.sent
  have hinside := hs.inside
  rw [hclient] at hsent hinside
  refine ⟨hs.kernel, hs.counts, ?_, ?_, ?_, ?_⟩
  · rw [interrupts_concat]
    exact hs.ticks.trans (congrArg List.length (List.append_nil _).symm)
  · rw [returns_concat]
    exact hs.returned
  · rw [← hinside]
    exact iff_of_false nofun nofun
  · rw [hostFrames_concat, List.length_append, hsent, returns_concat]
    rfl

theorem HostCounts.step (hs : HostCounts p tr s w) (h : HostStep p s e t o) :
    ∃ w', HostCounts p (tr ++ [(e, o)]) t w' := by
  cases h with
  | hardclock i =>
      have hstep : (waiters n).step w .tick =
          some (⟨w.kernel.hardclock, w.history.next .tick⟩, none) := rfl
      have hkernel : w.kernel.hardclock = s.kernel.hardclock := by rw [hs.kernel]
      refine ⟨_, hs.quiet hkernel (hs.counts.step hstep) rfl rfl ?_ rfl rfl rfl⟩
      exact hs.inside.trans (place_hardclock_iff _ p).symm
  | process hclient hkernel => exact hs.process hclient hkernel
  | copy hclient hb =>
      refine ⟨w, hs.quiet hs.kernel hs.counts rfl rfl ?_ rfl rfl ?_⟩
      · rw [← hs.inside, hclient]
        exact iff_of_false nofun nofun
      · rw [hclient]
        rfl
  | sendto junk hclient hlength => exact ⟨w, hs.sendto junk hclient⟩

end Count

section Run

variable {p : Fin n} {boot : PdpPanelState} {tr : HostTrace n} {s : PdpHost n}

theorem hostCounts_of_run (h : Run (pdpWithClient p boot) tr s) : ∃ w, HostCounts p tr s w := by
  apply h.invariant (I := fun tr s ↦ ∃ w, HostCounts p tr s w)
  · exact ⟨(waiters n).initial, rfl, counts_boot, rfl, Nat.le_refl 0,
      iff_of_false nofun fun hne ↦ hne rfl, rfl⟩
  · rintro tr s e t o ⟨w, hs⟩ hstep
    exact hs.step (hostStep_of_step hstep)

theorem HostCounts.waiting {w : Waiters n} (hs : HostCounts p tr s w) {t : PdpHost n}
    {o : Option (List UInt8)} (h : HostStep p s (.process (.leave p)) t o) :
    s.client = .waiting := by
  cases h with
  | process hclient hkernel =>
      obtain ⟨hmove, -⟩ := eq_of_map_output hkernel
      rw [hs.inside, (move_eq_some.mp hmove).1]
      decide

theorem hostReads_of_run (h : Run (pdpWithClient p boot) tr s) : HostReads boot tr s := by
  induction h with
  | start => exact ⟨rfl, .nil, .nil, nofun, rfl, .start⟩
  | step hrun hstep ih =>
      obtain ⟨w, hcounts⟩ := hostCounts_of_run hrun
      refine ih.step (hostStep_of_step hstep) ?_
      rintro rfl
      exact hcounts.waiting (hostStep_of_step hstep)

/-- The frames are the reads of the run, one after the other.  Each byte of a frame is from the
panel behind the interrupts that had come when it was copied: a read during which no interrupt came
finds the panel of the latest one, and one during which one came has a front of the old panel and a
rear of the new one, cut where the copying had come to.  There is at most one frame more than there
were interrupts. -/
theorem kernel_frames (h : Run (pdpWithClient p boot) tr s) :
    List.Forall₂ (FrameRead boot (interrupts tr)) (readLog tr).reads (hostFrames tr) ∧
      (readLog tr).reads.flatten.Pairwise (· ≤ ·) ∧
      List.Forall₂ (fun ms frame ↦
        (∀ m, (∀ k ∈ ms, k = m) →
          ∃ junk, frame = pdpSendFrames (panelAt boot (interrupts tr) m) junk) ∧
        ∀ m, (∀ k ∈ ms, k = m ∨ k = m + 1) → ∃ junk, frame = pdpSendFrames (panelOfBytes
          ((panelBytes (panelAt boot (interrupts tr) m)).take (ms.count m) ++
            (panelBytes (panelAt boot (interrupts tr) (m + 1))).drop (ms.count m))) junk)
        (readLog tr).reads (hostFrames tr) ∧
      (hostFrames tr).length ≤ (interrupts tr).length + 1 := by
  have hreads := hostReads_of_run h
  obtain ⟨w, hcounts⟩ := hostCounts_of_run h
  refine ⟨hreads.reads, (List.pairwise_append.mp hreads.order).1, ?_, ?_⟩
  · exact hreads.reads.imp fun ms frame hread ↦ ⟨fun m ↦ hread.whole, fun m ↦ hread.torn⟩
  · have hunanswered : s.client.unanswered ≤ 1 := by
      cases s.client with
      | reading bytes => exact Nat.zero_le 1
      | sent => exact Nat.le_refl 1
      | waiting => exact Nat.le_refl 1
    have hsent := hcounts.sent
    have hreturned := hcounts.returned
    have hticks := hcounts.ticks
    have hlatest := hcounts.counts.returnedAt p
    have hle := hcounts.counts.latest
    omega

end Run

end

def userInterrupt (r0 pc : BitVec 16) : Interrupt := ⟨r0, pc, 0xc000, fun _ ↦ 0, true, true, false⟩

/-- An interrupt comes when five bytes of the first frame are copied, and none during the second
one. -/
def tornEvents : List (HostEvent 1) :=
  .hardclock (userInterrupt 0x0107 0x1234) :: List.replicate 5 .copy ++
    .hardclock (userInterrupt 0x0208 0x1236) :: List.replicate 11 .copy ++ (.sendto fun _ ↦ 0) ::
    .process (.call 0) :: .process (.test 0) :: .process (.leave 0) ::
    List.replicate 16 .copy ++ [.sendto fun _ ↦ 0]

/-- It has the low byte of one `r0` and the high byte of the other one. -/
def tornState : PdpPanelState := ⟨0x234, 0x0207, 0xc000, 0, 0, 0, 0⟩

def laterState : PdpPanelState := ⟨0x236, 0x0208, 0xc000, 0, 0, 0, 0⟩

def tornFrames : List (List UInt8) :=
  [pdpSendFrames tornState fun _ ↦ 0, pdpSendFrames laterState fun _ ↦ 0]

def tornReads : List (List ℕ) := [List.replicate 5 1 ++ List.replicate 11 2, List.replicate 16 2]

def zeroPanel : PdpPanelState := ⟨0, 0, 0, 0, 0, 0, 0⟩

theorem hostFrames_tornEvents :
    ((pdpWithClient (0 : Fin 1) zeroPanel).replay ⟨.boot, zeroPanel, .reading []⟩ tornEvents).map
      (fun r ↦ hostFrames r.1) = some tornFrames := by
  decide +kernel

theorem exists_run_tornEvents :
    ∃ (tr : HostTrace 1) (s : PdpHost 1), Run (pdpWithClient 0 zeroPanel) tr s ∧
      tr.map Prod.fst = tornEvents ∧ hostFrames tr = tornFrames := by
  obtain ⟨⟨tr, s⟩, hreplay, hframes⟩ := Option.map_eq_some_iff.mp hostFrames_tornEvents
  exact ⟨tr, s, Run.replay .start hreplay, map_fst_replay hreplay, hframes⟩

theorem readLog_tornEvents {tr : HostTrace 1} (h : tr.map Prod.fst = tornEvents) :
    (readLog tr).reads = tornReads := by
  have hlog : readLog tr = (tr.map Prod.fst).foldl ReadLog.next ⟨0, [], []⟩ := List.foldl_map.symm
  rw [hlog, h]
  rfl

theorem kernel_frames_torn :
    ∃ (tr : HostTrace 1) (s : PdpHost 1), Run (pdpWithClient 0 zeroPanel) tr s ∧
      tr.map Prod.fst = tornEvents ∧ hostFrames tr = tornFrames ∧
      List.Forall₂ (FrameRead zeroPanel (interrupts tr)) tornReads tornFrames := by
  obtain ⟨tr, s, hrun, hevents, hframes⟩ := exists_run_tornEvents
  have hreads := readLog_tornEvents hevents
  obtain ⟨hframeReads, -⟩ := kernel_frames hrun
  rw [hframes, hreads] at hframeReads
  exact ⟨tr, s, hrun, hevents, hframes, hframeReads⟩

end VPanel.EndToEnd
