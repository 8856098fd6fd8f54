import Mathlib.Data.BitVec
import VPanel.Library.EventRun
import VPanel.Wire.PanelStates

/-!
# The static-data warning of the PDP-11 client

`read_panel_from_kmem` counts its successful reads in a static int of 16 bits.
Every hundredth read it compares the new panel with the one the caller's
buffer held before, which is the panel of the read before that one.
-/

namespace VPanel.Client.Pdp

open EventRun Wire

inductive Read
  | seekError
  /-- A count other than `sizeof(*panel)`, and what it left in the buffer. -/
  | short (panel : PdpPanelState)
  | full (panel : PdpPanelState)

/-- A call, and what `prev_panel` holds before it is assigned. -/
structure Call where
  read : Read
  stack : PdpPanelState

structure Reader where
  readCount : BitVec 16
  panel : PdpPanelState

/-- The result, and the number printed in `"WARNING: Panel data has been static for last 100
reads (read #%d)"`. -/
structure Result where
  code : ℤ
  warning : Option ℤ

def sameData (panel prevPanel : PdpPanelState) : Bool :=
  panel.psAddress = prevPanel.psAddress ∧ panel.psData = prevPanel.psData

def readPanelFromKmem (s : Reader) (c : Call) : Reader × Result :=
  let prevPanel := if 0 < s.readCount.toInt then s.panel else c.stack
  match c.read with
  | .seekError => (s, ⟨-1, none⟩)
  | .short panel => ({ s with panel := panel }, ⟨-1, none⟩)
  | .full panel =>
      let readCount := s.readCount + 1
      let n := readCount.toInt
      (⟨readCount, panel⟩,
        ⟨0, if n.tmod 100 = 0 ∧ 1 < n ∧ sameData panel prevPanel then some n else none⟩)

/-- The loop of `send_frames`, which ends at a failed read.  It also ends when `sendto` fails; the
run is then just not longer. -/
def client (panel : PdpPanelState) : Machine Reader Call (Option ℤ) where
  initial := ⟨0, panel⟩
  step s c :=
    let (t, result) := readPanelFromKmem s c
    if result.code < 0 then none else some (t, result.warning)

/-! ## The reads of a run -/

abbrev Trace := List (Call × Option ℤ)

def Read.data : Read → Option (BitVec 32 × BitVec 16)
  | .full panel => some (panel.psAddress, panel.psData)
  | _ => none

/-- Address and data of the successful reads, in order. -/
def readData (tr : Trace) : List (BitVec 32 × BitVec 16) := tr.filterMap fun x ↦ x.1.read.data

/-- The warning is printed at read number `n`. -/
def Warns (tr : Trace) (n : ℕ) : Prop := (tr[n - 1]?).map Prod.snd = some (some (n : ℤ))

/-- The reads `n - 99` to `n` gave the same address and data. -/
def StaticWindow (tr : Trace) (n : ℕ) : Prop :=
  ∀ k, n - 100 ≤ k → k < n → (readData tr)[k]? = (readData tr)[n - 1]?

def LastTwoAgree (tr : Trace) (n : ℕ) : Prop := (readData tr)[n - 2]? = (readData tr)[n - 1]?

/-! ## One read -/

variable {panel : PdpPanelState} {s t : Reader} {c : Call} {w : Option ℤ} {tr : Trace}

theorem client_step (h : (client panel).step s c = some (t, w)) :
    ∃ v, c.read = .full v ∧ t = ⟨s.readCount + 1, v⟩ ∧
      w = if (s.readCount + 1).toInt.tmod 100 = 0 ∧ 1 < (s.readCount + 1).toInt ∧
            sameData v (if 0 < s.readCount.toInt then s.panel else c.stack) then
          some (s.readCount + 1).toInt
        else none := by
  change (if (readPanelFromKmem s c).2.code < 0 then none
    else some ((readPanelFromKmem s c).1, (readPanelFromKmem s c).2.warning)) = some (t, w) at h
  unfold readPanelFromKmem at h
  cases hread : c.read with
  | seekError => simp [hread] at h
  | short left => simp [hread] at h
  | full v =>
      simp only [hread, lt_self_iff_false, if_false] at h
      obtain ⟨ht, hw⟩ := Prod.mk.inj (Option.some.inj h)
      exact ⟨v, rfl, ht.symm, hw.symm⟩

/-- The counter is the number of reads, and the buffer holds the last of them. -/
structure Tracks (tr : Trace) (s : Reader) : Prop where
  readCount : s.readCount = BitVec.ofNat 16 tr.length
  length : (readData tr).length = tr.length
  panel : tr ≠ [] → (readData tr).getLast? = some (s.panel.psAddress, s.panel.psData)

theorem readData_concat {v : PdpPanelState} (hv : c.read = .full v) (tr : Trace) (w : Option ℤ) :
    readData (tr ++ [(c, w)]) = readData tr ++ [(v.psAddress, v.psData)] := by
  rw [readData, List.filterMap_append, ← readData]
  simp [hv, Read.data]

theorem tracks_of_run (h : Run (client panel) tr s) : Tracks tr s := by
  induction h with
  | start => exact ⟨rfl, rfl, fun hne ↦ absurd rfl hne⟩
  | @step tr s t c w hrun hstep ih =>
      obtain ⟨v, hv, rfl, -⟩ := client_step hstep
      refine ⟨?_, ?_, fun _ ↦ ?_⟩
      · rw [List.length_append, BitVec.ofNat_add, ← ih.readCount]
        rfl
      · rw [readData_concat hv, List.length_append, List.length_append, ih.length]
        rfl
      · rw [readData_concat hv, List.getLast?_concat]

theorem toInt_ofNat {n : ℕ} (h : n < 2 ^ 15) : (BitVec.ofNat 16 n).toInt = n := by
  have hnat : (BitVec.ofNat 16 n).toNat = n := by
    rw [BitVec.toNat_ofNat]
    omega
  rw [BitVec.toInt_eq_toNat_of_lt (by omega), hnat]

theorem sameData_iff (v u : PdpPanelState) :
    sameData v u = true ↔ (u.psAddress, u.psData) = (v.psAddress, v.psData) := by
  unfold sameData
  rw [decide_eq_true_iff, Prod.mk.injEq, eq_comm, eq_comm (a := v.psData)]

theorem Tracks.toInt_readCount_succ (h : Tracks tr s) (hlen : tr.length + 1 < 2 ^ 15) :
    (s.readCount + 1).toInt = ((tr.length + 1 : ℕ) : ℤ) := by
  have hnext : s.readCount + 1 = BitVec.ofNat 16 (tr.length + 1) := by
    rw [h.readCount, BitVec.ofNat_add]
    rfl
  rw [hnext, toInt_ofNat hlen]

/-- The comparison the client makes at a read that is not the first. -/
theorem Tracks.lastTwoAgree_iff (h : Tracks tr s) (hpos : 0 < tr.length) {v : PdpPanelState}
    (hv : c.read = .full v) (w : Option ℤ) :
    LastTwoAgree (tr ++ [(c, w)]) (tr.length + 1) ↔ sameData v s.panel = true := by
  have hlast := h.panel (List.ne_nil_of_length_pos hpos)
  rw [List.getLast?_eq_getElem?, h.length] at hlast
  have hend : (readData tr ++ [(v.psAddress, v.psData)])[tr.length]? =
      some (v.psAddress, v.psData) := by
    rw [← h.length]
    exact List.getElem?_concat_length
  rw [LastTwoAgree, readData_concat hv, Nat.add_sub_cancel, hend,
    List.getElem?_append_left (by rw [h.length]; omega), sameData_iff]
  change (readData tr)[tr.length - 1]? = _ ↔ _
  rw [hlast, Option.some.injEq]

theorem warns_last (htracks : Tracks tr s) (hlen : tr.length + 1 < 2 ^ 15) {v : PdpPanelState}
    (hv : c.read = .full v)
    (hw : w = if (s.readCount + 1).toInt.tmod 100 = 0 ∧ 1 < (s.readCount + 1).toInt ∧
        sameData v (if 0 < s.readCount.toInt then s.panel else c.stack) then
      some (s.readCount + 1).toInt else none) :
    Warns (tr ++ [(c, w)]) (tr.length + 1) ↔
      100 ∣ tr.length + 1 ∧ LastTwoAgree (tr ++ [(c, w)]) (tr.length + 1) := by
  have hdvd : ((tr.length + 1 : ℕ) : ℤ).tmod 100 = 0 ↔ 100 ∣ tr.length + 1 := by
    rw [← Int.dvd_iff_tmod_eq_zero]
    exact Int.natCast_dvd_natCast (m := 100)
  have hwarns : Warns (tr ++ [(c, w)]) (tr.length + 1) ↔ w = some ((tr.length + 1 : ℕ) : ℤ) := by
    rw [Warns, Nat.add_sub_cancel, List.getElem?_concat_length, Option.map_some, Option.some.injEq]
  rw [hwarns]
  rw [htracks.toInt_readCount_succ hlen] at hw
  by_cases hd : 100 ∣ tr.length + 1
  · have hpos : 0 < tr.length := by omega
    have hprev : 0 < s.readCount.toInt := by
      rw [htracks.readCount, toInt_ofNat (by omega)]
      exact Int.natCast_pos.mpr hpos
    have hone : (1 : ℤ) < ((tr.length + 1 : ℕ) : ℤ) := by omega
    rw [if_pos hprev] at hw
    rw [htracks.lastTwoAgree_iff hpos hv]
    by_cases hsame : sameData v s.panel = true
    · rw [if_pos ⟨hdvd.mpr hd, hone, hsame⟩] at hw
      exact iff_of_true hw ⟨hd, hsame⟩
    · rw [if_neg fun hall ↦ hsame hall.2.2] at hw
      exact iff_of_false (by simp [hw]) fun hall ↦ hsame hall.2
  · rw [if_neg fun hall ↦ hd (hdvd.mp hall.1)] at hw
    exact iff_of_false (by simp [hw]) fun hall ↦ hd hall.1

/-- The warning is printed when the number of a read is divisible by 100 and the read agrees
with the one before. -/
theorem warns_iff (h : Run (client panel) tr s) (hlen : tr.length < 2 ^ 15) {n : ℕ} (hn : 0 < n)
    (hle : n ≤ tr.length) : Warns tr n ↔ 100 ∣ n ∧ LastTwoAgree tr n := by
  induction h with
  | start => exact absurd hle (by simpa using hn.ne')
  | @step tr s t c w hrun hstep ih =>
      have htracks := tracks_of_run hrun
      obtain ⟨v, hv, rfl, hw⟩ := client_step hstep
      rw [List.length_append, List.length_singleton] at hlen hle
      by_cases hold : n ≤ tr.length
      · have hkeep := ih (by omega) hold
        unfold Warns LastTwoAgree at hkeep ⊢
        rwa [readData_concat hv, List.getElem?_append_left (by omega),
          List.getElem?_append_left (by rw [htracks.length]; omega),
          List.getElem?_append_left (by rw [htracks.length]; omega)]
      · obtain rfl : n = tr.length + 1 := by omega
        exact warns_last htracks hlen hv hw

/-- In every run of fewer than 32768 reads the warning at a read is truthful if and only if a
hundredth read that agrees with the one before agrees with all of its window. -/
theorem static_warning_iff (h : Run (client panel) tr s) (hlen : tr.length < 2 ^ 15) {n : ℕ}
    (hn : 0 < n) (hle : n ≤ tr.length) :
    (Warns tr n ↔ 100 ∣ n ∧ StaticWindow tr n) ↔
      (100 ∣ n → LastTwoAgree tr n → StaticWindow tr n) := by
  rw [warns_iff h hlen hn hle]
  have hwindow : 100 ∣ n → StaticWindow tr n → LastTwoAgree tr n :=
    fun hd hstatic ↦ hstatic (n - 2) (by omega) (by omega)
  constructor
  · exact fun hiff hd hagree ↦ (hiff.mp ⟨hd, hagree⟩).2
  · exact fun hcond ↦ ⟨fun ⟨hd, hagree⟩ ↦ ⟨hd, hcond hd hagree⟩,
      fun ⟨hd, hstatic⟩ ↦ ⟨hd, hwindow hd hstatic⟩⟩

def zeroPanel : PdpPanelState := ⟨0, 0, 0, 0, 0, 0, 0⟩

def readOf (address : BitVec 32) : Call := ⟨.full { zeroPanel with psAddress := address }, zeroPanel⟩

theorem static_warning_constant :
    ∃ tr s, Run (client zeroPanel) tr s ∧ tr.length = 100 ∧
      (Warns tr 100 ↔ 100 ∣ 100 ∧ StaticWindow tr 100) := by
  have hstatic : ((client zeroPanel).replay ⟨0, zeroPanel⟩ (List.replicate 100 (readOf 7))).map
      (fun r ↦ (r.1.length, decide (∀ k < 100, (readData r.1)[k]? = (readData r.1)[99]?))) =
        some (100, true) := by decide +kernel
  obtain ⟨⟨tr, s⟩, hreplay, htr⟩ := Option.map_eq_some_iff.mp hstatic
  obtain ⟨hlen, hsame⟩ := Prod.mk.inj htr
  have hrun := Run.replay .start hreplay
  refine ⟨tr, s, hrun, hlen, ?_⟩
  exact (static_warning_iff hrun (hlen.trans_lt (by norm_num)) (by norm_num) hlen.ge).mpr
    fun _ _ k _ hk ↦ of_decide_eq_true hsame k hk

/-- The data change at read 99 and the warning comes at read 100. -/
theorem not_static_warning :
    ∃ tr s, Run (client zeroPanel) tr s ∧ tr.length = 100 ∧
      ¬(Warns tr 100 ↔ 100 ∣ 100 ∧ StaticWindow tr 100) := by
  have hchange : ((client zeroPanel).replay ⟨0, zeroPanel⟩
      (List.replicate 98 (readOf 7) ++ List.replicate 2 (readOf 8))).map
        (fun r ↦ (r.1.length, decide ((r.1[99]?).map Prod.snd = some (some 100)),
          decide ((readData r.1)[0]? = (readData r.1)[99]?))) = some (100, true, false) := by
    decide +kernel
  obtain ⟨⟨tr, s⟩, hreplay, htr⟩ := Option.map_eq_some_iff.mp hchange
  obtain ⟨hlen, hrest⟩ := Prod.mk.inj htr
  obtain ⟨hwarns, hdiffer⟩ := Prod.mk.inj hrest
  have hprinted : (tr[99]?).map Prod.snd = some (some 100) := of_decide_eq_true hwarns
  refine ⟨tr, s, Run.replay .start hreplay, hlen, fun htruthful ↦ ?_⟩
  have hwindow := (htruthful.mp hprinted).2
  exact of_decide_eq_false hdiffer (hwindow 0 (by norm_num) (by norm_num))

end VPanel.Client.Pdp
