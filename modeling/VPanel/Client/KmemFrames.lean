import VPanel.Library.ByteCodec
import VPanel.Wire.PanelStates

/-!
# Frames of the VAX client

`read_panel_from_kmem` asks for 128 bytes at the address of the panel and uses
the first eight.  It compares the result of `read` with zero only, and the
buffer is an uninitialised local, so after a short read the rest of the panel
comes from the stack.
-/

namespace VPanel.Client.Vax

open ByteCodec Wire

/-- `unsigned char raw_data[128]`. -/
structure RawData where
  bytes : List UInt8
  length_bytes : bytes.length = 128

/-- The bytes `read` delivers; it never delivers more than it was asked for. -/
structure KmemBytes where
  bytes : List UInt8
  length_le : bytes.length ≤ 128

def RawData.fill (raw : RawData) (read : KmemBytes) : RawData where
  bytes := read.bytes ++ raw.bytes.drop read.bytes.length
  length_bytes := by
    have hraw := raw.length_bytes
    have hread := read.length_le
    simp only [List.length_append, List.length_drop]
    omega

/-- The two little-endian words at the front. -/
def panelOf (bytes : List UInt8) : VaxPanelState where
  psAddress := BitVec.ofNat 32 (leValue (bytes.take 4))
  psData := BitVec.ofNat 32 (leValue ((bytes.drop 4).take 4))

/-- The event `kevent` returns, or that it or the queue fails. -/
inductive Kevent
  | interrupted
  | failed
  | none
  | signal (ident : ℕ)
  | user (ident : ℕ)
  | unexpected
  deriving DecidableEq

def sigusr1 : ℕ := 30

def panelUpdateIdent : ℕ := 0x12345

/-- The result of `wait_for_panel_notification`; `none` is `exit(1)`. -/
def waitForPanelNotification : Kevent → Option ℤ
  | .interrupted => some 1
  | .failed => none
  | .none => some 0
  | .signal ident => if ident = sigusr1 then some 1 else some 0
  | .user ident => if ident = panelUpdateIdent then some 1 else some 0
  | .unexpected => some 0

inductive Errno
  | enetunreach | ehostunreach | econnrefused | ewouldblock | eagain
  | other
  deriving DecidableEq

inductive SendResult
  | sent
  | failed (errno : Errno)
  deriving DecidableEq

/-- The loop breaks. -/
def SendResult.fatal : SendResult → Bool
  | .failed .other => true
  | _ => false

/-- What the system does during one pass of a loop, and the stack `raw_data` lies on. -/
structure Pass where
  kevent : Kevent
  lseek : Bool
  read : Option KmemBytes
  stack : RawData
  sendto : SendResult

/-- `none` is the result -1. -/
def readPanelFromKmem (p : Pass) : Option VaxPanelState :=
  if !p.lseek then none
  else
    match p.read with
    | none => none
    | some read => some (panelOf (p.stack.fill read).bytes)

inductive Outcome
  | exited
  | skipped
  /-- `"Failed to read panel data from kernel"`, and the loop breaks. -/
  | reported
  /-- A packet with this state went to `sendto`. -/
  | sent (panel : VaxPanelState)

/-- The passes a loop makes.  Both loops have the same body behind the wait. -/
def frameLoop (wait : Pass → Option ℤ) : List Pass → List (Pass × Outcome)
  | [] => []
  | p :: ps =>
      match wait p with
      | none => [(p, .exited)]
      | some n =>
          if n ≤ 0 then (p, .skipped) :: frameLoop wait ps
          else
            match readPanelFromKmem p with
            | none => [(p, .reported)]
            | some panel =>
                (p, .sent panel) :: if p.sendto.fatal then [] else frameLoop wait ps

def sendFramesWithNotification (ps : List Pass) : List (Pass × Outcome) :=
  frameLoop (fun p ↦ waitForPanelNotification p.kevent) ps

/-- This loop does not wait before it reads. -/
def sendFrames (ps : List Pass) : List (Pass × Outcome) := frameLoop (fun _ ↦ some 1) ps

/-! ## Fresh packets -/

/-- The pass reaches `read`, and that delivers the given bytes. -/
def ReadsIn (wait : Pass → Option ℤ) (p : Pass) (read : KmemBytes) : Prop :=
  (∃ n, wait p = some n ∧ 0 < n) ∧ p.lseek = true ∧ p.read = some read

/-- The words of a packet of the pass are the first eight bytes read in it, the lowest byte of a
word first, and a pass with a shorter read is reported. -/
structure Fresh (wait : Pass → Option ℤ) (p : Pass) (o : Outcome) : Prop where
  sent : ∀ panel, o = .sent panel →
    ∃ read, ReadsIn wait p read ∧ 8 ≤ read.bytes.length ∧
      panel.psAddress.toNat = leValue (read.bytes.take 4) ∧
      panel.psData.toNat = leValue ((read.bytes.drop 4).take 4)
  short : ∀ read, ReadsIn wait p read → read.bytes.length < 8 → o = .reported

theorem toNat_leWord (bytes : List UInt8) :
    (BitVec.ofNat 32 (leValue (bytes.take 4))).toNat = leValue (bytes.take 4) := by
  have hlt := ByteOrder.little.decode_lt (bytes.take 4)
  have hle : 256 ^ (bytes.take 4).length ≤ 256 ^ 4 :=
    Nat.pow_le_pow_right (by norm_num) (List.length_take_le 4 bytes)
  rw [BitVec.toNat_ofNat]
  exact Nat.mod_eq_of_lt (hlt.trans_le hle)

theorem panelOf_fill (raw : RawData) {read : KmemBytes} (h : 8 ≤ read.bytes.length) :
    (panelOf (raw.fill read).bytes).psAddress.toNat = leValue (read.bytes.take 4) ∧
      (panelOf (raw.fill read).bytes).psData.toNat = leValue ((read.bytes.drop 4).take 4) := by
  have hfront : ∀ m n, m + n ≤ 8 →
      (((raw.fill read).bytes.drop m).take n) = (read.bytes.drop m).take n := by
    intro m n hmn
    rw [RawData.fill, List.drop_append_of_le_length (by omega),
      List.take_append_of_le_length (by rw [List.length_drop]; omega)]
  have haddress := hfront 0 4 (by norm_num)
  have hdata := hfront 4 4 (by norm_num)
  rw [List.drop_zero, List.drop_zero] at haddress
  refine ⟨(toNat_leWord _).trans ?_, (toNat_leWord _).trans ?_⟩
  · rw [haddress]
  · rw [hdata]

/-- What a pass that the loop makes comes to. -/
inductive Makes (wait : Pass → Option ℤ) (p : Pass) : Outcome → Prop
  | exited (h : wait p = none) : Makes wait p .exited
  | skipped (n : ℤ) (h : wait p = some n) (hn : n ≤ 0) : Makes wait p .skipped
  | reported (hread : ∀ read, ¬ReadsIn wait p read) : Makes wait p .reported
  | sent (read : KmemBytes) (h : ReadsIn wait p read) :
      Makes wait p (.sent (panelOf (p.stack.fill read).bytes))

theorem readPanelFromKmem_cases (p : Pass) :
    (readPanelFromKmem p = none ∧ ∀ read, ¬(p.lseek = true ∧ p.read = some read)) ∨
      ∃ read, p.lseek = true ∧ p.read = some read ∧
        readPanelFromKmem p = some (panelOf (p.stack.fill read).bytes) := by
  unfold readPanelFromKmem
  cases hseek : p.lseek with
  | false => exact .inl ⟨rfl, fun _ h ↦ Bool.noConfusion h.1⟩
  | true =>
      cases hread : p.read with
      | none => exact .inl ⟨rfl, fun _ h ↦ nomatch h.2⟩
      | some read => exact .inr ⟨read, rfl, rfl, rfl⟩

theorem makes_of_mem {wait : Pass → Option ℤ} {ps : List Pass} {x : Pass × Outcome}
    (h : x ∈ frameLoop wait ps) : Makes wait x.1 x.2 := by
  induction ps with
  | nil => cases h
  | cons p ps ih =>
      rw [frameLoop] at h
      cases hwait : wait p with
      | none =>
          rw [hwait] at h
          obtain rfl := List.mem_singleton.mp h
          exact .exited hwait
      | some n =>
          rw [hwait] at h
          dsimp only at h
          by_cases hn : n ≤ 0
          · rw [if_pos hn] at h
            rcases List.mem_cons.mp h with rfl | h
            · exact .skipped n hwait hn
            · exact ih h
          · rw [if_neg hn] at h
            rcases readPanelFromKmem_cases p with ⟨hnone, hread⟩ | ⟨read, hseek, hread, hsome⟩
            · rw [hnone] at h
              obtain rfl := List.mem_singleton.mp h
              exact .reported fun read hin ↦ hread read hin.2
            · rw [hsome] at h
              rcases List.mem_cons.mp h with rfl | h
              · exact .sent read ⟨⟨n, hwait, not_le.mp hn⟩, hseek, hread⟩
              · cases hfatal : p.sendto.fatal with
                | true =>
                    rw [hfatal] at h
                    cases h
                | false =>
                    rw [hfatal] at h
                    exact ih h

theorem fresh_iff_of_not_readsIn {wait : Pass → Option ℤ} {p : Pass} {o : Outcome}
    (hno : ∀ read, ¬ReadsIn wait p read) (ho : ∀ panel, o ≠ .sent panel) :
    Fresh wait p o ↔ ∀ read, ReadsIn wait p read → 8 ≤ read.bytes.length :=
  iff_of_true ⟨fun panel hsent ↦ absurd hsent (ho panel), fun read hin ↦ absurd hin (hno read)⟩
    fun read hin ↦ absurd hin (hno read)

theorem Makes.fresh_iff {wait : Pass → Option ℤ} {p : Pass} {o : Outcome}
    (h : Makes wait p o) :
    Fresh wait p o ↔ ∀ read, ReadsIn wait p read → 8 ≤ read.bytes.length := by
  cases h with
  | exited hwait =>
      apply fresh_iff_of_not_readsIn _ (by simp)
      rintro read ⟨⟨n, hn, -⟩, -⟩
      cases hwait.symm.trans hn
  | skipped n hwait hn =>
      apply fresh_iff_of_not_readsIn _ (by simp)
      rintro read ⟨⟨m, hm, hpos⟩, -⟩
      obtain rfl : n = m := Option.some.inj (hwait.symm.trans hm)
      omega
  | reported hno => exact fresh_iff_of_not_readsIn hno (by simp)
  | sent read hin =>
      constructor
      · intro hfresh read' hin'
        by_contra hshort
        have hreported := hfresh.short read' hin' (by omega)
        cases hreported
      · intro hlong
        refine ⟨fun panel hsent ↦ ⟨read, hin, hlong read hin, ?_⟩, fun read' hin' hshort ↦ ?_⟩
        · cases hsent
          exact panelOf_fill p.stack (hlong read hin)
        · have hlen := hlong read' hin'
          omega

theorem frameLoop_fresh_iff (wait : Pass → Option ℤ) (ps : List Pass) :
    (∀ x ∈ frameLoop wait ps, Fresh wait x.1 x.2) ↔
      ∀ x ∈ frameLoop wait ps, ∀ read, ReadsIn wait x.1 read → 8 ≤ read.bytes.length :=
  forall₂_congr fun _ hx ↦ (makes_of_mem hx).fresh_iff

/-- Every pass of either loop is fresh if and only if every read the loop makes delivers at
least eight bytes. -/
theorem vax_frames_fresh_iff (ps : List Pass) :
    ((∀ x ∈ sendFramesWithNotification ps,
        Fresh (fun p ↦ waitForPanelNotification p.kevent) x.1 x.2) ↔
      ∀ x ∈ sendFramesWithNotification ps, ∀ read,
        ReadsIn (fun p ↦ waitForPanelNotification p.kevent) x.1 read →
          8 ≤ read.bytes.length) ∧
      ((∀ x ∈ sendFrames ps, Fresh (fun _ ↦ some 1) x.1 x.2) ↔
        ∀ x ∈ sendFrames ps, ∀ read,
          ReadsIn (fun _ ↦ some 1) x.1 read → 8 ≤ read.bytes.length) :=
  ⟨frameLoop_fresh_iff _ ps, frameLoop_fresh_iff _ ps⟩

/-- A signal, a seek, and a read that delivers nothing. -/
def emptyRead (stack : RawData) : Pass := ⟨.signal sigusr1, true, some ⟨[], by simp⟩, stack, .sent⟩

/-- The packet of such a pass holds what was on the stack. -/
theorem not_fresh_emptyRead :
    sendFramesWithNotification [emptyRead ⟨List.replicate 128 0xa5, by simp⟩] =
        [(emptyRead ⟨List.replicate 128 0xa5, by simp⟩, .sent ⟨0xa5a5a5a5, 0xa5a5a5a5⟩)] ∧
      ¬∀ x ∈ sendFramesWithNotification [emptyRead ⟨List.replicate 128 0xa5, by simp⟩],
        Fresh (fun p ↦ waitForPanelNotification p.kevent) x.1 x.2 := by
  refine ⟨rfl, fun hfresh ↦ ?_⟩
  have hshort := (hfresh _ List.mem_cons_self).short ⟨[], by simp⟩
    ⟨⟨1, rfl, by norm_num⟩, rfl, rfl⟩ (by decide)
  cases hshort

end VPanel.Client.Vax
