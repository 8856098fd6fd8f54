import Mathlib.Data.Set.List
import VPanel.EndToEnd.Datagrams
import VPanel.Library.LossyNetwork

/-!
# From the clients to the server

The diagnostic server prints a text for every datagram.  The frames of all five
clients may arrive in any order between each other; what is printed for one
depends on nothing but the frame itself.
-/

namespace VPanel.EndToEnd

open EventRun LossyNetwork Server Wire

/-! ## The frames of all clients -/

inductive HostFrame
  | pdp1170 (s : PdpPanelState) (junk : ℕ → UInt8)
  | vax (s : VaxPanelState) (junk : ℕ → UInt8)
  | netbsdx64 (s : Netbsdx64PanelState) (junk : ℕ → UInt8)
  | macos (s : MacosPanelState) (junk : ℕ → UInt8)
  | linuxx64 (s : Linuxx64PanelState) (junk : ℕ → UInt8)

namespace HostFrame

def bytes : HostFrame → List UInt8
  | .pdp1170 s junk => pdpSendFrames s junk
  | .vax s junk => vaxSendFrames s junk
  | .netbsdx64 s junk => netbsdx64SendFrames s junk
  | .macos s junk => macosSendFrames s junk
  | .linuxx64 s junk => linuxx64SendFrames s junk

/-- What the server takes the frame for. -/
def taken : HostFrame → Received
  | .pdp1170 _ _ => .unknown 0x10000 16
  | .vax s _ => .panel .vax (.vax s.members)
  | .netbsdx64 s _ => .panel .netbsdx64 (.netbsdx64 s.members)
  | .macos _ _ => .sizeMismatch 80 78
  | .linuxx64 _ _ => .sizeMismatch 176 174

/-- The server takes a frame for the same whatever is in its buffer. -/
theorem received_bytes (buffer : RecvBuffer) (x : HostFrame) :
    buffer.received x.bytes = x.taken := by
  cases x with
  | pdp1170 s junk => exact received_pdpSendFrames buffer s junk
  | vax s junk =>
      rw [bytes, vaxSendFrames, vaxPanelPacket_ilp32]
      refine (received_sendFrames_of_eq .vax s.members junk rfl headerInFront_vax (by decide)
        (by simp) size_vaxPanelPacket_eq buffer).trans ?_
      rw [viewPanel, loadState_sendFrames .vax s.members junk rfl (by simp) (fitsPacket_vax s)]
      rfl
  | netbsdx64 s junk =>
      refine (received_sendFrames_of_eq .netbsdx64 s.members junk rfl headerInFront_netbsdx64
        (by decide) (by simp) size_netbsdx64PanelPacket_eq buffer).trans ?_
      rw [viewPanel, loadState_sendFrames .netbsdx64 s.members junk rfl (by simp)
        (fitsPacket_netbsdx64 s)]
      rfl
  | macos s junk => exact received_macosSendFrames buffer s junk
  | linuxx64 s junk => exact received_linuxx64SendFrames buffer s junk

end HostFrame

/-! ## The loop of the server -/

deriving instance DecidableEq for Sender

/-- A datagram on its way, with the address it was sent from. -/
abbrev Packet := List UInt8 × Sender

inductive ServerLoop
  | receiving (s : ServerState)
  | ended (frameCount : BitVec 32)

def totalText (frameCount : BitVec 32) : List Char :=
  "\nTotal panel updates received: ".toList ++ printSigned frameCount.toNat ++ "\n".toList

/-- The loop, with what it prints. -/
def serverMachine (stack : RecvBuffer) : Machine ServerLoop RecvResult (List Char) where
  initial := .receiving ⟨stack, 0⟩
  step
    | .receiving s, .datagram d sender =>
        let (t, printed) := receive s d sender
        some (.receiving t, printed.panel ++ printed.counter)
    | .receiving s, .interrupted => some (.receiving s, [])
    | .receiving s, .failed => some (.ended s.frameCount, totalText s.frameCount)
    | .ended _, _ => none

def serverPort : Port Packet RecvResult where
  arrival d := .datagram d.1 d.2
  arrivalOf
    | .datagram d sender => some (d, sender)
    | _ => none
  arrivalOf_arrival _ := rfl

/-- Everything that the server has printed. -/
def output (steps : List (RecvResult × List Char)) : List Char := steps.flatMap Prod.snd

/-! ## What the server reports -/

def countAfter (frameCount : ℕ) (x : HostFrame × Sender) : ℕ :=
  if x.1.taken.counted then frameCount + 1 else frameCount

/-- The texts of a count: what is printed behind a frame that brings the count there, and what is
printed at the end. -/
structure CountTexts where
  line : ℕ → List Char
  total : ℕ → List Char

/-- As the server counts. -/
def intTexts : CountTexts where
  line n := frameCounter (BitVec.ofNat 32 n)
  total n := totalText (BitVec.ofNat 32 n)

section Report

variable (texts : CountTexts)

def reportOf (frameCount : ℕ) (x : HostFrame × Sender) : List Char :=
  x.1.taken.text x.2 ++ if x.1.taken.counted then texts.line (countAfter frameCount x) else []

/-- The texts for the frames in order. -/
def report (frameCount : ℕ) : List (HostFrame × Sender) → List Char
  | [] => []
  | x :: xs => reportOf texts frameCount x ++ report (countAfter frameCount x) xs

def frameCountOf (xs : List (HostFrame × Sender)) : ℕ :=
  xs.countP fun x ↦ x.1.taken.counted

theorem countAfter_add (frameCount : ℕ) (x : HostFrame × Sender)
    (xs : List (HostFrame × Sender)) :
    countAfter frameCount x + frameCountOf xs = frameCount + frameCountOf (x :: xs) := by
  rw [countAfter, frameCountOf, frameCountOf, List.countP_cons]
  split <;> omega

theorem report_concat (xs : List (HostFrame × Sender)) (x : HostFrame × Sender)
    (frameCount : ℕ) :
    report texts frameCount (xs ++ [x]) =
      report texts frameCount xs ++ reportOf texts (frameCount + frameCountOf xs) x := by
  induction xs generalizing frameCount with
  | nil => simp [report, frameCountOf]
  | cons y xs ih => rw [List.cons_append, report, ih, countAfter_add, report, List.append_assoc]

def hostPacket (x : HostFrame × Sender) : Packet := (x.1.bytes, x.2)

theorem ofNat_countAfter (frameCount : ℕ) (x : HostFrame × Sender) :
    BitVec.ofNat 32 (countAfter frameCount x) =
      if x.1.taken.counted then BitVec.ofNat 32 frameCount + 1 else BitVec.ofNat 32 frameCount := by
  rw [countAfter]
  split
  · exact BitVec.ofNat_add ..
  · rfl

theorem receive_hostPacket (buffer : RecvBuffer) (frameCount : ℕ) (x : HostFrame × Sender) :
    receive ⟨buffer, BitVec.ofNat 32 frameCount⟩ x.1.bytes x.2 =
      (⟨buffer.recvfrom x.1.bytes, BitVec.ofNat 32 (countAfter frameCount x)⟩,
        ⟨x.1.taken.text x.2,
          if x.1.taken.counted then intTexts.line (countAfter frameCount x) else []⟩) := by
  simp only [receive, HostFrame.received_bytes, intTexts, ofNat_countAfter]

theorem frameCountOf_concat (xs : List (HostFrame × Sender)) (x : HostFrame × Sender) :
    frameCountOf (xs ++ [x]) = countAfter (frameCountOf xs) x := by
  rw [frameCountOf, List.countP_append, ← frameCountOf, List.countP_singleton, countAfter]
  split <;> rfl

/-- What the loop has counted and printed after some frames. -/
inductive Reported (xs : List (HostFrame × Sender)) : ServerLoop → List Char → Prop
  | receiving (buffer : RecvBuffer) :
      Reported xs (.receiving ⟨buffer, BitVec.ofNat 32 (frameCountOf xs)⟩) (report texts 0 xs)
  | ended :
      Reported xs (.ended (BitVec.ofNat 32 (frameCountOf xs)))
        (report texts 0 xs ++ texts.total (frameCountOf xs))

end Report

theorem Reported.step {xs : List (HostFrame × Sender)} {stack : RecvBuffer} {s t : ServerLoop}
    {text printed : List Char} {e : RecvResult} (h : Reported intTexts xs s text)
    (hstep : (serverMachine stack).step s e = some (t, printed)) :
    (serverPort.arrivalOf e = none ∧ Reported intTexts xs t (text ++ printed)) ∨
      ∃ d, serverPort.arrivalOf e = some d ∧ ∀ x, hostPacket x = d →
        Reported intTexts (xs ++ [x]) t (text ++ printed) := by
  cases h with
  | receiving buffer =>
      cases e with
      | datagram d sender =>
          refine Or.inr ⟨(d, sender), rfl, fun x hx ↦ ?_⟩
          obtain ⟨rfl, rfl⟩ : x.1.bytes = d ∧ x.2 = sender := Prod.mk.inj hx
          have hreport := report_concat intTexts xs x 0
          rw [Nat.zero_add] at hreport
          simp only [serverMachine, receive_hostPacket] at hstep
          cases hstep
          change Reported intTexts (xs ++ [x]) _
            (report intTexts 0 xs ++ reportOf intTexts (frameCountOf xs) x)
          rw [← hreport, ← frameCountOf_concat]
          exact .receiving _
      | interrupted =>
          cases hstep
          rw [List.append_nil]
          exact Or.inl ⟨rfl, .receiving buffer⟩
      | failed =>
          cases hstep
          exact Or.inl ⟨rfl, .ended⟩
  | ended => cases hstep

end VPanel.EndToEnd
