import VPanel.Wire.PanelStates

/-!
# Datagrams of the clients

Every `send_frames` fills a local packet and passes all its bytes to
`sendto`.  The packet is not cleared before, so padding bytes hold whatever
the stack or an earlier frame left there.
-/

namespace VPanel.Wire

open ObjectLayout

variable {ι : Type}

/-- An uninitialised local object of `n` bytes. -/
def stackBytes (junk : ℕ → UInt8) (n : ℕ) : List UInt8 := (List.range n).map junk

@[simp] theorem length_stackBytes (junk : ℕ → UInt8) (n : ℕ) :
    (stackBytes junk n).length = n := by
  simp [stackBytes]

def packetMembers (count : ℕ) (type : PanelType) (panel : ι → ℕ) : PacketField ι → ℕ
  | .inl .ppByteCount => count
  | .inl .ppByteFlags => type.flag
  | .inr f => panel f

/-- One frame: the count is `sizeof` the state, the length sent is `sizeof(packet)`. -/
def sendFrames (A : Abi) (packet : ObjType (PacketField ι)) (state : ObjType ι)
    (type : PanelType) (panel : ι → ℕ) (junk : ℕ → UInt8) : List UInt8 :=
  packet.store A.order (packetMembers state.size type panel) (stackBytes junk packet.size)

@[simp] theorem length_sendFrames (A : Abi) (packet : ObjType (PacketField ι))
    (state : ObjType ι) (type : PanelType) (panel : ι → ℕ) (junk : ℕ → UInt8) :
    (sendFrames A packet state type panel junk).length = packet.size := by
  rw [sendFrames, ObjType.length_store _ _ _ (by simp), length_stackBytes]

def pdpSendFrames (s : PdpPanelState) (junk : ℕ → UInt8) : List UInt8 :=
  sendFrames .pdp11 (pdpPanelPacket .pdp11) (pdpPanelState .pdp11) .pdp1170 s.members junk

def netbsdx64SendFrames (s : Netbsdx64PanelState) (junk : ℕ → UInt8) : List UInt8 :=
  sendFrames .lp64 (netbsdx64PanelPacket .lp64) (netbsdx64PanelState .lp64) .netbsdx64
    s.members junk

def vaxSendFrames (s : VaxPanelState) (junk : ℕ → UInt8) : List UInt8 :=
  sendFrames .ilp32 (vaxPanelPacket .ilp32) (vaxPanelState .ilp32) .vax s.members junk

def macosSendFrames (s : MacosPanelState) (junk : ℕ → UInt8) : List UInt8 :=
  sendFrames .lp64 (macosPanelPacket .lp64) (macosPanelState .lp64) .macos s.members junk

def linuxx64SendFrames (s : Linuxx64PanelState) (junk : ℕ → UInt8) : List UInt8 :=
  sendFrames .lp64 (linuxx64PanelPacket .lp64) (linuxx64PanelState .lp64) .linuxx64
    s.members junk

section Sent

variable [DecidableEq ι] (A : Abi) {packet : ObjType (PacketField ι)} {state : ObjType ι}
  (type : PanelType) (panel : ι → ℕ) (junk : ℕ → UInt8)

theorem load_sendFrames (name : PacketField ι) :
    packet.load A.order (sendFrames A packet state type panel junk) name =
      packetMembers state.size type panel name % 256 ^ packet.width name :=
  ObjType.load_store _ _ _ (by simp) name

end Sent

end VPanel.Wire
