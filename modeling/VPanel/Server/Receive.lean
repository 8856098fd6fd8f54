import VPanel.Server.Display

/-!
# The receive loop of the diagnostic server

One buffer on the stack serves all datagrams.  A datagram overwrites the
front of the buffer, the length check compares its size with the count in its
header, and the display functions read a packet struct that starts at the
first byte of the buffer.
-/

namespace VPanel.Server

open ByteCodec ObjectLayout Wire

/-- `char buffer[1024]`. -/
structure RecvBuffer where
  bytes : List UInt8
  length_bytes : bytes.length = 1024

/-- `recvfrom` copies at most 1024 bytes and leaves the rest of the buffer alone. -/
def RecvBuffer.recvfrom (buffer : RecvBuffer) (d : List UInt8) : RecvBuffer where
  bytes := d.take 1024 ++ buffer.bytes.drop (d.take 1024).length
  length_bytes := by
    have hlen := buffer.length_bytes
    simp only [List.length_append, List.length_take, List.length_drop]
    omega

structure Sender where
  sinAddr : UInt8 × UInt8 × UInt8 × UInt8
  sinPort : UInt8 × UInt8

def inetNtoa : UInt8 × UInt8 × UInt8 × UInt8 → List Char
  | (a, b, c, d) => Nat.toDigits 10 a.toNat ++ '.' :: Nat.toDigits 10 b.toNat ++
      '.' :: Nat.toDigits 10 c.toNat ++ '.' :: Nat.toDigits 10 d.toNat

def ntohs : UInt8 × UInt8 → ℕ
  | (high, low) => 256 * high.toNat + low.toNat

def Sender.text (s : Sender) : List Char :=
  inetNtoa s.sinAddr ++ ':' :: Nat.toDigits 10 (ntohs s.sinPort)

/-- The case of the `switch` a flags value selects. -/
def panelTypeOf (flags : ℕ) : Option PanelType :=
  [.pdp1170, .vax, .netbsdx64, .macos, .linuxx64].find? fun t ↦ t.flag = flags

@[simp] theorem panelTypeOf_flag (t : PanelType) : panelTypeOf t.flag = some t := by
  cases t <;> rfl

def PanelType.name : PanelType → String
  | .pdp1170 => "PDP-11/70"
  | .vax => "VAX"
  | .netbsdx64 => "NetBSD x64"
  | .macos => "macOS"
  | .linuxx64 => "Linux x64"

inductive PanelView
  | pdp (panel : PdpField → ℕ)
  | vax (panel : VaxField → ℕ)
  | netbsdx64 (panel : ClockReg → ℕ)
  | macos (panel : MacosField → ℕ)
  | linuxx64 (panel : PtReg → ℕ)

def PanelView.display : PanelView → List Char
  | .pdp panel => displayPdpPanel panel
  | .vax panel => displayVaxPanel panel
  | .netbsdx64 panel => displayNetbsdx64Panel panel
  | .macos panel => displayMacosPanel panel
  | .linuxx64 panel => displayLinuxx64Panel panel

/-- The members of `&packet->panel_state` for a packet pointer to the buffer.  The
server is compiled for a 64-bit little-endian host. -/
def loadState {ι : Type} [DecidableEq ι] (packet : ObjType (PacketField ι))
    (buffer : List UInt8) (f : ι) : ℕ :=
  packet.load .little buffer (.inr f)

def viewPanel (buffer : List UInt8) : PanelType → PanelView
  | .pdp1170 => .pdp (loadState (pdpPanelPacket .lp64) buffer)
  | .vax => .vax (loadState (vaxPanelPacket .lp64) buffer)
  | .netbsdx64 => .netbsdx64 (loadState (netbsdx64PanelPacket .lp64) buffer)
  | .macos => .macos (loadState (macosPanelPacket .lp64) buffer)
  | .linuxx64 => .linuxx64 (loadState (linuxx64PanelPacket .lp64) buffer)

inductive Received
  | incompleteHeader (got : ℕ)
  | sizeMismatch (got expected : ℕ)
  | panel (type : PanelType) (view : PanelView)
  | unknown (flags count : ℕ)

def headerOf (buffer : List UInt8) (f : HeaderField) : ℕ :=
  (panelPacketHeader .lp64).load .little (peek buffer 0 (panelPacketHeader .lp64).size) f

def expectedPacketSize (buffer : List UInt8) : ℕ :=
  (panelPacketHeader .lp64).size + headerOf buffer .ppByteCount

def classify (buffer : List UInt8) (bytesReceived : ℕ) : Received :=
  if bytesReceived < (panelPacketHeader .lp64).size then .incompleteHeader bytesReceived
  else if bytesReceived ≠ expectedPacketSize buffer then
    .sizeMismatch bytesReceived (expectedPacketSize buffer)
  else
    match panelTypeOf (headerOf buffer .ppByteFlags) with
    | some type => .panel type (viewPanel buffer type)
    | none => .unknown (headerOf buffer .ppByteFlags) (headerOf buffer .ppByteCount)

/-- What the loop body makes of a datagram that arrives on top of the buffer. -/
def RecvBuffer.received (buffer : RecvBuffer) (d : List UInt8) : Received :=
  classify (buffer.recvfrom d).bytes (d.take 1024).length

def Received.text (sender : Sender) : Received → List Char
  | .incompleteHeader got =>
      "[Incomplete header: got ".toList ++ Nat.toDigits 10 got ++
        " bytes, expected at least ".toList ++
        Nat.toDigits 10 (panelPacketHeader .lp64).size ++ "]\n".toList
  | .sizeMismatch got expected =>
      "[Packet size mismatch: got ".toList ++ Nat.toDigits 10 got ++
        " bytes, expected ".toList ++ Nat.toDigits 10 expected ++ " from ".toList ++
        sender.text ++ "]\n".toList
  | .panel type view => "[".toList ++ (PanelType.name type).toList ++ "] ".toList ++ view.display
  | .unknown flags count =>
      "[Unknown panel type: 0x".toList ++ HexText.fixedHex Nat.digitChar 8 flags ++
        ", ".toList ++ Nat.toDigits 10 count ++ " bytes from ".toList ++ sender.text ++
        "]\n".toList

def Received.counted : Received → Bool
  | .panel _ _ | .unknown _ _ => true
  | .incompleteHeader _ | .sizeMismatch _ _ => false

structure ServerState where
  buffer : RecvBuffer
  /-- An `int`, which is taken to wrap. -/
  frameCount : BitVec 32

structure Printed where
  panel : List Char
  counter : List Char

def frameCounter (frameCount : BitVec 32) : List Char :=
  if frameCount.toInt.tmod 30 = 0 then
    "--- Received ".toList ++ printSigned frameCount.toNat ++ " frames ---\n".toList
  else []

def receive (s : ServerState) (d : List UInt8) (sender : Sender) : ServerState × Printed :=
  let received := s.buffer.received d
  let frameCount := if received.counted then s.frameCount + 1 else s.frameCount
  (⟨s.buffer.recvfrom d, frameCount⟩,
    ⟨received.text sender, if received.counted then frameCounter frameCount else []⟩)

inductive RecvResult
  | datagram (d : List UInt8) (sender : Sender)
  | interrupted
  | failed

/-- The state after a number of passes; the loop ends at an error other than `EINTR`. -/
def handleUdpClients (s : ServerState) : List RecvResult → Option ServerState
  | [] => some s
  | .datagram d sender :: rest => handleUdpClients (receive s d sender).1 rest
  | .interrupted :: rest => handleUdpClients s rest
  | .failed :: _ => none

theorem recvfrom_bytes (buffer : RecvBuffer) {d : List UInt8} (hd : d.length ≤ 1024) :
    (buffer.recvfrom d).bytes = d ++ buffer.bytes.drop d.length := by
  simp only [RecvBuffer.recvfrom, List.take_of_length_le hd]

theorem headerOf_append {d : List UInt8} (hd : 6 ≤ d.length) (rest : List UInt8) :
    headerOf (d ++ rest) = headerOf d := by
  funext f
  rw [headerOf, headerOf, peek_append_left (by simpa using hd)]

end VPanel.Server
