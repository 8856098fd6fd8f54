import VPanel.Library.EventRun
import VPanel.Library.WebSocketFrame

/-!
# The WebSocket connections of a proxy

A connection is used by the one thread of its `io_context`: every completion of
a read or a write and every posted task is one step, and these steps come in any
order.  `send_text`, which the UDP thread calls, only posts a task.

The handlers for an open connection and for an error ask the socket for the
address of the other side, and throw when it has none.
-/

namespace VPanel.Proxy.WebSocket

open ByteCodec EventRun WebSocketFrame

/-! ## Headers -/

/-- Bytes are swapped between the host, which is little-endian, and the network. -/
def htons (v : ℕ) : ℕ := leValue (ByteOrder.big.encode 2 v)

def htonl (v : ℕ) : ℕ := leValue (ByteOrder.big.encode 4 v)

/-- A word of eight bytes in the other byte order. -/
def swapLength (v : ℕ) : ℕ := htonl (v &&& 0xffffffff) <<< 32 ||| htonl (v >>> 32)

def buildHeader (opcode size : ℕ) : List UInt8 :=
  UInt8.ofNat (0x80 + opcode) ::
    if size < 126 then [UInt8.ofNat size]
    else if size < 0x10000 then 126 :: leBytes 2 (htons size)
    else 127 :: leBytes 8 (swapLength size)

/-- The bytes that are queued for a frame. -/
def frameBytes (f : Frame) : List UInt8 := buildHeader f.opcode f.payload.length ++ f.payload

theorem leBytes_htons (v : ℕ) : leBytes 2 (htons v) = ByteOrder.big.encode 2 v := by
  have h := leBytes_leValue (ByteOrder.big.encode 2 v)
  rwa [ByteOrder.length_encode] at h

theorem leBytes_low (v : ℕ) : leBytes 4 (v &&& 0xffffffff) = leBytes 4 v := by
  have hmod : leValue (leBytes 4 v) = v &&& 0xffffffff := by
    rw [leValue_leBytes]
    exact (Nat.and_two_pow_sub_one_eq_mod v 32).symm
  have h := leBytes_leValue (leBytes 4 v)
  rwa [length_leBytes, hmod] at h

theorem leBytes_eight (v : ℕ) : leBytes 8 v = leBytes 4 v ++ leBytes 4 (v >>> 32) := by
  have hshift : v >>> 32 = v / 256 / 256 / 256 / 256 := by
    rw [Nat.shiftRight_eq_div_pow, Nat.div_div_eq_div_mul, Nat.div_div_eq_div_mul,
      Nat.div_div_eq_div_mul]
  rw [hshift]
  rfl

theorem leBytes_swapLength (v : ℕ) : leBytes 8 (swapLength v) = ByteOrder.big.encode 8 v := by
  have hlt : htonl (v >>> 32) < 2 ^ 32 := by
    have h := ByteOrder.little.decode_lt (ByteOrder.big.encode 4 (v >>> 32))
    rwa [ByteOrder.decode_little, ByteOrder.length_encode] at h
  have hvalue : swapLength v = leValue (ByteOrder.big.encode 4 (v >>> 32) ++
      ByteOrder.big.encode 4 (v &&& 0xffffffff)) := by
    rw [swapLength, ← Nat.shiftLeft_add_eq_or_of_lt hlt, leValue_append, ByteOrder.length_encode,
      Nat.shiftLeft_eq, htonl, htonl]
    omega
  have hsplit : ByteOrder.big.encode 8 v = ByteOrder.big.encode 4 (v >>> 32) ++
      ByteOrder.big.encode 4 (v &&& 0xffffffff) := by
    change (leBytes 8 v).reverse = (leBytes 4 _).reverse ++ (leBytes 4 _).reverse
    rw [leBytes_low, leBytes_eight, List.reverse_append]
  have h := leBytes_leValue (ByteOrder.big.encode 8 v)
  rw [ByteOrder.length_encode] at h
  rw [hvalue, ← hsplit, h]

theorem frameBytes_eq {f : Frame} (h : f.fin = true) : frameBytes f = f.bytes := by
  have hheader : buildHeader f.opcode f.payload.length =
      f.firstByte :: lengthBytes f.payload.length := by
    rw [buildHeader, leBytes_htons, leBytes_swapLength, Frame.firstByte, h]
    rfl
  rw [frameBytes, hheader]
  rfl

/-! ## Connections -/

inductive ReadState
  | miniHeader
  | len16
  | len64
  | mask
  | payload
  deriving DecidableEq

/-- A handler that is called; `onclose` always returns. -/
inductive Callback
  | onopen (returned : Bool)
  | onclose
  | onerror (returned : Bool)
  | destroyed
  deriving DecidableEq

/-- The members of `Connection`.  The last ones are not in the source: the socket with its
operations that are outstanding, and what has happened. -/
structure Connection where
  sendingBuffers : List (List UInt8)
  writeBuffers : List (List UInt8)
  state : ReadState
  remainingLength : BitVec 64
  hasMask : Bool
  mask : List UInt8
  miniHeader : ℕ
  fragment : List UInt8
  closeConnection : Bool
  isReading : Bool
  hasSentClose : Bool
  hasRecvClose : Bool
  isCloseHandlerCalled : Bool
  /-- A read was started and has not completed. -/
  reading : Bool
  /-- The bytes of a started write that are still to be sent. -/
  writing : Option (List UInt8)
  socketOpen : Bool
  /-- How many bytes of the next write the socket takes at once. -/
  atOnce : ℕ
  deleted : Bool
  /-- Opcode and payload of the posted tasks, the next one first. -/
  posted : List (ℕ × List UInt8)
  wire : List UInt8
  frames : List Frame
  callbacks : List Callback

/-- What the opening of a connection depends on: the value of `Sec-WebSocket-Accept`, what the
socket takes at once of the response, and whether the open handler returns. -/
structure Opening where
  hello : List UInt8
  atOnce : ℕ
  returns : Bool

namespace Connection

variable (c : Connection)

def call (callback : Callback) : Connection := { c with callbacks := c.callbacks ++ [callback] }

/-- `adaptor_.close()`. -/
def closeSocket : Connection := { c with closeConnection := true, socketOpen := false }

/-- The object is gone and its socket with it. -/
def destroy : Connection := { c.call .destroyed with deleted := true, socketOpen := false }

/-- Call the error handler, and do the rest unless it throws.  On a closed socket it does;
elsewhere `returns` tells. -/
def onerror (returns : Bool) (rest : Connection → Connection) : Connection :=
  if c.socketOpen && returns then rest (c.call (.onerror true)) else c.call (.onerror false)

/-- Call the close handler unless it was called by this function before. -/
def notifyClose : Connection :=
  if c.isCloseHandlerCalled then c
  else { c.call .onclose with isCloseHandlerCalled := true }

def checkDestroy : Connection :=
  let c := if c.isCloseHandlerCalled then c else c.call .onclose
  if c.sendingBuffers = [] ∧ c.isReading = false then c.destroy else c

/-- Start a write.  An open socket may take a part of it before this returns. -/
def asyncWrite (bytes : List UInt8) : Connection :=
  if c.socketOpen then
    { c with wire := c.wire ++ bytes.take c.atOnce, writing := some (bytes.drop c.atOnce) }
  else { c with writing := some bytes }

def doWrite : Connection :=
  if c.sendingBuffers = [] then
    asyncWrite { c with sendingBuffers := c.writeBuffers, writeBuffers := [] }
      c.writeBuffers.flatten
  else c

/-- Queue the buffers of a frame. -/
def queue (f : Frame) (buffers : List (List UInt8)) : Connection :=
  doWrite { c with writeBuffers := c.writeBuffers ++ buffers, frames := c.frames ++ [f] }

def sendDataImpl (opcode : ℕ) (payload : List UInt8) : Connection :=
  c.queue ⟨true, opcode, payload⟩ [buildHeader opcode payload.length, payload]

def sendData (opcode : ℕ) (msg : List UInt8) : Connection :=
  { c with posted := c.posted ++ [(opcode, msg)] }

def close (msg : List UInt8) (statusCode : ℕ) : Connection :=
  let c := { c with hasSentClose := true }
  let c := if c.hasRecvClose then c.notifyClose else c
  let statusBuf := leBytes 2 (htons statusCode)
  c.queue ⟨true, 0x8, statusBuf ++ msg⟩ [buildHeader 0x8 (msg.length + 2), statusBuf, msg]

/-- The application does not limit the payload. -/
def maxPayloadBytes : BitVec 64 := BitVec.allOnes 64

def doRead : Connection :=
  if c.hasSentClose ∧ c.hasRecvClose then c.closeSocket.checkDestroy
  else
    let c := { c with isReading := true }
    match c.state with
    | .miniHeader => { c with miniHeader := 0, reading := true }
    | .len16 => { c with remainingLength := 0, reading := true }
    | .len64 => { c with reading := true }
    | .mask =>
        if maxPayloadBytes < c.remainingLength then c.closeSocket.onerror true checkDestroy
        else if c.hasMask then { c with reading := true }
        else { c with state := .payload, reading := true }
    | .payload => { c with reading := true }

def opcode : ℕ := (c.miniHeader &&& 0x0f00) >>> 8

def unmask : List UInt8 :=
  if c.hasMask then c.fragment.mapIdx fun i b ↦ b ^^^ c.mask.getD (i % 4) 0 else c.fragment

/-- The status code in a close frame. -/
def closeStatus (fragment : List UInt8) : ℕ :=
  if 2 ≤ fragment.length then ByteOrder.big.decode (fragment.take 2) else 1005

def closeReason (fragment : List UInt8) : List UInt8 :=
  if 2 ≤ fragment.length then fragment.drop 2 else fragment

/-- The connection after a frame, and whether it reads on. -/
def handleFragment : Connection × Bool :=
  let fragment := c.unmask
  if c.opcode = 0x8 then
    let c := { c with hasRecvClose := true }
    if c.hasSentClose = false then
      ({ c.close (closeReason fragment) (closeStatus fragment) with fragment := [] }, true)
    else (c.notifyClose.closeSocket.checkDestroy, false)
  else if c.opcode = 0x9 then ({ c.sendData 0xa fragment with fragment := [] }, true)
  -- messages and pongs, for which a proxy has no callback
  else ({ c with fragment := [] }, true)

/-! ## Completions -/

/-- The sizes with which a read can complete. -/
def Reads (n : ℕ) : Prop :=
  match c.state with
  | .miniHeader => n = 1 ∨ n = 2
  | .len16 => n = 2
  | .len64 => n = 8
  | .mask => n = 4
  | .payload => n ≤ min 4096 c.remainingLength.toNat ∧ (n = 0 → c.remainingLength = 0)

instance (n : ℕ) : Decidable (c.Reads n) := by
  unfold Reads
  cases c.state <;> infer_instance

def fragmentDone : Connection :=
  if c.handleFragment.2 then doRead { c.handleFragment.1 with state := .miniHeader }
  else c.handleFragment.1

def payloadDone (data : List UInt8) : Connection :=
  let c := { c with fragment := c.fragment ++ data,
                    remainingLength := c.remainingLength - BitVec.ofNat 64 data.length }
  if c.remainingLength = 0 then c.fragmentDone else c.doRead

def readDone (data : List UInt8) : Connection :=
  let c := { c with isReading := false, reading := false }
  match c.state with
  | .miniHeader =>
      let header := ByteOrder.big.decode (data.take 1 ++ [data.getD 1 0])
      let c := { c with miniHeader := header, hasMask := header &&& 0x80 = 0x80 }
      if header &&& 0x7f = 127 then doRead { c with state := .len64 }
      else if header &&& 0x7f = 126 then doRead { c with state := .len16 }
      else doRead { c with remainingLength := BitVec.ofNat 64 (header &&& 0x7f), state := .mask }
  | .len16 =>
      doRead { c with remainingLength := BitVec.ofNat 64 (htons (leValue data)), state := .mask }
  | .len64 =>
      doRead { c with remainingLength := BitVec.ofNat 64 (swapLength (leValue data)),
                      state := .mask }
  | .mask => doRead { c with mask := data, state := .payload }
  | .payload => c.payloadDone data

/-- The first three states close the socket before they call the error handler, the others
behind it. -/
def readFailed (returns : Bool) : Connection :=
  let c := { c with isReading := false, reading := false }
  match c.state with
  | .miniHeader | .len16 | .len64 => c.closeSocket.onerror returns checkDestroy
  | .mask | .payload =>
      { c with closeConnection := true }.onerror returns fun c ↦ c.closeSocket.checkDestroy

/-- A write that failed, or that completed after the connection was closed. -/
def writeEnded : Connection :=
  checkDestroy { c with sendingBuffers := [], writing := none, closeConnection := true }

/-- The anchor tells a write that failed whether the connection is gone. -/
def writeFailed : Connection := if c.deleted then { c with writing := none } else c.writeEnded

def writeNext : Connection :=
  let c := { c with sendingBuffers := [], writing := none }
  if c.writeBuffers = [] then c else c.doWrite

def writeDone : Connection :=
  if c.closeConnection then c.writeEnded
  else if c.writeNext.hasSentClose then { c.writeNext with closeConnection := true }
  else c.writeNext

def ascii (s : String) : List UInt8 := s.toList.map fun c ↦ UInt8.ofNat c.toNat

/-- The buffers of the response to the handshake, with the value of `Sec-WebSocket-Accept`. -/
def handshake (hello : List UInt8) : List (List UInt8) :=
  [ascii ("HTTP/1.1 101 Switching Protocols\r\nUpgrade: websocket\r\n" ++
      "Connection: Upgrade\r\nSec-WebSocket-Accept: "), hello, ascii "\r\n", ascii "\r\n"]

def constructed : Connection where
  sendingBuffers := []
  writeBuffers := []
  state := .miniHeader
  remainingLength := 0
  hasMask := false
  mask := []
  miniHeader := 0
  fragment := []
  closeConnection := false
  isReading := false
  hasSentClose := false
  hasRecvClose := false
  isCloseHandlerCalled := false
  reading := false
  writing := none
  socketOpen := true
  atOnce := 0
  deleted := false
  posted := []
  wire := []
  frames := []
  callbacks := []

/-- What the constructor does once the upgrade is accepted.  When the open handler throws, the
object is freed while the write is outstanding. -/
def start (o : Opening) : Connection :=
  let c := doWrite { constructed with writeBuffers := handshake o.hello, atOnce := o.atOnce }
  let c := c.call (.onopen o.returns)
  if o.returns then c.doRead else c.destroy

/-- The next posted task, which is dropped after the connection is gone. -/
def runTask : Option Connection :=
  match c.posted with
  | [] => none
  | (opcode, payload) :: rest =>
      if c.deleted then some { c with posted := rest }
      else some (sendDataImpl { c with posted := rest } opcode payload)

/-- The socket takes some of the bytes of the write. -/
def transmit (n : ℕ) : Option Connection := do
  let rest ← c.writing
  if c.socketOpen ∧ 0 < n ∧ n ≤ rest.length then
    some { c with wire := c.wire ++ rest.take n, writing := some (rest.drop n) }
  else none

end Connection

/-! ## Runs -/

inductive ConnectionEvent
  | sendText (msg : List UInt8)
  | runTask
  | close (msg : List UInt8) (statusCode : ℕ)
  /-- The socket will take so much of the next write at once. -/
  | room (n : ℕ)
  | transmit (n : ℕ)
  | writeDone
  | writeFailed
  | readDone (data : List UInt8)
  | readFailed (returns : Bool)
  deriving DecidableEq

/-- `none` where the event is impossible: nothing is sent through a connection that is gone,
and operations complete that were started.  A write that completes without an error for a
connection that was freed in its constructor reads memory that is not its own, and is left out. -/
def Connection.step (c : Connection) : ConnectionEvent → Option Connection
  | .sendText msg =>
      if c.deleted then none else some (c.sendData 0x1 msg)
  | .runTask => c.runTask
  | .close msg statusCode => if c.deleted then none else some (c.close msg statusCode)
  | .room n => if c.deleted then none else some { c with atOnce := n }
  | .transmit n => c.transmit n
  | .writeDone =>
      if c.deleted = false ∧ c.writing = some [] then some c.writeDone else none
  | .writeFailed => if c.writing.isSome then some c.writeFailed else none
  | .readDone data => if c.reading ∧ c.Reads data.length then some (c.readDone data) else none
  | .readFailed returns => if c.reading then some (c.readFailed returns) else none

def connection (o : Opening) : Machine Connection ConnectionEvent Unit where
  initial := .start o
  step c e := (c.step e).map (·, ())

/-! ## The life of a connection -/

namespace Connection

variable {c : Connection}

/-- What is called back after `onopen` while the connection exists. -/
def Ending (callback : Callback) : Prop :=
  callback = .onclose ∨ ∃ returned, callback = .onerror returned

structure Live (c : Connection) : Prop where
  deleted : c.deleted = false
  reading : c.reading = c.isReading
  writing : c.writing.isSome = true ↔ c.sendingBuffers ≠ []
  callbacks : ∃ later, c.callbacks = .onopen true :: later ∧ (∀ x ∈ later, Ending x) ∧
    (c.isCloseHandlerCalled = true → .onclose ∈ later)

/-- The object was deleted, or freed in its constructor. -/
structure Absent (c : Connection) : Prop where
  deleted : c.deleted = true
  reading : c.reading = false
  socketOpen : c.socketOpen = false

structure Gone (c : Connection) : Prop extends c.Absent where
  writing : c.writing = none
  callbacks : ∃ later, c.callbacks = .onopen true :: (later ++ [.destroyed]) ∧
    (∀ x ∈ later, Ending x) ∧ .onclose ∈ later

theorem Live.call (h : c.Live) {callback : Callback} (hending : Ending callback) :
    (c.call callback).Live := by
  obtain ⟨later, hcallbacks, hlater, hcalled⟩ := h.callbacks
  refine ⟨h.deleted, h.reading, h.writing, later ++ [callback], ?_, ?_, fun hc ↦ ?_⟩
  · rw [Connection.call, hcallbacks, List.cons_append]
  · exact List.forall_mem_append.mpr ⟨hlater, List.forall_mem_singleton.mpr hending⟩
  · exact List.mem_append_left _ (hcalled hc)

/-- The close handler was called, by the connection itself or just now. -/
theorem Live.notified (h : c.Live) :
    ∃ later, (if c.isCloseHandlerCalled then c else c.call .onclose).callbacks =
      .onopen true :: later ∧ (∀ x ∈ later, Ending x) ∧ .onclose ∈ later := by
  obtain ⟨later, hcallbacks, hlater, hcalled⟩ := h.callbacks
  split_ifs with hc
  · exact ⟨later, hcallbacks, hlater, hcalled hc⟩
  · refine ⟨later ++ [.onclose], ?_, ?_, List.mem_concat_self⟩
    · rw [Connection.call, hcallbacks, List.cons_append]
    · exact List.forall_mem_append.mpr ⟨hlater, List.forall_mem_singleton.mpr (Or.inl rfl)⟩

theorem Live.checkDestroy (h : c.Live) : c.checkDestroy.Live ∨ c.checkDestroy.Gone := by
  obtain ⟨later, hcallbacks, hlater, hclosed⟩ := h.notified
  unfold Connection.checkDestroy
  have hlive : (if c.isCloseHandlerCalled then c else c.call .onclose).Live := by
    split_ifs
    · exact h
    · exact h.call (Or.inl rfl)
  generalize (if c.isCloseHandlerCalled then c else c.call .onclose) = d at hlive hcallbacks
  dsimp only
  split_ifs with hidle
  · right
    refine ⟨⟨rfl, hlive.reading.trans hidle.2, rfl⟩, ?_, later, ?_, hlater, hclosed⟩
    · cases hwriting : d.writing with
      | none => exact hwriting
      | some rest => exact absurd hidle.1 (hlive.writing.mp (by rw [hwriting]; rfl))
    · rw [← List.cons_append, ← hcallbacks]
      rfl
  · exact Or.inl hlive

theorem Live.onerror (h : c.Live) (returns : Bool) (rest : Connection → Connection)
    (hrest : (rest (c.call (.onerror true))).Live ∨ (rest (c.call (.onerror true))).Gone) :
    (c.onerror returns rest).Live ∨ (c.onerror returns rest).Gone := by
  unfold Connection.onerror
  split_ifs
  · exact hrest
  · exact Or.inl (h.call (Or.inr ⟨false, rfl⟩))

theorem Live.notifyClose (h : c.Live) : c.notifyClose.Live := by
  obtain ⟨later, hcallbacks, hlater, hclosed⟩ := h.notified
  unfold Connection.notifyClose
  split_ifs at hcallbacks ⊢
  · exact h
  · exact ⟨h.deleted, h.reading, h.writing, later, hcallbacks, hlater, fun _ ↦ hclosed⟩

theorem Live.closeSocket (h : c.Live) : c.closeSocket.Live :=
  ⟨h.deleted, h.reading, h.writing, h.callbacks⟩

theorem Live.doWrite (h : c.Live) (hne : c.writeBuffers ≠ []) : c.doWrite.Live := by
  unfold Connection.doWrite Connection.asyncWrite
  dsimp only
  split_ifs
  · exact ⟨h.deleted, h.reading, by simp [hne], h.callbacks⟩
  · exact ⟨h.deleted, h.reading, by simp [hne], h.callbacks⟩
  · exact h

theorem Live.queue (h : c.Live) (f : Frame) {buffers : List (List UInt8)} (hne : buffers ≠ []) :
    (c.queue f buffers).Live := by
  have hlive : Live { c with writeBuffers := c.writeBuffers ++ buffers,
                             frames := c.frames ++ [f] } :=
    ⟨h.deleted, h.reading, h.writing, h.callbacks⟩
  exact hlive.doWrite (List.append_ne_nil_of_right_ne_nil _ hne)

theorem Live.sendDataImpl (h : c.Live) (opcode : ℕ) (payload : List UInt8) :
    (c.sendDataImpl opcode payload).Live := h.queue _ (List.cons_ne_nil _ _)

theorem Live.close (h : c.Live) (msg : List UInt8) (statusCode : ℕ) :
    (c.close msg statusCode).Live := by
  unfold Connection.close
  dsimp only
  have hsent : Live { c with hasSentClose := true } :=
    ⟨h.deleted, h.reading, h.writing, h.callbacks⟩
  refine Live.queue ?_ _ (by simp)
  split_ifs
  · exact hsent.notifyClose
  · exact hsent

/-- The length of a payload never exceeds the limit. -/
theorem not_maxPayloadBytes_lt (n : BitVec 64) : ¬maxPayloadBytes < n := by
  have hn := n.isLt
  rw [BitVec.lt_def, maxPayloadBytes, BitVec.toNat_allOnes]
  omega

theorem Live.doRead (h : c.Live) : c.doRead.Live ∨ c.doRead.Gone := by
  unfold Connection.doRead
  split_ifs
  · exact Live.checkDestroy ⟨h.deleted, h.reading, h.writing, h.callbacks⟩
  · left
    dsimp only
    split
    · exact ⟨h.deleted, rfl, h.writing, h.callbacks⟩
    · exact ⟨h.deleted, rfl, h.writing, h.callbacks⟩
    · exact ⟨h.deleted, rfl, h.writing, h.callbacks⟩
    · rw [if_neg (not_maxPayloadBytes_lt _)]
      split_ifs <;> exact ⟨h.deleted, rfl, h.writing, h.callbacks⟩
    · exact ⟨h.deleted, rfl, h.writing, h.callbacks⟩

theorem Live.sendData (h : c.Live) (opcode : ℕ) (msg : List UInt8) :
    (c.sendData opcode msg).Live :=
  ⟨h.deleted, h.reading, h.writing, h.callbacks⟩

theorem Live.handleFragment (h : c.Live) :
    c.handleFragment.1.Live ∨ c.handleFragment.2 = false ∧ c.handleFragment.1.Gone := by
  unfold Connection.handleFragment
  dsimp only
  have hrecv : Live { c with hasRecvClose := true } :=
    ⟨h.deleted, h.reading, h.writing, h.callbacks⟩
  split_ifs with hclose hsent hping
  · have hclosed := hrecv.close (closeReason c.unmask) (closeStatus c.unmask)
    exact Or.inl ⟨hclosed.deleted, hclosed.reading, hclosed.writing, hclosed.callbacks⟩
  · have hshut := hrecv.notifyClose.closeSocket.checkDestroy
    exact hshut.imp_right fun hgone ↦ ⟨rfl, hgone⟩
  · exact Or.inl ⟨h.deleted, h.reading, h.writing, h.callbacks⟩
  · exact Or.inl ⟨h.deleted, h.reading, h.writing, h.callbacks⟩

theorem Live.fragmentDone (h : c.Live) : c.fragmentDone.Live ∨ c.fragmentDone.Gone := by
  unfold Connection.fragmentDone
  rcases h.handleFragment with hlive | ⟨hstop, hgone⟩
  · split_ifs
    · exact Live.doRead ⟨hlive.deleted, hlive.reading, hlive.writing, hlive.callbacks⟩
    · exact Or.inl hlive
  · rw [hstop]
    exact Or.inr hgone

theorem Live.payloadDone (h : c.Live) (data : List UInt8) :
    (c.payloadDone data).Live ∨ (c.payloadDone data).Gone := by
  unfold Connection.payloadDone
  have hread : Live { c with
      fragment := c.fragment ++ data,
      remainingLength := c.remainingLength - BitVec.ofNat 64 data.length } :=
    ⟨h.deleted, h.reading, h.writing, h.callbacks⟩
  dsimp only
  split_ifs
  · exact hread.fragmentDone
  · exact hread.doRead

theorem Live.readDone (h : c.Live) (data : List UInt8) :
    (c.readDone data).Live ∨ (c.readDone data).Gone := by
  unfold Connection.readDone
  dsimp only
  have hidle : Live { c with isReading := false, reading := false } :=
    ⟨h.deleted, rfl, h.writing, h.callbacks⟩
  split
  · split_ifs <;>
      exact Live.doRead ⟨hidle.deleted, hidle.reading, hidle.writing, hidle.callbacks⟩
  · exact Live.doRead ⟨hidle.deleted, hidle.reading, hidle.writing, hidle.callbacks⟩
  · exact Live.doRead ⟨hidle.deleted, hidle.reading, hidle.writing, hidle.callbacks⟩
  · exact Live.doRead ⟨hidle.deleted, hidle.reading, hidle.writing, hidle.callbacks⟩
  · exact hidle.payloadDone data

theorem Live.readFailed (h : c.Live) (returns : Bool) :
    (c.readFailed returns).Live ∨ (c.readFailed returns).Gone := by
  have hidle : Live { c with isReading := false, reading := false } :=
    ⟨h.deleted, rfl, h.writing, h.callbacks⟩
  have hending : Ending (.onerror true) := Or.inr ⟨true, rfl⟩
  have hclosed := hidle.closeSocket.onerror returns Connection.checkDestroy
    (hidle.closeSocket.call hending).checkDestroy
  have hopen : Live { c with isReading := false, reading := false, closeConnection := true } :=
    ⟨hidle.deleted, hidle.reading, hidle.writing, hidle.callbacks⟩
  have hbehind := hopen.onerror returns (fun c ↦ c.closeSocket.checkDestroy)
    (hopen.call hending).closeSocket.checkDestroy
  unfold Connection.readFailed
  dsimp only
  split
  · exact hclosed
  · exact hclosed
  · exact hclosed
  · exact hbehind
  · exact hbehind

theorem Live.writeEnded (h : c.Live) : c.writeEnded.Live ∨ c.writeEnded.Gone :=
  Live.checkDestroy ⟨h.deleted, h.reading, by simp, h.callbacks⟩

theorem Live.writeNext (h : c.Live) : c.writeNext.Live := by
  have hidle : Live { c with sendingBuffers := [], writing := none } :=
    ⟨h.deleted, h.reading, by simp, h.callbacks⟩
  unfold Connection.writeNext
  dsimp only
  split_ifs with hempty
  · exact hidle
  · exact hidle.doWrite hempty

theorem Live.writeDone (h : c.Live) : c.writeDone.Live ∨ c.writeDone.Gone := by
  have hnext := h.writeNext
  unfold Connection.writeDone
  split_ifs
  · exact h.writeEnded
  · exact Or.inl ⟨hnext.deleted, hnext.reading, hnext.writing, hnext.callbacks⟩
  · exact Or.inl hnext

theorem runTask_eq_some {c' : Connection} (h : c.runTask = some c') :
    ∃ opcode payload rest, c.posted = (opcode, payload) :: rest ∧
      c' = if c.deleted then { c with posted := rest }
        else sendDataImpl { c with posted := rest } opcode payload := by
  unfold Connection.runTask at h
  split at h
  · cases h
  next opcode payload rest hposted =>
    refine ⟨opcode, payload, rest, hposted, ?_⟩
    split_ifs at h ⊢ <;> exact (Option.some.inj h).symm

theorem transmit_eq_some {c' : Connection} {n : ℕ} (h : c.transmit n = some c') :
    ∃ rest, c.writing = some rest ∧ c.socketOpen = true ∧
      c' = { c with wire := c.wire ++ rest.take n, writing := some (rest.drop n) } := by
  rw [Connection.transmit, Option.bind_eq_bind, Option.bind_eq_some_iff] at h
  obtain ⟨rest, hrest, h⟩ := h
  rw [Option.ite_none_right_eq_some] at h
  exact ⟨rest, hrest, h.1.1, (Option.some.inj h.2).symm⟩

theorem Live.step (h : c.Live) {e : ConnectionEvent} {c' : Connection}
    (hstep : c.step e = some c') : c'.Live ∨ c'.Gone := by
  cases e with
  | sendText msg =>
      rw [Connection.step, h.deleted] at hstep
      cases hstep
      exact Or.inl ⟨h.deleted, h.reading, h.writing, h.callbacks⟩
  | runTask =>
      obtain ⟨opcode, payload, rest, hposted, hc⟩ := runTask_eq_some hstep
      rw [if_neg (Bool.eq_false_iff.mp h.deleted)] at hc
      have hlive : Live { c with posted := rest } :=
        ⟨h.deleted, h.reading, h.writing, h.callbacks⟩
      rw [hc]
      exact Or.inl (hlive.sendDataImpl opcode payload)
  | close msg statusCode =>
      rw [Connection.step, h.deleted] at hstep
      cases hstep
      exact Or.inl (h.close msg statusCode)
  | room n =>
      rw [Connection.step, if_neg (Bool.eq_false_iff.mp h.deleted)] at hstep
      cases hstep
      exact Or.inl ⟨h.deleted, h.reading, h.writing, h.callbacks⟩
  | transmit n =>
      obtain ⟨rest, hrest, -, hc⟩ := transmit_eq_some hstep
      rw [hc]
      have hsending : c.sendingBuffers ≠ [] := h.writing.mp (by rw [hrest]; rfl)
      exact Or.inl ⟨h.deleted, h.reading, by simp [hsending], h.callbacks⟩
  | writeDone =>
      rw [Connection.step, Option.ite_none_right_eq_some] at hstep
      obtain ⟨-, heq⟩ := hstep
      cases heq
      exact h.writeDone
  | writeFailed =>
      rw [Connection.step, Option.ite_none_right_eq_some] at hstep
      obtain ⟨-, heq⟩ := hstep
      cases heq
      rw [Connection.writeFailed, if_neg (Bool.eq_false_iff.mp h.deleted)]
      exact h.writeEnded
  | readDone data =>
      rw [Connection.step, Option.ite_none_right_eq_some] at hstep
      obtain ⟨-, heq⟩ := hstep
      cases heq
      exact h.readDone data
  | readFailed returns =>
      rw [Connection.step, Option.ite_none_right_eq_some] at hstep
      obtain ⟨-, heq⟩ := hstep
      cases heq
      exact h.readFailed returns

/-- Nothing is called back or sent any more. -/
theorem Absent.step (h : c.Absent) {e : ConnectionEvent} {c' : Connection}
    (hstep : c.step e = some c') : c'.Absent ∧ c'.callbacks = c.callbacks ∧ c'.wire = c.wire ∧
      (c.writing = none → c'.writing = none) := by
  cases e with
  | runTask =>
      obtain ⟨opcode, payload, rest, hposted, hc⟩ := runTask_eq_some hstep
      rw [if_pos h.deleted] at hc
      rw [hc]
      exact ⟨⟨h.deleted, h.reading, h.socketOpen⟩, rfl, rfl, id⟩
  | sendText | close | room =>
      rw [Connection.step, h.deleted] at hstep
      cases hstep
  | transmit n =>
      obtain ⟨rest, -, hopen, -⟩ := transmit_eq_some hstep
      exact absurd (h.socketOpen.symm.trans hopen) Bool.false_ne_true
  | writeDone => simp [Connection.step, h.deleted] at hstep
  | writeFailed =>
      rw [Connection.step, Option.ite_none_right_eq_some] at hstep
      obtain ⟨-, heq⟩ := hstep
      cases heq
      rw [Connection.writeFailed, if_pos h.deleted]
      exact ⟨⟨h.deleted, h.reading, h.socketOpen⟩, rfl, rfl, fun _ ↦ rfl⟩
  | readDone | readFailed => simp [Connection.step, h.reading] at hstep

theorem Gone.step (h : c.Gone) {e : ConnectionEvent} {c' : Connection}
    (hstep : c.step e = some c') : c'.Gone := by
  obtain ⟨habsent, hcallbacks, -, hwriting⟩ := h.toAbsent.step hstep
  exact ⟨habsent, hwriting h.writing, hcallbacks ▸ h.callbacks⟩

theorem live_start {o : Opening} (ho : o.returns = true) : (start o).Live := by
  have hwrite : Live ((doWrite { constructed with writeBuffers := handshake o.hello,
                                                  atOnce := o.atOnce }).call (.onopen true)) :=
    ⟨rfl, rfl, by simp [Connection.call, Connection.doWrite, Connection.asyncWrite, constructed,
      handshake], [], rfl, nofun, nofun⟩
  rw [start, ho]
  rcases hwrite.doRead with hlive | hgone
  · exact hlive
  · have hdeleted := hgone.deleted
    cases hdeleted

theorem start_of_throws {o : Opening} (ho : o.returns = false) :
    (start o).Absent ∧ (start o).callbacks = [.onopen false, .destroyed] := by
  rw [start, ho]
  exact ⟨⟨rfl, rfl, rfl⟩, rfl⟩

end Connection

section Life

variable {o : Opening} {tr : List (ConnectionEvent × Unit)} {c : Connection}

theorem live_or_gone (h : Run (connection o) tr c) (ho : o.returns = true) :
    c.Live ∨ c.Gone := by
  refine Run.invariant (I := fun _ c ↦ c.Live ∨ c.Gone) (Or.inl (Connection.live_start ho)) ?_ h
  intro tr c e c' _ hc hstep
  obtain ⟨hstep, -⟩ := eq_of_map_output hstep
  rcases hc with hlive | hgone
  · exact hlive.step hstep
  · exact Or.inr (hgone.step hstep)

theorem absent_of_throws (h : Run (connection o) tr c) (ho : o.returns = false) :
    c.Absent ∧ c.callbacks = [.onopen false, .destroyed] := by
  refine Run.invariant (I := fun _ c ↦ c.Absent ∧ c.callbacks = [.onopen false, .destroyed])
    (Connection.start_of_throws ho) ?_ h
  rintro tr c e c' _ ⟨habsent, hcallbacks⟩ hstep
  obtain ⟨hstep, -⟩ := eq_of_map_output hstep
  obtain ⟨habsent', hsame, -⟩ := habsent.step hstep
  exact ⟨habsent', hsame.trans hcallbacks⟩

theorem live_or_absent (h : Run (connection o) tr c) : c.Live ∨ c.Absent := by
  cases ho : o.returns with
  | true => exact (live_or_gone h ho).imp_right Connection.Gone.toAbsent
  | false => exact Or.inr (absent_of_throws h ho).1

/-- Whatever happens to it, a connection stays deleted, and silent. -/
def Connection.Silent (c : Connection) : Prop :=
  c.deleted = true ∧ c.reading = false ∧ ∀ e c', c.step e = some c' →
    c'.deleted = true ∧ c'.callbacks = c.callbacks ∧ c'.wire = c.wire

/-- A connection whose open handler returns is opened once and destroyed at most once, as the last
of all.  Before it is destroyed the close handler was called, and no operation is outstanding that
would refer to it afterwards.  When the open handler throws, the object is freed at once. -/
def Connection.Life (o : Opening) (c : Connection) : Prop :=
  if o.returns then
    ∃ later : List Callback, (∀ x ∈ later, x = .onclose ∨ ∃ returned, x = .onerror returned) ∧
      ((c.deleted = false ∧ c.callbacks = .onopen true :: later ∧
          (c.writing.isSome = true ↔ c.sendingBuffers ≠ [])) ∨
        (c.Silent ∧ c.callbacks = .onopen true :: (later ++ [.destroyed]) ∧ .onclose ∈ later ∧
          c.writing = none))
  else c.Silent ∧ c.callbacks = [.onopen false, .destroyed]

theorem Connection.Absent.silent (h : c.Absent) : c.Silent :=
  ⟨h.deleted, h.reading, fun _ _ hstep ↦ have hnext := h.step hstep
    ⟨hnext.1.deleted, hnext.2.1, hnext.2.2.1⟩⟩

theorem connection_life (h : Run (connection o) tr c) : c.Life o := by
  unfold Connection.Life
  split_ifs with ho
  · rcases live_or_gone h ho with hlive | hgone
    · obtain ⟨later, hcallbacks, hlater, -⟩ := hlive.callbacks
      exact ⟨later, hlater, Or.inl ⟨hlive.deleted, hcallbacks, hlive.writing⟩⟩
    · obtain ⟨later, hcallbacks, hlater, hclosed⟩ := hgone.callbacks
      exact ⟨later, hlater, Or.inr ⟨hgone.silent, hcallbacks, hclosed, hgone.writing⟩⟩
  · obtain ⟨habsent, hcallbacks⟩ := absent_of_throws h (Bool.eq_false_iff.mpr ho)
    exact ⟨habsent.silent, hcallbacks⟩

end Life

/-- The client goes away while the handshake is being sent: before the open handler has asked for
its address, or behind. -/
theorem connection_life_dropped :
    (∃ tr c, (connection ⟨[], 0, true⟩).replay (.start ⟨[], 0, true⟩)
        [.readFailed true, .writeFailed] = some (tr, c) ∧
      c.callbacks = [.onopen true, .onerror false, .onclose, .destroyed] ∧
      c.Life ⟨[], 0, true⟩) ∧
    ∃ tr c, (connection ⟨[], 0, false⟩).replay (.start ⟨[], 0, false⟩) [.writeFailed] =
        some (tr, c) ∧
      c.callbacks = [.onopen false, .destroyed] ∧ c.Life ⟨[], 0, false⟩ := by
  have hbehind : ((connection ⟨[], 0, true⟩).replay (.start ⟨[], 0, true⟩)
      [.readFailed true, .writeFailed]).map (fun r ↦ r.2.callbacks) =
        some [.onopen true, .onerror false, .onclose, .destroyed] := by
    decide +kernel
  have hbefore : ((connection ⟨[], 0, false⟩).replay (.start ⟨[], 0, false⟩)
      [.writeFailed]).map (fun r ↦ r.2.callbacks) = some [.onopen false, .destroyed] := by
    decide +kernel
  obtain ⟨⟨tr, c⟩, hreplay, hcallbacks⟩ := Option.map_eq_some_iff.mp hbehind
  obtain ⟨⟨tr', c'⟩, hreplay', hcallbacks'⟩ := Option.map_eq_some_iff.mp hbefore
  exact ⟨⟨tr, c, hreplay, hcallbacks, connection_life (Run.replay .start hreplay)⟩,
    tr', c', hreplay', hcallbacks', connection_life (Run.replay .start hreplay')⟩

/-! ## The stream of a connection -/

/-- The parts of a connection that what is sent depends on. -/
structure Stream where
  wire : List UInt8
  writing : Option (List UInt8)
  writeBuffers : List (List UInt8)
  hasSentClose : Bool
  posted : List (ℕ × List UInt8)
  frames : List Frame

def textsOf (frames : List Frame) : List (List UInt8) :=
  (frames.filter fun f ↦ f.opcode = 0x1).map Frame.payload

def sentBy : ConnectionEvent → List (List UInt8)
  | .sendText msg => [msg]
  | _ => []

theorem append_sentBy {e : ConnectionEvent} (h : ∀ msg, e ≠ .sendText msg)
    (texts : List (List UInt8)) : texts ++ sentBy e = texts := by
  cases e with
  | sendText msg => exact absurd rfl (h msg)
  | _ => exact List.append_nil texts

/-- The texts that were to be sent in a run. -/
def sentTexts (tr : List (ConnectionEvent × Unit)) : List (List UInt8) :=
  tr.flatMap fun e ↦ sentBy e.1

def postedTexts (posted : List (ℕ × List UInt8)) : List (List UInt8) :=
  (posted.filter fun t ↦ t.1 = 0x1).map Prod.snd

namespace Stream

def pending (s : Stream) : List UInt8 := s.writing.getD [] ++ s.writeBuffers.flatten

/-- The bytes on the wire and the queued ones are the frames in order, and the texts among the
frames are the first of those that were to be sent; before the connection is gone, all others
are posted. -/
structure Sound (hello : List UInt8) (texts : List (List UInt8)) (s : Stream) (deleted : Bool) :
    Prop where
  bytes : s.wire ++ s.pending =
    (Connection.handshake hello).flatten ++ s.frames.flatMap frameBytes
  frames : ∀ f ∈ s.frames, f.fin = true ∧ f.opcode ∈ [0x1, 0x8, 0xa]
  posted : ∀ t ∈ s.posted, t.1 ∈ [0x1, 0xa]
  unclosed : s.hasSentClose = false → ∀ f ∈ s.frames, f.opcode ≠ 0x8
  ordered : textsOf s.frames <+: texts
  complete : deleted = false → textsOf s.frames ++ postedTexts s.posted = texts

theorem Sound.delete {hello : List UInt8} {texts : List (List UInt8)} {s : Stream}
    {deleted : Bool} (h : s.Sound hello texts false) : s.Sound hello texts deleted :=
  ⟨h.bytes, h.frames, h.posted, h.unclosed, h.ordered, fun _ ↦ h.complete rfl⟩

end Stream

namespace Connection

variable {c : Connection} {hello : List UInt8} {texts : List (List UInt8)}

def stream (c : Connection) : Stream where
  wire := c.wire
  writing := c.writing
  writeBuffers := c.writeBuffers
  hasSentClose := c.hasSentClose
  posted := c.posted
  frames := c.frames

@[simp] theorem stream_call (c : Connection) (callback : Callback) :
    (c.call callback).stream = c.stream := rfl

@[simp] theorem stream_closeSocket (c : Connection) : c.closeSocket.stream = c.stream := rfl

@[simp] theorem stream_notifyClose (c : Connection) : c.notifyClose.stream = c.stream := by
  unfold Connection.notifyClose
  split_ifs <;> rfl

@[simp] theorem stream_checkDestroy (c : Connection) : c.checkDestroy.stream = c.stream := by
  unfold Connection.checkDestroy
  dsimp only
  split_ifs <;> rfl

theorem stream_onerror {c : Connection} {returns : Bool} {rest : Connection → Connection}
    (hrest : ∀ c, (rest c).stream = c.stream) : (c.onerror returns rest).stream = c.stream := by
  unfold Connection.onerror
  split_ifs
  · exact hrest _
  · rfl

@[simp] theorem stream_doRead (c : Connection) : c.doRead.stream = c.stream := by
  unfold Connection.doRead
  dsimp only
  split
  · simp
  · split
    · rfl
    · rfl
    · rfl
    · rw [if_neg (not_maxPayloadBytes_lt _)]
      split <;> rfl
    · rfl

/-- The stream of a connection is sound. -/
def Delivers (hello : List UInt8) (texts : List (List UInt8)) (c : Connection) : Prop :=
  c.stream.Sound hello texts c.deleted

theorem Delivers.congr {c' : Connection} (h : c.Delivers hello texts) (hlive : c.deleted = false)
    (hstream : c'.stream = c.stream) : c'.Delivers hello texts := by
  rw [Delivers, hlive] at h
  rw [Delivers, hstream]
  exact h.delete

theorem stream_asyncWrite (c : Connection) (bytes : List UInt8) :
    ∃ wire writing, (c.asyncWrite bytes).stream = { c.stream with wire, writing } ∧
      wire ++ Option.getD writing [] = c.wire ++ bytes := by
  unfold Connection.asyncWrite
  split_ifs
  · refine ⟨_, _, rfl, ?_⟩
    rw [Option.getD_some, List.append_assoc, List.take_append_drop]
  · exact ⟨_, _, rfl, rfl⟩

/-- A write is started with all the buffers that wait, or they wait on. -/
theorem stream_doWrite (h : c.Live) :
    ∃ wire writing writeBuffers,
      c.doWrite.stream = { c.stream with wire, writing, writeBuffers } ∧
      wire ++ (Option.getD writing [] ++ writeBuffers.flatten) = c.wire ++ c.stream.pending := by
  unfold Connection.doWrite
  split_ifs with hempty
  · have hnone : c.writing = none := by
      cases hwriting : c.writing with
      | none => rfl
      | some rest => exact absurd hempty (h.writing.mp (by rw [hwriting]; rfl))
    obtain ⟨wire, writing, hstream, hbytes⟩ := stream_asyncWrite
      { c with sendingBuffers := c.writeBuffers, writeBuffers := [] } c.writeBuffers.flatten
    refine ⟨wire, writing, [], hstream, ?_⟩
    rw [List.flatten_nil, List.append_nil, hbytes]
    simp [Connection.stream, Stream.pending, hnone]
  · exact ⟨_, _, _, rfl, rfl⟩

theorem stream_queue (h : c.Live) (f : Frame) (buffers : List (List UInt8)) :
    ∃ wire writing writeBuffers, (c.queue f buffers).stream =
        { c.stream with wire, writing, writeBuffers, frames := c.frames ++ [f] } ∧
      wire ++ (Option.getD writing [] ++ writeBuffers.flatten) =
        c.wire ++ c.stream.pending ++ buffers.flatten := by
  have hlive : Live { c with writeBuffers := c.writeBuffers ++ buffers,
                             frames := c.frames ++ [f] } :=
    ⟨h.deleted, h.reading, h.writing, h.callbacks⟩
  obtain ⟨wire, writing, writeBuffers, hstream, hpending⟩ := stream_doWrite hlive
  refine ⟨wire, writing, writeBuffers, hstream, ?_⟩
  rw [hpending]
  simp [Connection.stream, Stream.pending]

theorem textsOf_concat (frames : List Frame) (f : Frame) :
    textsOf (frames ++ [f]) = textsOf frames ++ if f.opcode = 0x1 then [f.payload] else [] := by
  rw [textsOf, List.filter_append, List.map_append, ← textsOf]
  by_cases h : f.opcode = 0x1
  · simp [h]
  · simp [h]

/-- A stream that is sound once the text of the frame, if it is one, has been taken from the
posted ones. -/
theorem Delivers.queue (hlive : c.Live)
    (hbytes : c.stream.wire ++ c.stream.pending =
      (handshake hello).flatten ++ c.stream.frames.flatMap frameBytes)
    (hframes : ∀ f ∈ c.stream.frames, f.fin = true ∧ f.opcode ∈ [0x1, 0x8, 0xa])
    (hposted : ∀ t ∈ c.stream.posted, t.1 ∈ [0x1, 0xa])
    (hunclosed : c.stream.hasSentClose = false → ∀ f ∈ c.stream.frames, f.opcode ≠ 0x8)
    {f : Frame} (hf : f.fin = true ∧ f.opcode ∈ [0x1, 0x8, 0xa])
    (hclose : c.stream.hasSentClose = false → f.opcode ≠ 0x8)
    (htexts : textsOf (c.stream.frames ++ [f]) ++ postedTexts c.stream.posted = texts)
    {buffers : List (List UInt8)} (hbuffers : buffers.flatten = frameBytes f) :
    (c.queue f buffers).Delivers hello texts := by
  obtain ⟨wire, writing, writeBuffers, hstream, hpending⟩ := stream_queue hlive f buffers
  rw [Delivers, hstream]
  refine ⟨?_, ?_, hposted, fun h ↦ ?_, ⟨_, htexts⟩, fun _ ↦ htexts⟩
  · have hbytes : c.wire ++ c.stream.pending = _ := hbytes
    change wire ++ (writing.getD [] ++ writeBuffers.flatten) =
      _ ++ (c.stream.frames ++ [f]).flatMap _
    rw [hpending, hbuffers, hbytes, List.flatMap_append, List.flatMap_singleton,
      List.append_assoc]
  · exact List.forall_mem_append.mpr ⟨hframes, List.forall_mem_singleton.mpr hf⟩
  · exact List.forall_mem_append.mpr ⟨hunclosed h, List.forall_mem_singleton.mpr (hclose h)⟩

theorem Delivers.sendDataImpl (h : c.Delivers hello texts) (hlive : c.Live) {opcode : ℕ}
    {payload : List UInt8} {rest : List (ℕ × List UInt8)}
    (hposted : c.posted = (opcode, payload) :: rest) :
    (Connection.sendDataImpl { c with posted := rest } opcode payload).Delivers hello texts := by
  have htasks : ∀ t ∈ (opcode, payload) :: rest, t.1 ∈ [0x1, 0xa] := by
    rw [← hposted]
    exact h.posted
  have hopcode : opcode ∈ [0x1, 0xa] := htasks (opcode, payload) (List.mem_cons_self ..)
  have hlive' : Live { c with posted := rest } :=
    ⟨hlive.deleted, hlive.reading, hlive.writing, hlive.callbacks⟩
  have hcomplete : textsOf c.frames ++ postedTexts ((opcode, payload) :: rest) = texts :=
    hposted ▸ h.complete hlive.deleted
  refine Delivers.queue hlive' h.bytes h.frames ?_ h.unclosed ⟨rfl, ?_⟩ (fun _ ↦ ?_) ?_ ?_
  · exact fun t ht ↦ htasks t (List.mem_cons_of_mem _ ht)
  · rcases List.mem_pair.mp hopcode with rfl | rfl <;> simp
  · rcases List.mem_pair.mp hopcode with rfl | rfl <;> simp
  · change textsOf (c.frames ++ _) ++ postedTexts rest = texts
    rw [← hcomplete, textsOf_concat, List.append_assoc]
    congr 1
    by_cases htext : opcode = 0x1
    · simp [postedTexts, htext]
    · simp [postedTexts, htext]
  · simp [frameBytes]

theorem Delivers.close (h : c.Delivers hello texts) (hlive : c.Live) (msg : List UInt8)
    (statusCode : ℕ) : (c.close msg statusCode).Delivers hello texts := by
  unfold Connection.close
  dsimp only
  have hsent : Live { c with hasSentClose := true } :=
    ⟨hlive.deleted, hlive.reading, hlive.writing, hlive.callbacks⟩
  have hd : Live (if c.hasRecvClose = true then
        Connection.notifyClose { c with hasSentClose := true }
      else { c with hasSentClose := true }) ∧
      (if c.hasRecvClose = true then Connection.notifyClose { c with hasSentClose := true }
        else { c with hasSentClose := true }).stream = { c.stream with hasSentClose := true } := by
    split_ifs
    · exact ⟨hsent.notifyClose, stream_notifyClose _⟩
    · exact ⟨hsent, rfl⟩
  generalize (if c.hasRecvClose = true then Connection.notifyClose { c with hasSentClose := true }
    else { c with hasSentClose := true }) = d at hd
  obtain ⟨hdlive, hstream⟩ := hd
  have hcomplete := h.complete hlive.deleted
  apply Delivers.queue hdlive
  all_goals try rw [hstream]
  · exact h.bytes
  · exact h.frames
  · exact h.posted
  · nofun
  · exact ⟨rfl, by simp⟩
  · nofun
  · rw [textsOf_concat]
    simpa using hcomplete
  · simp [frameBytes, Nat.add_comm]

theorem Delivers.handleFragment (h : c.Delivers hello texts) (hlive : c.Live) :
    c.handleFragment.1.Delivers hello texts := by
  unfold Connection.handleFragment
  dsimp only
  have hrecv : Live { c with hasRecvClose := true } :=
    ⟨hlive.deleted, hlive.reading, hlive.writing, hlive.callbacks⟩
  have hrecvStream : Delivers hello texts { c with hasRecvClose := true } := h
  split_ifs with hclose hsent hping
  · exact hrecvStream.close hrecv _ _
  · apply h.congr hlive.deleted
    rw [stream_checkDestroy, stream_closeSocket, stream_notifyClose]
    rfl
  · have hcomplete : textsOf c.frames ++ postedTexts c.posted = texts :=
      h.complete hlive.deleted
    refine ⟨h.bytes, h.frames, ?_, h.unclosed, h.ordered, fun _ ↦ ?_⟩
    · exact List.forall_mem_append.mpr ⟨h.posted, List.forall_mem_singleton.mpr (by simp)⟩
    · change textsOf c.frames ++ postedTexts (c.posted ++ [(0xa, c.unmask)]) = texts
      rw [← hcomplete]
      simp [postedTexts]
  · exact h

theorem Delivers.doRead (h : c.Delivers hello texts) (hlive : c.Live) : c.doRead.Delivers hello texts :=
  h.congr hlive.deleted (stream_doRead c)

theorem Delivers.fragmentDone (h : c.Delivers hello texts) (hlive : c.Live) :
    c.fragmentDone.Delivers hello texts := by
  have hhandled := h.handleFragment hlive
  unfold Connection.fragmentDone
  rcases hlive.handleFragment with hlive' | ⟨hstop, -⟩
  · split_ifs
    · exact hhandled.congr hlive'.deleted (stream_doRead _)
    · exact hhandled
  · rw [hstop]
    exact hhandled

theorem Delivers.readDone (h : c.Delivers hello texts) (hlive : c.Live) (data : List UInt8) :
    (c.readDone data).Delivers hello texts := by
  unfold Connection.readDone
  dsimp only
  split
  · split_ifs <;> exact h.congr hlive.deleted (stream_doRead _)
  · exact h.congr hlive.deleted (stream_doRead _)
  · exact h.congr hlive.deleted (stream_doRead _)
  · exact h.congr hlive.deleted (stream_doRead _)
  · unfold Connection.payloadDone
    dsimp only
    split_ifs
    · have hread : Live { c with
          isReading := false, reading := false, fragment := c.fragment ++ data,
          remainingLength := c.remainingLength - BitVec.ofNat 64 data.length } :=
        ⟨hlive.deleted, rfl, hlive.writing, hlive.callbacks⟩
      exact Delivers.fragmentDone h hread
    · exact h.congr hlive.deleted (stream_doRead _)

theorem Delivers.readFailed (h : c.Delivers hello texts) (hlive : c.Live) (returns : Bool) :
    (c.readFailed returns).Delivers hello texts := by
  apply h.congr hlive.deleted
  unfold Connection.readFailed
  dsimp only
  split
  · exact stream_onerror stream_checkDestroy
  · exact stream_onerror stream_checkDestroy
  · exact stream_onerror stream_checkDestroy
  · exact stream_onerror fun c ↦ (stream_checkDestroy _).trans (stream_closeSocket c)
  · exact stream_onerror fun c ↦ (stream_checkDestroy _).trans (stream_closeSocket c)

theorem Delivers.doWrite (h : c.Delivers hello texts) (hlive : c.Live) :
    c.doWrite.Delivers hello texts := by
  obtain ⟨wire, writing, writeBuffers, hstream, hpending⟩ := stream_doWrite hlive
  rw [Delivers, hstream]
  exact ⟨hpending.trans h.bytes, h.frames, h.posted, h.unclosed, h.ordered,
    fun _ ↦ h.complete hlive.deleted⟩

/-- A completed write has put its bytes on the wire. -/
theorem Delivers.written (h : c.Delivers hello texts) (hwriting : c.writing = some []) :
    Delivers hello texts { c with sendingBuffers := [], writing := none } := by
  have hbytes : c.wire ++ (c.writing.getD [] ++ c.writeBuffers.flatten) = _ := h.bytes
  rw [hwriting] at hbytes
  exact ⟨hbytes, h.frames, h.posted, h.unclosed, h.ordered, h.complete⟩

theorem Delivers.writeDone (h : c.Delivers hello texts) (hlive : c.Live)
    (hwriting : c.writing = some []) : c.writeDone.Delivers hello texts := by
  have hwritten := h.written hwriting
  have hidle : Live { c with sendingBuffers := [], writing := none } :=
    ⟨hlive.deleted, hlive.reading, by simp, hlive.callbacks⟩
  have hnext : c.writeNext.Delivers hello texts := by
    unfold Connection.writeNext
    dsimp only
    split_ifs with hempty
    · exact hwritten
    · exact hwritten.doWrite hidle
  unfold Connection.writeDone
  split_ifs
  · exact hwritten.congr hlive.deleted (stream_checkDestroy _)
  · exact hnext
  · exact hnext

theorem Delivers.step (h : c.Delivers hello texts) (hlive : c.Live) {e : ConnectionEvent}
    {c' : Connection} (hstep : c.step e = some c') (hok : e ≠ .writeFailed) :
    c'.Delivers hello (texts ++ sentBy e) := by
  cases e with
  | sendText msg =>
      have hcomplete : textsOf c.frames ++ postedTexts c.posted = texts :=
        h.complete hlive.deleted
      rw [Connection.step, if_neg (Bool.eq_false_iff.mp hlive.deleted)] at hstep
      cases hstep
      refine ⟨h.bytes, h.frames, ?_, h.unclosed, ?_, fun _ ↦ ?_⟩
      · exact List.forall_mem_append.mpr ⟨h.posted, List.forall_mem_singleton.mpr (by simp)⟩
      · exact h.ordered.trans (List.prefix_append ..)
      · change textsOf c.frames ++ postedTexts (c.posted ++ [(0x1, msg)]) = texts ++ [msg]
        rw [← hcomplete]
        simp [postedTexts]
  | runTask =>
      rw [append_sentBy (by nofun)]
      obtain ⟨opcode, payload, rest, hposted, hc⟩ := runTask_eq_some hstep
      rw [if_neg (Bool.eq_false_iff.mp hlive.deleted)] at hc
      rw [hc]
      exact h.sendDataImpl hlive hposted
  | close msg statusCode =>
      rw [append_sentBy (by nofun)]
      rw [Connection.step, if_neg (Bool.eq_false_iff.mp hlive.deleted)] at hstep
      cases hstep
      exact h.close hlive msg statusCode
  | room n =>
      rw [append_sentBy (by nofun)]
      rw [Connection.step, if_neg (Bool.eq_false_iff.mp hlive.deleted)] at hstep
      cases hstep
      exact h
  | transmit n =>
      rw [append_sentBy (by nofun)]
      obtain ⟨rest, hrest, -, hc⟩ := transmit_eq_some hstep
      have hbytes : c.wire ++ (c.writing.getD [] ++ c.writeBuffers.flatten) = _ := h.bytes
      rw [hc]
      refine ⟨?_, h.frames, h.posted, h.unclosed, h.ordered, h.complete⟩
      rw [hrest] at hbytes
      change c.wire ++ rest.take n ++ (rest.drop n ++ c.writeBuffers.flatten) = _
      rw [List.append_assoc, ← List.append_assoc (rest.take n), List.take_append_drop]
      exact hbytes
  | writeDone =>
      rw [append_sentBy (by nofun)]
      rw [Connection.step, Option.ite_none_right_eq_some] at hstep
      obtain ⟨⟨-, hwriting⟩, heq⟩ := hstep
      cases heq
      exact h.writeDone hlive hwriting
  | writeFailed => exact absurd rfl hok
  | readDone data =>
      rw [append_sentBy (by nofun)]
      rw [Connection.step, Option.ite_none_right_eq_some] at hstep
      obtain ⟨-, heq⟩ := hstep
      cases heq
      exact h.readDone hlive data
  | readFailed returns =>
      rw [append_sentBy (by nofun)]
      rw [Connection.step, Option.ite_none_right_eq_some] at hstep
      obtain ⟨-, heq⟩ := hstep
      cases heq
      exact h.readFailed hlive returns

theorem Delivers.step_absent (h : c.Delivers hello texts) (habsent : c.Absent)
    {e : ConnectionEvent} {c' : Connection} (hstep : c.step e = some c') (hok : e ≠ .writeFailed) :
    c'.Delivers hello (texts ++ sentBy e) := by
  cases e with
  | runTask =>
      obtain ⟨opcode, payload, rest, hposted, hc⟩ := runTask_eq_some hstep
      rw [if_pos habsent.deleted] at hc
      have htasks : ∀ t ∈ rest, t.1 ∈ [0x1, 0xa] := by
        intro t ht
        apply h.posted t
        change t ∈ c.posted
        rw [hposted]
        exact List.mem_cons_of_mem _ ht
      rw [append_sentBy (by nofun), hc]
      refine ⟨h.bytes, h.frames, htasks, h.unclosed, h.ordered, fun hlive ↦ ?_⟩
      exact absurd (habsent.deleted.symm.trans hlive) Bool.true_eq_false.mp
  | sendText | close | room =>
      rw [Connection.step, habsent.deleted] at hstep
      cases hstep
  | transmit n =>
      obtain ⟨rest, -, hopen, -⟩ := transmit_eq_some hstep
      exact absurd (habsent.socketOpen.symm.trans hopen) Bool.false_ne_true
  | writeDone => simp [Connection.step, habsent.deleted] at hstep
  | writeFailed => exact absurd rfl hok
  | readDone | readFailed => simp [Connection.step, habsent.reading] at hstep

theorem delivers_start (o : Opening) : (start o).Delivers o.hello [] := by
  have hsent : Delivers o.hello []
      (doWrite { constructed with writeBuffers := handshake o.hello, atOnce := o.atOnce }) := by
    obtain ⟨wire, writing, hstream, hbytes⟩ := stream_asyncWrite
      { constructed with sendingBuffers := handshake o.hello, atOnce := o.atOnce }
      (handshake o.hello).flatten
    have hwrite : (doWrite { constructed with
        writeBuffers := handshake o.hello, atOnce := o.atOnce }).stream = _ := hstream
    rw [Delivers, hwrite]
    refine ⟨?_, nofun, nofun, fun _ ↦ nofun, List.prefix_rfl, fun _ ↦ rfl⟩
    change wire ++ (writing.getD [] ++ []) = _ ++ []
    rw [List.append_nil, List.append_nil]
    exact hbytes
  rw [start]
  split_ifs
  · exact hsent.congr rfl (stream_doRead _)
  · exact hsent.congr rfl rfl

end Connection

theorem delivers_run {o : Opening} {tr : List (ConnectionEvent × Unit)} {c : Connection}
    (h : Run (connection o) tr c) (hok : ∀ e ∈ tr, e.1 ≠ .writeFailed) :
    c.Delivers o.hello (sentTexts tr) := by
  induction h with
  | start => exact Connection.delivers_start o
  | @step tr s t e _ hrun hstep ih =>
      obtain ⟨hbefore, hlast⟩ := List.forall_mem_append.mp hok
      have hsent : sentTexts (tr ++ [(e, ())]) = sentTexts tr ++ sentBy e := by
        rw [sentTexts, List.flatMap_append, List.flatMap_singleton]
        rfl
      rw [hsent]
      obtain ⟨hstep, -⟩ := eq_of_map_output hstep
      have hok := hlast _ (List.mem_singleton_self _)
      rcases live_or_absent hrun with hlive | habsent
      · exact (ih hbefore).step hlive hstep hok
      · exact (ih hbefore).step_absent habsent hstep hok

/-! ## What a page receives -/

/-- The texts of the message events: a close frame ends them. -/
def messages (frames : List Frame) : List (List UInt8) :=
  textsOf (frames.takeWhile fun f ↦ f.opcode ≠ 0x8)

theorem messages_isPrefix_textsOf (frames : List Frame) : messages frames <+: textsOf frames :=
  ((List.takeWhile_prefix _).filter _).map _

theorem messages_of_unclosed {frames : List Frame} (h : ∀ f ∈ frames, f.opcode ≠ 0x8) :
    messages frames = textsOf frames := by
  have hall : frames.takeWhile (fun f ↦ f.opcode ≠ 0x8) = frames :=
    List.takeWhile_eq_self_iff.mpr fun f hf ↦ decide_eq_true (h f hf)
  rw [messages, hall]

theorem flatMap_frameBytes {frames : List Frame} (h : ∀ f ∈ frames, f.fin = true) :
    frames.flatMap frameBytes = frames.flatMap Frame.bytes :=
  List.flatMap_congr fun f hf ↦ frameBytes_eq (h f hf)

/-- Nothing but whole frames has been written when nothing is left to write. -/
theorem eq_nil_of_flatMap {later : List Frame} {rest : List UInt8}
    (hrest : ∀ f ∈ later.head?, rest <+: f.bytes ∧ rest ≠ f.bytes)
    (h : rest = later.flatMap Frame.bytes) : later = [] := by
  cases later with
  | nil => rfl
  | cons f later =>
      obtain ⟨hstart, hne⟩ := hrest f rfl
      rw [List.flatMap_cons] at h
      have hle : rest.length ≤ f.bytes.length := hstart.length_le
      have hlen : rest.length = f.bytes.length + (later.flatMap Frame.bytes).length := by
        rw [h, List.length_append]
      exact absurd (hstart.eq_of_length (by omega)) hne

/-- As long as no write fails, a page reads the handshake and then the first of the texts that
were sent to it, whole and in order; and all of them, when none is under way and the connection
is not closed. -/
theorem page_receives {o : Opening} {tr : List (ConnectionEvent × Unit)} {c : Connection}
    (h : Run (connection o) tr c) (hok : ∀ e ∈ tr, e.1 ≠ .writeFailed)
    (hsize : ∀ f ∈ c.frames, f.payload.length < 2 ^ 63) :
    (c.wire <+: (Connection.handshake o.hello).flatten ∧
        c.wire.length < (Connection.handshake o.hello).flatten.length ∧ c.stream.pending ≠ []) ∨
      ∃ s complete rest, c.wire = (Connection.handshake o.hello).flatten ++ s ∧
        received s = some (complete, rest) ∧ messages complete <+: sentTexts tr ∧
          (c.stream.pending = [] → c.posted = [] → c.hasSentClose = false → c.deleted = false →
            messages complete = sentTexts tr) := by
  have hsound := delivers_run h hok
  have hbytes : c.wire ++ c.stream.pending =
      (Connection.handshake o.hello).flatten ++ c.frames.flatMap frameBytes := hsound.bytes
  have hfin : ∀ f ∈ c.frames, f.fin = true := fun f hf ↦ (hsound.frames f hf).1
  have hvalid : ∀ f ∈ c.frames, f.Valid := by
    intro f hf
    refine ⟨?_, hsize f hf⟩
    have hopcode := (hsound.frames f hf).2
    simp only [List.mem_cons, List.not_mem_nil, or_false] at hopcode
    omega
  rw [flatMap_frameBytes hfin] at hbytes
  by_cases hlen : (Connection.handshake o.hello).flatten.length ≤ c.wire.length
  · right
    obtain ⟨s, hs⟩ := List.prefix_of_prefix_length_le (List.prefix_append ..)
      ⟨_, hbytes⟩ hlen
    rw [← hs, List.append_assoc] at hbytes
    have hframes : s ++ c.stream.pending = c.frames.flatMap Frame.bytes :=
      List.append_cancel_left hbytes
    obtain ⟨complete, later, rest, hsplit, hreceived, hcomplete, hrest⟩ :=
      received_prefix hvalid ⟨_, hframes⟩
    refine ⟨s, complete, rest, hs.symm, hreceived, ?_, fun hpending hposted hsent hlive ↦ ?_⟩
    · have htexts : textsOf complete <+: textsOf c.frames := by
        rw [hsplit]
        exact ((List.prefix_append ..).filter _).map _
      exact (messages_isPrefix_textsOf complete).trans (htexts.trans hsound.ordered)
    · have hlater : later = [] := by
        apply eq_nil_of_flatMap hrest
        rw [hpending, List.append_nil, hcomplete, hsplit, List.flatMap_append] at hframes
        exact List.append_cancel_left hframes
      rw [hlater, List.append_nil] at hsplit
      have hall : textsOf c.frames ++ postedTexts c.posted = sentTexts tr :=
        hsound.complete hlive
      rw [hposted, hsplit] at hall
      rw [messages_of_unclosed (hsplit ▸ hsound.unclosed hsent), ← hall]
      exact (List.append_nil _).symm
  · left
    refine ⟨List.prefix_of_prefix_length_le ⟨_, hbytes⟩ (List.prefix_append ..) (by omega),
      by omega, fun hpending ↦ hlen ?_⟩
    rw [hpending, List.append_nil] at hbytes
    rw [hbytes, List.length_append]
    exact Nat.le_add_right ..

end VPanel.Proxy.WebSocket
