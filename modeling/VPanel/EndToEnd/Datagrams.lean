import VPanel.Proxy.Modules
import VPanel.Server.Receive
import VPanel.Wire.Clients

/-!
# Datagrams from client to receiver

The bytes a client sends are read by the diagnostic server and by a proxy,
each through its own declaration of the packet.  Whether the state survives
is a question about offsets, sizes and byte orders of two declarations.
-/

namespace VPanel.EndToEnd

open ByteCodec ObjectLayout Wire Server Proxy

/-! ## PDP-11 to proxy -/

/-- The proxy accepts the frame of a PDP-11 client and shows the state it holds. -/
def PdpRoundTrip (s : PdpPanelState) (junk : ℕ → UInt8) : Prop :=
  (pdpSendFrames s junk).length = 22 ∧
    getPanelState PDProxy.panelState (pdpSendFrames s junk) = some (.ok s.members) ∧
    ∃ json, PDProxy.udpPacketToJson (pdpSendFrames s junk) = some (some json) ∧
      json.get? "address" = some (.number s.psAddress.toNat) ∧
      json.get? "data" = some (.number s.psData.toNat)

/-- An address with its two 16-bit halves exchanged. -/
def swapHalves (address : ℕ) : ℕ := address / 2 ^ 16 % 2 ^ 16 + 2 ^ 16 * (address % 2 ^ 16)

/-- What the proxy finds in the frame: the address has its halves exchanged. -/
def pdpDecoded (s : PdpPanelState) : PdpField → ℕ
  | .psAddress => swapHalves s.psAddress.toNat
  | f => s.members f

theorem length_pdpSendFrames (s : PdpPanelState) (junk : ℕ → UInt8) :
    (pdpSendFrames s junk).length = 22 := length_sendFrames ..

theorem load_pdpSendFrames (s : PdpPanelState) (junk : ℕ → UInt8) {name : PacketField PdpField}
    {slot : Slot (PacketField PdpField)} (hslot : (pdpPanelPacket .pdp11).slot? name = some slot) :
    (pdpPanelPacket .pdp11).load .little (pdpSendFrames s junk) name =
      leValue (ByteOrder.wordSwapped.encode slot.size
        (packetMembers 16 .pdp1170 s.members name)) := by
  have hbytes : pdpSendFrames s junk = (pdpPanelPacket .pdp11).store .wordSwapped
      (packetMembers 16 .pdp1170 s.members) (stackBytes junk (pdpPanelPacket .pdp11).size) := rfl
  rw [hbytes, ObjType.load_store_of_slot? _ _ _ (length_stackBytes ..).ge hslot]
  rfl

theorem announcedCount_pdpSendFrames (s : PdpPanelState) (junk : ℕ → UInt8) :
    announcedCount (pdpSendFrames s junk) = 16 := by
  have hslot : (pdpPanelPacket .pdp11).slot? (.inl .ppByteCount) =
      some ⟨.inl .ppByteCount, 0, 2⟩ := rfl
  have hload := load_pdpSendFrames s junk hslot
  have hcount : packetMembers 16 .pdp1170 s.members (.inl .ppByteCount) % 2 ^ 16 = 16 := rfl
  rw [ObjType.load_eq_of_slot? _ hslot, leValue_wordSwapped_two, hcount,
    ByteOrder.decode_little] at hload
  exact hload

theorem accepts_pdpSendFrames (s : PdpPanelState) (junk : ℕ → UInt8) :
    Accepts PDProxy.panelState.size (pdpSendFrames s junk) := by
  refine ⟨?_, announcedCount_pdpSendFrames s junk⟩
  rw [length_pdpSendFrames, PDProxy.size_panelState]

theorem embedsIn_pdpPanelPacket :
    PDProxy.panelState.EmbedsIn (pdpPanelPacket .pdp11) .inr 6 := by
  intro f
  cases f <;> exact ⟨_, rfl, rfl⟩

theorem load_pdp_word (s : PdpPanelState) (junk : ℕ → UInt8) {f : PdpField} (off : ℕ)
    (hslot : (pdpPanelPacket .pdp11).slot? (.inr f) = some ⟨.inr f, off, 2⟩)
    {v : BitVec 16} (hv : s.members f = v.toNat) :
    (pdpPanelPacket .pdp11).load .little (pdpSendFrames s junk) (.inr f) = v.toNat := by
  rw [load_pdpSendFrames s junk hslot, leValue_wordSwapped_two]
  change s.members f % 2 ^ 16 = v.toNat
  rw [hv, Nat.mod_eq_of_lt v.isLt]

theorem load_pdp_payload (s : PdpPanelState) (junk : ℕ → UInt8) :
    PDProxy.panelState.load .little
      (peek (pdpSendFrames s junk) 6 PDProxy.panelState.size) = pdpDecoded s := by
  funext f
  rw [embedsIn_pdpPanelPacket.load_peek]
  cases f with
  | psAddress =>
      have hslot : (pdpPanelPacket .pdp11).slot? (.inr .psAddress) =
          some ⟨.inr .psAddress, 6, 4⟩ := rfl
      rw [load_pdpSendFrames s junk hslot, leValue_wordSwapped_four]
      rfl
  | psData => exact load_pdp_word s junk 10 rfl rfl
  | psPsw => exact load_pdp_word s junk 12 rfl rfl
  | psMser => exact load_pdp_word s junk 14 rfl rfl
  | psCpuErr => exact load_pdp_word s junk 16 rfl rfl
  | psMmr0 => exact load_pdp_word s junk 18 rfl rfl
  | psMmr3 => exact load_pdp_word s junk 20 rfl rfl

theorem getPanelState_pdpSendFrames (s : PdpPanelState) (junk : ℕ → UInt8) :
    getPanelState PDProxy.panelState (pdpSendFrames s junk) = some (.ok (pdpDecoded s)) := by
  rw [getPanelState_of_accepts (accepts_pdpSendFrames s junk), load_pdp_payload]

theorem udpPacketToJson_pdpSendFrames (s : PdpPanelState) (junk : ℕ → UInt8) :
    PDProxy.udpPacketToJson (pdpSendFrames s junk) =
      some (some (PDProxy.toJson (pdpDecoded s))) :=
  replyWith_of_accepts (accepts_pdpSendFrames s junk) (by rw [load_pdp_payload])

theorem swapHalves_eq_iff {address : ℕ} (h : address < 2 ^ 22) :
    swapHalves address = address ↔ address / 2 ^ 16 = address % 2 ^ 16 := by
  unfold swapHalves
  omega

theorem swapHalves_eq_of_pdpRoundTrip {s : PdpPanelState} {junk : ℕ → UInt8}
    (h : PdpRoundTrip s junk) : swapHalves s.psAddress.toNat = s.psAddress.toNat := by
  obtain ⟨-, hpanel, -⟩ := h
  rw [getPanelState_pdpSendFrames] at hpanel
  simp only [Option.some.injEq, Except.ok.injEq] at hpanel
  exact congrFun hpanel .psAddress

/-- The PDP-11 frame survives exactly when the two halves of the address agree. -/
theorem pdp_round_trip_iff (s : PdpPanelState) (junk : ℕ → UInt8)
    (h : s.psAddress.toNat < 2 ^ 22) :
    PdpRoundTrip s junk ↔ s.psAddress.toNat / 2 ^ 16 = s.psAddress.toNat % 2 ^ 16 := by
  rw [← swapHalves_eq_iff h]
  refine ⟨swapHalves_eq_of_pdpRoundTrip, fun hswap ↦ ?_⟩
  have hdecoded : pdpDecoded s = s.members := by
    funext f
    cases f <;> first | exact hswap | rfl
  refine ⟨length_pdpSendFrames s junk, ?_, _, udpPacketToJson_pdpSendFrames s junk, ?_, ?_⟩
  · rw [getPanelState_pdpSendFrames, hdecoded]
  · have hmask : s.psAddress.toNat &&& 0x3fffff = s.psAddress.toNat := by
      rw [show (0x3fffff : ℕ) = 2 ^ 22 - 1 from rfl, Nat.and_two_pow_sub_one_eq_mod,
        Nat.mod_eq_of_lt h]
    rw [hdecoded]
    exact congrArg (fun n ↦ some (JsonObject.Value.number n)) hmask
  · rw [hdecoded]
    rfl

theorem pdp_round_trip_10001 :
    PdpRoundTrip ⟨0x10001, 7, 0xc000, 0, 0, 1, 0x10⟩ (fun _ ↦ 0) :=
  (pdp_round_trip_iff _ _ (by decide)).mpr (by decide)

/-- The address `endiantest` records, with the bytes `00 00 58 a3`, is decoded as `0xa3580000`. -/
theorem pdp_round_trip_fails_a358 :
    (0xa358 : ℕ) < 2 ^ 22 ∧ ¬PdpRoundTrip ⟨0xa358, 0, 0, 0, 0, 0, 0⟩ (fun _ ↦ 0) :=
  ⟨by norm_num, fun h ↦ absurd (swapHalves_eq_of_pdpRoundTrip h) (by decide)⟩

/-! ## PDP-11 to server -/

/-- The server recognises the frame of a PDP-11 client and shows the members it holds, whatever
else is in the buffer. -/
structure PdpShown (buffer : RecvBuffer) (s : PdpPanelState) (junk : ℕ → UInt8) : Prop where
  panel : ∃ panel, buffer.received (pdpSendFrames s junk) = .panel .pdp1170 (.pdp panel) ∧
    ∀ f ∈ pdpShown, panel f = s.members f
  own : ∀ other : RecvBuffer,
    (other.received (pdpSendFrames s junk)).text = (buffer.received (pdpSendFrames s junk)).text

theorem embedsIn_header_pdpPanelPacket :
    (panelPacketHeader .lp64).EmbedsIn (pdpPanelPacket .pdp11) .inl 0 := by
  intro f
  cases f <;> exact ⟨_, rfl, rfl⟩

theorem headerOf_pdpSendFrames (s : PdpPanelState) (junk : ℕ → UInt8) :
    headerOf (pdpSendFrames s junk) .ppByteCount = 16 ∧
      headerOf (pdpSendFrames s junk) .ppByteFlags = 0x10000 := by
  have hcountSlot : (pdpPanelPacket .pdp11).slot? (.inl .ppByteCount) =
      some ⟨.inl .ppByteCount, 0, 2⟩ := rfl
  have hflagsSlot : (pdpPanelPacket .pdp11).slot? (.inl .ppByteFlags) =
      some ⟨.inl .ppByteFlags, 2, 4⟩ := rfl
  constructor
  · rw [headerOf, embedsIn_header_pdpPanelPacket.load_peek,
      load_pdpSendFrames s junk hcountSlot, leValue_wordSwapped_two]
    rfl
  · have hflag : packetMembers 16 .pdp1170 s.members (.inl .ppByteFlags) = 1 := rfl
    rw [headerOf, embedsIn_header_pdpPanelPacket.load_peek,
      load_pdpSendFrames s junk hflagsSlot, leValue_wordSwapped_four, hflag]
    norm_num

/-- The length is right, but the flags arrive with their words exchanged. -/
theorem received_pdpSendFrames (buffer : RecvBuffer) (s : PdpPanelState) (junk : ℕ → UInt8) :
    buffer.received (pdpSendFrames s junk) = .unknown 0x10000 16 := by
  obtain ⟨hcount, hflags⟩ := headerOf_pdpSendFrames s junk
  have hlen := length_pdpSendFrames s junk
  have hfits : (pdpSendFrames s junk).length ≤ 1024 := by
    rw [hlen]
    norm_num
  have hheader : headerOf (buffer.recvfrom (pdpSendFrames s junk)).bytes =
      headerOf (pdpSendFrames s junk) := by
    rw [recvfrom_bytes buffer hfits, headerOf_append (by rw [hlen]; norm_num)]
  rw [RecvBuffer.received, List.take_of_length_le hfits, hlen, classify, expectedPacketSize,
    hheader, hcount, hflags]
  rfl

/-- No frame of a PDP-11 client is ever shown. -/
theorem pdp_frames_never_shown (buffer : RecvBuffer) (s : PdpPanelState) (junk : ℕ → UInt8) :
    ¬PdpShown buffer s junk := by
  rintro ⟨⟨panel, hpanel, -⟩, -⟩
  rw [received_pdpSendFrames] at hpanel
  cases hpanel

theorem zero_pdp_frame_not_shown :
    ¬PdpShown ⟨List.replicate 1024 0, List.length_replicate⟩ ⟨0, 0, 0, 0, 0, 0, 0⟩ fun _ ↦ 0 := by
  rintro ⟨⟨panel, hpanel, -⟩, -⟩
  rw [received_pdpSendFrames] at hpanel
  cases hpanel

/-! ## Little-endian clients -/

section LittleEndian

variable {ι : Type} [DecidableEq ι] {A : Abi} {packet : ObjType (PacketField ι)}
  {state : ObjType ι} (type : PanelType) (panel : ι → ℕ) (junk : ℕ → UInt8)

/-- The header members stand at the front of the packet, at the places of the packed header. -/
structure HeaderInFront (packet : ObjType (PacketField ι)) : Prop where
  ppByteCount : packet.slot? (.inl .ppByteCount) = some ⟨.inl .ppByteCount, 0, 2⟩
  ppByteFlags : packet.slot? (.inl .ppByteFlags) = some ⟨.inl .ppByteFlags, 2, 4⟩
  le_size : 6 ≤ packet.size

theorem headerOf_sendFrames (horder : A.order = .little) (hfront : HeaderInFront packet)
    (hstate : state.size < 2 ^ 16) (f : HeaderField) :
    headerOf (sendFrames A packet state type panel junk) f =
      packetMembers state.size type panel (.inl f) := by
  have hembed : (panelPacketHeader .lp64).EmbedsIn packet .inl 0 := by
    intro f
    cases f with
    | ppByteCount => exact ⟨_, rfl, hfront.ppByteCount⟩
    | ppByteFlags => exact ⟨_, rfl, hfront.ppByteFlags⟩
  rw [headerOf, hembed.load_peek, ← horder, load_sendFrames, hembed.width_eq]
  apply Nat.mod_eq_of_lt
  cases f with
  | ppByteCount => exact hstate
  | ppByteFlags => exact type.flag_lt

theorem received_sendFrames (horder : A.order = .little) (hfront : HeaderInFront packet)
    (hstate : state.size < 2 ^ 16) (hsize : packet.size ≤ 1024) (buffer : RecvBuffer) :
    buffer.received (sendFrames A packet state type panel junk) =
      if packet.size = 6 + state.size then
        .panel type (viewPanel (buffer.recvfrom
          (sendFrames A packet state type panel junk)).bytes type)
      else .sizeMismatch packet.size (6 + state.size) := by
  set d := sendFrames A packet state type panel junk with hd
  have hlen : d.length = packet.size := length_sendFrames ..
  have hheader : headerOf (buffer.recvfrom d).bytes = fun f ↦
      packetMembers state.size type panel (.inl f) := by
    funext f
    rw [recvfrom_bytes buffer (hlen.trans_le hsize),
      headerOf_append (hfront.le_size.trans_eq hlen.symm), hd,
      headerOf_sendFrames type panel junk horder hfront hstate]
  have hexpected : expectedPacketSize (buffer.recvfrom d).bytes = 6 + state.size := by
    rw [expectedPacketSize, hheader, size_panelPacketHeader_lp64]
    rfl
  have hcomplete : ¬packet.size < (panelPacketHeader .lp64).size :=
    Nat.not_lt.mpr hfront.le_size
  rw [RecvBuffer.received, List.take_of_length_le (hlen.trans_le hsize), hlen, classify,
    if_neg hcomplete, hexpected]
  by_cases hmatch : packet.size = 6 + state.size
  · have htype : panelTypeOf (headerOf (buffer.recvfrom d).bytes .ppByteFlags) = some type := by
      rw [hheader]
      exact panelTypeOf_flag type
    rw [if_neg (not_not.mpr hmatch), if_pos hmatch, htype]
  · rw [if_pos hmatch, if_neg hmatch]

theorem received_sendFrames_of_eq (horder : A.order = .little) (hfront : HeaderInFront packet)
    (hstate : state.size < 2 ^ 16) (hsize : packet.size ≤ 1024)
    (hmatch : packet.size = 6 + state.size) (buffer : RecvBuffer) :
    buffer.received (sendFrames A packet state type panel junk) =
      .panel type (viewPanel (buffer.recvfrom
        (sendFrames A packet state type panel junk)).bytes type) := by
  rw [received_sendFrames type panel junk horder hfront hstate hsize, if_pos hmatch]

theorem received_sendFrames_of_ne (horder : A.order = .little) (hfront : HeaderInFront packet)
    (hstate : state.size < 2 ^ 16) (hsize : packet.size ≤ 1024)
    (hmatch : packet.size ≠ 6 + state.size) (buffer : RecvBuffer) :
    buffer.received (sendFrames A packet state type panel junk) =
      .sizeMismatch packet.size (6 + state.size) := by
  rw [received_sendFrames type panel junk horder hfront hstate hsize, if_neg hmatch]

/-- Every value the client can store fits its member. -/
def FitsPacket (packet : ObjType (PacketField ι)) (panel : ι → ℕ) : Prop :=
  ∀ f, panel f < 256 ^ packet.width (.inr f)

theorem loadState_sendFrames (horder : A.order = .little) (hsize : packet.size ≤ 1024)
    (hfit : FitsPacket packet panel) (buffer : RecvBuffer) :
    loadState packet (buffer.recvfrom (sendFrames A packet state type panel junk)).bytes =
      panel := by
  funext f
  have hlen : (sendFrames A packet state type panel junk).length = packet.size :=
    length_sendFrames ..
  rw [loadState, recvfrom_bytes buffer (hlen.trans_le hsize), ObjType.load_append, ← horder,
    load_sendFrames]
  · exact Nat.mod_eq_of_lt (hfit f)
  · intro s hs
    rw [hlen]
    exact (packet.chained.bounds (ObjType.slot?_mem hs).1).2

theorem getPanelState_sendFrames (horder : A.order = .little) (hfront : HeaderInFront packet)
    (hstate : state.size < 2 ^ 16) {T : ObjType ι} (hembed : T.EmbedsIn packet .inr 6)
    (hT : T.size = state.size) (hsize : 6 + T.size ≤ packet.size)
    (hfit : FitsPacket packet panel) :
    getPanelState T (sendFrames A packet state type panel junk) = some (.ok panel) := by
  have hcount : announcedCount (sendFrames A packet state type panel junk) = T.size := by
    have hload : packet.load A.order (sendFrames A packet state type panel junk)
        (.inl .ppByteCount) = _ := load_sendFrames A type panel junk _
    have hwidth : packet.width (.inl .ppByteCount) = 2 := by
      simp only [ObjType.width, hfront.ppByteCount]
    rw [horder, ObjType.load_eq_of_slot? _ hfront.ppByteCount, hwidth,
      ByteOrder.decode_little] at hload
    rw [announcedCount, hload, hT]
    exact Nat.mod_eq_of_lt hstate
  have hacc : Accepts T.size (sendFrames A packet state type panel junk) :=
    ⟨by rwa [length_sendFrames], hcount⟩
  rw [getPanelState_of_accepts hacc]
  congr 2
  funext f
  rw [hembed.load_peek, ← horder, load_sendFrames]
  exact Nat.mod_eq_of_lt (hfit f)

end LittleEndian

theorem headerInFront_netbsdx64 : HeaderInFront (netbsdx64PanelPacket .lp64) :=
  ⟨rfl, rfl, by simp⟩

theorem headerInFront_vax : HeaderInFront (vaxPanelPacket .lp64) := ⟨rfl, rfl, by simp⟩

theorem headerInFront_macos : HeaderInFront (macosPanelPacket .lp64) := ⟨rfl, rfl, by simp⟩

theorem headerInFront_linuxx64 : HeaderInFront (linuxx64PanelPacket .lp64) :=
  ⟨rfl, rfl, by simp⟩

theorem fitsPacket_netbsdx64 (s : Netbsdx64PanelState) :
    FitsPacket (netbsdx64PanelPacket .lp64) s.members := by
  intro r
  cases r <;> exact BitVec.isLt _

theorem fitsPacket_vax (s : VaxPanelState) : FitsPacket (vaxPanelPacket .lp64) s.members := by
  intro f
  cases f <;> exact BitVec.isLt _

theorem embedsIn_netbsdx64PanelPacket :
    AMD64Proxy.panelState.EmbedsIn (netbsdx64PanelPacket .lp64) .inr 6 := by
  intro r
  cases r <;> exact ⟨_, rfl, rfl⟩

theorem embedsIn_vaxPanelPacket :
    NetBSDVAXProxy.panelState.EmbedsIn (vaxPanelPacket .lp64) .inr 6 := by
  intro f
  cases f <;> exact ⟨_, rfl, rfl⟩

theorem size_netbsdx64PanelPacket_eq :
    (netbsdx64PanelPacket .lp64).size = 6 + (netbsdx64PanelState .lp64).size := rfl

theorem size_vaxPanelPacket_eq :
    (vaxPanelPacket .lp64).size = 6 + (vaxPanelState .ilp32).size := rfl

/-- Packing makes the alignments of the two compilers irrelevant. -/
theorem vaxPanelPacket_ilp32 : vaxPanelPacket .ilp32 = vaxPanelPacket .lp64 := rfl

/-- Client, server and proxy agree on the NetBSD formats. -/
theorem netbsd_wire_agreement (buffer : RecvBuffer) (junk : ℕ → UInt8) :
    (∀ s : Netbsdx64PanelState,
      buffer.received (netbsdx64SendFrames s junk) = .panel .netbsdx64 (.netbsdx64 s.members) ∧
        getPanelState AMD64Proxy.panelState (netbsdx64SendFrames s junk) =
          some (.ok s.members)) ∧
      ∀ s : VaxPanelState,
        buffer.received (vaxSendFrames s junk) = .panel .vax (.vax s.members) ∧
          getPanelState NetBSDVAXProxy.panelState (vaxSendFrames s junk) =
            some (.ok s.members) := by
  refine ⟨fun s ↦ ⟨?_, ?_⟩, fun s ↦ ⟨?_, ?_⟩⟩
  · refine (received_sendFrames_of_eq .netbsdx64 s.members junk rfl headerInFront_netbsdx64
      (by decide) (by simp) size_netbsdx64PanelPacket_eq buffer).trans ?_
    rw [viewPanel, loadState_sendFrames .netbsdx64 s.members junk rfl (by simp)
      (fitsPacket_netbsdx64 s)]
  · exact getPanelState_sendFrames .netbsdx64 s.members junk rfl headerInFront_netbsdx64
      (by decide) embedsIn_netbsdx64PanelPacket rfl (by simp) (fitsPacket_netbsdx64 s)
  · rw [vaxSendFrames, vaxPanelPacket_ilp32]
    refine (received_sendFrames_of_eq .vax s.members junk rfl headerInFront_vax (by decide)
      (by simp) size_vaxPanelPacket_eq buffer).trans ?_
    rw [viewPanel, loadState_sendFrames .vax s.members junk rfl (by simp) (fitsPacket_vax s)]
  · rw [vaxSendFrames, vaxPanelPacket_ilp32]
    exact getPanelState_sendFrames .vax s.members junk rfl headerInFront_vax (by decide)
      embedsIn_vaxPanelPacket rfl (by simp) (fitsPacket_vax s)

/-! ## Padded packets -/

def Linuxx64RoundTrip (buffer : RecvBuffer) (s : Linuxx64PanelState) (junk : ℕ → UInt8) : Prop :=
  buffer.received (linuxx64SendFrames s junk) = .panel .linuxx64 (.linuxx64 s.members)

def MacosRoundTrip (buffer : RecvBuffer) (s : MacosPanelState) (junk : ℕ → UInt8) : Prop :=
  buffer.received (macosSendFrames s junk) = .panel .macos (.macos s.members)

/-- Two bytes of padding behind the header: 176 bytes arrive, the count announces 174. -/
theorem received_linuxx64SendFrames (buffer : RecvBuffer) (s : Linuxx64PanelState)
    (junk : ℕ → UInt8) :
    buffer.received (linuxx64SendFrames s junk) = .sizeMismatch 176 174 := by
  rw [linuxx64SendFrames, received_sendFrames_of_ne .linuxx64 s.members junk rfl
    headerInFront_linuxx64 (by decide) (by simp) (by decide)]
  rfl

/-- The same two bytes: 80 arrive, the count announces 78. -/
theorem received_macosSendFrames (buffer : RecvBuffer) (s : MacosPanelState)
    (junk : ℕ → UInt8) :
    buffer.received (macosSendFrames s junk) = .sizeMismatch 80 78 := by
  rw [macosSendFrames, received_sendFrames_of_ne .macos s.members junk rfl
    headerInFront_macos (by decide) (by simp) (by decide)]
  rfl

/-- No frame of the two padded clients is ever shown. -/
theorem padded_frames_never_shown (buffer : RecvBuffer) (junk : ℕ → UInt8) :
    (∀ s : Linuxx64PanelState, ¬Linuxx64RoundTrip buffer s junk) ∧
      ∀ s : MacosPanelState, ¬MacosRoundTrip buffer s junk := by
  refine ⟨fun s h ↦ ?_, fun s h ↦ ?_⟩
  · rw [Linuxx64RoundTrip, received_linuxx64SendFrames] at h
    cases h
  · rw [MacosRoundTrip, received_macosSendFrames] at h
    cases h

theorem zero_frames_not_shown :
    ¬(Linuxx64RoundTrip ⟨List.replicate 1024 0, List.length_replicate⟩ ⟨fun _ ↦ 0⟩ (fun _ ↦ 0)) ∧
      ¬(MacosRoundTrip ⟨List.replicate 1024 0, List.length_replicate⟩ ⟨0, 0, 0, 0, 0, 0, 0, 0, 0, 0, 0, 0⟩
        (fun _ ↦ 0)) := by
  constructor
  · rw [Linuxx64RoundTrip, received_linuxx64SendFrames]
    exact Received.noConfusion
  · rw [MacosRoundTrip, received_macosSendFrames]
    exact Received.noConfusion

end VPanel.EndToEnd
