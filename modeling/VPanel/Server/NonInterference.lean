import VPanel.Server.Receive

/-!
# Leftovers in the receive buffer

The length check compares a datagram with the count it announces itself, not
with the struct its flags select.  A short payload is therefore displayed
together with bytes of earlier datagrams, and only datagrams that cover the
displayed members are free of them.
-/

namespace VPanel.Server

open ByteCodec ObjectLayout Wire

/-- What is printed for a datagram does not depend on the datagrams before it, nor on
the initial contents of the buffer. -/
def NonInterfering (d : List UInt8) (sender : Sender) : Prop :=
  ∀ (stack₁ stack₂ : RecvBuffer) (h₁ h₂ : List RecvResult) (s₁ s₂ : ServerState),
    handleUdpClients ⟨stack₁, 0⟩ h₁ = some s₁ → handleUdpClients ⟨stack₂, 0⟩ h₂ = some s₂ →
      (receive s₁ d sender).2.panel = (receive s₂ d sender).2.panel

def dispatch (d : List UInt8) : Option PanelType :=
  if 6 ≤ d.length ∧ d.length = expectedPacketSize d then
    panelTypeOf (headerOf d .ppByteFlags)
  else none

/-- The first byte behind the members a display function shows. -/
def displayedExtent : PanelType → ℕ
  | .pdp1170 => 28
  | .vax => 12
  | .netbsdx64 => 214
  | .macos => 72
  | .linuxx64 => 176

theorem expectedPacketSize_append {d : List UInt8} (hd : 6 ≤ d.length) (rest : List UInt8) :
    expectedPacketSize (d ++ rest) = expectedPacketSize d := by
  rw [expectedPacketSize, headerOf_append hd, expectedPacketSize]

theorem received_of_dispatch {d : List UInt8} (hd : d.length ≤ 1024) (buffer : RecvBuffer)
    {t : PanelType} (h : dispatch d = some t) :
    buffer.received d = .panel t (viewPanel (d ++ buffer.bytes.drop d.length) t) := by
  rw [dispatch] at h
  split at h
  next hcheck =>
    obtain ⟨hheader, hsize⟩ := hcheck
    rw [RecvBuffer.received, recvfrom_bytes buffer hd, List.take_of_length_le hd, classify,
      expectedPacketSize_append hheader, headerOf_append hheader, if_neg (by simpa using hheader),
      if_neg (not_not.mpr hsize), h]
  next => cases h

theorem received_of_dispatch_eq_none {d : List UInt8} (hd : d.length ≤ 1024)
    (buffer : RecvBuffer) (h : dispatch d = none) :
    buffer.received d = classify d d.length := by
  rw [RecvBuffer.received, recvfrom_bytes buffer hd, List.take_of_length_le hd]
  by_cases hheader : 6 ≤ d.length
  · rw [classify, classify, expectedPacketSize_append hheader, headerOf_append hheader]
    by_cases hsize : d.length = expectedPacketSize d
    · rw [dispatch, if_pos ⟨hheader, hsize⟩] at h
      rw [h]
    · rw [if_pos hsize, if_pos hsize]
  · have hshort : d.length < (panelPacketHeader .lp64).size := by
      rw [size_panelPacketHeader_lp64]
      omega
    rw [classify, classify, if_pos hshort, if_pos hshort]

/-! ## The place of the displayed members -/

section Shown

variable {ι : Type} [DecidableEq ι]

/-- The members `shown` lie in front of `extent`, and `last` alone ends there. -/
structure Shown (packet : ObjType (PacketField ι)) (shown : List ι) (last : ι) (extent : ℕ) :
    Prop where
  slot : ∀ f ∈ shown, ∃ s ∈ packet.slot? (.inr f),
    s.offset + s.size ≤ extent ∧ (f ≠ last → s.offset + s.size < extent)
  slot_last : ∃ s ∈ packet.slot? (.inr last), s.offset + s.size = extent ∧ 0 < s.size

namespace Shown

variable {packet : ObjType (PacketField ι)} {shown : List ι} {last : ι} {extent : ℕ}

theorem loadState_append (h : Shown packet shown last extent) {d : List UInt8}
    (hd : extent ≤ d.length) (rest : List UInt8) {f : ι} (hf : f ∈ shown) :
    loadState packet (d ++ rest) f = loadState packet d f := by
  obtain ⟨s, hslot, hend, -⟩ := h.slot f hf
  refine ObjType.load_append _ (fun t ht ↦ ?_) rest
  obtain rfl := Option.some.inj ((Option.mem_def.mp hslot).symm.trans ht)
  exact hend.trans hd

theorem loadState_poke_eq (h : Shown packet shown last extent) {mem : List UInt8}
    (hmem : extent ≤ mem.length) (bs cs : List UInt8) {f : ι} (hf : f ∈ shown) (hne : f ≠ last) :
    loadState packet (poke mem (extent - 1) bs) f =
      loadState packet (poke mem (extent - 1) cs) f := by
  obtain ⟨s, hslot, -, hend⟩ := h.slot f hf
  have hbefore : s.offset + s.size ≤ extent - 1 := Nat.le_sub_one_of_lt (hend hne)
  have hkeep : ∀ ds, loadState packet (poke mem (extent - 1) ds) f = loadState packet mem f :=
    ObjType.load_poke_before .little hslot hbefore (by omega)
  exact (hkeep bs).trans (hkeep cs).symm

theorem loadState_poke_last_ne (h : Shown packet shown last extent) {mem : List UInt8}
    (hmem : extent ≤ mem.length) {b c : UInt8} (hbc : b ≠ c) :
    loadState packet (poke mem (extent - 1) [b]) last ≠
      loadState packet (poke mem (extent - 1) [c]) last := by
  obtain ⟨s, hslot, hend, hsize⟩ := h.slot_last
  have hlast : s.offset + s.size = extent - 1 + 1 := by omega
  exact ObjType.load_poke_last_ne _ hslot hlast hsize (by omega) hbc

end Shown

theorem loadState_lt {packet : ObjType (PacketField ι)} {f : ι} {n : ℕ}
    (h : 256 ^ packet.width (.inr f) = n) (mem : List UInt8) : loadState packet mem f < n :=
  (packet.load_lt .little mem (.inr f)).trans_eq h

end Shown

theorem width_pdp_psMmr3 : 256 ^ (pdpPanelPacket .lp64).width (.inr .psMmr3) = 2 ^ 16 := rfl

theorem width_netbsdx64_cfSs :
    256 ^ (netbsdx64PanelPacket .lp64).width (.inr .cfSs) = 2 ^ 64 := rfl

theorem width_macos_threadCount :
    256 ^ (macosPanelPacket .lp64).width (.inr .threadCount) = 2 ^ 32 := rfl

theorem width_linuxx64_ss : 256 ^ (linuxx64PanelPacket .lp64).width (.inr .ss) = 2 ^ 64 := rfl

theorem shown_pdp : Shown (pdpPanelPacket .lp64) pdpShown .psMmr3 28 where
  slot := by decide +kernel
  slot_last := by decide +kernel

theorem shown_macos : Shown (macosPanelPacket .lp64) macosShown .threadCount 72 where
  slot := by decide +kernel
  slot_last := by decide +kernel

theorem shown_netbsdx64 :
    Shown (netbsdx64PanelPacket .lp64) (netbsdx64Regs.map Prod.snd) .cfSs 214 where
  slot := by decide +kernel
  slot_last := by decide +kernel

theorem shown_linuxx64 :
    Shown (linuxx64PanelPacket .lp64) (linuxx64Regs.map Prod.snd) .ss 176 where
  slot := by decide +kernel
  slot_last := by decide +kernel

theorem slot?_vax_psAddress :
    (vaxPanelPacket .lp64).slot? (.inr .psAddress) = some ⟨.inr .psAddress, 6, 4⟩ := rfl

theorem loadState_vax_psData_mod {mem : List UInt8} (hmem : 12 ≤ mem.length) :
    loadState (vaxPanelPacket .lp64) mem .psData % 2 ^ 16 = leValue (peek mem 10 2) := by
  have hslot : (vaxPanelPacket .lp64).slot? (.inr .psData) = some ⟨.inr .psData, 10, 4⟩ := rfl
  have hlow : (peek mem 10 2).length = 2 := length_peek hmem
  have hlt : leValue (peek mem 10 2) < 2 ^ 16 := by
    have hbound := ByteOrder.little.decode_lt (peek mem 10 2)
    rw [hlow] at hbound
    exact hbound
  rw [loadState, ObjType.load_eq_of_slot? _ hslot, ByteOrder.decode_little, peek_add mem 10 2 2,
    leValue_append, hlow]
  exact (Nat.add_mul_mod_self_left _ (2 ^ 16) _).trans (Nat.mod_eq_of_lt hlt)

/-! ## Datagrams that cover what is displayed -/

theorem display_append {t : PanelType} {d : List UInt8} (h : displayedExtent t ≤ d.length)
    (rest : List UInt8) : (viewPanel (d ++ rest) t).display = (viewPanel d t).display := by
  cases t with
  | pdp1170 => exact displayPdpPanel_congr fun f hf ↦ shown_pdp.loadState_append h rest hf
  | vax =>
      have hfit : 12 ≤ d.length := h
      refine displayVaxPanel_congr (ObjType.load_append _ (fun s hs ↦ ?_) rest) ?_
      · obtain rfl := Option.some.inj (slot?_vax_psAddress.symm.trans hs)
        exact Nat.le_trans (by norm_num) hfit
      · rw [loadState_vax_psData_mod hfit,
          loadState_vax_psData_mod (by rw [List.length_append]; omega), peek_append_left hfit]
  | netbsdx64 =>
      exact congrArg (clearScreen ++ ·) (printRegs_congr fun reg hreg ↦
        shown_netbsdx64.loadState_append h rest (List.mem_map_of_mem hreg))
  | macos => exact displayMacosPanel_congr fun f hf ↦ shown_macos.loadState_append h rest hf
  | linuxx64 =>
      exact congrArg (clearScreen ++ ·) (printRegs_congr fun reg hreg ↦
        shown_linuxx64.loadState_append h rest (List.mem_map_of_mem hreg))

theorem display_poke_ne (t : PanelType) {mem : List UInt8} (hmem : mem.length = 1024) :
    (viewPanel (poke mem (displayedExtent t - 1) [0]) t).display ≠
      (viewPanel (poke mem (displayedExtent t - 1) [1]) t).display := by
  have hbyte : (0 : UInt8) ≠ 1 := by decide
  cases t with
  | pdp1170 =>
      have hfit : 28 ≤ mem.length := by omega
      exact displayPdpPanel_ne (fun f hf hne ↦ shown_pdp.loadState_poke_eq hfit [0] [1] hf hne)
        (loadState_lt width_pdp_psMmr3 _) (loadState_lt width_pdp_psMmr3 _)
        (shown_pdp.loadState_poke_last_ne hfit hbyte)
  | vax =>
      have hfit : 12 ≤ mem.length := by omega
      have hkeep : ∀ bs, loadState (vaxPanelPacket .lp64) (poke mem 11 bs) .psAddress =
          loadState (vaxPanelPacket .lp64) mem .psAddress :=
        ObjType.load_poke_before .little slot?_vax_psAddress (by norm_num) (by omega)
      have hbits : ∀ b : UInt8, loadState (vaxPanelPacket .lp64) (poke mem 11 [b]) .psData % 2 ^ 16 =
          leValue (peek (poke mem 11 [b]) 10 2) := fun b ↦
        loadState_vax_psData_mod (hfit.trans_eq (length_poke hfit).symm)
      have hlen : ∀ b : UInt8, (peek (poke mem 11 [b]) 10 2).length = 2 :=
        length_peek_poke_singleton hfit hfit
      refine displayVaxPanel_ne ((hkeep [0]).trans (hkeep [1]).symm) fun hdata ↦ ?_
      have hvalue : leValue (peek (poke mem 11 [0]) 10 2) = leValue (peek (poke mem 11 [1]) 10 2) :=
        (hbits 0).symm.trans (hdata.trans (hbits 1))
      have hne : peek (poke mem 11 [0]) 10 2 ≠ peek (poke mem 11 [1]) 10 2 :=
        peek_poke_last_ne (by norm_num) (by norm_num) hfit hbyte
      exact hne (ByteOrder.little.decode_injective_of_length ((hlen 0).trans (hlen 1).symm) hvalue)
  | netbsdx64 =>
      have hfit : 214 ≤ mem.length := by omega
      have hregs := printRegs_ne netbsdx64Regs (by decide) (by decide)
        (fun f hf hne ↦ shown_netbsdx64.loadState_poke_eq hfit [0] [1] hf hne)
        (loadState_lt width_netbsdx64_cfSs _) (loadState_lt width_netbsdx64_cfSs _)
        (shown_netbsdx64.loadState_poke_last_ne hfit hbyte)
      exact fun htext ↦ hregs (List.append_cancel_left htext)
  | macos =>
      have hfit : 72 ≤ mem.length := by omega
      exact displayMacosPanel_ne
        (fun f hf hne ↦ shown_macos.loadState_poke_eq hfit [0] [1] hf hne)
        (loadState_lt width_macos_threadCount _) (loadState_lt width_macos_threadCount _)
        (shown_macos.loadState_poke_last_ne hfit hbyte)
  | linuxx64 =>
      have hfit : 176 ≤ mem.length := by omega
      have hregs := printRegs_ne linuxx64Regs (by decide) (by decide)
        (fun f hf hne ↦ shown_linuxx64.loadState_poke_eq hfit [0] [1] hf hne)
        (loadState_lt width_linuxx64_ss _) (loadState_lt width_linuxx64_ss _)
        (shown_linuxx64.loadState_poke_last_ne hfit hbyte)
      exact fun htext ↦ hregs (List.append_cancel_left htext)

/-! ## The exact condition -/

theorem receive_panel (s : ServerState) (d : List UInt8) (sender : Sender) :
    (receive s d sender).2.panel = (s.buffer.received d).text sender := rfl

theorem bytes_recvfrom_of_length_eq (buffer : RecvBuffer) {d : List UInt8}
    (hd : d.length = 1024) : (buffer.recvfrom d).bytes = d := by
  rw [recvfrom_bytes buffer hd.le, List.drop_eq_nil_of_le (by rw [buffer.length_bytes, hd]),
    List.append_nil]

theorem handleUdpClients_fill (stack : RecvBuffer) {d : List UInt8} (hd : d.length = 1024)
    (sender : Sender) :
    ∃ s, handleUdpClients ⟨stack, 0⟩ [.datagram d sender] = some s ∧ s.buffer.bytes = d :=
  ⟨_, rfl, bytes_recvfrom_of_length_eq stack hd⟩

theorem displayedExtent_le (t : PanelType) : 1 ≤ displayedExtent t ∧ displayedExtent t ≤ 1024 := by
  cases t <;> decide

theorem text_panel_eq_iff {sender : Sender} {t : PanelType} {v w : PanelView} :
    (Received.panel t v).text sender = (Received.panel t w).text sender ↔
      v.display = w.display :=
  ⟨List.append_cancel_left, fun h ↦ congrArg (_ ++ ·) h⟩

theorem not_nonInterfering {d : List UInt8} (hd : d.length ≤ 1024) {t : PanelType}
    (h : dispatch d = some t) (hshort : d.length < displayedExtent t) (sender : Sender) :
    ¬NonInterfering d sender := by
  intro hni
  obtain ⟨hpos, hle⟩ := displayedExtent_le t
  have hzero : (List.replicate 1024 (0 : UInt8)).length = 1024 := List.length_replicate
  have hfill : ∀ b : UInt8, (poke (List.replicate 1024 0) (displayedExtent t - 1) [b]).length =
      1024 := fun b ↦ (length_poke (by rw [hzero, List.length_singleton]; omega)).trans hzero
  obtain ⟨s₁, hrun₁, hbuffer₁⟩ := handleUdpClients_fill ⟨_, hzero⟩ (hfill 0) sender
  obtain ⟨s₂, hrun₂, hbuffer₂⟩ := handleUdpClients_fill ⟨_, hzero⟩ (hfill 1) sender
  have hsame := hni _ _ _ _ _ _ hrun₁ hrun₂
  rw [receive_panel, receive_panel, received_of_dispatch hd _ h, received_of_dispatch hd _ h,
    hbuffer₁, hbuffer₂] at hsame
  have hdisplay := text_panel_eq_iff.mp hsame
  rw [append_drop_poke (by omega) (by omega), append_drop_poke (by omega) (by omega)] at hdisplay
  refine display_poke_ne t ?_ hdisplay
  rw [List.length_append, List.length_drop, hzero]
  omega

/-- A datagram is displayed by itself alone exactly when it covers what its type displays. -/
theorem nonInterfering_iff (d : List UInt8) (sender : Sender) (hd : d.length ≤ 1024) :
    NonInterfering d sender ↔ ∀ t, dispatch d = some t → displayedExtent t ≤ d.length := by
  constructor
  · intro hni t ht
    by_contra hshort
    exact not_nonInterfering hd ht (Nat.lt_of_not_le hshort) sender hni
  · intro hcover stack₁ stack₂ h₁ h₂ s₁ s₂ _ _
    rw [receive_panel, receive_panel]
    cases hdispatch : dispatch d with
    | none =>
        rw [received_of_dispatch_eq_none hd _ hdispatch, received_of_dispatch_eq_none hd _ hdispatch]
    | some t =>
        have hdisplay := display_append (hcover t hdispatch)
        rw [received_of_dispatch hd _ hdispatch, received_of_dispatch hd _ hdispatch,
          text_panel_eq_iff, hdisplay, hdisplay]

theorem nonInterfering_vax_datagram :
    NonInterfering [8, 0, 2, 0, 0, 0, 1, 2, 3, 4, 5, 6, 7, 8] ⟨(127, 0, 0, 1), (15, 160)⟩ := by
  refine (nonInterfering_iff _ _ (by decide)).mpr fun t ht ↦ ?_
  have hvax : dispatch [8, 0, 2, 0, 0, 0, 1, 2, 3, 4, 5, 6, 7, 8] = some .vax := by decide
  obtain rfl : PanelType.vax = t := Option.some.inj (hvax.symm.trans ht)
  decide

/-- A header that announces no payload is displayed as a complete NetBSD x64 state. -/
theorem not_nonInterfering_bare_header :
    ([0, 0, 3, 0, 0, 0] : List UInt8).length ≤ 1024 ∧
      ¬NonInterfering [0, 0, 3, 0, 0, 0] ⟨(127, 0, 0, 1), (15, 160)⟩ :=
  ⟨by decide, not_nonInterfering (t := .netbsdx64) (by decide) (by decide) (by decide) _⟩

end VPanel.Server
