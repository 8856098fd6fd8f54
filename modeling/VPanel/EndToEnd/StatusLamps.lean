import VPanel.Page.PdpPanel

/-!
# From PDP-11 registers to status lamps

The proxy and the page agree on the names of all status properties except
the three processor modes.  The lamps USER, SUPER and KERNEL therefore stay
dark, which is right for the unused fourth mode only.
-/

namespace VPanel.EndToEnd

open ByteCodec JsInteger ObjectLayout Page Page.Pdp Proxy Wire

/-! ## What the lamps should show -/

/-- The error, data and addressing lamps show a payload. -/
structure SharedLampsShow (page : Panel) (previous : Option (PdpField → ℕ))
    (panel : PdpField → ℕ) : Prop where
  parErr : statusLamp page 11 = true ↔ ∃ i ∈ [7, 6, 5, 4], (panel .psMser).testBit i = true
  adrsErr : statusLamp page 10 = true ↔ ∃ i ∈ [6, 5], (panel .psCpuErr).testBit i = true
  data : statusLamp page 3 = true ↔ ∀ p, previous = some p → p .psData ≠ panel .psData
  addr22 : statusLamp page 0 = true ↔ (panel .psMmr3).testBit 4 = true
  addr18 : statusLamp page 1 = true ↔
    (panel .psMmr3).testBit 4 = false ∧ (panel .psMmr0).testBit 0 = true
  addr16 : statusLamp page 2 = true ↔
    (panel .psMmr3).testBit 4 = false ∧ (panel .psMmr0).testBit 0 = false

def processorMode (panel : PdpField → ℕ) : ℕ := panel .psPsw / 2 ^ 14 % 4

/-- The lamps USER, SUPER and KERNEL show a payload. -/
structure ModeLampsShow (page : Panel) (panel : PdpField → ℕ) : Prop where
  user : statusLamp page 6 = true ↔ processorMode panel = 3
  super : statusLamp page 5 = true ↔ processorMode panel = 1
  kernel : statusLamp page 4 = true ↔ processorMode panel = 0

def StatusLampsShow (page : Panel) (previous : Option (PdpField → ℕ)) (panel : PdpField → ℕ) :
    Prop :=
  SharedLampsShow page previous panel ∧ ModeLampsShow page panel

/-- After each of the messages the status lamps show its payload. -/
def LampsAgree (panels : List (PdpField → ℕ)) (os : List JsonObject) : Prop :=
  ∀ k (hk : k < panels.length), ∃ page, runPage (os.take (k + 1)) = .ok page ∧
    StatusLampsShow page (if k = 0 then none else panels[k - 1]?) panels[k]

/-! ## The properties of a message -/

theorem and_ne_zero_iff (n m : ℕ) :
    n &&& m ≠ 0 ↔ ∃ i, m.testBit i = true ∧ n.testBit i = true := by
  constructor
  · intro h
    by_contra hnone
    refine h (Nat.eq_of_testBit_eq fun i ↦ ?_)
    rw [Nat.testBit_and, Nat.zero_testBit]
    cases hm : m.testBit i with
    | false => exact Bool.and_false _
    | true =>
        rw [Bool.and_true]
        exact Bool.eq_false_iff.mpr fun hn ↦ hnone ⟨i, hm, hn⟩
  · rintro ⟨i, hm, hn⟩ hzero
    have hbit := congrArg (Nat.testBit · i) hzero
    simp [Nat.testBit_and, hm, hn] at hbit

theorem and_shiftLeft_ne_zero_iff (n k : ℕ) : n &&& 1 <<< k ≠ 0 ↔ n.testBit k = true := by
  rw [and_ne_zero_iff, Nat.one_shiftLeft]
  simp [Nat.testBit_two_pow]

theorem and_or_ne_zero_iff (n a b : ℕ) : n &&& (a ||| b) ≠ 0 ↔ n &&& a ≠ 0 ∨ n &&& b ≠ 0 := by
  simp only [and_ne_zero_iff, Nat.testBit_or, Bool.or_eq_true, or_and_right, exists_or]

theorem addr22_eq (panel : PdpField → ℕ) :
    PDProxy.addr22 panel = (panel .psMmr3).testBit 4 := by
  rw [PDProxy.addr22, Bool.eq_iff_iff, decide_eq_true_iff]
  exact and_shiftLeft_ne_zero_iff _ _

theorem addr18_eq (panel : PdpField → ℕ) :
    PDProxy.addr18 panel = ((panel .psMmr0).testBit 0 && !(panel .psMmr3).testBit 4) := by
  rw [PDProxy.addr18, addr22_eq]
  congr 1
  rw [Bool.eq_iff_iff, decide_eq_true_iff]
  exact and_shiftLeft_ne_zero_iff _ _

theorem nodup_toJson (panel : PdpField → ℕ) : (PDProxy.toJson panel).keys.Nodup := by
  have hkeys : (PDProxy.toJson panel).keys = ["address", "data", "parity_error", "address_error",
      "user_mode", "super_mode", "kernel_mode", "addr16", "addr18", "addr22"] := rfl
  rw [hkeys]
  decide

/-- A parsed reply for a payload. -/
structure Reports (o : JsonObject) (panel : PdpField → ℕ) : Prop where
  perm : o.Perm (PDProxy.toJson panel)
  data_lt : panel .psData < 2 ^ 16

namespace Reports

variable {o : JsonObject} {panel : PdpField → ℕ}

theorem get? (h : Reports o panel) (key : String) :
    o.get? key = (PDProxy.toJson panel).get? key :=
  JsonObject.get?_of_perm h.perm (nodup_toJson panel) key

theorem truthy (h : Reports o panel) (key : String) :
    o.truthy key = (PDProxy.toJson panel).truthy key :=
  JsonObject.truthy_of_perm h.perm (nodup_toJson panel) key

theorem no_mode (h : Reports o panel) :
    o.truthy "user" = false ∧ o.truthy "super" = false ∧ o.truthy "kernel" = false := by
  refine ⟨(h.truthy _).trans ?_, (h.truthy _).trans ?_, (h.truthy _).trans ?_⟩ <;> rfl

theorem toWord_displayMask (h : Reports o panel) :
    toWord (displayMask o) = BitVec.ofNat 32 (panel .psData) := by
  have hdata : o.get? "data" = some (.number (panel .psData)) := (h.get? _).trans rfl
  have hlt := h.data_lt
  have hmask : toWord 0xffff = BitVec.ofNat 32 (2 ^ 16 - 1) := rfl
  rw [displayMask, hdata, toWord_bitAnd, hmask, operand, toWord_natCast, ← BitVec.ofNat_and,
    Nat.and_two_pow_sub_one_eq_mod, Nat.mod_eq_of_lt hlt]

theorem dataSpace_eq (h : Reports o panel) {old : JsonObject} {previous : PdpField → ℕ}
    (hold : Reports old previous) :
    dataSpace (some old) o = true ↔ previous .psData ≠ panel .psData := by
  have hlt := h.data_lt
  have hlt' := hold.data_lt
  rw [dataSpace, decide_eq_true_iff, Ne, bitXor_eq_zero_iff, h.toWord_displayMask,
    hold.toWord_displayMask, BitVec.toNat_eq, BitVec.toNat_ofNat, BitVec.toNat_ofNat,
    Nat.mod_eq_of_lt (by omega), Nat.mod_eq_of_lt (by omega)]
  exact not_congr eq_comm

theorem parity_error (h : Reports o panel) :
    o.truthy "parity_error" = true ↔ ∃ i ∈ [7, 6, 5, 4], (panel .psMser).testBit i = true := by
  have hvalue : o.truthy "parity_error" = decide
      (panel .psMser &&& (1 <<< 7 ||| 1 <<< 6 ||| 1 <<< 5 ||| 1 <<< 4) ≠ 0) :=
    (h.truthy _).trans rfl
  rw [hvalue, decide_eq_true_iff, and_or_ne_zero_iff, and_or_ne_zero_iff, and_or_ne_zero_iff]
  simp only [and_shiftLeft_ne_zero_iff, List.exists_mem_cons_iff, List.not_mem_nil, false_and,
    exists_false, or_false, or_assoc]

theorem address_error (h : Reports o panel) :
    o.truthy "address_error" = true ↔ ∃ i ∈ [6, 5], (panel .psCpuErr).testBit i = true := by
  have hvalue : o.truthy "address_error" = decide
      (panel .psCpuErr &&& (1 <<< 6 ||| 1 <<< 5) ≠ 0) := (h.truthy _).trans rfl
  rw [hvalue, decide_eq_true_iff, and_or_ne_zero_iff]
  simp only [and_shiftLeft_ne_zero_iff, List.exists_mem_cons_iff, List.not_mem_nil, false_and,
    exists_false, or_false]

theorem addr22 (h : Reports o panel) : o.truthy "addr22" = (panel .psMmr3).testBit 4 :=
  (h.truthy _).trans (addr22_eq panel)

theorem addr18 (h : Reports o panel) :
    o.truthy "addr18" = ((panel .psMmr0).testBit 0 && !(panel .psMmr3).testBit 4) :=
  (h.truthy _).trans (addr18_eq panel)

theorem addr16 (h : Reports o panel) :
    o.truthy "addr16" = (!(panel .psMmr0).testBit 0 && !(panel .psMmr3).testBit 4) := by
  have hvalue : o.truthy "addr16" = !(PDProxy.addr18 panel || PDProxy.addr22 panel) :=
    (h.truthy _).trans rfl
  rw [hvalue, addr18_eq, addr22_eq]
  cases (panel .psMmr0).testBit 0 <;> cases (panel .psMmr3).testBit 4 <;> rfl

end Reports

/-! ## One message -/

/-- The page has handled the messages up to one with the given payload. -/
structure Follows (page : Panel) (previous : Option (PdpField → ℕ)) : Prop where
  atRest : AtRest page
  lampTest : page.lampTest = 0
  state : page.state = none ∧ previous = none ∨
    ∃ o p, page.state = some o ∧ previous = some p ∧ Reports o p

theorem dataSpace_iff {page : Panel} {previous : Option (PdpField → ℕ)} (h : Follows page previous)
    {o : JsonObject} {panel : PdpField → ℕ} (ho : Reports o panel) :
    dataSpace page.state o = true ↔ ∀ p, previous = some p → p .psData ≠ panel .psData := by
  rcases h.state with ⟨hstate, rfl⟩ | ⟨old, p, hstate, rfl, hold⟩
  · rw [hstate]
    simp [dataSpace]
  · rw [hstate, ho.dataSpace_eq hold]
    simp

theorem handleMessage_spec {page : Panel} {previous : Option (PdpField → ℕ)}
    (h : Follows page previous) {o : JsonObject} {panel : PdpField → ℕ} (ho : Reports o panel) :
    ∃ page', handleMessage page o = .ok page' ∧ Follows page' (some panel) ∧
      SharedLampsShow page' previous panel ∧
        statusLamp page' 6 = false ∧ statusLamp page' 5 = false ∧ statusLamp page' 4 = false := by
  have hrest : AtRest (setPanelState page o) :=
    ⟨⟨h.atRest.address, h.atRest.display, h.atRest.status⟩, h.atRest.rotary0, h.atRest.rotary1⟩
  obtain ⟨page', hrun, hrest', hmasks, hstate, -, htest⟩ := updateLights_spec hrest
  have hlights : page'.statusLights =
      bitOr (fixedStatus (setPanelState page o)) (stateStatus page.state o) := by
    have hstatus := congrArg (fun masks ↦ masks.2.2) hmasks
    simpa [lights, setPanelState, h.lampTest] using hstatus
  have hlamp : ∀ i < 26, statusLamp page' i =
      (toWord (bitOr (fixedStatus (setPanelState page o)) (stateStatus page.state o))).getLsbD i :=
    fun i hi ↦ hlights ▸ statusLamp_eq hrest'.toConsistent hi
  have hbits : statusLamp page' 11 = o.truthy "parity_error" ∧
      statusLamp page' 10 = o.truthy "address_error" ∧ statusLamp page' 6 = o.truthy "user" ∧
      statusLamp page' 5 = o.truthy "super" ∧ statusLamp page' 4 = o.truthy "kernel" ∧
      statusLamp page' 3 = dataSpace page.state o ∧ statusLamp page' 2 = o.truthy "addr16" ∧
      statusLamp page' 1 = o.truthy "addr18" ∧ statusLamp page' 0 = o.truthy "addr22" := by
    refine ⟨?_, ?_, ?_, ?_, ?_, ?_, ?_, ?_, ?_⟩ <;>
      rw [hlamp _ (by norm_num), getLsbD_status hrest] <;> simp [toWord]
  obtain ⟨h11, h10, h6, h5, h4, h3, h2, h1, h0⟩ := hbits
  obtain ⟨huser, hsuper, hkernel⟩ := ho.no_mode
  refine ⟨page', hrun, ⟨hrest', htest.trans h.lampTest, Or.inr ⟨o, panel, hstate, rfl, ho⟩⟩,
    ⟨?_, ?_, ?_, ?_, ?_, ?_⟩, h6.trans huser, h5.trans hsuper, h4.trans hkernel⟩
  · rw [h11, ho.parity_error]
  · rw [h10, ho.address_error]
  · rw [h3, dataSpace_iff h ho]
  · rw [h0, ho.addr22]
  · rw [h1, ho.addr18]
    simp [and_comm]
  · rw [h2, ho.addr16]
    simp [and_comm]

/-! ## Whole runs -/

theorem modeLampsShow_iff {page : Panel} {panel : PdpField → ℕ} (h6 : statusLamp page 6 = false)
    (h5 : statusLamp page 5 = false) (h4 : statusLamp page 4 = false) :
    ModeLampsShow page panel ↔ processorMode panel = 2 := by
  have hlt : processorMode panel < 4 := Nat.mod_lt _ (by norm_num)
  constructor
  · rintro ⟨huser, hsuper, hkernel⟩
    rw [h6] at huser
    rw [h5] at hsuper
    rw [h4] at hkernel
    have h3 : processorMode panel ≠ 3 := fun h ↦ Bool.noConfusion (huser.mpr h)
    have h1 : processorMode panel ≠ 1 := fun h ↦ Bool.noConfusion (hsuper.mpr h)
    have h0 : processorMode panel ≠ 0 := fun h ↦ Bool.noConfusion (hkernel.mpr h)
    omega
  · intro hmode
    refine ⟨?_, ?_, ?_⟩
    · rw [h6, hmode]
      decide
    · rw [h5, hmode]
      decide
    · rw [h4, hmode]
      decide

theorem foldlM_handleMessage {panels : List (PdpField → ℕ)} {os : List JsonObject}
    (h : List.Forall₂ (fun panel o ↦ Reports o panel) panels os) {page : Panel}
    {previous : Option (PdpField → ℕ)} (hpage : Follows page previous) {k : ℕ}
    (hk : k < panels.length) :
    ∃ page', (os.take (k + 1)).foldlM handleMessage page = .ok page' ∧
      SharedLampsShow page' (if k = 0 then previous else panels[k - 1]?) panels[k] ∧
        statusLamp page' 6 = false ∧ statusLamp page' 5 = false ∧ statusLamp page' 4 = false := by
  induction h generalizing page previous k with
  | nil => exact absurd hk (Nat.not_lt_zero k)
  | @cons panel o panels os ho _ ih =>
      obtain ⟨page₁, hstep, hfollows, hshared, hmode⟩ := handleMessage_spec hpage ho
      cases k with
      | zero =>
          refine ⟨page₁, ?_, hshared, hmode⟩
          rw [List.take_succ_cons, List.take_zero, List.foldlM_cons, hstep]
          rfl
      | succ k =>
          obtain ⟨page₂, hrun, hshared₂, hmode₂⟩ :=
            ih hfollows (k := k) (Nat.lt_of_succ_lt_succ hk)
          refine ⟨page₂, ?_, ?_, hmode₂⟩
          · rw [List.take_succ_cons, List.foldlM_cons, hstep]
            exact hrun
          · have hprevious : (if k = 0 then some panel else panels[k - 1]?) =
                (panel :: panels)[k]? := by
              cases k <;> rfl
            rw [hprevious] at hshared₂
            exact hshared₂

theorem reports_of_delivered {ds : List (List UInt8)} {os : List JsonObject}
    (h : Delivered PDProxy.udpPacketToJson ds os) :
    List.Forall₂ (fun panel o ↦ Reports o panel) (acceptedStates PDProxy.panelState ds) os := by
  apply h.forall₂.imp
  intro panel o ⟨mem, json, hload, hjson, hperm⟩
  obtain rfl := Option.some.inj hjson
  have hdata := PDProxy.panelState.load_lt .little mem .psData
  exact ⟨hperm, hload ▸ hdata⟩

theorem lamps_after_each {ds : List (List UInt8)} {os : List JsonObject}
    (h : Delivered PDProxy.udpPacketToJson ds os) {k : ℕ}
    (hk : k < (acceptedStates PDProxy.panelState ds).length) :
    ∃ page, runPage (os.take (k + 1)) = .ok page ∧
      SharedLampsShow page (if k = 0 then none else (acceptedStates PDProxy.panelState ds)[k - 1]?)
        (acceptedStates PDProxy.panelState ds)[k] ∧
      (ModeLampsShow page (acceptedStates PDProxy.panelState ds)[k] ↔
        processorMode (acceptedStates PDProxy.panelState ds)[k] = 2) := by
  obtain ⟨page₀, hinit, hrest, htest, hstate⟩ := initializePanel_spec
  have hfollows : Follows page₀ none := ⟨hrest, htest, Or.inl ⟨hstate, rfl⟩⟩
  obtain ⟨page, hrun, hshared, h6, h5, h4⟩ :=
    foldlM_handleMessage (reports_of_delivered h) hfollows hk
  exact ⟨page, by rw [runPage, hinit]; exact hrun, hshared, modeLampsShow_iff h6 h5 h4⟩

theorem processorMode_of_lampsAgree {ds : List (List UInt8)} {os : List JsonObject}
    (h : Delivered PDProxy.udpPacketToJson ds os)
    (hagree : LampsAgree (acceptedStates PDProxy.panelState ds) os) :
    ∀ panel ∈ acceptedStates PDProxy.panelState ds, processorMode panel = 2 := by
  intro panel hpanel
  obtain ⟨k, hk, rfl⟩ := List.getElem_of_mem hpanel
  obtain ⟨page, hrun, -, hmode⟩ := lamps_after_each h hk
  obtain ⟨page', hrun', -, hmode'⟩ := hagree k hk
  obtain rfl : page = page' := Except.ok.inj (hrun.symm.trans hrun')
  exact hmode.mp hmode'

/-- The status lamps agree with the payloads of a run exactly when every payload has the unused
processor mode. -/
theorem lampsAgree_iff {ds : List (List UInt8)} {os : List JsonObject}
    (h : Delivered PDProxy.udpPacketToJson ds os) :
    LampsAgree (acceptedStates PDProxy.panelState ds) os ↔
      ∀ panel ∈ acceptedStates PDProxy.panelState ds, processorMode panel = 2 := by
  refine ⟨processorMode_of_lampsAgree h, fun hunused k hk ↦ ?_⟩
  obtain ⟨page, hrun, hshared, hmode⟩ := lamps_after_each h hk
  exact ⟨page, hrun, hshared, hmode.mpr (hunused _ (List.getElem_mem hk))⟩

/-- The objects that the page gets when every datagram is a payload. -/
def sentObjects (ds : List (List UInt8)) : List JsonObject :=
  ds.map fun d ↦ PDProxy.toJson (PDProxy.panelState.load .little (peek d 6 16))

theorem delivered_sentObjects {ds : List (List UInt8)}
    (h : ∀ d ∈ ds, Accepts PDProxy.panelState.size d) :
    Delivered PDProxy.udpPacketToJson ds (sentObjects ds) := by
  induction ds with
  | nil => exact .nil
  | cons d ds ih =>
      obtain ⟨hd, hrest⟩ := List.forall_mem_cons.mp h
      exact .sent (replyWith_of_accepts hd rfl) (.refl _) (ih hrest)

/-- In the unused mode: a parity error, then other data with an address error. -/
def unusedMode : List (List UInt8) :=
  [[16, 0, 1, 0, 0, 0, 0x01, 0x02, 0, 0, 0x34, 0x12, 0, 0x80, 0x40, 0, 0, 0, 1, 0, 0x10, 0],
    [16, 0, 1, 0, 0, 0, 0x03, 0x02, 0, 0, 0x78, 0x56, 0, 0x80, 0, 0, 0x20, 0, 1, 0, 0, 0]]

theorem lampsAgree_unused_mode : ∃ os, Delivered PDProxy.udpPacketToJson unusedMode os ∧
    LampsAgree (acceptedStates PDProxy.panelState unusedMode) os := by
  have hacc : ∀ d ∈ unusedMode, Accepts PDProxy.panelState.size d := by decide +kernel
  have hdelivered := delivered_sentObjects hacc
  refine ⟨_, hdelivered, (lampsAgree_iff hdelivered).mpr ?_⟩
  obtain ⟨hfirst, hrest⟩ := List.forall_mem_cons.mp hacc
  rw [unusedMode, acceptedStates_cons_of_accepts hfirst,
    acceptedStates_cons_of_accepts (List.forall_mem_singleton.mp hrest), acceptedStates,
    List.forall_mem_cons, List.forall_mem_singleton]
  decide +kernel

/-- A payload of zeros is in kernel mode, but the lamp KERNEL stays dark. -/
theorem not_lampsAgree_kernel_mode :
    ∃ os, Delivered PDProxy.udpPacketToJson
        [[16, 0, 1, 0, 0, 0, 0, 0, 0, 0, 0, 0, 0, 0, 0, 0, 0, 0, 0, 0, 0, 0]] os ∧
      ¬LampsAgree (acceptedStates PDProxy.panelState
        [[16, 0, 1, 0, 0, 0, 0, 0, 0, 0, 0, 0, 0, 0, 0, 0, 0, 0, 0, 0, 0, 0]]) os := by
  have hacc : Accepts PDProxy.panelState.size
      [16, 0, 1, 0, 0, 0, 0, 0, 0, 0, 0, 0, 0, 0, 0, 0, 0, 0, 0, 0, 0, 0] := by decide +kernel
  have hdelivered := delivered_sentObjects (List.forall_mem_singleton.mpr hacc)
  refine ⟨_, hdelivered, fun hagree ↦ ?_⟩
  have hmode := processorMode_of_lampsAgree hdelivered hagree
  rw [acceptedStates_cons_of_accepts hacc, acceptedStates, List.forall_mem_singleton] at hmode
  exact absurd hmode (by decide +kernel)

end VPanel.EndToEnd
