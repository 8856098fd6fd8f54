import Mathlib.Tactic.FinCases
import VPanel.Page.Delivery
import VPanel.Page.Lamps

/-!
# The PDP-11 front panel

Three groups of lamps show the address, the data and the status of the last
message.  The status word is put together from properties that the page looks
up by name in the parsed object, so a name the proxy does not send reads as
false.
-/

namespace VPanel.Page

open ByteCodec JsInteger ObjectLayout Proxy Wire
open JsonObject (Value)

/-- A property as the operand of a bit operator: `undefined` counts as zero.  The lamp pages
receive no strings. -/
def operand : Option Value → ℤ
  | some (.number n) => n
  | some (.boolean b) => if b then 1 else 0
  | _ => 0

namespace Pdp

structure Panel where
  addressId : List LampStyle
  addressLights : ℤ
  displayId : List LampStyle
  displayLights : ℤ
  statusId : List LampStyle
  statusLights : ℤ
  lampTest : ℤ
  rotary0 : ℕ
  rotary1 : ℕ
  oldState : Option JsonObject
  state : Option JsonObject

def loaded : Panel where
  addressId := []
  addressLights := 0x3fffff
  displayId := []
  displayLights := 0xffff
  statusId := []
  statusLights := 0x3ffffff
  lampTest := 0
  rotary0 := 0
  rotary1 := 0
  oldState := none
  state := none

def initVal : ℕ → ℤ
  | 0 => 0
  | idCount + 1 => initVal idCount * 2 + 1

/-- `initPanel`: the page has an element for every lamp. -/
def initPanel (idCount : ℕ) : List LampStyle × ℤ :=
  (List.replicate idCount .initial, initVal idCount)

def setPanelState (panel : Panel) (newState : JsonObject) : Panel :=
  { panel with oldState := panel.state, state := some newState }

def flag (c : Bool) (mask : ℤ) : ℤ := if c then mask else 0

def addressMask (state : JsonObject) : ℤ := bitAnd (operand (state.get? "address")) 0x3fffff

def displayMask (state : JsonObject) : ℤ := bitAnd (operand (state.get? "data")) 0xffff

def dataSpace (oldState : Option JsonObject) (state : JsonObject) : Bool :=
  match oldState with
  | none => true
  | some old => bitXor (displayMask state) (displayMask old) ≠ 0

/-- The lamps that do not depend on a message. -/
def fixedStatus (panel : Panel) : ℤ :=
  bitOr (bitOr (shiftLeft 0x400000 panel.rotary1) (shiftLeft 0x4000 panel.rotary0)) 0x3000

def stateStatus (oldState : Option JsonObject) (state : JsonObject) : ℤ :=
  [flag (state.truthy "address_error") 0x400, 0x200, 0x80, flag (state.truthy "user") 0x40,
    flag (state.truthy "super") 0x20, flag (state.truthy "kernel") 0x10,
    flag (dataSpace oldState state) 0x8, flag (state.truthy "addr16") 0x4,
    flag (state.truthy "addr18") 0x2, flag (state.truthy "addr22") 0x1].foldl bitOr
      (flag (state.truthy "parity_error") 0x800)

def lights (panel : Panel) : ℤ × ℤ × ℤ :=
  if panel.lampTest ≠ 0 then (0x3fffff, 0xffff, 0x3ffffff)
  else
    match panel.state with
    | some state =>
        (addressMask state, displayMask state,
          bitOr (fixedStatus panel) (stateStatus panel.oldState state))
    | none => (0, 0, fixedStatus panel)

/-- One group: nothing is done when the mask is the one already shown. -/
def updateGroup (lamps : List LampStyle) (oldMask newMask : ℤ) :
    Except JsError (List LampStyle) :=
  if newMask ≠ oldMask then scanPanel oldMask newMask lamps else .ok lamps

def updateLights (panel : Panel) : Except JsError Panel := do
  let (addressLights, displayLights, statusLights) := lights panel
  let addressId ← updateGroup panel.addressId panel.addressLights addressLights
  let displayId ← updateGroup panel.displayId panel.displayLights displayLights
  let statusId ← updateGroup panel.statusId panel.statusLights statusLights
  return { panel with
    addressId := addressId, addressLights := addressLights
    displayId := displayId, displayLights := displayLights
    statusId := statusId, statusLights := statusLights }

def initializePanel (panel : Panel) : Except JsError Panel :=
  let (addressId, addressLights) := initPanel 22
  let (displayId, displayLights) := initPanel 16
  let (statusId, statusLights) := initPanel 26
  updateLights { panel with
    addressId := addressId, addressLights := addressLights
    displayId := displayId, displayLights := displayLights
    statusId := statusId, statusLights := statusLights }

def handleMessage (panel : Panel) (newState : JsonObject) : Except JsError Panel :=
  updateLights (setPanelState panel newState)

def runPage (messages : List JsonObject) : Except JsError Panel := do
  messages.foldlM handleMessage (← initializePanel loaded)

/-! ## The lamps show the remembered masks -/

/-- Every group shows the mask that is remembered for it. -/
structure Consistent (panel : Panel) : Prop where
  address : panel.addressId.length = 22 ∧ ShowsMask panel.addressId panel.addressLights
  display : panel.displayId.length = 16 ∧ ShowsMask panel.displayId panel.displayLights
  status : panel.statusId.length = 26 ∧ ShowsMask panel.statusId panel.statusLights

/-- A mask without bits from `n` on. -/
def Below (n : ℕ) (mask : ℤ) : Prop := ∀ i, n ≤ i → (toWord mask).getLsbD i = false

theorem updateGroup_spec {lamps : List LampStyle} {n : ℕ} {oldMask newMask : ℤ}
    (h : lamps.length = n ∧ ShowsMask lamps oldMask) (hnew : Below n newMask) :
    ∃ lamps', updateGroup lamps oldMask newMask = .ok lamps' ∧ lamps'.length = n ∧
      ShowsMask lamps' newMask := by
  obtain ⟨rfl, hshow⟩ := h
  exact ifChanged_spec hshow (scanPanel_spec hshow hnew)

theorem below_of_lt {n : ℕ} {mask : ℤ} (h : (toWord mask).toNat < 2 ^ n) : Below n mask := by
  intro i hi
  rw [← BitVec.testBit_toNat]
  exact Nat.testBit_lt_two_pow (h.trans_le (Nat.pow_le_pow_right (by norm_num) hi))

theorem Below.bitAnd_right {n : ℕ} {b : ℤ} (h : Below n b) (a : ℤ) : Below n (bitAnd a b) := by
  intro i hi
  rw [toWord_bitAnd, BitVec.getLsbD_and, h i hi, Bool.and_false]

theorem Below.bitOr {n : ℕ} {a b : ℤ} (ha : Below n a) (hb : Below n b) :
    Below n (JsInteger.bitOr a b) := by
  intro i hi
  rw [toWord_bitOr, BitVec.getLsbD_or, ha i hi, hb i hi, Bool.or_false]

theorem getLsbD_toWord_flag (c : Bool) (mask : ℤ) (i : ℕ) :
    (toWord (flag c mask)).getLsbD i = (c && (toWord mask).getLsbD i) := by
  cases c
  · exact BitVec.getLsbD_zero
  · rfl

theorem Below.flag {n : ℕ} {mask : ℤ} (h : Below n mask) (c : Bool) : Below n (flag c mask) := by
  intro i hi
  rw [getLsbD_toWord_flag, h i hi, Bool.and_false]

theorem Below.foldl_bitOr {n : ℕ} {masks : List ℤ} (h : ∀ mask ∈ masks, Below n mask) {a : ℤ}
    (ha : Below n a) : Below n (masks.foldl JsInteger.bitOr a) := by
  induction masks generalizing a with
  | nil => exact ha
  | cons mask masks ih =>
      exact ih (fun m hm ↦ h m (List.mem_cons_of_mem mask hm))
        (ha.bitOr (h mask List.mem_cons_self))

theorem getLsbD_foldl_bitOr (masks : List ℤ) (a : ℤ) (i : ℕ) :
    (toWord (masks.foldl JsInteger.bitOr a)).getLsbD i =
      ((toWord a).getLsbD i || masks.any fun mask ↦ (toWord mask).getLsbD i) := by
  induction masks generalizing a with
  | nil => simp
  | cons mask masks ih =>
      rw [List.foldl_cons, ih, toWord_bitOr, BitVec.getLsbD_or, List.any_cons, Bool.or_assoc]

/-- The status word lies below the rotary switches, whatever the flags are. -/
theorem below_statusWord (pe ae us su ke da m4 m2 m1 : Bool) :
    Below 26 ([flag ae 0x400, 0x200, 0x80, flag us 0x40, flag su 0x20, flag ke 0x10, flag da 0x8,
      flag m4 0x4, flag m2 0x2, flag m1 0x1].foldl JsInteger.bitOr (flag pe 0x800)) := by
  have hflag : ∀ (c : Bool) (mask : ℤ), (toWord mask).toNat < 2 ^ 26 → Below 26 (flag c mask) :=
    fun c _ hlt ↦ (below_of_lt hlt).flag c
  refine Below.foldl_bitOr (fun mask hmask ↦ ?_) (hflag _ _ (by decide))
  fin_cases hmask
  · exact hflag _ _ (by decide)
  · exact below_of_lt (by decide)
  · exact below_of_lt (by decide)
  all_goals exact hflag _ _ (by decide)

theorem below_stateStatus (oldState : Option JsonObject) (state : JsonObject) :
    Below 26 (stateStatus oldState state) :=
  below_statusWord _ _ _ _ _ _ _ _ _

structure AtRest (panel : Panel) : Prop extends Consistent panel where
  rotary0 : panel.rotary0 = 0
  rotary1 : panel.rotary1 = 0

theorem lights_below {panel : Panel} (h0 : panel.rotary0 = 0) (h1 : panel.rotary1 = 0) :
    Below 22 (lights panel).1 ∧ Below 16 (lights panel).2.1 ∧ Below 26 (lights panel).2.2 := by
  have hfixed : Below 26 (fixedStatus panel) := by
    rw [fixedStatus, h0, h1]
    exact below_of_lt (by decide)
  unfold lights
  split
  · exact ⟨below_of_lt (by decide), below_of_lt (by decide), below_of_lt (by decide)⟩
  · cases panel.state with
    | none =>
        have hzero : ∀ n, Below n 0 := fun n ↦ below_of_lt (Nat.two_pow_pos n)
        exact ⟨hzero 22, hzero 16, hfixed⟩
    | some state =>
        exact ⟨(below_of_lt (by decide)).bitAnd_right _, (below_of_lt (by decide)).bitAnd_right _,
          hfixed.bitOr (below_stateStatus _ _)⟩

/-- The update of the three groups to given masks. -/
def setGroups (update : List LampStyle → ℤ → ℤ → Except JsError (List LampStyle))
    (masks : ℤ × ℤ × ℤ) (panel : Panel) : Except JsError Panel := do
  let addressId ← update panel.addressId panel.addressLights masks.1
  let displayId ← update panel.displayId panel.displayLights masks.2.1
  let statusId ← update panel.statusId panel.statusLights masks.2.2
  return { panel with
    addressId := addressId, addressLights := masks.1
    displayId := displayId, displayLights := masks.2.1
    statusId := statusId, statusLights := masks.2.2 }

/-- An update of a group that takes it from the remembered mask to the new one. -/
def Updates (update : List LampStyle → ℤ → ℤ → Except JsError (List LampStyle)) : Prop :=
  ∀ {lamps : List LampStyle} {n : ℕ} {oldMask newMask : ℤ},
    lamps.length = n ∧ ShowsMask lamps oldMask → Below n newMask →
      ∃ lamps', update lamps oldMask newMask = .ok lamps' ∧ lamps'.length = n ∧
        ShowsMask lamps' newMask

theorem Updates.setGroups {update : List LampStyle → ℤ → ℤ → Except JsError (List LampStyle)}
    (hupdate : Updates update) {panel : Panel} {na nd ns : ℕ} {masks : ℤ × ℤ × ℤ}
    (haddress : panel.addressId.length = na ∧ ShowsMask panel.addressId panel.addressLights)
    (hdisplay : panel.displayId.length = nd ∧ ShowsMask panel.displayId panel.displayLights)
    (hstatus : panel.statusId.length = ns ∧ ShowsMask panel.statusId panel.statusLights)
    (hmasks : Below na masks.1 ∧ Below nd masks.2.1 ∧ Below ns masks.2.2) :
    ∃ addressId displayId statusId, Pdp.setGroups update masks panel = .ok { panel with
        addressId := addressId, addressLights := masks.1
        displayId := displayId, displayLights := masks.2.1
        statusId := statusId, statusLights := masks.2.2 } ∧
      (addressId.length = na ∧ ShowsMask addressId masks.1) ∧
      (displayId.length = nd ∧ ShowsMask displayId masks.2.1) ∧
      (statusId.length = ns ∧ ShowsMask statusId masks.2.2) := by
  obtain ⟨addressId, hrun₁, hshow₁⟩ := hupdate haddress hmasks.1
  obtain ⟨displayId, hrun₂, hshow₂⟩ := hupdate hdisplay hmasks.2.1
  obtain ⟨statusId, hrun₃, hshow₃⟩ := hupdate hstatus hmasks.2.2
  refine ⟨addressId, displayId, statusId, ?_, hshow₁, hshow₂, hshow₃⟩
  simp only [Pdp.setGroups, hrun₁, hrun₂, hrun₃]
  rfl

theorem updateLights_eq (panel : Panel) :
    updateLights panel = setGroups updateGroup (lights panel) panel := rfl

/-- `updateLights` does not throw, and the lamps then show the masks it computed. -/
theorem updateLights_spec {panel : Panel} (h : AtRest panel) :
    ∃ panel', updateLights panel = .ok panel' ∧ AtRest panel' ∧
      (panel'.addressLights, panel'.displayLights, panel'.statusLights) = lights panel ∧
        panel'.state = panel.state ∧ panel'.oldState = panel.oldState ∧
          panel'.lampTest = panel.lampTest := by
  obtain ⟨_, _, _, hrun, hshow₁, hshow₂, hshow₃⟩ := Updates.setGroups updateGroup_spec h.address
    h.display h.status (lights_below h.rotary0 h.rotary1)
  exact ⟨_, (updateLights_eq panel).trans hrun, ⟨⟨hshow₁, hshow₂, hshow₃⟩, h.rotary0, h.rotary1⟩,
    rfl, rfl, rfl, rfl⟩

theorem initVal_eq (idCount : ℕ) : initVal idCount = ((2 ^ idCount - 1 : ℕ) : ℤ) := by
  induction idCount with
  | zero => rfl
  | succ idCount ih =>
      have hpos := Nat.two_pow_pos idCount
      rw [initVal, ih, pow_succ]
      omega

theorem showsMask_initPanel {n : ℕ} (hn : n ≤ 32) :
    (initPanel n).1.length = n ∧ ShowsMask (initPanel n).1 (initPanel n).2 := by
  have hlen : (initPanel n).1.length = n := List.length_replicate
  have hbit : ∀ i, (toWord (initPanel n).2).getLsbD i = decide (i < n) := by
    intro i
    rw [initPanel, initVal_eq, getLsbD_toWord_ones hn]
  refine ⟨hlen, fun i hi ↦ ?_, fun i hi ↦ ?_⟩
  · have hi' : i < n := hlen ▸ hi
    rw [hbit, initPanel, List.getElem?_replicate, if_pos hi', decide_eq_true hi']
    simp
  · rw [hbit, decide_eq_false (Nat.not_lt.mpr (hlen ▸ hi))]

theorem initializePanel_spec :
    ∃ panel, initializePanel loaded = .ok panel ∧ AtRest panel ∧ panel.lampTest = 0 ∧
      panel.state = none := by
  have hlit : AtRest { loaded with
      addressId := (initPanel 22).1, addressLights := (initPanel 22).2
      displayId := (initPanel 16).1, displayLights := (initPanel 16).2
      statusId := (initPanel 26).1, statusLights := (initPanel 26).2 } :=
    ⟨⟨showsMask_initPanel (by norm_num), showsMask_initPanel (by norm_num),
      showsMask_initPanel (by norm_num)⟩, rfl, rfl⟩
  obtain ⟨panel, hrun, hrest, -, hstate, -, htest⟩ := updateLights_spec hlit
  exact ⟨panel, hrun, hrest, htest, hstate⟩

theorem getLsbD_status {panel : Panel} (h : AtRest panel) (oldState : Option JsonObject)
    (state : JsonObject) (i : ℕ) :
    (toWord (bitOr (fixedStatus panel) (stateStatus oldState state))).getLsbD i =
      ((toWord 0x407000).getLsbD i ||
        (state.truthy "parity_error" && (toWord 0x800).getLsbD i ||
          state.truthy "address_error" && (toWord 0x400).getLsbD i ||
          (toWord 0x200).getLsbD i || (toWord 0x80).getLsbD i ||
          state.truthy "user" && (toWord 0x40).getLsbD i ||
          state.truthy "super" && (toWord 0x20).getLsbD i ||
          state.truthy "kernel" && (toWord 0x10).getLsbD i ||
          dataSpace oldState state && (toWord 0x8).getLsbD i ||
          state.truthy "addr16" && (toWord 0x4).getLsbD i ||
          state.truthy "addr18" && (toWord 0x2).getLsbD i ||
          state.truthy "addr22" && (toWord 0x1).getLsbD i)) := by
  have hfixed : fixedStatus panel = 0x407000 := by
    rw [fixedStatus, h.rotary0, h.rotary1]
    decide
  simp only [hfixed, stateStatus, List.foldl_cons, List.foldl_nil, toWord_bitOr, BitVec.getLsbD_or,
    getLsbD_toWord_flag]

def statusLamp (page : Panel) (i : ℕ) : Bool := ((page.statusId[i]?).map LampStyle.lit).getD false

theorem statusLamp_eq {page : Panel} (h : Consistent page) {i : ℕ} (hi : i < 26) :
    statusLamp page i = (toWord page.statusLights).getLsbD i := by
  rw [statusLamp, h.status.2.lit i (h.status.1.symm ▸ hi)]
  rfl

end Pdp

end VPanel.Page
