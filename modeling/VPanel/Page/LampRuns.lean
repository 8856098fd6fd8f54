import VPanel.Page.VaxPanel

/-!
# Whole runs of the lamp pages

A lamp is only touched where a mask differs from the one that is remembered.
Over every sequence of messages and lamp tests this comes to the same as
drawing all lamps anew from the two latest messages.
-/

namespace VPanel.Page

open JsInteger
open Pdp (Panel fixedStatus initPanel setPanelState)

/-! ## Events -/

inductive PageEvent
  | message (state : JsonObject)
  /-- A click on the lamp test switch. -/
  | lampTest
  deriving DecidableEq

def toggleLampTest (panel : Panel) : Panel := { panel with lampTest := 1 - panel.lampTest }

def handleEvent (updateLights : Panel → Except JsError Panel) (panel : Panel) :
    PageEvent → Except JsError Panel
  | .message state => updateLights (setPanelState panel state)
  | .lampTest => updateLights (toggleLampTest panel)

def Pdp.runEvents (es : List PageEvent) : Except JsError Panel := do
  es.foldlM (handleEvent Pdp.updateLights) (← Pdp.initializePanel Pdp.loaded)

def Vax.runEvents (es : List PageEvent) : Except JsError Panel := do
  es.foldlM (handleEvent Vax.updateLights) (← Vax.initializePanel Vax.loaded)

/-! ## The full redraw -/

/-- What there is to show: the two latest messages, and whether the lamps are tested. -/
structure Shown where
  testing : Bool
  previous : Option JsonObject
  current : Option JsonObject

def Shown.next (s : Shown) : PageEvent → Shown
  | .message state => ⟨s.testing, s.current, some state⟩
  | .lampTest => { s with testing := !s.testing }

def shown (es : List PageEvent) : Shown := es.foldl Shown.next ⟨false, none, none⟩

/-- The lamps of a page: how many show the address and the data, and the status lamps that show
a flag of the message. -/
structure LampSet where
  addressCount : ℕ
  dataCount : ℕ
  flags : List (String × ℕ)

def pdpLamps : LampSet where
  addressCount := 22
  dataCount := 16
  flags := [("parity_error", 11), ("address_error", 10), ("user", 6), ("super", 5), ("kernel", 4),
    ("addr16", 2), ("addr18", 1), ("addr22", 0)]

def vaxLamps : LampSet where
  addressCount := 32
  dataCount := 32
  flags := [("parity_error", 11), ("address_error", 10), ("user", 6), ("super", 5), ("kernel", 4),
    ("addr32", 2), ("addr64", 1), ("vax", 0)]

def numberOf (state : JsonObject) (key : String) : ℕ :=
  match state.get? key with
  | some (.number n) => n
  | _ => 0

namespace Shown

variable (c : LampSet) (s : Shown)

def mask (count : ℕ) (key : String) : ℕ :=
  if s.testing then 2 ^ count - 1
  else s.current.elim 0 fun state ↦ numberOf state key % 2 ^ count

def dataChanged (state : JsonObject) : Bool :=
  s.previous.elim true fun old ↦
    numberOf state "data" % 2 ^ c.dataCount ≠ numberOf old "data" % 2 ^ c.dataCount

/-- The lamps of the rotary switches and of the parity bits are always lit, those of RUN and
MASTER from the first message on. -/
def status (i : ℕ) : Bool :=
  s.testing || decide (i ∈ [22, 14, 13, 12]) ||
    s.current.elim false fun state ↦
      decide (i ∈ [9, 7]) || c.flags.any (fun f ↦ f.2 = i && state.truthy f.1) ||
        (decide (i = 3) && s.dataChanged c state)

end Shown

/-- Every lamp is lit exactly when the prescribed bit is set. -/
structure FullRedraw (c : LampSet) (s : Shown) (panel : Panel) : Prop where
  address : panel.addressId.map LampStyle.lit =
    (List.range c.addressCount).map (s.mask c.addressCount "address").testBit
  display : panel.displayId.map LampStyle.lit =
    (List.range c.dataCount).map (s.mask c.dataCount "data").testBit
  status : panel.statusId.map LampStyle.lit = (List.range 26).map (s.status c)

def litLamps (panel : Panel) : List Bool × List Bool × List Bool :=
  (panel.addressId.map LampStyle.lit, panel.displayId.map LampStyle.lit,
    panel.statusId.map LampStyle.lit)

/-- A state message: both numbers are there. -/
def IsMessage (state : JsonObject) : Prop :=
  ∃ address data : ℕ, state.get? "address" = some (.number address) ∧ address < 2 ^ 32 ∧
    state.get? "data" = some (.number data) ∧ data < 2 ^ 32

/-- The events leave a full redraw, and two more clicks on the lamp test change no lamp. -/
def DrawsInFull (c : LampSet) (run : List PageEvent → Except JsError Panel)
    (es : List PageEvent) : Prop :=
  ∃ panel, run es = .ok panel ∧ FullRedraw c (shown es) panel ∧
    ∃ panel', run (es ++ [.lampTest, .lampTest]) = .ok panel' ∧ litLamps panel' = litLamps panel

/-! ## Both pages are one script -/

section Script

variable (c : LampSet) (stateStatus : Option JsonObject → JsonObject → ℤ)
  (updateGroup : List LampStyle → ℤ → ℤ → Except JsError (List LampStyle))

def ones (n : ℕ) : ℤ := (2 ^ n - 1 : ℕ)

def maskedData (state : JsonObject) : ℤ :=
  bitAnd (operand (state.get? "data")) (ones c.dataCount)

def dataSpaceOf (oldState : Option JsonObject) (state : JsonObject) : Bool :=
  match oldState with
  | none => true
  | some old => bitXor (maskedData c state) (maskedData c old) ≠ 0

def lightsOf (panel : Panel) : ℤ × ℤ × ℤ :=
  if panel.lampTest ≠ 0 then (ones c.addressCount, ones c.dataCount, ones 26)
  else
    match panel.state with
    | some state =>
        (bitAnd (operand (state.get? "address")) (ones c.addressCount), maskedData c state,
          bitOr (fixedStatus panel) (stateStatus panel.oldState state))
    | none => (0, 0, fixedStatus panel)

def updateLightsOf (panel : Panel) : Except JsError Panel :=
  Pdp.setGroups updateGroup (lightsOf c stateStatus panel) panel

def initPanelOf (panel : Panel) : Panel :=
  { panel with
    addressId := (initPanel c.addressCount).1, addressLights := (initPanel c.addressCount).2
    displayId := (initPanel c.dataCount).1, displayLights := (initPanel c.dataCount).2
    statusId := (initPanel 26).1, statusLights := (initPanel 26).2 }

def runEventsOf (es : List PageEvent) : Except JsError Panel := do
  es.foldlM (handleEvent (updateLightsOf c stateStatus updateGroup))
    (← updateLightsOf c stateStatus updateGroup (initPanelOf c Pdp.loaded))

/-- What the proofs need of the parts in which the two scripts differ. -/
structure Script : Prop where
  addressCount : c.addressCount ≤ 32
  dataCount : c.dataCount ≤ 32
  updateGroup : Pdp.Updates updateGroup
  below : ∀ oldState state, Pdp.Below 26 (stateStatus oldState state)
  status : ∀ oldState state, ∀ i < 26, (toWord (stateStatus oldState state)).getLsbD i =
    (decide (i ∈ [9, 7]) || c.flags.any (fun f ↦ f.2 = i && state.truthy f.1) ||
      (decide (i = 3) && dataSpaceOf c oldState state))

end Script

theorem Pdp.runEvents_eq (es : List PageEvent) :
    Pdp.runEvents es = runEventsOf pdpLamps Pdp.stateStatus Pdp.updateGroup es := rfl

theorem Vax.runEvents_eq (es : List PageEvent) :
    Vax.runEvents es = runEventsOf vaxLamps Vax.stateStatus Vax.updateGroup es := rfl

theorem Pdp.script : Script pdpLamps Pdp.stateStatus Pdp.updateGroup where
  addressCount := by decide
  dataCount := by decide
  updateGroup := Pdp.updateGroup_spec
  below := Pdp.below_stateStatus
  status := by
    intro oldState state i hi
    have hdata : Pdp.dataSpace oldState state = dataSpaceOf pdpLamps oldState state := rfl
    simp only [Pdp.stateStatus, Pdp.getLsbD_foldl_bitOr, List.any_cons, List.any_nil,
      Pdp.getLsbD_toWord_flag, hdata, pdpLamps]
    interval_cases i <;> simp [toWord]

theorem Vax.script : Script vaxLamps Vax.stateStatus Vax.updateGroup where
  addressCount := by decide
  dataCount := by decide
  updateGroup := Vax.updateGroup_spec
  below := Vax.below_stateStatus
  status := by
    intro oldState state i hi
    have hdata : Vax.dataSpace oldState state = dataSpaceOf vaxLamps oldState state := rfl
    simp only [Vax.stateStatus, Pdp.getLsbD_foldl_bitOr, List.any_cons, List.any_nil,
      Pdp.getLsbD_toWord_flag, hdata, vaxLamps]
    interval_cases i <;> simp [toWord]

/-! ## The masks -/

section Masks

variable {n : ℕ} (hn : n ≤ 32)
include hn

theorem getLsbD_ones {i : ℕ} : (toWord (ones n)).getLsbD i = decide (i < n) :=
  getLsbD_toWord_ones hn i

theorem below_ones : Pdp.Below n (ones n) := fun i hi ↦ by
  rw [getLsbD_ones hn, decide_eq_false (Nat.not_lt.mpr hi)]

theorem getLsbD_masked {state : JsonObject} {key : String} {v : ℕ}
    (hv : state.get? key = some (.number v)) {i : ℕ} (hi : i < n) :
    (toWord (bitAnd (operand (state.get? key)) (ones n))).getLsbD i =
      (numberOf state key % 2 ^ n).testBit i := by
  rw [numberOf, hv, operand, ones, toWord_bitAnd_ones hn, BitVec.getLsbD_ofNat,
    decide_eq_true (hi.trans_le hn), Bool.true_and]

/-- The data of two messages differ on the lamps exactly when the masked numbers do. -/
theorem bitXor_masked_ne_zero_iff {key : String} {state old : JsonObject} {v w : ℕ}
    (hv : state.get? key = some (.number v)) (hw : old.get? key = some (.number w)) :
    bitXor (bitAnd (operand (state.get? key)) (ones n))
        (bitAnd (operand (old.get? key)) (ones n)) ≠ 0 ↔
      numberOf state key % 2 ^ n ≠ numberOf old key % 2 ^ n := by
  have hlt : ∀ x : ℕ, x % 2 ^ n < 2 ^ 32 := fun x ↦
    (Nat.mod_lt x (Nat.two_pow_pos n)).trans_le (Nat.pow_le_pow_right (by norm_num) hn)
  rw [numberOf, numberOf, hv, hw, operand, operand, ones, Ne, bitXor_eq_zero_iff,
    toWord_bitAnd_ones hn, toWord_bitAnd_ones hn, ← BitVec.toNat_inj, BitVec.toNat_ofNat,
    BitVec.toNat_ofNat, Nat.mod_eq_of_lt (hlt v), Nat.mod_eq_of_lt (hlt w)]

end Masks

/-! ## One update -/

/-- Every group shows the mask that is remembered for it, and the rotary switches stand at 0. -/
structure Lit (c : LampSet) (panel : Panel) : Prop where
  address : panel.addressId.length = c.addressCount ∧ ShowsMask panel.addressId panel.addressLights
  display : panel.displayId.length = c.dataCount ∧ ShowsMask panel.displayId panel.displayLights
  status : panel.statusId.length = 26 ∧ ShowsMask panel.statusId panel.statusLights
  rotary0 : panel.rotary0 = 0
  rotary1 : panel.rotary1 = 0

structure Refines (panel : Panel) (s : Shown) : Prop where
  lampTest : panel.lampTest = if s.testing then 1 else 0
  oldState : panel.oldState = s.previous
  state : panel.state = s.current

structure Shown.Sound (s : Shown) : Prop where
  previous : ∀ state, s.previous = some state → IsMessage state
  current : ∀ state, s.current = some state → IsMessage state

/-- The masks have the prescribed bits, and no bits without a lamp. -/
structure Prescribes (c : LampSet) (s : Shown) (masks : ℤ × ℤ × ℤ) : Prop where
  address : ∀ i < c.addressCount,
    (toWord masks.1).getLsbD i = (s.mask c.addressCount "address").testBit i
  display : ∀ i < c.dataCount,
    (toWord masks.2.1).getLsbD i = (s.mask c.dataCount "data").testBit i
  status : ∀ i < 26, (toWord masks.2.2).getLsbD i = s.status c i
  below : Pdp.Below c.addressCount masks.1 ∧ Pdp.Below c.dataCount masks.2.1 ∧
    Pdp.Below 26 masks.2.2

section Update

variable {c : LampSet} {stateStatus : Option JsonObject → JsonObject → ℤ}
  {updateGroup : List LampStyle → ℤ → ℤ → Except JsError (List LampStyle)}

theorem Lit.fixedStatus_eq {panel : Panel} (h : Lit c panel) : fixedStatus panel = 0x407000 := by
  rw [fixedStatus, h.rotary0, h.rotary1]
  decide

theorem getLsbD_fixedStatus {i : ℕ} (hi : i < 26) :
    (toWord 0x407000).getLsbD i = decide (i ∈ [22, 14, 13, 12]) := by
  interval_cases i <;> decide

theorem Script.dataSpaceOf_eq (h : Script c stateStatus updateGroup) {s : Shown} (hs : s.Sound)
    {state : JsonObject} (hstate : IsMessage state) :
    dataSpaceOf c s.previous state = s.dataChanged c state := by
  obtain ⟨-, v, -, -, hv, -⟩ := hstate
  unfold dataSpaceOf Shown.dataChanged
  cases hprev : s.previous with
  | none => rfl
  | some old =>
      obtain ⟨-, w, -, -, hw, -⟩ := hs.previous old hprev
      exact decide_eq_decide.mpr (bitXor_masked_ne_zero_iff h.dataCount hv hw)

theorem Script.prescribes_testing (h : Script c stateStatus updateGroup) {s : Shown}
    (htest : s.testing = true) :
    Prescribes c s (ones c.addressCount, ones c.dataCount, ones 26) := by
  have hmask : ∀ n i key, i < n → (s.mask n key).testBit i = true := by
    intro n i key hi
    rw [Shown.mask, if_pos htest, Nat.testBit_two_pow_sub_one, decide_eq_true hi]
  refine ⟨fun i hi ↦ ?_, fun i hi ↦ ?_, fun i hi ↦ ?_, below_ones h.addressCount,
    below_ones h.dataCount, below_ones (by norm_num)⟩
  · rw [getLsbD_ones h.addressCount, hmask _ i _ hi, decide_eq_true hi]
  · rw [getLsbD_ones h.dataCount, hmask _ i _ hi, decide_eq_true hi]
  · rw [getLsbD_ones (by norm_num), decide_eq_true hi, Shown.status, htest]
    rfl

theorem prescribes_none {s : Shown} (htest : s.testing = false) (hnone : s.current = none) :
    Prescribes c s (0, 0, 0x407000) := by
  have hzero : ∀ n, Pdp.Below n 0 := fun n ↦ Pdp.below_of_lt (Nat.two_pow_pos n)
  have hmask : ∀ n key, s.mask n key = 0 := by
    intro n key
    rw [Shown.mask, htest, hnone]
    rfl
  refine ⟨fun i _ ↦ ?_, fun i _ ↦ ?_, fun i hi ↦ ?_, hzero _, hzero _,
    Pdp.below_of_lt (by decide)⟩
  · rw [hmask, hzero 0 i i.zero_le, Nat.zero_testBit]
  · rw [hmask, hzero 0 i i.zero_le, Nat.zero_testBit]
  · rw [getLsbD_fixedStatus hi, Shown.status, htest, hnone]
    simp

theorem Script.prescribes_state (h : Script c stateStatus updateGroup) {s : Shown} (hs : s.Sound)
    (htest : s.testing = false) {state : JsonObject} (hsome : s.current = some state) :
    Prescribes c s (bitAnd (operand (state.get? "address")) (ones c.addressCount),
      maskedData c state, bitOr 0x407000 (stateStatus s.previous state)) := by
  have hmessage := hs.current state hsome
  have ⟨a, v, ha, _, hv, _⟩ := hmessage
  have hmask : ∀ n key, s.mask n key = numberOf state key % 2 ^ n := by
    intro n key
    rw [Shown.mask, htest, hsome]
    rfl
  refine ⟨fun i hi ↦ ?_, fun i hi ↦ ?_, fun i hi ↦ ?_, ?_⟩
  · rw [hmask, getLsbD_masked h.addressCount ha hi]
  · rw [hmask, maskedData, getLsbD_masked h.dataCount hv hi]
  · rw [toWord_bitOr, BitVec.getLsbD_or, getLsbD_fixedStatus hi, h.status _ _ i hi,
      h.dataSpaceOf_eq hs hmessage, Shown.status, htest, hsome]
    rfl
  · exact ⟨(below_ones h.addressCount).bitAnd_right _, (below_ones h.dataCount).bitAnd_right _,
      (Pdp.below_of_lt (by decide)).bitOr (h.below _ _)⟩

theorem Script.prescribes (h : Script c stateStatus updateGroup) {panel : Panel} {s : Shown}
    (hlit : Lit c panel) (href : Refines panel s) (hs : s.Sound) :
    Prescribes c s (lightsOf c stateStatus panel) := by
  rw [lightsOf, href.lampTest, href.state, href.oldState, hlit.fixedStatus_eq]
  cases htest : s.testing with
  | true => exact h.prescribes_testing htest
  | false =>
      cases hcurrent : s.current with
      | none => exact prescribes_none htest hcurrent
      | some state => exact h.prescribes_state hs htest hcurrent

theorem map_lit_of_showsMask {lamps : List LampStyle} {n : ℕ} {mask : ℤ} {bit : ℕ → Bool}
    (h : lamps.length = n ∧ ShowsMask lamps mask)
    (hbit : ∀ i < n, (toWord mask).getLsbD i = bit i) :
    lamps.map LampStyle.lit = (List.range n).map bit := by
  obtain ⟨rfl, hshow⟩ := h
  refine List.ext_getElem? fun i ↦ ?_
  rw [List.getElem?_map, List.getElem?_map]
  by_cases hi : i < lamps.length
  · rw [hshow.lit i hi, List.getElem?_range hi, Option.map_some, hbit i hi]
  · rw [List.getElem?_eq_none (by omega), List.getElem?_eq_none (by rw [List.length_range]; omega)]
    rfl

/-- An update does not throw, and leaves a full redraw. -/
theorem Script.updateLights_spec (h : Script c stateStatus updateGroup) {panel : Panel}
    {s : Shown} (hlit : Lit c panel) (href : Refines panel s) (hs : s.Sound) :
    ∃ panel', updateLightsOf c stateStatus updateGroup panel = .ok panel' ∧ Lit c panel' ∧
      Refines panel' s ∧ FullRedraw c s panel' := by
  have hmasks := h.prescribes hlit href hs
  obtain ⟨_, _, _, hrun, hshow₁, hshow₂, hshow₃⟩ :=
    Pdp.Updates.setGroups h.updateGroup hlit.address hlit.display hlit.status hmasks.below
  refine ⟨_, hrun, ?_, ?_, ?_⟩
  · exact ⟨hshow₁, hshow₂, hshow₃, hlit.rotary0, hlit.rotary1⟩
  · exact ⟨href.lampTest, href.oldState, href.state⟩
  · exact ⟨map_lit_of_showsMask hshow₁ hmasks.address, map_lit_of_showsMask hshow₂ hmasks.display,
      map_lit_of_showsMask hshow₃ hmasks.status⟩

/-! ## Runs -/

theorem shown_concat (es : List PageEvent) (e : PageEvent) :
    shown (es ++ [e]) = (shown es).next e := by
  rw [shown, List.foldl_append]
  rfl

theorem shown_lampTest_lampTest (es : List PageEvent) :
    shown (es ++ [.lampTest, .lampTest]) = shown es := by
  rw [shown, List.foldl_append]
  change ((shown es).next .lampTest).next .lampTest = shown es
  simp only [Shown.next, Bool.not_not]

theorem Shown.Sound.next {s : Shown} (h : s.Sound) {e : PageEvent}
    (he : ∀ state, e = .message state → IsMessage state) : (s.next e).Sound := by
  cases e with
  | message state =>
      exact ⟨h.current, fun state' hstate ↦ Option.some.inj hstate ▸ he state rfl⟩
  | lampTest => exact ⟨h.previous, h.current⟩

theorem Script.handleEvent_spec (h : Script c stateStatus updateGroup) {panel : Panel} {s : Shown}
    (hlit : Lit c panel) (href : Refines panel s) {e : PageEvent} (hs : (s.next e).Sound) :
    ∃ panel', handleEvent (updateLightsOf c stateStatus updateGroup) panel e = .ok panel' ∧
      Lit c panel' ∧ Refines panel' (s.next e) ∧ FullRedraw c (s.next e) panel' := by
  cases e with
  | message state =>
      have hlit' : Lit c (setPanelState panel state) :=
        ⟨hlit.address, hlit.display, hlit.status, hlit.rotary0, hlit.rotary1⟩
      have href' : Refines (setPanelState panel state) (s.next (.message state)) :=
        ⟨href.lampTest, href.state, rfl⟩
      exact h.updateLights_spec hlit' href' hs
  | lampTest =>
      have hlit' : Lit c (toggleLampTest panel) :=
        ⟨hlit.address, hlit.display, hlit.status, hlit.rotary0, hlit.rotary1⟩
      have htest : 1 - panel.lampTest = if !s.testing then 1 else 0 := by
        rw [href.lampTest]
        cases s.testing <;> rfl
      have href' : Refines (toggleLampTest panel) (s.next .lampTest) :=
        ⟨htest, href.oldState, href.state⟩
      exact h.updateLights_spec hlit' href' hs

theorem Script.initialize_spec (h : Script c stateStatus updateGroup) :
    ∃ panel, updateLightsOf c stateStatus updateGroup (initPanelOf c Pdp.loaded) = .ok panel ∧
      Lit c panel ∧ Refines panel (shown []) ∧ FullRedraw c (shown []) panel := by
  apply h.updateLights_spec
  · exact ⟨Pdp.showsMask_initPanel h.addressCount, Pdp.showsMask_initPanel h.dataCount,
      Pdp.showsMask_initPanel (by norm_num), rfl, rfl⟩
  · exact ⟨rfl, rfl, rfl⟩
  · exact ⟨fun _ h ↦ (nomatch h), fun _ h ↦ nomatch h⟩

theorem Script.run (h : Script c stateStatus updateGroup) {es : List PageEvent}
    (hes : ∀ state, .message state ∈ es → IsMessage state) :
    ∃ panel, runEventsOf c stateStatus updateGroup es = .ok panel ∧
      FullRedraw c (shown es) panel := by
  obtain ⟨panel₀, hinit, hlit₀, href₀, hdrawn₀⟩ := h.initialize_spec
  simp only [runEventsOf, hinit]
  -- the induction carries the remembered masks and that all messages seen are well formed
  suffices hrun : ∃ panel, es.foldlM (handleEvent (updateLightsOf c stateStatus updateGroup))
      panel₀ = .ok panel ∧ (Lit c panel ∧ Refines panel (shown es) ∧
        FullRedraw c (shown es) panel) ∧ (shown es).Sound by
    obtain ⟨panel, hfold, hpanel, -⟩ := hrun
    exact ⟨panel, hfold, hpanel.2.2⟩
  induction es using List.reverseRecOn with
  | nil =>
      exact ⟨panel₀, rfl, ⟨hlit₀, href₀, hdrawn₀⟩, fun _ h ↦ (nomatch h), fun _ h ↦ nomatch h⟩
  | append_singleton es e ih =>
      obtain ⟨panel, hfold, ⟨hlit, href, -⟩, hs⟩ :=
        ih fun state hstate ↦ hes state (List.mem_append_left _ hstate)
      have hs' := hs.next (e := e) fun state he ↦ hes state (by simp [he])
      obtain ⟨panel', hstep, hpanel'⟩ := h.handleEvent_spec hlit href hs'
      refine ⟨panel', ?_, ?_⟩
      · rw [List.foldlM_append, hfold]
        exact (bind_pure _).trans hstep
      · rw [shown_concat]
        exact ⟨hpanel', hs'⟩

theorem FullRedraw.litLamps_eq {s : Shown} {panel panel' : Panel} (h : FullRedraw c s panel)
    (h' : FullRedraw c s panel') : litLamps panel' = litLamps panel := by
  rw [litLamps, litLamps, h.address, h.display, h.status, h'.address, h'.display, h'.status]

theorem Script.drawsInFull (h : Script c stateStatus updateGroup) {es : List PageEvent}
    (hes : ∀ state, .message state ∈ es → IsMessage state) :
    DrawsInFull c (runEventsOf c stateStatus updateGroup) es := by
  obtain ⟨panel, hrun, hdrawn⟩ := h.run hes
  have hclicks : ∀ state, .message state ∈ es ++ [.lampTest, .lampTest] → IsMessage state :=
    fun state hstate ↦ hes state (by simpa using hstate)
  obtain ⟨panel', hrun', hdrawn'⟩ := h.run hclicks
  rw [shown_lampTest_lampTest] at hdrawn'
  exact ⟨panel, hrun, hdrawn, panel', hrun', hdrawn.litLamps_eq hdrawn'⟩

end Update

/-- Lighting only the lamps whose bit changed always gives the full redraw, on both pages. -/
theorem lamps_full_redraw {es : List PageEvent}
    (hes : ∀ state, .message state ∈ es → IsMessage state) :
    DrawsInFull pdpLamps Pdp.runEvents es ∧ DrawsInFull vaxLamps Vax.runEvents es := by
  constructor
  · simpa only [DrawsInFull, Pdp.runEvents_eq] using Pdp.script.drawsInFull hes
  · simpa only [DrawsInFull, Vax.runEvents_eq] using Vax.script.drawsInFull hes

/-- The top bit is set in one message and clear in the next, with lamp tests in between. -/
theorem lamps_full_redraw_top_bit :
    let high : JsonObject := [("address", .number 0x80000001), ("data", .number 0xffffffff),
      ("vax", .boolean true)]
    let low : JsonObject := [("address", .number 5), ("data", .number 0xffff)]
    let es : List PageEvent := [.message high, .lampTest, .message low, .lampTest, .message high]
    DrawsInFull pdpLamps Pdp.runEvents es ∧ DrawsInFull vaxLamps Vax.runEvents es := by
  intro high low es
  apply lamps_full_redraw
  intro state hstate
  have hcases : state = high ∨ state = low := by
    simp only [es, List.mem_cons, PageEvent.message.injEq, reduceCtorEq, List.not_mem_nil,
      or_false, false_or] at hstate
    tauto
  rcases hcases with rfl | rfl
  · exact ⟨_, _, rfl, by norm_num, rfl, by norm_num⟩
  · exact ⟨_, _, rfl, by norm_num, rfl, by norm_num⟩

end VPanel.Page
