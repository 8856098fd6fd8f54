import VPanel.Page.PdpPanel

/-!
# The VAX front panel

The script is the one of the PDP-11 page with wider masks, other names for the
addressing lamps, and a scan of 32 fixed steps that checks the length of the
array.  The remembered masks may be 4294967295 or -1 for the same lamps.
-/

namespace VPanel.Page.Vax

open JsInteger
open Pdp (fixedStatus flag initPanel setPanelState)

/-- The same members as on the PDP-11 page. -/
abbrev Panel := Pdp.Panel

def loaded : Panel := { Pdp.loaded with addressLights := 0xffffffff, displayLights := 0xffffffff }

def updatePanel (oldMask newMask : ℤ) (lamps : List LampStyle) :
    Except JsError (List LampStyle) :=
  scanBounded (fun id lamps ↦
      if id < lamps.length then
        assignAt (LampStyle.switch (bitAnd newMask (shiftLeft 1 id) ≠ 0)) id lamps
      else .ok lamps)
    (bitXor newMask oldMask) lamps

def addressMask (state : JsonObject) : ℤ := bitAnd (operand (state.get? "address")) 0xffffffff

def displayMask (state : JsonObject) : ℤ := bitAnd (operand (state.get? "data")) 0xffffffff

def dataSpace (oldState : Option JsonObject) (state : JsonObject) : Bool :=
  match oldState with
  | none => true
  | some old => bitXor (displayMask state) (displayMask old) ≠ 0

def stateStatus (oldState : Option JsonObject) (state : JsonObject) : ℤ :=
  [flag (state.truthy "address_error") 0x400, 0x200, 0x80, flag (state.truthy "user") 0x40,
    flag (state.truthy "super") 0x20, flag (state.truthy "kernel") 0x10,
    flag (dataSpace oldState state) 0x8, flag (state.truthy "addr32") 0x4,
    flag (state.truthy "addr64") 0x2, flag (state.truthy "vax") 0x1].foldl bitOr
      (flag (state.truthy "parity_error") 0x800)

def lights (panel : Panel) : ℤ × ℤ × ℤ :=
  if panel.lampTest ≠ 0 then (0xffffffff, 0xffffffff, 0x3ffffff)
  else
    match panel.state with
    | some state =>
        (addressMask state, displayMask state,
          bitOr (fixedStatus panel) (stateStatus panel.oldState state))
    | none => (0, 0, fixedStatus panel)

def updateGroup (lamps : List LampStyle) (oldMask newMask : ℤ) :
    Except JsError (List LampStyle) :=
  if newMask ≠ oldMask then updatePanel oldMask newMask lamps else .ok lamps

def updateLights (panel : Panel) : Except JsError Panel := do
  let (addressLights, displayLights, statusLights) := lights panel
  let addressId ← updateGroup panel.addressId panel.addressLights addressLights
  let displayId ← updateGroup panel.displayId panel.displayLights displayLights
  let statusId ← updateGroup panel.statusId panel.statusLights statusLights
  return { panel with
    addressId := addressId, addressLights := addressLights
    displayId := displayId, displayLights := displayLights
    statusId := statusId, statusLights := statusLights }

/-- `initialize`, without the scaling of the page.  The page has no elements `s12` and `s13`; the
objects `initPanel` puts there take the same assignments. -/
def initializePanel (panel : Panel) : Except JsError Panel :=
  let (addressId, addressLights) := initPanel 32
  let (displayId, displayLights) := initPanel 32
  let (statusId, statusLights) := initPanel 26
  updateLights { panel with
    addressId := addressId, addressLights := addressLights
    displayId := displayId, displayLights := displayLights
    statusId := statusId, statusLights := statusLights }

/-! ## The scan -/

theorem foldlM_guarded (f : ℕ → LampStyle → LampStyle) {is : List ℕ} {lamps : List LampStyle}
    (h : ∀ i ∈ is, i < lamps.length) :
    is.foldlM (fun lamps i ↦ if i < lamps.length then assignAt (f i) i lamps else .ok lamps)
        lamps =
      is.foldlM (fun lamps i ↦ assignAt (f i) i lamps) lamps := by
  induction is generalizing lamps with
  | nil => rfl
  | cons i is ih =>
      have hi : i < lamps.length := h i List.mem_cons_self
      rw [List.foldlM_cons, List.foldlM_cons, if_pos hi, assignAt, if_pos hi]
      refine ih fun k hk ↦ ?_
      rw [List.length_modify]
      exact h k (List.mem_cons_of_mem i hk)

/-- The check of the length never fails when both masks lie within the array. -/
theorem updatePanel_eq_scanPanel {lamps : List LampStyle} {oldMask newMask : ℤ}
    (h : ∀ i, (toWord newMask ^^^ toWord oldMask).getLsbD i = true → i < lamps.length) :
    updatePanel oldMask newMask lamps = scanPanel oldMask newMask lamps := by
  rw [updatePanel, scanPanel, scanBounded_bitXor, scan_bitXor]
  exact foldlM_guarded _ fun i hi ↦ h i (mem_setBits.mp hi)

theorem updatePanel_spec {lamps : List LampStyle} {oldMask newMask : ℤ}
    (hold : ShowsMask lamps oldMask)
    (hnew : ∀ i, lamps.length ≤ i → (toWord newMask).getLsbD i = false) :
    ∃ lamps', updatePanel oldMask newMask lamps = .ok lamps' ∧ lamps'.length = lamps.length ∧
      ShowsMask lamps' newMask := by
  rw [updatePanel_eq_scanPanel]
  · exact scanPanel_spec hold hnew
  · intro i hi
    by_contra hge
    rw [BitVec.getLsbD_xor, hnew i (by omega), hold.dark i (by omega)] at hi
    cases hi

theorem updateGroup_spec {lamps : List LampStyle} {n : ℕ} {oldMask newMask : ℤ}
    (h : lamps.length = n ∧ ShowsMask lamps oldMask) (hnew : Pdp.Below n newMask) :
    ∃ lamps', updateGroup lamps oldMask newMask = .ok lamps' ∧ lamps'.length = n ∧
      ShowsMask lamps' newMask := by
  obtain ⟨rfl, hshow⟩ := h
  exact ifChanged_spec hshow (updatePanel_spec hshow hnew)

theorem below_stateStatus (oldState : Option JsonObject) (state : JsonObject) :
    Pdp.Below 26 (stateStatus oldState state) :=
  Pdp.below_statusWord _ _ _ _ _ _ _ _ _

end VPanel.Page.Vax
