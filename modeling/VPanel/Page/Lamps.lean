import VPanel.Library.JsInteger

/-!
# Lamps

A lamp is an element of the page that scripts switch through its inline
style.  A group of lamps shows a mask, and the scan of the difference of two
masks takes it from one mask to the other.
-/

namespace VPanel.Page

open JsInteger

inductive Visibility
  | unset | visible | hidden
  deriving DecidableEq

def Visibility.shown : Visibility → Bool
  | .unset | .visible => true
  | .hidden => false

/-- The properties of an inline style the lamp scripts assign to. -/
structure LampStyle where
  visibility : Visibility
  opacity : String
  transition : String
  deriving DecidableEq

namespace LampStyle

def initial : LampStyle := ⟨.unset, "", ""⟩

def lit (lamp : LampStyle) : Bool := lamp.visibility.shown && lamp.opacity != "0"

/-- The two branches of `updatePanel`. -/
def switch (on : Bool) (lamp : LampStyle) : LampStyle :=
  if on then ⟨.visible, "1", ""⟩
  else { lamp with transition := "opacity 150ms ease-out", opacity := "0" }

@[simp] theorem lit_initial : initial.lit = true := by decide

@[simp] theorem lit_switch (on : Bool) (lamp : LampStyle) : (lamp.switch on).lit = on := by
  cases on <;> simp [lit, switch, Visibility.shown]

end LampStyle

/-- Every lamp of a group is lit exactly when its bit is set, and no other bit is. -/
structure ShowsMask (lamps : List LampStyle) (mask : ℤ) : Prop where
  lit : ∀ i < lamps.length, (lamps[i]?).map LampStyle.lit = some ((toWord mask).getLsbD i)
  dark : ∀ i, lamps.length ≤ i → (toWord mask).getLsbD i = false

def scanPanel (oldMask newMask : ℤ) (lamps : List LampStyle) : Except JsError (List LampStyle) :=
  scan (fun id lamps ↦
      assignAt (LampStyle.switch (bitAnd newMask (shiftLeft 1 id) ≠ 0)) id lamps)
    (bitXor newMask oldMask) lamps

theorem scanPanel_spec {lamps : List LampStyle} {oldMask newMask : ℤ}
    (hold : ShowsMask lamps oldMask)
    (hnew : ∀ i, lamps.length ≤ i → (toWord newMask).getLsbD i = false) :
    ∃ lamps', scanPanel oldMask newMask lamps = .ok lamps' ∧ lamps'.length = lamps.length ∧
      ShowsMask lamps' newMask := by
  have hbound : ∀ i < 32, (toWord newMask).getLsbD i ≠ (toWord oldMask).getLsbD i →
      0 + i < lamps.length := by
    intro i _ hne
    by_contra hge
    have hout : lamps.length ≤ i := by omega
    exact hne ((hnew i hout).trans (hold.dark i hout).symm)
  obtain ⟨lamps', hrun, hlen, hset, hkeep⟩ := scan_assignAt
    (fun id ↦ LampStyle.switch (bitAnd newMask (shiftLeft 1 id) ≠ 0)) 0 oldMask newMask hbound
  simp only [Nat.zero_add] at hrun hset hkeep
  refine ⟨lamps', hrun, hlen, ⟨fun i hi ↦ ?_, fun i hi ↦ hnew i (hlen ▸ hi)⟩⟩
  by_cases hdiff : (toWord newMask).getLsbD i = (toWord oldMask).getLsbD i
  · rw [hkeep i fun k _ hne heq ↦ hne (heq ▸ hdiff), hold.lit i (hlen ▸ hi), hdiff]
  · have hi32 : i < 32 := by
      by_contra hge
      rw [BitVec.getLsbD_of_ge _ _ (Nat.le_of_not_lt hge),
        BitVec.getLsbD_of_ge _ _ (Nat.le_of_not_lt hge)] at hdiff
      exact hdiff rfl
    have hat : i < lamps.length := hlen ▸ hi
    rw [hset i hi32 hdiff, List.getElem?_eq_getElem hat, Option.map_some, Option.map_some,
      LampStyle.lit_switch]
    have hbit := bitAnd_shiftLeft_ne_zero_iff newMask hi32
    cases h : (toWord newMask).getLsbD i <;> simp [h, hbit]

/-- Scanning only when the mask has changed loses nothing. -/
theorem ifChanged_spec {lamps : List LampStyle} {oldMask newMask : ℤ}
    {scanned : Except JsError (List LampStyle)} (hold : ShowsMask lamps oldMask)
    (hscan : ∃ lamps', scanned = .ok lamps' ∧ lamps'.length = lamps.length ∧
      ShowsMask lamps' newMask) :
    ∃ lamps', (if newMask ≠ oldMask then scanned else .ok lamps) = .ok lamps' ∧
      lamps'.length = lamps.length ∧ ShowsMask lamps' newMask := by
  by_cases hsame : newMask = oldMask
  · subst hsame
    exact ⟨lamps, if_neg (not_not.mpr rfl), rfl, hold⟩
  · rw [if_pos hsame]
    exact hscan

end VPanel.Page
