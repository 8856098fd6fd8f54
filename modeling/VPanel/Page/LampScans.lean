import VPanel.Page.Amd64Panel
import VPanel.Page.VaxPanel

/-!
# The three scans agree

The pages go through the difference of two masks in three loops.  Each loop is
split into the way it moves through the indices and what it does at one of
them, so that a log of the indices can be kept beside the lamps.
-/

namespace VPanel.Page

open HexText JsInteger JsText Proxy

/-- A loop over indices, and its body. -/
structure LampLoop (σ : Type) where
  drive : {τ : Type} → (ℕ → τ → Except JsError τ) → τ → Except JsError τ
  body : ℕ → σ → Except JsError σ

def LampLoop.run {σ : Type} (loop : LampLoop σ) (lamps : σ) : Except JsError σ :=
  loop.drive loop.body lamps

def logged {σ : Type} (body : ℕ → σ → Except JsError σ) (i : ℕ) (st : List ℕ × σ) :
    Except JsError (List ℕ × σ) := do
  let lamps ← body i st.2
  return (st.1 ++ [i], lamps)

/-- The loop run together with a log of the indices its body is entered with. -/
def LampLoop.runLogged {σ : Type} (loop : LampLoop σ) (lamps : σ) : Except JsError (List ℕ × σ) :=
  loop.drive (logged loop.body) ([], lamps)

section Loops

variable (oldMask newMask : ℤ)

def Pdp.lampLoop : LampLoop (List LampStyle) where
  drive body := scan body (bitXor newMask oldMask)
  body id := assignAt (LampStyle.switch (bitAnd newMask (shiftLeft 1 id) ≠ 0)) id

def Vax.lampLoop : LampLoop (List LampStyle) where
  drive body := scanBounded body (bitXor newMask oldMask)
  body id lamps :=
    if id < lamps.length then
      assignAt (LampStyle.switch (bitAnd newMask (shiftLeft 1 id) ≠ 0)) id lamps
    else .ok lamps

def switchDiv (on : Bool) : Visibility → Visibility := fun _ ↦ if on then .visible else .hidden

def Amd64.lampLoop : LampLoop (List Visibility) where
  drive body := scan body (bitXor newMask oldMask)
  body bitIndex := assignAt (switchDiv (bitAnd newMask (shiftLeft 1 bitIndex) ≠ 0)) bitIndex

theorem scanPanel_eq_run (lamps : List LampStyle) :
    scanPanel oldMask newMask lamps = (Pdp.lampLoop oldMask newMask).run lamps := rfl

theorem updatePanel_eq_run (lamps : List LampStyle) :
    Vax.updatePanel oldMask newMask lamps = (Vax.lampLoop oldMask newMask).run lamps := by
  unfold Vax.updatePanel LampLoop.run Vax.lampLoop
  dsimp only

end Loops

theorem update32Bits_eq_run {digit : ℕ → Char} (hdigit : ReadsBack digit) (old new : BitVec 32)
    (bitDivs : List Visibility) :
    Amd64.update32Bits bitDivs 0 (fixedHex digit 8 old.toNat) (fixedHex digit 8 new.toNat) =
      (Amd64.lampLoop old.toNat new.toNat).run bitDivs := by
  have hparse : ∀ w : BitVec 32,
      toNumber (parseInt16 (fixedHex digit 8 w.toNat)) = (w.toNat : ℤ) := by
    intro w
    have hlt : w.toNat < 16 ^ 8 := w.isLt.trans_eq (by norm_num)
    rw [parseInt16_fixedHex hdigit (by norm_num) w.toNat, Nat.mod_eq_of_lt hlt]
    simp only [toNumber, Option.getD_some]
  rw [Amd64.update32Bits, hparse, hparse]
  unfold LampLoop.run Amd64.lampLoop switchDiv
  simp only [Nat.zero_add, decide_eq_true_eq]

/-! ## A loop over a list of indices -/

theorem foldlM_logged {σ : Type} (body : ℕ → σ → Except JsError σ) {is : List ℕ} {lamps lamps' : σ}
    (h : is.foldlM (fun st i ↦ body i st) lamps = .ok lamps') (log : List ℕ) :
    is.foldlM (fun st i ↦ logged body i st) (log, lamps) = .ok (log ++ is, lamps') := by
  induction is generalizing lamps log with
  | nil =>
      cases h
      rw [List.append_nil]
      rfl
  | cons i is ih =>
      rw [List.foldlM_cons] at h ⊢
      cases hbody : body i lamps with
      | error e =>
          rw [hbody] at h
          cases h
      | ok lamps₁ =>
          rw [hbody] at h
          have hstep : logged body i (log, lamps) = .ok (log ++ [i], lamps₁) := by
            rw [logged, hbody]
            rfl
          rw [hstep, List.append_cons log i is]
          exact ih h _

/-- What every loop does: it enters its body once for each touched index, switches the lamps
there by their bits, and leaves all others as they are. -/
structure Switches {α : Type} (shows : α → Bool) (touched : List ℕ) (new : BitVec 32)
    (loop : LampLoop (List α)) (lamps lamps' : List α) : Prop where
  run : loop.run lamps = .ok lamps'
  runLogged : loop.runLogged lamps = .ok (touched, lamps')
  length : lamps'.length = lamps.length
  switched : ∀ i ∈ touched, (lamps'[i]?).map shows = some (new.getLsbD i)
  kept : ∀ i ∉ touched, lamps'[i]? = lamps[i]?

theorem exists_switches {α : Type} (loop : LampLoop (List α)) {shows : α → Bool} {set : Bool → α → α}
    (hset : ∀ on lamp, shows (set on lamp) = on) {new : BitVec 32} {newMask : ℤ}
    (hnew : toWord newMask = new) {touched : List ℕ} (hnodup : touched.Nodup)
    {lamps : List α} (hlt : ∀ i ∈ touched, i < 32) (hlen : lamps.length = 32)
    (hdrive : ∀ {τ : Type} (body : ℕ → τ → Except JsError τ) (st : τ),
      loop.drive body st = touched.foldlM (fun st i ↦ body i st) st)
    (hbody : touched.foldlM (fun st i ↦ loop.body i st) lamps =
      touched.foldlM (fun st i ↦
        assignAt (set (bitAnd newMask (shiftLeft 1 i) ≠ 0)) i st) lamps) :
    ∃ lamps', Switches shows touched new loop lamps lamps' := by
  have hbound : ∀ i ∈ touched, i < lamps.length := fun i hi ↦ hlen.symm ▸ hlt i hi
  obtain ⟨lamps', hfold, hlen', htouched, hkeep⟩ := foldlM_assignAt id
    (fun i ↦ set (bitAnd newMask (shiftLeft 1 i) ≠ 0)) (touched.map_id.symm ▸ hnodup) hbound
  have hrun : touched.foldlM (fun st i ↦ loop.body i st) lamps = .ok lamps' := hbody.trans hfold
  refine ⟨lamps', (hdrive _ _).trans hrun, ?_, hlen', fun i hi ↦ ?_, fun i hi ↦ ?_⟩
  · rw [LampLoop.runLogged, hdrive, foldlM_logged loop.body hrun, List.nil_append]
  · have hat : lamps'[i]? = _ := htouched i hi
    rw [hat, id, List.getElem?_eq_getElem (hbound i hi), Option.map_some, Option.map_some, hset,
      ← hnew]
    have hbit := bitAnd_shiftLeft_ne_zero_iff newMask (hlt i hi)
    exact congrArg some (Bool.eq_iff_iff.mpr (decide_eq_true_iff.trans hbit))
  · exact hkeep i fun k hk heq ↦ hi (heq ▸ hk)

/-! ## Agreement -/

/-- The lamps whose bits differ, in increasing order. -/
def touchedLamps (old new : BitVec 32) : List ℕ := setBits (new ^^^ old)

theorem mem_touchedLamps {old new : BitVec 32} {i : ℕ} :
    i ∈ touchedLamps old new ↔ i < 32 ∧ old.getLsbD i ≠ new.getLsbD i := by
  rw [touchedLamps, mem_setBits_xor, ne_comm]

section Drive

variable {σ : Type} {old new : BitVec 32} {oldMask newMask : ℤ} (hold : toWord oldMask = old)
  (hnew : toWord newMask = new) (body : ℕ → σ → Except JsError σ) (st : σ)
include hold hnew

theorem scan_touchedLamps : scan body (bitXor newMask oldMask) st =
    (touchedLamps old new).foldlM (fun st i ↦ body i st) st := by
  rw [touchedLamps, ← hold, ← hnew]
  exact scan_bitXor body newMask oldMask st

theorem scanBounded_touchedLamps : scanBounded body (bitXor newMask oldMask) st =
    (touchedLamps old new).foldlM (fun st i ↦ body i st) st := by
  rw [touchedLamps, ← hold, ← hnew]
  exact scanBounded_bitXor body newMask oldMask st

end Drive

/-- There is one set of lamps that all three scans switch, to the bits of the new mask. -/
def ScansAgree (old new : BitVec 32) (oldMask newMask : ℤ) (digit : ℕ → Char)
    (lamps : List LampStyle) (bitDivs : List Visibility) : Prop :=
  ∃ touched : List ℕ, touched.Nodup ∧
    (∀ i, i ∈ touched ↔ i < 32 ∧ old.getLsbD i ≠ new.getLsbD i) ∧
    (∃ lamps', scanPanel oldMask newMask lamps = .ok lamps' ∧
      Switches LampStyle.lit touched new (Pdp.lampLoop oldMask newMask) lamps lamps') ∧
    (∃ lamps', Vax.updatePanel oldMask newMask lamps = .ok lamps' ∧
      Switches LampStyle.lit touched new (Vax.lampLoop oldMask newMask) lamps lamps') ∧
    ∃ bitDivs', Amd64.update32Bits bitDivs 0 (fixedHex digit 8 old.toNat)
        (fixedHex digit 8 new.toNat) = .ok bitDivs' ∧
      Switches Visibility.shown touched new (Amd64.lampLoop old.toNat new.toNat) bitDivs bitDivs'

/-- The three scans of the same two masks switch the same lamps the same way. -/
theorem lamp_scans_agree {old new : BitVec 32} {oldMask newMask : ℤ} (hold : toWord oldMask = old)
    (hnew : toWord newMask = new) {digit : ℕ → Char} (hdigit : ReadsBack digit)
    {lamps : List LampStyle} (hlamps : lamps.length = 32) {bitDivs : List Visibility}
    (hdivs : bitDivs.length = 32) : ScansAgree old new oldMask newMask digit lamps bitDivs := by
  have hnodup : (touchedLamps old new).Nodup := nodup_setBits _
  have hlt : ∀ i ∈ touchedLamps old new, i < 32 := fun i hi ↦ (mem_touchedLamps.mp hi).1
  have hshown : ∀ on (div : Visibility), (switchDiv on div).shown = on := fun on _ ↦ by
    cases on <;> rfl
  have hword : ∀ w : BitVec 32, toWord (w.toNat : ℤ) = w := fun w ↦ by
    rw [toWord_natCast, BitVec.ofNat_toNat, BitVec.setWidth_eq]
  refine ⟨touchedLamps old new, hnodup, fun i ↦ mem_touchedLamps, ?_, ?_, ?_⟩
  · obtain ⟨lamps', h⟩ := exists_switches (Pdp.lampLoop oldMask newMask)
      LampStyle.lit_switch hnew hnodup hlt hlamps (scan_touchedLamps hold hnew) rfl
    exact ⟨lamps', (scanPanel_eq_run ..).trans h.run, h⟩
  · obtain ⟨lamps', h⟩ := exists_switches (Vax.lampLoop oldMask newMask)
      LampStyle.lit_switch hnew hnodup hlt hlamps (scanBounded_touchedLamps hold hnew)
      (Vax.foldlM_guarded _ fun i hi ↦ hlamps.symm ▸ hlt i hi)
    exact ⟨lamps', (updatePanel_eq_run ..).trans h.run, h⟩
  · obtain ⟨bitDivs', h⟩ := exists_switches (Amd64.lampLoop old.toNat new.toNat)
      hshown (hword new) hnodup hlt hdivs (scan_touchedLamps (hword old) (hword new)) rfl
    exact ⟨bitDivs', (update32Bits_eq_run hdigit old new bitDivs).trans h.run, h⟩

/-- All bits set as a signed number against no bits set. -/
theorem lamp_scans_agree_signed :
    ScansAgree 0 (BitVec.allOnes 32) 0 (-1) upperDigit (List.replicate 32 .initial)
      (List.replicate 32 .unset) :=
  lamp_scans_agree (by decide) (by decide) readsBack_upperDigit List.length_replicate
    List.length_replicate

end VPanel.Page
