import VPanel.Library.JsText
import VPanel.Page.Delivery
import VPanel.Page.Lamps

/-!
# The register display

The page redraws only the bits that changed since the previous message.  The
invariant says that the bits and the text of every register already show the
previous message, so that drawing the difference draws the whole register.
-/

namespace VPanel.Page

open ByteCodec HexText JsInteger JsText ObjectLayout Proxy Wire
open JsonObject (Value)

namespace Amd64

/-- The elements `<name>_bits`, with their bit divs in document order, and `<name>_value`. -/
structure Document where
  bits : String → Option (List Visibility)
  value : String → Option (List Char)

structure Panel where
  document : Document
  oldState : Option JsonObject
  state : Option JsonObject

def registers : List String :=
  ["rax", "rbx", "rcx", "rdx", "rsi", "rdi", "rbp", "rsp", "rip", "rflags"]

def startupRegisterValue : Value := .string "FFFFFFFFFFFFFFFF".toList

def defaultRegisterValue : Value := .string "0000000000000000".toList

/-- The page as loaded: sixty-four bits without a style and a text of zeros. -/
def loaded : Panel where
  document :=
    { bits := fun name ↦
        if name ∈ registers then some (List.replicate 64 .unset) else none
      value := fun name ↦
        if name ∈ registers then some (List.replicate 16 '0') else none }
  oldState := none
  state := none

def update32Bits (bitDivs : List Visibility) (offset : ℕ) (oldValue newValue : List Char) :
    Except JsError (List Visibility) :=
  let oldNumericValue := toNumber (parseInt16 oldValue)
  let newNumericValue := toNumber (parseInt16 newValue)
  scan (fun bitIndex divs ↦
      assignAt
        (fun _ ↦ if bitAnd newNumericValue (shiftLeft 1 bitIndex) ≠ 0 then .visible else .hidden)
        (offset + bitIndex) divs)
    (bitXor newNumericValue oldNumericValue) bitDivs

/-- The string methods are only there on strings. -/
def chars : Value → Except JsError (List Char)
  | .string s => .ok s
  | _ => .error .typeError

/-- Conversion by an assignment to `textContent`. -/
def textContent : Value → List Char
  | .string s => s
  | .number n => Nat.toDigits 10 n
  | .boolean b => (toString b).toList

def updateBits (bitDivs : List Visibility) (oldValue newValue : Value) :
    Except JsError (List Visibility) := do
  let old ← chars oldValue
  let new ← chars newValue
  let divs ← update32Bits bitDivs.reverse 0 (substring old 8 16) (substring new 8 16)
  let divs ← update32Bits divs 32 (substring old 0 8) (substring new 0 8)
  return divs.reverse

/-- The part of `updateRegister` under `if (bits_element)`. -/
def redrawBits (bits : String → Option (List Visibility)) (name : String)
    (oldValue newValue : Value) : Except JsError (String → Option (List Visibility)) :=
  match bits name with
  | some bitDivs => do
      let divs ← updateBits bitDivs oldValue newValue
      return Function.update bits name (some divs)
  | none => .ok bits

def updateRegister (document : Document) (name : String) (oldValue newValue : Value) :
    Except JsError Document := do
  let bits ← redrawBits document.bits name oldValue newValue
  let value :=
    match document.value name with
    | some _ => Function.update document.value name (some (textContent newValue))
    | none => document.value
  return ⟨bits, value⟩

def previousValue (state : Option JsonObject) (register : String) : Value :=
  match state.bind (·.get? register) with
  | some v => if v.truthy then v else defaultRegisterValue
  | none => defaultRegisterValue

/-- One round of the loop in `updatePanelState`. -/
def redraw (oldState : Option JsonObject) (newState : JsonObject) (document : Document)
    (register : String) : Except JsError Document :=
  match newState.get? register with
  | some newValue =>
      if newValue ≠ previousValue oldState register then
        updateRegister document register (previousValue oldState register) newValue
      else .ok document
  | none => .ok document

def updatePanelState (panel : Panel) (newState : JsonObject) : Except JsError Panel := do
  let document ← newState.keys.foldlM (redraw panel.state newState) panel.document
  return ⟨document, panel.state, some newState⟩

def initializePanel (panel : Panel) : Except JsError Panel := do
  let document ← registers.foldlM
    (fun document name ↦ updateRegister document name startupRegisterValue defaultRegisterValue)
    panel.document
  return { panel with document := document }

def runPage (messages : List JsonObject) : Except JsError Panel := do
  messages.foldlM updatePanelState (← initializePanel loaded)

/-! ## Thirty-two bits -/

def ShowsFrom (divs : List Visibility) (offset v : ℕ) : Prop :=
  ∀ i < 32, (divs[offset + i]?).map Visibility.shown = some (v.testBit i)

theorem getLsbD_toWord_natCast (v : ℕ) {i : ℕ} (hi : i < 32) :
    (toWord (v : ℤ)).getLsbD i = v.testBit i := by
  rw [toWord_natCast, BitVec.getLsbD_ofNat, decide_eq_true hi, Bool.true_and]

theorem shown_assigned (v : ℕ) {i : ℕ} (hi : i < 32) :
    (if bitAnd v (shiftLeft 1 i) ≠ 0 then Visibility.visible else .hidden).shown =
      v.testBit i := by
  rw [← getLsbD_toWord_natCast v hi]
  by_cases hbit : (toWord (v : ℤ)).getLsbD i = true
  · rw [if_pos ((bitAnd_shiftLeft_ne_zero_iff v hi).mpr hbit), hbit]
    rfl
  · rw [if_neg (mt (bitAnd_shiftLeft_ne_zero_iff v hi).mp hbit), Bool.eq_false_iff.mpr hbit]
    rfl

theorem update32Bits_spec {divs : List Visibility} {offset v w : ℕ} {old new : List Char}
    (hlen : offset + 32 ≤ divs.length) (hold : parseInt16 old = some (v : ℤ))
    (hnew : parseInt16 new = some (w : ℤ)) (hshow : ShowsFrom divs offset v) :
    ∃ divs', update32Bits divs offset old new = .ok divs' ∧ divs'.length = divs.length ∧
      ShowsFrom divs' offset w ∧ ∀ j, (∀ i < 32, offset + i ≠ j) → divs'[j]? = divs[j]? := by
  have hbits : ∀ i < 32, (toWord (w : ℤ)).getLsbD i ≠ (toWord (v : ℤ)).getLsbD i →
      offset + i < divs.length := fun i hi _ ↦ by omega
  obtain ⟨divs', hrun, hlen', hset, hkeep⟩ := scan_assignAt
    (fun i (_ : Visibility) ↦
      if bitAnd w (shiftLeft 1 i) ≠ 0 then Visibility.visible else .hidden)
    offset v w hbits
  refine ⟨divs', ?_, hlen', ?_, ?_⟩
  · simp only [update32Bits, hold, hnew, toNumber, Option.getD_some]
    exact hrun
  · intro i hi
    by_cases hdiff : (toWord (w : ℤ)).getLsbD i = (toWord (v : ℤ)).getLsbD i
    · have hsame : w.testBit i = v.testBit i := by
        rwa [getLsbD_toWord_natCast w hi, getLsbD_toWord_natCast v hi] at hdiff
      rw [hkeep (offset + i) fun k _ hne heq ↦ hne (Nat.add_left_cancel heq ▸ hdiff), hshow i hi,
        hsame]
    · have hat : offset + i < divs.length := by omega
      rw [hset i hi hdiff, List.getElem?_eq_getElem hat]
      exact congrArg some (shown_assigned w hi)
  · exact fun j hj ↦ hkeep j fun i hi _ ↦ hj i hi

/-! ## One register -/

def hex (v : ℕ) : List Char := fixedHex upperDigit 16 v

theorem hex_eq (v : ℕ) :
    hex v = fixedHex upperDigit 8 (v / 2 ^ 32) ++ fixedHex upperDigit 8 v :=
  fixedHex_add upperDigit 8 8 v

theorem parseInt16_high (v : ℕ) :
    parseInt16 (substring (hex v) 0 8) = some ((v / 2 ^ 32 % 2 ^ 32 : ℕ) : ℤ) := by
  rw [substring, hex_eq, List.drop_zero, List.take_left' (length_fixedHex _ _ _)]
  exact parseInt16_fixedHex readsBack_upperDigit (by norm_num) _

theorem parseInt16_low (v : ℕ) :
    parseInt16 (substring (hex v) 8 16) = some ((v % 2 ^ 32 : ℕ) : ℤ) := by
  rw [substring, hex_eq, List.drop_left' (length_fixedHex _ _ _),
    List.take_of_length_le (length_fixedHex _ _ _).le]
  exact parseInt16_fixedHex readsBack_upperDigit (by norm_num) _

def ShowsBits (divs : List Visibility) (v : ℕ) : Prop :=
  divs.length = 64 ∧ ∀ k < 64, (divs[k]?).map Visibility.shown = some (v.testBit k)

theorem testBit_low (v : ℕ) {i : ℕ} (hi : i < 32) : (v % 2 ^ 32).testBit i = v.testBit i := by
  rw [Nat.testBit_mod_two_pow, decide_eq_true hi, Bool.true_and]

theorem testBit_high (v : ℕ) {i : ℕ} (hi : i < 32) :
    (v / 2 ^ 32 % 2 ^ 32).testBit i = v.testBit (32 + i) := by
  rw [testBit_low _ hi, Nat.testBit_div_two_pow, Nat.add_comm]

theorem showsBits_iff {divs : List Visibility} {v : ℕ} : ShowsBits divs v ↔
    divs.length = 64 ∧ ShowsFrom divs 0 (v % 2 ^ 32) ∧ ShowsFrom divs 32 (v / 2 ^ 32 % 2 ^ 32) := by
  refine and_congr_right fun _ ↦ ⟨fun h ↦ ⟨fun i hi ↦ ?_, fun i hi ↦ ?_⟩, fun h k hk ↦ ?_⟩
  · rw [Nat.zero_add, testBit_low v hi, h i (by omega)]
  · rw [testBit_high v hi, h (32 + i) (by omega)]
  · by_cases hlow : k < 32
    · rw [← testBit_low v hlow, ← h.1 k hlow, Nat.zero_add]
    · obtain ⟨i, rfl⟩ := Nat.exists_eq_add_of_le (Nat.le_of_not_lt hlow)
      rw [← testBit_high v (by omega), ← h.2 i (by omega)]

theorem updateBits_spec {bitDivs : List Visibility} {v : ℕ} (w : ℕ)
    (hshow : ShowsBits bitDivs.reverse v) :
    ∃ bitDivs', updateBits bitDivs (.string (hex v)) (.string (hex w)) = .ok bitDivs' ∧
      ShowsBits bitDivs'.reverse w := by
  obtain ⟨hlen, hlow, hhigh⟩ := showsBits_iff.mp hshow
  obtain ⟨divs₁, hrun₁, hlen₁, hlow₁, hkeep₁⟩ := update32Bits_spec (by omega)
    (parseInt16_low v) (parseInt16_low w) hlow
  have hhigh₁ : ShowsFrom divs₁ 32 (v / 2 ^ 32 % 2 ^ 32) := by
    intro i hi
    rw [hkeep₁ (32 + i) fun k hk ↦ by omega]
    exact hhigh i hi
  obtain ⟨divs₂, hrun₂, hlen₂, hhigh₂, hkeep₂⟩ := update32Bits_spec (by omega)
    (parseInt16_high v) (parseInt16_high w) hhigh₁
  refine ⟨divs₂.reverse, ?_, ?_⟩
  · simp only [updateBits, chars, Except.bind, bind, hrun₁, hrun₂]
    rfl
  · rw [List.reverse_reverse, showsBits_iff]
    refine ⟨by omega, fun i hi ↦ ?_, hhigh₂⟩
    rw [hkeep₂ (0 + i) fun k hk ↦ by omega]
    exact hlow₁ i hi

def SameAt (name : String) (document document' : Document) : Prop :=
  document'.bits name = document.bits name ∧ document'.value name = document.value name

structure Shows (document : Document) (name : String) (v : ℕ) : Prop where
  bits : ∃ bitDivs, document.bits name = some bitDivs ∧ ShowsBits bitDivs.reverse v
  value : document.value name = some (hex v)

theorem Shows.of_sameAt {document document' : Document} {name : String} {v : ℕ}
    (hsame : SameAt name document document') (h : Shows document name v) :
    Shows document' name v :=
  ⟨hsame.1.symm ▸ h.bits, hsame.2.symm ▸ h.value⟩

theorem updateRegister_spec {document : Document} {name : String} {v : ℕ} (w : ℕ)
    {bitDivs : List Visibility} (hbits : document.bits name = some bitDivs)
    (hshow : ShowsBits bitDivs.reverse v) (hvalue : (document.value name).isSome) :
    ∃ document', updateRegister document name (.string (hex v)) (.string (hex w)) =
        .ok document' ∧ Shows document' name w ∧
      ∀ other ≠ name, SameAt other document document' := by
  obtain ⟨text, htext⟩ := Option.isSome_iff_exists.mp hvalue
  obtain ⟨bitDivs', hrun, hshow'⟩ := updateBits_spec w hshow
  refine ⟨⟨Function.update document.bits name (some bitDivs'),
    Function.update document.value name (some (hex w))⟩, ?_, ⟨?_, ?_⟩, fun other hne ↦ ?_⟩
  · simp only [updateRegister, redrawBits, hbits, hrun, htext]
    rfl
  · exact ⟨bitDivs', Function.update_self .., hshow'⟩
  · exact Function.update_self ..
  · exact ⟨Function.update_of_ne hne .., Function.update_of_ne hne ..⟩

/-! ## All registers -/

/-- A loop that takes every register from one condition to another, one at a time. -/
theorem foldlM_registers (step : Document → String → Except JsError Document)
    (P Q : Document → String → Prop)
    (hP : ∀ {name document document'}, SameAt name document document' → P document name →
      P document' name)
    (hQ : ∀ {name document document'}, SameAt name document document' → Q document name →
      Q document' name)
    (hstep : ∀ document name, P document name → ∃ document', step document name = .ok document' ∧
      Q document' name ∧ ∀ other ≠ name, SameAt other document document')
    {names : List String} (hnodup : names.Nodup) (document : Document)
    (hbefore : ∀ name ∈ names, P document name) :
    ∃ document', names.foldlM step document = .ok document' ∧
      ∀ name ∈ names, Q document' name := by
  suffices h : ∃ document', names.foldlM step document = .ok document' ∧
      (∀ name ∈ names, Q document' name) ∧ ∀ other ∉ names, SameAt other document document' by
    obtain ⟨document', hrun, hafter, -⟩ := h
    exact ⟨document', hrun, hafter⟩
  induction names generalizing document with
  | nil => exact ⟨document, rfl, by simp, fun other _ ↦ ⟨rfl, rfl⟩⟩
  | cons name names ih =>
      obtain ⟨hfresh, hnodup'⟩ := List.nodup_cons.mp hnodup
      obtain ⟨document₁, hrun₁, hafter₁, hsame₁⟩ := hstep document name (hbefore name (by simp))
      obtain ⟨document₂, hrun₂, hafter₂, hsame₂⟩ := ih hnodup' document₁ fun other hother ↦
        hP (hsame₁ other fun heq ↦ hfresh (heq ▸ hother)) (hbefore other (by simp [hother]))
      refine ⟨document₂, ?_, ?_, ?_⟩
      · rw [List.foldlM_cons, hrun₁]
        exact hrun₂
      · intro other hother
        rcases List.mem_cons.mp hother with rfl | hother
        · exact hQ (hsame₂ other hfresh) hafter₁
        · exact hafter₂ other hother
      · intro other hother
        rw [List.mem_cons, not_or] at hother
        have hfirst := hsame₁ other hother.1
        have hlater := hsame₂ other hother.2
        exact ⟨hlater.1.trans hfirst.1, hlater.2.trans hfirst.2⟩

/-- What the page is to show: each register under the name of its elements. -/
def labels : List (String × ClockReg) :=
  [("rax", .cfRax), ("rbx", .cfRbx), ("rcx", .cfRcx), ("rdx", .cfRdx), ("rsi", .cfRsi),
    ("rdi", .cfRdi), ("rbp", .cfRbp), ("rsp", .cfRsp), ("rip", .cfRip), ("rflags", .cfRflags)]

theorem nodup_labels : (labels.map Prod.fst).Nodup := by decide

/-- The proxy sends these registers under these names, and no others. -/
theorem shown_perm_labels : AMD64Proxy.shown.Perm labels := by decide

theorem map_fst_labels : labels.map Prod.fst = registers := rfl

def valueOf (panel : ClockReg → ℕ) (name : String) : ℕ :=
  ((labels.lookup name).map panel).getD 0

theorem valueOf_eq (panel : ClockReg → ℕ) {e : String × ClockReg} (he : e ∈ labels) :
    valueOf panel e.1 = panel e.2 := by
  rw [valueOf, (JsonObject.lookup_eq_some_iff nodup_labels).mpr he]
  rfl

theorem valueOf_lt {panel : ClockReg → ℕ} (h : ∀ r, panel r < 2 ^ 64) (name : String) :
    valueOf panel name < 2 ^ 64 := by
  unfold valueOf
  cases labels.lookup name with
  | none => norm_num
  | some r => exact h r

theorem keys_dump (panel : ClockReg → ℕ) : (AMD64Proxy.dump panel).keys.Perm registers := by
  have hkeys : (AMD64Proxy.dump panel).keys = AMD64Proxy.shown.map Prod.fst := by
    rw [JsonObject.keys, AMD64Proxy.dump, List.map_map]
    rfl
  rw [hkeys, ← map_fst_labels]
  exact shown_perm_labels.map Prod.fst

theorem nodup_registers : registers.Nodup := map_fst_labels ▸ nodup_labels

theorem nodup_keys_dump (panel : ClockReg → ℕ) : (AMD64Proxy.dump panel).keys.Nodup :=
  (keys_dump panel).nodup_iff.mpr nodup_registers

theorem get?_dump (panel : ClockReg → ℕ) {name : String} (h : name ∈ registers) :
    (AMD64Proxy.dump panel).get? name = some (.string (hex (valueOf panel name))) := by
  rw [← map_fst_labels] at h
  obtain ⟨e, he, rfl⟩ := List.mem_map.mp h
  rw [JsonObject.get?_eq_some_iff (nodup_keys_dump panel), valueOf_eq panel he]
  exact List.mem_map_of_mem (shown_perm_labels.mem_iff.mpr he)

theorem hex_injective {v w : ℕ} (hv : v < 2 ^ 64) (hw : w < 2 ^ 64) (h : hex v = hex w) : v = w :=
  fixedHex_injective readsBack_upperDigit hv hw h

/-- The page shows a state, and remembers it for the next difference. -/
structure Displays (page : Panel) (panel : ClockReg → ℕ) : Prop where
  document : ∀ name ∈ registers, Shows page.document name (valueOf panel name)
  state : ∀ name ∈ registers,
    previousValue page.state name = .string (hex (valueOf panel name))

theorem redraw_spec {oldState : Option JsonObject} {o : JsonObject} {v w : ℕ} {name : String}
    (hold : previousValue oldState name = .string (hex v)) (hnew : o.get? name = some (.string (hex w)))
    (hv : v < 2 ^ 64) (hw : w < 2 ^ 64) {document : Document} (hshow : Shows document name v) :
    ∃ document', redraw oldState o document name = .ok document' ∧ Shows document' name w ∧
      ∀ other ≠ name, SameAt other document document' := by
  simp only [redraw, hnew, hold]
  by_cases hsame : Value.string (hex w) = .string (hex v)
  · obtain rfl : w = v := hex_injective hw hv (Value.string.inj hsame)
    exact ⟨document, if_neg (not_not.mpr rfl), hshow, fun _ _ ↦ ⟨rfl, rfl⟩⟩
  · obtain ⟨bitDivs, hbits, hshows⟩ := hshow.bits
    rw [if_pos hsame]
    exact updateRegister_spec w hbits hshows (by rw [hshow.value]; rfl)

theorem updatePanelState_spec {page : Panel} {panel panel' : ClockReg → ℕ}
    (h : Displays page panel) (hpanel : ∀ r, panel r < 2 ^ 64) (hpanel' : ∀ r, panel' r < 2 ^ 64)
    {o : JsonObject} (ho : o.Perm (AMD64Proxy.dump panel')) :
    ∃ page', updatePanelState page o = .ok page' ∧ Displays page' panel' := by
  have hkeys : o.keys.Perm registers := (ho.map Prod.fst).trans (keys_dump panel')
  have hget : ∀ name ∈ registers, o.get? name = some (.string (hex (valueOf panel' name))) :=
    fun name hname ↦ by
      rw [JsonObject.get?_of_perm ho (nodup_keys_dump panel'), get?_dump panel' hname]
  obtain ⟨document', hrun, hshows⟩ := foldlM_registers (redraw page.state o)
    (fun document name ↦ name ∈ registers ∧ Shows document name (valueOf panel name))
    (fun document name ↦ Shows document name (valueOf panel' name))
    (fun hsame hbefore ↦ ⟨hbefore.1, hbefore.2.of_sameAt hsame⟩)
    (fun hsame hafter ↦ hafter.of_sameAt hsame)
    (fun document name hbefore ↦ redraw_spec (h.state name hbefore.1) (hget name hbefore.1)
      (valueOf_lt hpanel name) (valueOf_lt hpanel' name) hbefore.2)
    (hkeys.nodup_iff.mpr nodup_registers) page.document
    (fun name hname ↦ ⟨hkeys.mem_iff.mp hname, h.document name (hkeys.mem_iff.mp hname)⟩)
  have hupdate : updatePanelState page o = .ok ⟨document', page.state, some o⟩ := by
    rw [updatePanelState, hrun]
    rfl
  refine ⟨⟨document', page.state, some o⟩, hupdate, ?_, ?_⟩
  · exact fun name hname ↦ hshows name (hkeys.mem_iff.mpr hname)
  · intro name hname
    have hcons : hex (valueOf panel' name) ≠ [] :=
      List.ne_nil_of_length_pos (by rw [hex, length_fixedHex]; norm_num)
    have htruthy : (Value.string (hex (valueOf panel' name))).truthy = true := by
      simp only [Value.truthy, ne_eq, hcons, not_false_eq_true, decide_true]
    simp only [previousValue, Option.bind_some, hget name hname]
    exact if_pos htruthy

/-! ## Whole runs -/

theorem hex_zero : hex 0 = "0000000000000000".toList := by decide

theorem hex_ones : hex (2 ^ 64 - 1) = "FFFFFFFFFFFFFFFF".toList := by decide

theorem showsBits_unset : ShowsBits (List.replicate 64 .unset) (2 ^ 64 - 1) := by
  refine ⟨List.length_replicate, fun k hk ↦ ?_⟩
  rw [List.getElem?_replicate, if_pos hk, Nat.testBit_two_pow_sub_one, decide_eq_true hk]
  rfl

theorem initializePanel_spec :
    ∃ page, initializePanel loaded = .ok page ∧ Displays page fun _ ↦ 0 := by
  have hzero : ∀ name, valueOf (fun _ ↦ 0) name = 0 := by
    intro name
    unfold valueOf
    cases labels.lookup name <;> rfl
  obtain ⟨document, hrun, hshows⟩ := foldlM_registers
    (fun document name ↦
      updateRegister document name startupRegisterValue defaultRegisterValue)
    (fun document name ↦ document.bits name = some (List.replicate 64 .unset) ∧
      (document.value name).isSome)
    (fun document name ↦ Shows document name 0)
    (fun hsame hbefore ↦ ⟨hsame.1.trans hbefore.1, hsame.2.symm ▸ hbefore.2⟩)
    (fun hsame hafter ↦ hafter.of_sameAt hsame)
    (fun document name hbefore ↦ by
      rw [startupRegisterValue, defaultRegisterValue, ← hex_zero, ← hex_ones]
      exact updateRegister_spec 0 hbefore.1
        (List.reverse_replicate .. ▸ showsBits_unset) hbefore.2)
    nodup_registers loaded.document (fun name hname ↦ ⟨if_pos hname, by simp [loaded, hname]⟩)
  refine ⟨{ loaded with document := document }, by rw [initializePanel, hrun]; rfl, ?_, ?_⟩
  · intro name hname
    rw [hzero]
    exact hshows name hname
  · intro name _
    rw [hzero, hex_zero]
    rfl

theorem foldlM_updatePanelState {panels : List (ClockReg → ℕ)} {os : List JsonObject}
    (h : List.Forall₂ (fun panel o ↦ (∀ r, panel r < 2 ^ 64) ∧ o.Perm (AMD64Proxy.dump panel))
      panels os)
    {page : Panel} {panel₀ : ClockReg → ℕ} (hlt : ∀ r, panel₀ r < 2 ^ 64)
    (hpage : Displays page panel₀) :
    ∃ page', os.foldlM updatePanelState page = .ok page' ∧
      Displays page' (panels.getLastD panel₀) := by
  induction h generalizing page panel₀ with
  | nil => exact ⟨page, rfl, hpage⟩
  | cons hmessage _ ih =>
      obtain ⟨hlt', hperm⟩ := hmessage
      obtain ⟨page₁, hstep, hpage₁⟩ := updatePanelState_spec hpage hlt hlt' hperm
      obtain ⟨page₂, hrun, hpage₂⟩ := ih hlt' hpage₁
      refine ⟨page₂, ?_, ?_⟩
      · rw [List.foldlM_cons, hstep]
        exact hrun
      · rwa [List.getLastD_cons]

/-- The registers of the latest accepted datagram; zeros before the first one. -/
def latest (ds : List (List UInt8)) : ClockReg → ℕ :=
  (acceptedStates AMD64Proxy.panelState ds).getLastD fun _ ↦ 0

/-- After every sequence of messages the page shows the registers of the last one. -/
theorem amd64_display_exact {ds : List (List UInt8)} {os : List JsonObject}
    (h : Delivered AMD64Proxy.udpPacketToJson ds os) :
    ∃ page, runPage os = .ok page ∧ ∀ e ∈ [("rax", ClockReg.cfRax), ("rbx", .cfRbx),
        ("rcx", .cfRcx), ("rdx", .cfRdx), ("rsi", .cfRsi), ("rdi", .cfRdi), ("rbp", .cfRbp),
        ("rsp", .cfRsp), ("rip", .cfRip), ("rflags", .cfRflags)],
      (∃ bitDivs, page.document.bits e.1 = some bitDivs ∧ bitDivs.length = 64 ∧
        ∀ k < 64, (bitDivs.reverse[k]?).map Visibility.shown = some ((latest ds e.2).testBit k)) ∧
      page.document.value e.1 = some (fixedHex upperDigit 16 (latest ds e.2)) := by
  have hmessages : List.Forall₂
      (fun panel o ↦ (∀ r, panel r < 2 ^ 64) ∧ o.Perm (AMD64Proxy.dump panel))
      (acceptedStates AMD64Proxy.panelState ds) os := by
    apply h.forall₂.imp
    intro panel o ⟨mem, json, hload, hjson, hperm⟩
    have hlt : ∀ r, panel r < 2 ^ 64 := hload ▸ AMD64Proxy.load_lt mem
    rw [AMD64Proxy.toJson_eq hlt] at hjson
    exact ⟨hlt, Option.some.inj hjson ▸ hperm⟩
  obtain ⟨page₀, hinit, hpage₀⟩ := initializePanel_spec
  obtain ⟨page, hrun, hpage⟩ := foldlM_updatePanelState hmessages (fun _ ↦ by norm_num) hpage₀
  refine ⟨page, by rw [runPage, hinit]; exact hrun, fun e he ↦ ?_⟩
  have hname : e.1 ∈ registers := map_fst_labels ▸ List.mem_map_of_mem he
  obtain ⟨⟨bitDivs, hbits, hlen, hshow⟩, hvalue⟩ := hpage.document e.1 hname
  rw [valueOf_eq _ he] at hshow hvalue
  exact ⟨⟨bitDivs, hbits, by simpa using hlen, hshow⟩, hvalue⟩

/-- The bytes of a frame in ascending order from its first one. -/
def ascendingFrame (first : ℕ) : List UInt8 :=
  [208, 0, 3, 0, 0, 0] ++ (List.range 208).map fun i ↦ UInt8.ofNat (first + i)

/-- Two frames that differ in every register, with a datagram between them that is rejected. -/
theorem amd64_display_twoFrames :
    ∃ os page, Delivered AMD64Proxy.udpPacketToJson [ascendingFrame 0, [], ascendingFrame 128] os ∧
      os.length = 2 ∧ runPage os = .ok page ∧
      registers.map (fun name ↦ (page.document.value name).map String.ofList) =
        ["F7F6F5F4F3F2F1F0", "EFEEEDECEBEAE9E8", "9F9E9D9C9B9A9998", "9796959493929190",
          "8F8E8D8C8B8A8988", "8786858483828180", "E7E6E5E4E3E2E1E0", "4746454443424140",
          "2F2E2D2C2B2A2928", "3F3E3D3C3B3A3938"].map some ∧
      ∃ bitDivs, page.document.bits "rsp" = some bitDivs ∧
        ∀ k < 64, (bitDivs.reverse[k]?).map Visibility.shown =
          some (Nat.testBit 0x4746454443424140 k) := by
  have haccepted : ∀ first ∈ [0, 128],
      Accepts AMD64Proxy.panelState.size (ascendingFrame first) := by decide +kernel
  have hreply : ∀ first ∈ [0, 128], ∃ json,
      AMD64Proxy.udpPacketToJson (ascendingFrame first) = some (some json) := fun first hfirst ↦
    ⟨_, replyWith_of_accepts (haccepted first hfirst) (AMD64Proxy.toJson_eq (AMD64Proxy.load_lt _))⟩
  have hrejected : ¬Accepts AMD64Proxy.panelState.size [] := by decide +kernel
  obtain ⟨json₁, hreply₁⟩ := hreply 0 (by simp)
  obtain ⟨json₂, hreply₂⟩ := hreply 128 (by simp)
  have hdelivered := Delivered.sent hreply₁ (.refl _) (.rejected
    (replyWith_of_not_accepts AMD64Proxy.toJson hrejected) (.sent hreply₂ (.refl _) .nil))
  obtain ⟨page, hrun, hpage⟩ := amd64_display_exact hdelivered
  set frames := [ascendingFrame 0, [], ascendingFrame 128]
  refine ⟨_, page, hdelivered, rfl, hrun, ?_, ?_⟩
  · have hvalues : ∀ e ∈ labels, (page.document.value e.1).map String.ofList =
        some (String.ofList (fixedHex upperDigit 16 (latest frames e.2))) := by
      intro e he
      rw [(hpage e he).2, Option.map_some]
    rw [← map_fst_labels, List.map_map]
    exact (List.map_congr_left hvalues).trans (by decide +kernel)
  · obtain ⟨⟨bitDivs, hbits, hlen, hshow⟩, -⟩ := hpage ("rsp", .cfRsp) (by decide)
    have hrsp : latest frames .cfRsp = 0x4746454443424140 := by decide +kernel
    exact ⟨bitDivs, hbits, hrsp ▸ hshow⟩

end Amd64

end VPanel.Page
