import VPanel.EndToEnd.StatusLamps
import VPanel.EndToEnd.WholePath

/-!
# From the clients to the lamps

The pages with lamps draw the two latest messages.  Over any network they show
two frames that were delivered one after the other: those of a VAX as they were
sent, those of a PDP-11 with the halves of the address exchanged.
-/

namespace VPanel.EndToEnd

open EventRun JsInteger LossyNetwork Page Proxy Wire
open Page.Queue (handled)

/-! ## The two latest messages -/

def messagesOf (es : List PageEvent) : List JsonObject :=
  es.filterMap fun e ↦ match e with
    | .message state => some state
    | .lampTest => none

/-- What there is to show after a sequence of messages. -/
def latestOf (testing : Bool) (states : List JsonObject) : Shown :=
  ⟨testing, states.dropLast.getLast?, states.getLast?⟩

theorem shown_eq_latestOf (es : List PageEvent) :
    shown es = latestOf (shown es).testing (messagesOf es) := by
  induction es using List.reverseRecOn with
  | nil => rfl
  | append_singleton es e ih =>
      have hprevious : (shown es).current = (messagesOf es).getLast? := congrArg Shown.current ih
      rw [shown_concat]
      cases e with
      | message state =>
          have hmessages : messagesOf (es ++ [.message state]) = messagesOf es ++ [state] := by
            simp [messagesOf]
          rw [hmessages, latestOf, List.dropLast_concat, List.getLast?_concat, ← hprevious]
          rfl
      | lampTest =>
          have hmessages : messagesOf (es ++ [.lampTest]) = messagesOf es := by
            simp [messagesOf]
          rw [hmessages]
          nth_rewrite 1 [ih]
          rfl

theorem mem_messagesOf {es : List PageEvent} {state : JsonObject} :
    state ∈ messagesOf es ↔ .message state ∈ es := by
  rw [messagesOf, List.mem_filterMap]
  constructor
  · rintro ⟨e, he, heq⟩
    cases e with
    | message state' => exact Option.some.inj heq ▸ he
    | lampTest => cases heq
  · exact fun h ↦ ⟨_, h, rfl⟩

section Related

variable {α β : Type} {R : α → β → Prop} {l : List α} {l' : List β}

theorem getLast?_rel (h : List.Forall₂ R l l') : Option.Rel R l.getLast? l'.getLast? := by
  induction h with
  | nil => exact .none
  | @cons a b l l' hab _ ih =>
      rw [List.getLast?_cons, List.getLast?_cons]
      apply Option.Rel.some
      revert ih
      cases l.getLast? <;> cases l'.getLast? <;> intro ih <;> cases ih
      · exact hab
      · assumption

theorem forall_mem_of_forall₂ (h : List.Forall₂ R l l') {P : α → Prop}
    (hP : ∀ a b, R a b → P a) : ∀ a ∈ l, P a := by
  induction h with
  | nil => exact List.forall_mem_nil P
  | cons hab _ ih => exact List.forall_mem_cons.mpr ⟨hP _ _ hab, ih⟩

theorem dropLast_forall₂ (h : List.Forall₂ R l l') : List.Forall₂ R l.dropLast l'.dropLast := by
  rw [List.dropLast_eq_take, List.dropLast_eq_take, h.length_eq]
  exact List.forall₂_take _ h

end Related

/-! ## Objects that read alike -/

def Alike (o o' : JsonObject) : Prop := ∀ key, o.get? key = o'.get? key

section Alike

variable {c : LampSet} {testing : Bool} {os jsons : List JsonObject}

theorem Alike.numberOf_eq {o o' : JsonObject} (h : Alike o o') (key : String) :
    numberOf o key = numberOf o' key := by
  rw [numberOf, numberOf, h key]

theorem Alike.truthy_eq {o o' : JsonObject} (h : Alike o o') (key : String) :
    o.truthy key = o'.truthy key := by
  rw [JsonObject.truthy, JsonObject.truthy, h key]

theorem mask_latestOf (h : List.Forall₂ Alike os jsons) (count : ℕ) (key : String) :
    (latestOf testing os).mask count key = (latestOf testing jsons).mask count key := by
  have hcurrent := getLast?_rel h
  simp only [Shown.mask, latestOf]
  generalize os.getLast? = current, jsons.getLast? = current' at hcurrent
  cases hcurrent with
  | none => rfl
  | some halike =>
      rw [Option.elim_some, Option.elim_some, halike.numberOf_eq]
      rfl

theorem status_latestOf (h : List.Forall₂ Alike os jsons) (i : ℕ) :
    (latestOf testing os).status c i = (latestOf testing jsons).status c i := by
  have hcurrent := getLast?_rel h
  have hprevious := getLast?_rel (dropLast_forall₂ h)
  simp only [Shown.status, Shown.dataChanged, latestOf]
  generalize os.getLast? = current, jsons.getLast? = current' at hcurrent
  generalize os.dropLast.getLast? = previous, jsons.dropLast.getLast? = previous' at hprevious
  cases hcurrent with
  | none => rfl
  | some halike =>
      cases hprevious with
      | none => simp only [Option.elim_some, Option.elim_none, halike.truthy_eq]
      | some halike' =>
          simp only [Option.elim_some, halike.truthy_eq, halike.numberOf_eq, halike'.numberOf_eq]

theorem fullRedraw_of_alike (h : List.Forall₂ Alike os jsons) {panel : Pdp.Panel}
    (hdrawn : FullRedraw c (latestOf testing os) panel) :
    FullRedraw c (latestOf testing jsons) panel := by
  refine ⟨?_, ?_, ?_⟩
  · rw [hdrawn.address, mask_latestOf h]
  · rw [hdrawn.display, mask_latestOf h]
  · rw [hdrawn.status]
    exact List.map_congr_left fun i _ ↦ status_latestOf h i

end Alike

/-! ## A client and the page that shows it -/

structure LampPage (M : ProxyModule) extends FrameClient M where
  lamps : LampSet
  runEvents : List PageEvent → Except JsError Pdp.Panel
  draws : ∀ es, (∀ state, .message state ∈ es → IsMessage state) →
    ∃ panel, runEvents es = .ok panel ∧ FullRedraw lamps (shown es) panel
  isMessage_json : ∀ x, IsMessage (json x)
  nodup_json : ∀ x, (json x).keys.Nodup

theorem isMessage_of_alike {o o' : JsonObject} (h : Alike o o') (ho' : IsMessage o') :
    IsMessage o := by
  unfold IsMessage
  simp only [h "address", h "data"]
  exact ho'

section LampPage

variable {port : ℕ} {M : ProxyModule} (L : LampPage M) {tr : SystemTrace}
  {n : Network (List UInt8) ProxyState} {p : PageSide} {es : List PageEvent}

/-- Whatever the clicks on the lamp test between the messages, the page draws the two latest of
some frames that were delivered one after the other. -/
theorem LampPage.shows (hM : (port, M) ∈ proxies) (h : Run (overNetwork M.reply) tr n)
    (hclient : L.SendsAll tr) (hp : p.Follows (receiverSteps tr))
    (hes : messagesOf es = handled p.queueSteps) :
    ∃ (xs : List L.Sample) (panel : Pdp.Panel), L.runEvents es = .ok panel ∧
      FullRedraw L.lamps (latestOf (shown es).testing (xs.map L.json)) panel ∧
      xs.length = (handled p.queueSteps).length ∧ xs.map L.frame <:+: delivered tr ∧
      (p.CaughtUp (receiverSteps tr) n.receiver → xs.map L.frame <:+ delivered tr ∧
        xs.length = (broadcasts (clientWindow p.id (receiverSteps tr))).length) := by
  obtain ⟨xs, horders, hpart, hcaught⟩ := L.handled hM h hclient hp
  have halike : List.Forall₂ (fun o x ↦ Alike o (L.json x)) (messagesOf es) xs := by
    rw [List.forall₂_map_right_iff] at horders
    rw [hes]
    exact horders.imp fun o x hperm key ↦ JsonObject.get?_of_perm hperm (L.nodup_json x) key
  have hmessage : ∀ state, .message state ∈ es → IsMessage state := by
    intro state hstate
    apply forall_mem_of_forall₂ halike
    · exact fun o x hsame ↦ isMessage_of_alike hsame (L.isMessage_json x)
    · exact mem_messagesOf.mpr hstate
  obtain ⟨panel, hrun, hdrawn⟩ := L.draws es hmessage
  rw [shown_eq_latestOf es] at hdrawn
  have hlength : xs.length = (handled p.queueSteps).length := by
    rw [horders.length_eq, List.length_map]
  refine ⟨xs, panel, hrun, fullRedraw_of_alike (List.forall₂_map_right_iff.mpr halike) hdrawn,
    hlength, hpart, fun hdone ↦ ?_⟩
  obtain ⟨hsuffix, hall⟩ := hcaught hdone
  exact ⟨hsuffix, by rw [← hall, List.length_map]⟩

end LampPage

/-! ## The numbers on the lamps -/

/-- A number of the latest sample; 0 before the first one. -/
def latestValue {α : Type} (v : α → ℕ) (xs : List α) : ℕ := (xs.getLast?.map v).getD 0

theorem map_testBit_mask {α : Type} {testing : Bool} {count : ℕ} {key : String}
    {json : α → JsonObject} {v : α → ℕ}
    (hv : ∀ x, numberOf (json x) key % 2 ^ count = v x % 2 ^ count) (xs : List α) :
    (List.range count).map ((latestOf testing (xs.map json)).mask count key).testBit =
      (List.range count).map fun i ↦ testing || (latestValue v xs).testBit i := by
  apply List.map_congr_left
  intro i hi
  have hi : i < count := List.mem_range.mp hi
  rw [Shown.mask, latestOf, latestValue, List.getLast?_map]
  cases testing with
  | true =>
      rw [if_pos rfl, Nat.testBit_two_pow_sub_one, decide_eq_true hi]
      rfl
  | false =>
      rw [if_neg Bool.false_ne_true, Bool.false_or]
      cases xs.getLast? with
      | none => rfl
      | some x =>
          rw [Option.map_some, Option.elim_some, hv, Nat.testBit_mod_two_pow, decide_eq_true hi]
          rfl

theorem latestValue_of_panels {M : ProxyModule} {C : FrameClient M} {xs : List C.Sample}
    {x x' : C.Sample} (h : xs.map C.panel = [C.panel x', C.panel x]) (f : M.Field) :
    latestValue (fun x ↦ C.panel x f) xs = C.panel x f := by
  have hvalues : xs.map (fun x ↦ C.panel x f) = (xs.map C.panel).map fun panel ↦ panel f := by
    rw [List.map_map]
    rfl
  rw [latestValue, ← List.getLast?_map, hvalues, h]
  rfl

/-! ## VAX -/

theorem getPanelState_vaxSendFrames (s : VaxPanelState) (junk : ℕ → UInt8) :
    getPanelState NetBSDVAXProxy.panelState (vaxSendFrames s junk) = some (.ok s.members) := by
  rw [vaxSendFrames, vaxPanelPacket_ilp32]
  exact getPanelState_sendFrames .vax s.members junk rfl headerInFront_vax (by decide)
    embedsIn_vaxPanelPacket rfl (by simp) (fitsPacket_vax s)

def vaxPage : LampPage netbsdvaxProxy where
  Sample := VaxPanelState × (ℕ → UInt8)
  frame x := vaxSendFrames x.1 x.2
  panel x := x.1.members
  json x := NetBSDVAXProxy.toJson x.1.members
  length_le x := (length_sendFrames ..).trans_le (by decide)
  getPanelState_frame x := getPanelState_vaxSendFrames x.1 x.2
  toJson_panel _ := rfl
  lamps := vaxLamps
  runEvents := Vax.runEvents
  draws _ hes := Vax.script.run hes
  isMessage_json x := ⟨_, _, rfl, x.1.psAddress.isLt, rfl, x.1.psData.isLt⟩
  nodup_json _ := (by decide : ["address", "data"].Nodup)

theorem vax_page_shows_sent {tr : SystemTrace} {n : Network (List UInt8) ProxyState}
    (h : Run (overNetwork netbsdvaxProxy.reply) tr n) (hclient : vaxPage.SendsAll tr)
    {p : PageSide} (hp : p.Follows (receiverSteps tr)) {es : List PageEvent}
    (hes : messagesOf es = handled p.queueSteps) :
    ∃ (states : List (VaxPanelState × (ℕ → UInt8))) (panel : Pdp.Panel),
      Vax.runEvents es = .ok panel ∧
      panel.addressId.map LampStyle.lit = (List.range 32).map (fun i ↦ (shown es).testing ||
        (latestValue (fun x ↦ x.1.psAddress.toNat) states).testBit i) ∧
      panel.displayId.map LampStyle.lit = (List.range 32).map (fun i ↦ (shown es).testing ||
        (latestValue (fun x ↦ x.1.psData.toNat) states).testBit i) ∧
      panel.statusId.map LampStyle.lit = (List.range 26).map
        ((latestOf (shown es).testing (states.map vaxPage.json)).status vaxLamps) ∧
      states.map vaxPage.frame <:+: delivered tr ∧
      (states.map vaxPage.frame : Multiset (List UInt8)) ≤ sent tr + duplicated tr ∧
      (p.CaughtUp (receiverSteps tr) n.receiver → states.map vaxPage.frame <:+ delivered tr ∧
        states.length = (broadcasts (clientWindow p.id (receiverSteps tr))).length) := by
  have hM : (4002, netbsdvaxProxy) ∈ proxies := List.mem_of_getElem? (i := 2) rfl
  obtain ⟨states, panel, hrun, hdrawn, -, hpart, hcaught⟩ := vaxPage.shows hM h hclient hp hes
  refine ⟨states, panel, hrun, ?_, ?_, hdrawn.status, hpart, coe_le_of_isInfix h hpart, hcaught⟩
  · rw [hdrawn.address]
    exact map_testBit_mask (fun x ↦ rfl) states
  · rw [hdrawn.display]
    exact map_testBit_mask (fun x ↦ rfl) states

/-- A VAX on address 1 shows 2, and one on address 0x80001234 shows 7. -/
def vaxSample : vaxPage.Sample := (⟨1, 2⟩, fun _ ↦ 0)

def vaxSample' : vaxPage.Sample := (⟨0x80001234, 7⟩, fun _ ↦ 0)

theorem vax_page_shows_sent_tested :
    ∃ (tr : SystemTrace) (n : Network (List UInt8) ProxyState) (p : PageSide) (o o' : JsonObject)
      (panel : Pdp.Panel),
      (overNetwork netbsdvaxProxy.reply).replay ⟨0, .start⟩
          (lossyEvents (vaxPage.frame vaxSample) (vaxPage.frame vaxSample')) = some (tr, n) ∧
      p.CaughtUp (receiverSteps tr) n.receiver ∧ handled p.queueSteps = [o, o'] ∧
      Vax.runEvents [.message o, .lampTest, .message o', .lampTest] = .ok panel ∧
      panel.addressId.map LampStyle.lit = (List.range 32).map (1).testBit ∧
      panel.displayId.map LampStyle.lit = (List.range 32).map (2).testBit := by
  have harrives : Arrives netbsdvaxProxy (vaxPage.frame vaxSample) (vaxPage.frame vaxSample')
      (vaxPage.json vaxSample) (vaxPage.json vaxSample') := by
    unfold Arrives
    decide +kernel
  have hwrites : WritesAll (textOf (vaxPage.json vaxSample'))
      (textOf (vaxPage.json vaxSample)) := by
    unfold WritesAll
    decide +kernel
  have hM : (4002, netbsdvaxProxy) ∈ proxies := List.mem_of_getElem? (i := 2) rfl
  obtain ⟨tr, n, p, o, o', htr, hrun, hsent, hfollows, hcaught, ho, hdelivered, htwo⟩ :=
    exists_system hM vaxPage.toFrameClient vaxSample vaxSample' harrives hwrites
  have hes : messagesOf [.message o, .lampTest, .message o', .lampTest] = handled p.queueSteps :=
    ho.symm
  obtain ⟨states, panel, hpanel, haddress, hdisplay, -, -, -, hdone⟩ :=
    vax_page_shows_sent hrun (FrameClient.sendsAll_pair hsent) hfollows hes
  obtain ⟨hsuffix, hlength⟩ := hdone hcaught
  have hpanels := panels_of_delivered vaxPage.toFrameClient hdelivered hsuffix (hlength.trans htwo)
  have hlatestAddress : latestValue (fun x ↦ x.1.psAddress.toNat) states = 1 :=
    latestValue_of_panels hpanels .psAddress
  have hlatestData : latestValue (fun x ↦ x.1.psData.toNat) states = 2 :=
    latestValue_of_panels hpanels .psData
  rw [hlatestAddress] at haddress
  rw [hlatestData] at hdisplay
  exact ⟨tr, n, p, o, o', panel, htr, hcaught, ho, hpanel, haddress, hdisplay⟩

/-! ## PDP-11 -/

theorem and_ones_mod (a count : ℕ) : (a &&& (2 ^ count - 1)) % 2 ^ count = a % 2 ^ count := by
  rw [Nat.and_two_pow_sub_one_eq_mod, Nat.mod_mod]

def pdpPage : LampPage pdProxy where
  Sample := PdpPanelState × (ℕ → UInt8)
  frame x := pdpSendFrames x.1 x.2
  panel x := pdpDecoded x.1
  json x := PDProxy.toJson (pdpDecoded x.1)
  length_le x := (length_pdpSendFrames ..).trans_le (by decide)
  getPanelState_frame x := getPanelState_pdpSendFrames x.1 x.2
  toJson_panel _ := rfl
  lamps := pdpLamps
  runEvents := Pdp.runEvents
  draws _ hes := Pdp.script.run hes
  isMessage_json x := ⟨_, _, rfl, Nat.and_le_right.trans_lt (by norm_num), rfl,
    x.1.psData.isLt.trans (by norm_num)⟩
  nodup_json x := nodup_toJson _

/-- The address is the one of a frame that was sent, with its halves exchanged. -/
theorem pdp_page_shows_swapped {tr : SystemTrace} {n : Network (List UInt8) ProxyState}
    (h : Run (overNetwork pdProxy.reply) tr n) (hclient : pdpPage.SendsAll tr)
    {p : PageSide} (hp : p.Follows (receiverSteps tr)) {es : List PageEvent}
    (hes : messagesOf es = handled p.queueSteps) :
    ∃ (states : List (PdpPanelState × (ℕ → UInt8))) (panel : Pdp.Panel),
      Pdp.runEvents es = .ok panel ∧
      panel.addressId.map LampStyle.lit = (List.range 22).map (fun i ↦ (shown es).testing ||
        (latestValue (fun x ↦ swapHalves x.1.psAddress.toNat) states).testBit i) ∧
      panel.displayId.map LampStyle.lit = (List.range 16).map (fun i ↦ (shown es).testing ||
        (latestValue (fun x ↦ x.1.psData.toNat) states).testBit i) ∧
      panel.statusId.map LampStyle.lit = (List.range 26).map
        ((latestOf (shown es).testing (states.map pdpPage.json)).status pdpLamps) ∧
      states.map pdpPage.frame <:+: delivered tr ∧
      (states.map pdpPage.frame : Multiset (List UInt8)) ≤ sent tr + duplicated tr ∧
      (p.CaughtUp (receiverSteps tr) n.receiver → states.map pdpPage.frame <:+ delivered tr ∧
        states.length = (broadcasts (clientWindow p.id (receiverSteps tr))).length) := by
  have hM : (4000, pdProxy) ∈ proxies := List.mem_of_getElem? (i := 0) rfl
  obtain ⟨states, panel, hrun, hdrawn, -, hpart, hcaught⟩ := pdpPage.shows hM h hclient hp hes
  refine ⟨states, panel, hrun, ?_, ?_, hdrawn.status, hpart, coe_le_of_isInfix h hpart, hcaught⟩
  · rw [hdrawn.address]
    exact map_testBit_mask (fun x ↦ and_ones_mod _ 22) states
  · rw [hdrawn.display]
    exact map_testBit_mask (fun x ↦ rfl) states

/-- The address `0xa358` on a PDP-11 in user mode, and a later one of the kernel. -/
def pdpSample : pdpPage.Sample := (⟨0xa358, 7, 0xc000, 0, 0, 1, 0x10⟩, fun _ ↦ 0)

def pdpSample' : pdpPage.Sample := (⟨0x201234, 0x1ff, 0x0008, 0, 4, 1, 0x30⟩, fun _ ↦ 0)

theorem pdp_page_shows_swapped_a358 :
    ∃ (tr : SystemTrace) (n : Network (List UInt8) ProxyState) (p : PageSide) (o o' : JsonObject)
      (panel : Pdp.Panel),
      (overNetwork pdProxy.reply).replay ⟨0, .start⟩
          (lossyEvents (pdpPage.frame pdpSample) (pdpPage.frame pdpSample')) = some (tr, n) ∧
      p.CaughtUp (receiverSteps tr) n.receiver ∧ handled p.queueSteps = [o, o'] ∧
      Pdp.runEvents [.message o, .message o'] = .ok panel ∧
      panel.addressId.map LampStyle.lit = (List.range 22).map (0xa3580000).testBit ∧
      panel.displayId.map LampStyle.lit = (List.range 16).map (7).testBit := by
  have harrives : Arrives pdProxy (pdpPage.frame pdpSample) (pdpPage.frame pdpSample')
      (pdpPage.json pdpSample) (pdpPage.json pdpSample') := by
    unfold Arrives
    decide +kernel
  have hwrites : WritesAll (textOf (pdpPage.json pdpSample'))
      (textOf (pdpPage.json pdpSample)) := by
    unfold WritesAll
    decide +kernel
  have hM : (4000, pdProxy) ∈ proxies := List.mem_of_getElem? (i := 0) rfl
  obtain ⟨tr, n, p, o, o', htr, hrun, hsent, hfollows, hcaught, ho, hdelivered, htwo⟩ :=
    exists_system hM pdpPage.toFrameClient pdpSample pdpSample' harrives hwrites
  have hes : messagesOf [.message o, .message o'] = handled p.queueSteps := ho.symm
  obtain ⟨states, panel, hpanel, haddress, hdisplay, -, -, -, hdone⟩ :=
    pdp_page_shows_swapped hrun (FrameClient.sendsAll_pair hsent) hfollows hes
  obtain ⟨hsuffix, hlength⟩ := hdone hcaught
  have hpanels := panels_of_delivered pdpPage.toFrameClient hdelivered hsuffix (hlength.trans htwo)
  have hlatestAddress : latestValue (fun x ↦ swapHalves x.1.psAddress.toNat) states = 0xa3580000 :=
    latestValue_of_panels hpanels .psAddress
  have hlatestData : latestValue (fun x ↦ x.1.psData.toNat) states = 7 :=
    latestValue_of_panels hpanels .psData
  rw [hlatestAddress] at haddress
  rw [hlatestData] at hdisplay
  exact ⟨tr, n, p, o, o', panel, htr, hcaught, ho, hpanel, haddress, hdisplay⟩

end VPanel.EndToEnd
