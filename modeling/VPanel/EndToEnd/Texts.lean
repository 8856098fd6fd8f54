import VPanel.Page.Delivery
import VPanel.Proxy.JsonDump

/-!
# The texts between proxy and page

A proxy answers a datagram with the dump of an object, whose members are
written in the order of a hash table.  The page parses every text that arrives.
-/

namespace VPanel.EndToEnd

open JsonText ObjectLayout Page Proxy
open Proxy.Crow (Wvalue membersToJson)

def wvalueOf : JsonObject.Value → Wvalue
  | .number n => .unsigned (BitVec.ofNat 64 n)
  | .boolean b => .boolean b
  | .string s => .string s

def wvalueOfObject (o : JsonObject) : Wvalue :=
  .object (o.map fun e ↦ (e.1.toList, wvalueOf e.2))

/-- The texts that are broadcast for a sequence of datagrams. -/
inductive Sent (udpPacketToJson : List UInt8 → Option Reply) :
    List (List UInt8) → List (List Char) → Prop
  | nil : Sent udpPacketToJson [] []
  | rejected {d ds texts} (h : udpPacketToJson d = some none)
      (rest : Sent udpPacketToJson ds texts) : Sent udpPacketToJson (d :: ds) texts
  | sent {d ds json o texts} (h : udpPacketToJson d = some (some json)) (order : o.Perm json)
      (rest : Sent udpPacketToJson ds texts) :
      Sent udpPacketToJson (d :: ds) ((wvalueOfObject o).dump :: texts)

/-! ## Parsed objects -/

/-- A number is read as the integer of the text where every integer of its size is a
double. -/
def valueOf : Json → Option JsonObject.Value
  | .bool b => some (.boolean b)
  | .string s => some (.string s)
  | .number false n 0 => if n ≤ 2 ^ 53 then some (.number n) else none
  | _ => none

def memberOf (e : List Char × Json) : Option (String × JsonObject.Value) :=
  (valueOf e.2).map (String.ofList e.1, ·)

/-- A flat object whose keys are distinct. -/
def objectOf : Json → Option JsonObject
  | .object members =>
      if (members.map Prod.fst).Nodup then members.mapM memberOf else none
  | _ => none

/-- `JSON.parse(message)`. -/
def parsed (text : List Char) : Option JsonObject := (parse text).bind objectOf

def Exact : JsonObject.Value → Prop
  | .number n => n ≤ 2 ^ 53
  | _ => True

theorem valueOf_wvalueOf {v : JsonObject.Value} (h : Exact v) :
    valueOf (wvalueOf v).toJson = some v := by
  cases v with
  | number n =>
      have hn : n ≤ 2 ^ 53 := h
      have hword : (BitVec.ofNat 64 n).toNat = n := by
        rw [BitVec.toNat_ofNat]
        exact Nat.mod_eq_of_lt (by omega)
      change (if (BitVec.ofNat 64 n).toNat ≤ 2 ^ 53 then
        some (JsonObject.Value.number (BitVec.ofNat 64 n).toNat) else none) = some (.number n)
      rw [hword, if_pos hn]
  | boolean b => rfl
  | string s => rfl

def membersOf (o : JsonObject) : List (List Char × Json) :=
  o.map fun e ↦ (e.1.toList, (wvalueOf e.2).toJson)

theorem toJson_wvalueOfObject (o : JsonObject) :
    (wvalueOfObject o).toJson = .object (membersOf o) := by
  change Json.object (membersToJson _) = _
  rw [Crow.membersToJson_eq, List.map_map]
  rfl

theorem map_fst_membersOf (o : JsonObject) :
    (membersOf o).map Prod.fst = o.keys.map String.toList := by
  rw [membersOf, JsonObject.keys, List.map_map, List.map_map]
  rfl

theorem mapM_membersOf {o : JsonObject} (h : ∀ e ∈ o, Exact e.2) :
    (membersOf o).mapM memberOf = some o := by
  induction o with
  | nil => rfl
  | cons e o ih =>
      have hmember : memberOf (e.1.toList, (wvalueOf e.2).toJson) = some e := by
        rw [memberOf, valueOf_wvalueOf (h e (List.mem_cons_self ..))]
        simp
      have hrest := ih fun f hf ↦ h f (List.mem_cons_of_mem _ hf)
      rw [membersOf, List.map_cons, List.mapM_cons, hmember]
      rw [membersOf] at hrest
      rw [hrest]
      rfl

theorem parsed_dump {o : JsonObject} (hkeys : o.keys.Nodup) (h : ∀ e ∈ o, Exact e.2) :
    parsed (wvalueOfObject o).dump = some o := by
  have hnodup : (o.keys.map String.toList).Nodup :=
    hkeys.map fun _ _ heq ↦ String.toList_inj.mp heq
  rw [parsed, (Crow.reads_dump _).parse, Option.bind_some, toJson_wvalueOfObject, objectOf,
    map_fst_membersOf, if_pos hnodup]
  exact mapM_membersOf h

/-! ## The objects of the three proxies -/

/-- The entries can be written as members of one object and read back. -/
def Readable (json : JsonObject) : Prop := json.keys.Nodup ∧ ∀ e ∈ json, Exact e.2

theorem Readable.parsed_dump {o json : JsonObject} (h : Readable json) (order : o.Perm json) :
    parsed (wvalueOfObject o).dump = some o :=
  EndToEnd.parsed_dump ((order.map Prod.fst).nodup_iff.mpr h.1) fun e he ↦
    h.2 e (order.mem_iff.mp he)

theorem readable_pdp (mem : List UInt8) :
    Readable (PDProxy.toJson (PDProxy.panelState.load .little mem)) := by
  refine ⟨(by decide :
    ["address", "data", "parity_error", "address_error", "user_mode", "super_mode",
      "kernel_mode", "addr16", "addr18", "addr22"].Nodup), ?_⟩
  have haddress : PDProxy.panelState.load .little mem .psAddress &&& 0x3fffff ≤ 2 ^ 53 :=
    Nat.and_le_right.trans (by norm_num)
  have hdata : PDProxy.panelState.load .little mem .psData ≤ 2 ^ 53 :=
    (PDProxy.panelState.load_lt .little mem .psData).le.trans (by decide)
  simp only [PDProxy.toJson, List.forall_mem_cons, Exact]
  exact ⟨haddress, hdata, trivial, trivial, trivial, trivial, trivial, trivial, trivial, trivial,
    List.forall_mem_nil _⟩

theorem readable_amd64 {mem : List UInt8} {json : JsonObject}
    (h : AMD64Proxy.toJson (AMD64Proxy.panelState.load .little mem) = some json) :
    Readable json := by
  rw [AMD64Proxy.toJson_eq (AMD64Proxy.load_lt mem), Option.some.injEq] at h
  subst h
  refine ⟨?_, ?_⟩
  · rw [AMD64Proxy.dump, JsonObject.keys, List.map_map]
    exact (by decide : (AMD64Proxy.shown.map Prod.fst).Nodup)
  · intro e he
    obtain ⟨_, -, rfl⟩ := List.mem_map.mp he
    trivial

theorem readable_vax (mem : List UInt8) :
    Readable (NetBSDVAXProxy.toJson (NetBSDVAXProxy.panelState.load .little mem)) := by
  refine ⟨(by decide : ["address", "data"].Nodup), ?_⟩
  have hfield : ∀ field, NetBSDVAXProxy.panelState.load .little mem field ≤ 2 ^ 53 := by
    intro field
    apply (NetBSDVAXProxy.panelState.load_lt .little mem field).le.trans
    cases field <;> decide
  simp only [NetBSDVAXProxy.toJson, List.forall_mem_cons, Exact]
  exact ⟨hfield .psAddress, hfield .psData, List.forall_mem_nil _⟩

theorem readable_reply {port : ℕ} {M : ProxyModule} (hM : (port, M) ∈ proxies)
    {data : List UInt8} {json : JsonObject} (h : M.udpPacketToJson data = some (some json)) :
    Readable json := by
  rcases replyWith_eq_some h with ⟨-, hnone⟩ | ⟨-, json', hsome, hjson⟩
  · cases hnone
  · cases hsome
    simp only [proxies, List.mem_cons, Prod.mk.injEq, List.not_mem_nil, or_false] at hM
    rcases hM with ⟨-, rfl⟩ | ⟨-, rfl⟩ | ⟨-, rfl⟩
    · cases hjson
      exact readable_pdp _
    · exact readable_amd64 hjson
    · cases hjson
      exact readable_vax _

/-- Every text that a proxy broadcasts is parsed to an object with the entries it was made
from, so what arrives at a page is what `Delivered` says, and all of it can arrive. -/
theorem texts_deliver {port : ℕ} {M : ProxyModule} (hM : (port, M) ∈ proxies)
    (ds : List (List UInt8)) :
    (∀ texts, Sent M.udpPacketToJson ds texts →
        ∃ os, texts.mapM parsed = some os ∧ Delivered M.udpPacketToJson ds os) ∧
      ∀ os, Delivered M.udpPacketToJson ds os →
        ∃ texts, Sent M.udpPacketToJson ds texts ∧ texts.mapM parsed = some os := by
  constructor
  · intro texts h
    induction h with
    | nil => exact ⟨[], rfl, .nil⟩
    | rejected hreply _ ih =>
        obtain ⟨os, hos, hdelivered⟩ := ih
        exact ⟨os, hos, .rejected hreply hdelivered⟩
    | @sent d ds json o texts hreply order _ ih =>
        obtain ⟨os, hos, hdelivered⟩ := ih
        refine ⟨o :: os, ?_, .sent hreply order hdelivered⟩
        rw [List.mapM_cons, (readable_reply hM hreply).parsed_dump order, hos]
        rfl
  · intro os h
    induction h with
    | nil => exact ⟨[], .nil, rfl⟩
    | rejected hreply _ ih =>
        obtain ⟨texts, hsent, hos⟩ := ih
        exact ⟨texts, .rejected hreply hsent, hos⟩
    | @sent d ds json o os hreply order _ ih =>
        obtain ⟨texts, hsent, hos⟩ := ih
        refine ⟨(wvalueOfObject o).dump :: texts, .sent hreply order hsent, ?_⟩
        rw [List.mapM_cons, (readable_reply hM hreply).parsed_dump order, hos]
        rfl

/-- A datagram of a VAX that is on address 1 and shows 2. -/
def vaxDatagram : List UInt8 := [8, 0, 2, 0, 0, 0, 1, 0, 0, 0, 2, 0, 0, 0]

def vaxMembers : JsonObject := [("data", .number 2), ("address", .number 1)]

theorem sent_vaxDatagram : Sent netbsdvaxProxy.udpPacketToJson [vaxDatagram, []]
    [(wvalueOfObject vaxMembers).dump] :=
  .sent (o := vaxMembers) (by rfl) (.swap ..) (.rejected (by rfl) .nil)

theorem texts_deliver_vaxDatagram :
    ∃ os, [(wvalueOfObject vaxMembers).dump].mapM parsed = some os ∧
      Delivered netbsdvaxProxy.udpPacketToJson [vaxDatagram, []] os :=
  have hM : (4002, netbsdvaxProxy) ∈ proxies := List.mem_of_getElem? (i := 2) rfl
  (texts_deliver hM [vaxDatagram, []]).1 _ sent_vaxDatagram

end VPanel.EndToEnd
