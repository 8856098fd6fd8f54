import VPanel.EndToEnd.Texts
import VPanel.Proxy.Broadcast
import VPanel.Proxy.WebSocket

/-!
# From a datagram to an open page

The broadcast of a proxy and one of its WebSocket connections, taken together:
what the server calls back is what the broadcast expects of it, and the objects
that a page parses are those that were broadcast while it was connected.
-/

namespace VPanel.EndToEnd

open EventRun JsonText Page Proxy WebSocketFrame
open Proxy.WebSocket (Callback Opening connection messages sentTexts)

/-! ## Callbacks -/

/-- The section under the mutex that a callback runs, if it comes to it; the last one destroys the
object.  `onopen` throws behind its section and `onerror` before it. -/
def callbackEvent (id : ℕ) : Callback → Option ProxyEvent
  | .onopen _ => some (.onopen id)
  | .onclose => some (.onclose id)
  | .onerror true => some (.onerror id)
  | .onerror false => none
  | .destroyed => some (.destroy id)

section Callbacks

variable (udpPacketToJson : List UInt8 → Reply) {s : ProxyState} {id : ℕ}

theorem find_setPhase {c : Proxy.Connection} (h : s.find id = some c) (phase : Period) :
    (s.setPhase id phase).find id = some { c with phase } := by
  have hid : c.id = id := (ProxyState.find_eq_some h).2
  rw [ProxyState.find, ProxyState.setPhase, List.find?_map]
  have hsame : ((fun d : Proxy.Connection ↦ decide (d.id = id)) ∘ fun d ↦
      if d.id = id then { d with phase } else d) = fun d ↦ decide (d.id = id) := by
    funext d
    by_cases hd : d.id = id
    · simp [hd]
    · simp [hd]
  rw [hsame]
  rw [ProxyState.find] at h
  rw [h]
  simp [hid]

theorem step_opened {addr : ℕ} (h : s.find id = some ⟨id, addr, .before⟩) :
    ∃ t, s.step udpPacketToJson (.onopen id) = some (t, none) ∧
      t.find id = some ⟨id, addr, .during⟩ ∧ t.wsClients = insert addr s.wsClients := by
  refine ⟨{ s.setPhase id .during with wsClients := insert addr s.wsClients }, ?_, ?_, rfl⟩
  · simp [ProxyState.step, ProxyState.onopen, h]
  · exact find_setPhase h .during

theorem step_ended {c : Proxy.Connection} (h : s.find id = some c) (hphase : c.phase ≠ .before)
    {e : ProxyEvent} (he : e = .onclose id ∨ e = .onerror id) :
    ∃ t, s.step udpPacketToJson e = some (t, none) ∧
      t.find id = some { c with phase := .past } ∧ t.wsClients = s.wsClients.erase c.addr := by
  refine ⟨{ s.setPhase id .past with wsClients := s.wsClients.erase c.addr }, ?_, ?_, rfl⟩
  · rcases he with rfl | rfl <;>
      simp [ProxyState.step, ProxyState.onerror, ProxyState.onclose, h, hphase]
  · exact find_setPhase h .past

/-- A removed connection stays removed, and one whose close handler was called is. -/
theorem replay_ended {c : Proxy.Connection} (h : s.find id = some c) (hphase : c.phase ≠ .before)
    (hpast : c.phase = .past → c.addr ∉ s.wsClients) {later : List Callback}
    (hlater : ∀ x ∈ later, x = .onclose ∨ ∃ returned, x = .onerror returned) :
    ∃ tr t d, (proxyBase udpPacketToJson).replay s (later.filterMap (callbackEvent id)) =
        some (tr, t) ∧ t.find id = some d ∧ (d.phase = .past → c.addr ∉ t.wsClients) ∧
      (c.phase = .past ∨ .onclose ∈ later → d.phase = .past) := by
  induction later generalizing s c with
  | nil => exact ⟨[], s, c, rfl, h, hpast, fun hor ↦ hor.resolve_right List.not_mem_nil⟩
  | cons x later ih =>
      obtain ⟨hx, hrest⟩ := List.forall_mem_cons.mp hlater
      by_cases hthrown : x = .onerror false
      · subst hthrown
        obtain ⟨tr, t, d, hreplay, hd, hgone, hclosed⟩ := ih h hphase hpast hrest
        refine ⟨tr, t, d, hreplay, hd, hgone, fun hor ↦ hclosed (hor.imp_right ?_)⟩
        exact fun hmem ↦ (List.mem_cons.mp hmem).resolve_left nofun
      · obtain ⟨e, hevent, he⟩ : ∃ e, callbackEvent id x = some e ∧
            (e = .onclose id ∨ e = .onerror id) := by
          rcases hx with rfl | ⟨_ | _, rfl⟩
          · exact ⟨_, rfl, Or.inl rfl⟩
          · exact absurd rfl hthrown
          · exact ⟨_, rfl, Or.inr rfl⟩
        obtain ⟨u, hstep, hfind, hclients⟩ := step_ended udpPacketToJson h hphase he
        have hremoved : c.addr ∉ u.wsClients := by
          rw [hclients]
          exact Finset.notMem_erase _ _
        obtain ⟨tr, t, d, hreplay, hd, hgone, hclosed⟩ := ih hfind nofun (fun _ ↦ hremoved) hrest
        rw [List.filterMap_cons_some hevent]
        exact ⟨_, t, d, replay_cons hstep hreplay, hd, hgone, fun _ ↦ hclosed (Or.inl rfl)⟩

/-- Once the server has accepted a connection whose open handler returns, it may call back in the
order in which it does, and a deleted connection has left the set.  When that handler throws, the
object is gone while its address is in the set. -/
theorem callbacks_possible {o : Opening} {tr : List (WebSocket.ConnectionEvent × Unit)}
    {c : WebSocket.Connection} (hrun : Run (connection o) tr c) {addr : ℕ}
    (h : s.find id = some ⟨id, addr, .before⟩) :
    if o.returns then
      ∃ tr' t, (proxyBase udpPacketToJson).replay s (c.callbacks.filterMap (callbackEvent id)) =
          some (tr', t) ∧ (c.deleted = true → addr ∉ t.wsClients)
    else
      c.callbacks.filterMap (callbackEvent id) = [.onopen id, .destroy id] ∧
        ∃ tr' t, (proxyBase udpPacketToJson).replay s [.onopen id] = some (tr', t) ∧
          addr ∈ t.wsClients ∧ t.step udpPacketToJson (.destroy id) = none := by
  obtain ⟨u, hopen, hfind, hclients⟩ := step_opened udpPacketToJson h
  split_ifs with ho
  · rcases WebSocket.live_or_gone hrun ho with hlive | hgone
    · obtain ⟨later, hcallbacks, hlater, -⟩ := hlive.callbacks
      obtain ⟨tr', t, d, hreplay, -⟩ :=
        replay_ended udpPacketToJson hfind nofun nofun hlater
      rw [hcallbacks]
      exact ⟨_, t, replay_cons hopen hreplay,
        fun hdeleted ↦ absurd (hlive.deleted.symm.trans hdeleted) Bool.false_ne_true⟩
    · obtain ⟨later, hcallbacks, hlater, hclosed⟩ := hgone.callbacks
      obtain ⟨tr', t, d, hreplay, hd, hremoved, hpast⟩ :=
        replay_ended udpPacketToJson hfind nofun nofun hlater
      have hpast := hpast (Or.inr hclosed)
      have hdestroy : t.step udpPacketToJson (.destroy id) =
          some ({ t with connections := t.connections.filter fun c ↦ ¬c.id = id }, none) := by
        simp [ProxyState.step, ProxyState.destroy, hd, hpast]
      have hlast : (proxyBase udpPacketToJson).replay t [.destroy id] = some _ :=
        replay_cons hdestroy rfl
      rw [hcallbacks, List.filterMap_cons_some (rfl : callbackEvent id (.onopen true) = _),
        List.filterMap_append]
      exact ⟨_, _, replay_cons hopen (replay_append hreplay hlast), fun _ ↦ hremoved hpast⟩
  · have hcallbacks := (WebSocket.absent_of_throws hrun (Bool.eq_false_iff.mpr ho)).2
    rw [hcallbacks]
    refine ⟨rfl, _, u, replay_cons hopen rfl, hclients ▸ Finset.mem_insert_self .., ?_⟩
    simp [ProxyState.step, ProxyState.destroy, hfind]

/-- A client that goes away at once: the pointer to its connection is gone, or left behind. -/
theorem callbacks_possible_dropped :
    (∃ tr t, (proxyBase netbsdvaxProxy.reply).replay ⟨{9}, .receiving, [⟨1, 7, .before⟩,
        ⟨0, 9, .during⟩], 2⟩ ([Callback.onopen true, .onerror false, .onclose,
          .destroyed].filterMap (callbackEvent 1)) = some (tr, t) ∧ 7 ∉ t.wsClients) ∧
    ∃ tr t, (proxyBase netbsdvaxProxy.reply).replay ⟨{9}, .receiving, [⟨1, 7, .before⟩,
        ⟨0, 9, .during⟩], 2⟩ [.onopen 1] = some (tr, t) ∧ 7 ∈ t.wsClients ∧
      t.step netbsdvaxProxy.reply (.destroy 1) = none := by
  have hbehind : ((connection ⟨[], 0, true⟩).replay (.start ⟨[], 0, true⟩)
      [.readFailed true, .writeFailed]).map (fun r ↦ (r.2.callbacks, r.2.deleted)) =
        some ([.onopen true, .onerror false, .onclose, .destroyed], true) := by
    decide +kernel
  obtain ⟨⟨tr, c⟩, hreplay, heq⟩ := Option.map_eq_some_iff.mp hbehind
  obtain ⟨hcallbacks, hdeleted⟩ := Prod.mk.inj heq
  have haccepted : ProxyState.find ⟨{9}, .receiving, [⟨1, 7, .before⟩, ⟨0, 9, .during⟩], 2⟩ 1 =
      some ⟨1, 7, .before⟩ := rfl
  constructor
  · obtain ⟨tr', t, hpossible, hremoved⟩ :=
      callbacks_possible netbsdvaxProxy.reply (Run.replay .start hreplay) haccepted
    rw [hcallbacks] at hpossible
    exact ⟨tr', t, hpossible, hremoved hdeleted⟩
  · have hthrown : Run (connection ⟨[], 0, false⟩) [] (.start ⟨[], 0, false⟩) := .start
    exact (callbacks_possible netbsdvaxProxy.reply hthrown haccepted).2

end Callbacks

/-! ## Texts on the way -/

/-- The bytes of a `std::string` with a text. -/
def utf8 (text : List Char) : List UInt8 := (String.ofList text).toByteArray.data.toList

/-- The data of a message event; a page closes a connection with any other bytes. -/
def messageData (bytes : List UInt8) : Option (List Char) :=
  (String.fromUTF8? ⟨bytes.toArray⟩).map String.toList

theorem messageData_utf8 (text : List Char) : messageData (utf8 text) = some text := by
  have hbytes : (⟨(utf8 text).toArray⟩ : ByteArray) = (String.ofList text).toByteArray := by
    rw [utf8, Array.toArray_toList]
  have hvalid : (String.ofList text).toByteArray.IsValidUTF8 := (String.ofList text).isValidUTF8
  rw [messageData, hbytes, String.fromUTF8?, dif_pos hvalid]
  exact congrArg some String.toList_ofList

/-- `JSON.parse(event.data)`. -/
def messageObject (bytes : List UInt8) : Option JsonObject := (messageData bytes).bind parsed

/-- The text that is sent for an object. -/
def SentAs (bytes : List UInt8) (json : JsonObject) : Prop :=
  ∃ o : JsonObject, o.Perm json ∧ bytes = utf8 (wvalueOfObject o).dump

section Broadcast

variable {port : ℕ} {M : ProxyModule} {tr : Trace} {s : ProxyState}

theorem readable_sentTo (hM : (port, M) ∈ proxies) (h : Run (proxyBase M.reply) tr s) (id : ℕ) :
    ∀ json ∈ sentTo id tr, Readable json := by
  intro json hjson
  rw [sentTo_eq_broadcasts h] at hjson
  have hbroadcast : json ∈ broadcasts tr := by
    apply List.Sublist.subset _ hjson
    apply List.Sublist.filterMap
    exact (List.takeWhile_sublist _).trans (List.dropWhile_sublist _)
  have hreply : json ∈ replies M.reply tr := by
    rw [← broadcasts_eq_replies h]
    exact List.mem_append_left _ hbroadcast
  obtain ⟨⟨e, sent⟩, -, he⟩ := List.mem_filterMap.mp hreply
  unfold ProxyEvent.reply at he
  split at he
  · dsimp only at he
    split_ifs at he
    exact readable_reply hM ((M.udpPacketToJson_eq_reply _).trans (congrArg some he))
  · cases he

theorem messageObject_of_sentAs {bytes : List UInt8} {json : JsonObject} (h : SentAs bytes json)
    (hreadable : Readable json) : ∃ o, messageObject bytes = some o ∧ o.Perm json := by
  obtain ⟨o, horder, rfl⟩ := h
  refine ⟨o, ?_, horder⟩
  rw [messageObject, messageData_utf8]
  exact hreadable.parsed_dump horder

theorem messageObjects_of_sentAs {texts : List (List UInt8)} {jsons : List JsonObject}
    (h : List.Forall₂ SentAs texts jsons) (hreadable : ∀ json ∈ jsons, Readable json) :
    ∃ os, texts.mapM messageObject = some os ∧ List.Forall₂ List.Perm os jsons := by
  induction h with
  | nil => exact ⟨[], rfl, .nil⟩
  | @cons bytes json texts jsons hsent _ ih =>
      obtain ⟨hjson, hjsons⟩ := List.forall_mem_cons.mp hreadable
      obtain ⟨o, hobject, horder⟩ := messageObject_of_sentAs hsent hjson
      obtain ⟨os, hobjects, horders⟩ := ih hjsons
      refine ⟨o :: os, ?_, .cons horder horders⟩
      rw [List.mapM_cons, hobject, hobjects]
      rfl

/-- The first of the texts that were sent on a connection are parsed to the first of the objects
that were broadcast while it was connected. -/
theorem objects_of_prefix (hM : (port, M) ∈ proxies) (h : Run (proxyBase M.reply) tr s) (id : ℕ)
    {texts start : List (List UInt8)} (hsent : List.Forall₂ SentAs texts (sentTo id tr))
    (hstart : start <+: texts) :
    ∃ os, start.mapM messageObject = some os ∧
      List.Forall₂ List.Perm os ((broadcasts (clientWindow id tr)).take start.length) := by
  have hreadable := readable_sentTo hM h id
  obtain ⟨later, rfl⟩ := hstart
  have hshown : List.Forall₂ SentAs start ((sentTo id tr).take start.length) :=
    (List.forall₂_take_append _ _ _ hsent.flip).flip
  rw [← sentTo_eq_broadcasts h id]
  exact messageObjects_of_sentAs hshown fun json hjson ↦ hreadable json (List.mem_of_mem_take hjson)

/-- A page that is connected parses, in order and without a gap, the first of the objects that
are broadcast while it is connected; and all of them, when no text is under way. -/
theorem live_updates (hM : (port, M) ∈ proxies) (h : Run (proxyBase M.reply) tr s) (id : ℕ)
    {o : Opening} {tr' : List (WebSocket.ConnectionEvent × Unit)} {c : WebSocket.Connection}
    (h' : Run (connection o) tr' c)
    (hsent : List.Forall₂ SentAs (sentTexts tr') (sentTo id tr))
    (hok : ∀ e ∈ tr', e.1 ≠ .writeFailed) (hsize : ∀ f ∈ c.frames, f.payload.length < 2 ^ 63) :
    (c.wire <+: (WebSocket.Connection.handshake o.hello).flatten ∧
        c.wire.length < (WebSocket.Connection.handshake o.hello).flatten.length ∧
        c.stream.pending ≠ []) ∨
      ∃ bytes frames rest os shown,
        c.wire = (WebSocket.Connection.handshake o.hello).flatten ++ bytes ∧
        received bytes = some (frames, rest) ∧ (messages frames).mapM messageObject = some os ∧
        List.Forall₂ List.Perm os shown ∧ shown <+: broadcasts (clientWindow id tr) ∧
          (c.stream.pending = [] → c.posted = [] → c.hasSentClose = false → c.deleted = false →
            shown = broadcasts (clientWindow id tr)) := by
  rcases WebSocket.page_receives h' hok hsize with
    hshort | ⟨bytes, frames, rest, hwire, hreceived, hstart, hall⟩
  · exact Or.inl hshort
  · right
    have hlength := hsent.length_eq
    obtain ⟨os, hos, horders⟩ := objects_of_prefix hM h id hsent hstart
    refine ⟨bytes, frames, rest, os, _, hwire, hreceived, hos, horders, List.take_prefix ..,
      fun hpending hposted hopen hlive ↦ ?_⟩
    apply List.take_of_length_le
    rw [hall hpending hposted hopen hlive, hlength, sentTo_eq_broadcasts h id]

end Broadcast

/-- The next address of the VAX, with the same data. -/
def vaxLater : List UInt8 := [8, 0, 2, 0, 0, 0, 5, 0, 0, 0, 2, 0, 0, 0]

def vaxEvents : List ProxyEvent :=
  [.accept 7, .onopen 0, .recv (.datagram vaxDatagram), .broadcast, .recv (.datagram vaxLater),
    .broadcast]

/-- Both texts are posted before the handshake is written, and the second one waits for the
first. -/
def vaxDelivery : List WebSocket.ConnectionEvent :=
  [.sendText (utf8 (wvalueOfObject vaxMembers).dump), .transmit 61,
    .sendText (utf8 (wvalueOfObject [("address", .number 5), ("data", .number 2)]).dump),
    .writeDone, .room 10, .runTask, .runTask, .transmit 14, .writeDone, .transmit 14]

theorem live_updates_vaxDatagrams :
    ∃ tr s tr' c bytes frames rest os,
      (proxyBase netbsdvaxProxy.reply).replay .start vaxEvents = some (tr, s) ∧
      (connection ⟨[], 40, true⟩).replay (.start ⟨[], 40, true⟩) vaxDelivery = some (tr', c) ∧
      c.wire = (WebSocket.Connection.handshake []).flatten ++ bytes ∧
      received bytes = some (frames, rest) ∧ (messages frames).mapM messageObject = some os ∧
      List.Forall₂ List.Perm os [[("address", .number 1), ("data", .number 2)],
        [("address", .number 5), ("data", .number 2)]] := by
  have hbroadcast : ((proxyBase netbsdvaxProxy.reply).replay .start vaxEvents).map
      (fun r ↦ sentTo 0 r.1) = some [[("address", .number 1), ("data", .number 2)],
        [("address", .number 5), ("data", .number 2)]] := by
    decide +kernel
  have hdelivery : ((connection ⟨[], 40, true⟩).replay (.start ⟨[], 40, true⟩) vaxDelivery).map
      (fun r ↦ decide ((r.2.stream.pending = [] ∧ r.2.posted = [] ∧ r.2.hasSentClose = false ∧
        r.2.deleted = false) ∧ 101 < r.2.wire.length ∧
          ∀ f ∈ r.2.frames, f.payload.length < 2 ^ 63)) = some true := by
    decide +kernel
  obtain ⟨⟨tr, s⟩, hreplay, htr⟩ := Option.map_eq_some_iff.mp hbroadcast
  obtain ⟨⟨tr', c⟩, hreplay', hc⟩ := Option.map_eq_some_iff.mp hdelivery
  obtain ⟨⟨hpending, hposted, hopen, hlive⟩, hlong, hsize⟩ := of_decide_eq_true hc
  have hevents : tr'.map Prod.fst = vaxDelivery := map_fst_replay hreplay'
  have htr : sentTo 0 tr = _ := htr
  have hsent : List.Forall₂ SentAs (sentTexts tr') (sentTo 0 tr) := by
    have htexts : sentTexts tr' = vaxDelivery.flatMap WebSocket.sentBy := by
      rw [← hevents, List.flatMap_map]
      rfl
    rw [htexts, htr]
    exact .cons ⟨vaxMembers, .swap .., rfl⟩ (.cons ⟨_, .refl _, rfl⟩ .nil)
  have hok : ∀ e ∈ tr', e.1 ≠ .writeFailed := by
    have hall : ∀ e ∈ vaxDelivery, e ≠ .writeFailed := by decide +kernel
    exact fun e he ↦ hall e.1 (hevents ▸ List.mem_map_of_mem he)
  have hM : (4002, netbsdvaxProxy) ∈ proxies := List.mem_of_getElem? (i := 2) rfl
  have hrun := Run.replay .start hreplay
  rcases live_updates hM hrun 0 (Run.replay .start hreplay') hsent hok hsize with
    ⟨-, hshort, -⟩ | ⟨bytes, frames, rest, os, shown, hwire, hreceived, hos, horders, -, hall⟩
  · have hhandshake : (WebSocket.Connection.handshake []).flatten.length = 101 := by decide +kernel
    rw [hhandshake] at hshort
    exact absurd hshort hlong.not_gt
  · refine ⟨tr, s, tr', c, bytes, frames, rest, os, hreplay, hreplay', hwire, hreceived, hos, ?_⟩
    have hshown : shown = sentTo 0 tr :=
      (hall hpending hposted hopen hlive).trans (sentTo_eq_broadcasts hrun 0).symm
    rwa [hshown, htr] at horders

end VPanel.EndToEnd
