import Mathlib.Data.Set.List
import VPanel.EndToEnd.Datagrams
import VPanel.EndToEnd.LiveUpdates
import VPanel.Library.LossyNetwork
import VPanel.Page.Amd64Panel
import VPanel.Page.LampRuns
import VPanel.Page.MessageQueue

/-!
# From the clients to a page

Datagrams reach a proxy over a network that loses, duplicates and reorders
them.  What a page is handed is part of what was delivered, without a gap, so
whatever it shows is the state of a datagram that a client sent.
-/

namespace VPanel.EndToEnd

open EventRun JsonText LossyNetwork Page Proxy Wire
open Page.Queue (NoReentry arrivals handled)
open Proxy.WebSocket (Opening connection messages sentTexts)

/-! ## A proxy behind the network -/

def udpPort : Port (List UInt8) ProxyEvent where
  arrival d := .recv (.datagram d)
  arrivalOf
    | .recv (.datagram d) => some d
    | _ => none
  arrivalOf_arrival _ := rfl

def overNetwork (udpPacketToJson : List UInt8 → Reply) :=
  attach (proxyBase udpPacketToJson) udpPort

abbrev SystemTrace := NetworkTrace (List UInt8) ProxyEvent Proxy.Sent

/-- The object that the proxy makes of a datagram, unless it drops it. -/
def answer (udpPacketToJson : List UInt8 → Reply) (d : List UInt8) : Reply :=
  (ProxyEvent.recv (.datagram d)).reply udpPacketToJson

section Network

variable {udpPacketToJson : List UInt8 → Reply} {tr : SystemTrace}
  {n : Network (List UInt8) ProxyState}

theorem reply_eq (udpPacketToJson : List UInt8 → Reply) (e : ProxyEvent) :
    e.reply udpPacketToJson = (udpPort.arrivalOf e).bind (answer udpPacketToJson) := by
  cases e with
  | recv r => cases r <;> rfl
  | _ => rfl

theorem broadcasts_eq_answers (h : Run (overNetwork udpPacketToJson) tr n) :
    broadcasts (receiverSteps tr) ++ n.receiver.udpLoop.pending =
      (delivered tr).filterMap (answer udpPacketToJson) := by
  rw [broadcasts_eq_replies (run_receiver h), ← filterMap_receiverSteps h,
    List.filterMap_filterMap]
  exact List.filterMap_congr fun x _ ↦ reply_eq udpPacketToJson x.1

/-- Each text that is broadcast answers a datagram that was sent, and every copy of a datagram
that deserves an answer is answered once, under way or lost. -/
theorem texts_accounted (h : Run (overNetwork udpPacketToJson) tr n) :
    broadcasts (receiverSteps tr) ++ n.receiver.udpLoop.pending =
        (delivered tr).filterMap (answer udpPacketToJson) ∧
      (broadcasts (receiverSteps tr) : Multiset JsonObject) + n.receiver.udpLoop.pending +
          ((lost tr : Multiset (List UInt8)) + n.inFlight).filterMap (answer udpPacketToJson) =
        ((sent tr : Multiset (List UInt8)) + duplicated tr).filterMap (answer udpPacketToJson) ∧
      ∀ json ∈ broadcasts (receiverSteps tr), ∃ d ∈ sent tr,
        answer udpPacketToJson d = some json := by
  have hanswers := broadcasts_eq_answers h
  refine ⟨hanswers, ?_, fun json hjson ↦ ?_⟩
  · rw [Multiset.coe_add, hanswers, ← Multiset.filterMap_coe, ← Multiset.filterMap_add,
      ← add_assoc, conserved h]
  · have hmem : json ∈ (delivered tr).filterMap (answer udpPacketToJson) :=
      hanswers ▸ List.mem_append_left _ hjson
    obtain ⟨d, hd, hanswer⟩ := List.mem_filterMap.mp hmem
    exact ⟨d, (genuine h).2 d hd, hanswer⟩

/-- Of two datagrams the second one is delivered first, and of the two copies of the first one
the other is lost. -/
def lossyEvents (d d' : List UInt8) : List (NetworkEvent (List UInt8) ProxyEvent) :=
  [.send d, .own (.accept 7), .duplicate d, .own (.onopen 0), .send d', .deliver d',
    .own .broadcast, .deliver d, .own .broadcast, .lose d]

/-- The objects are sent to the one client that is connected. -/
def Arrives (M : ProxyModule) (d d' : List UInt8) (o o' : JsonObject) : Prop :=
  ((overNetwork M.reply).replay ⟨0, .start⟩ (lossyEvents d d')).map (fun r ↦
    decide (sent r.1 = [d, d'] ∧ delivered r.1 = [d', d] ∧ sentTo 0 (receiverSteps r.1) = [o', o] ∧
      clientPeriod 0 (receiverSteps r.1) = .during ∧ r.2.receiver.udpLoop.pending = [])) = some true

theorem exists_of_arrives {M : ProxyModule} {d d' : List UInt8} {o o' : JsonObject}
    (h : Arrives M d d' o o') : ∃ tr n,
      (overNetwork M.reply).replay ⟨0, .start⟩ (lossyEvents d d') = some (tr, n) ∧
        sent tr = [d, d'] ∧ delivered tr = [d', d] ∧ sentTo 0 (receiverSteps tr) = [o', o] ∧
        clientPeriod 0 (receiverSteps tr) = .during ∧ n.receiver.udpLoop.pending = [] := by
  obtain ⟨⟨tr, n⟩, htr, hfacts⟩ := Option.map_eq_some_iff.mp h
  exact ⟨tr, n, htr, of_decide_eq_true hfacts⟩

/-- A machine that stands in the kernel. -/
def ripState : Netbsdx64PanelState := ⟨fun r ↦ if r = .cfRip then 0xffffffff80201000 else 0⟩

def ripFrame : List UInt8 := netbsdx64SendFrames ripState fun _ ↦ 0

def ripObject : JsonObject := AMD64Proxy.dump ripState.members

/-- A machine in user mode. -/
def raxState : Netbsdx64PanelState :=
  ⟨fun r ↦ if r = .cfRax then 0x123456789abcdef0 else if r = .cfRip then 0x401000 else 0⟩

theorem arrives_ripFrame : Arrives amd64Proxy ripFrame
    (netbsdx64SendFrames raxState fun _ ↦ 0) ripObject (AMD64Proxy.dump raxState.members) := by
  unfold Arrives
  decide +kernel

theorem texts_accounted_ripFrame : ∃ tr n,
    (overNetwork amd64Proxy.reply).replay ⟨0, .start⟩ (lossyEvents ripFrame
        (netbsdx64SendFrames raxState fun _ ↦ 0)) = some (tr, n) ∧
      (broadcasts (receiverSteps tr) : Multiset JsonObject) + n.receiver.udpLoop.pending +
          ((lost tr : Multiset (List UInt8)) + n.inFlight).filterMap (answer amd64Proxy.reply) =
        ((sent tr : Multiset (List UInt8)) + duplicated tr).filterMap
          (answer amd64Proxy.reply) := by
  obtain ⟨tr, n, htr, -⟩ := exists_of_arrives arrives_ripFrame
  exact ⟨tr, n, htr, (texts_accounted (Run.replay .start htr)).2.1⟩

end Network

/-! ## The page -/

/-- The objects that a page reads off the bytes on the wire: those of the messages behind the
handshake that are complete. -/
def pageObjects (o : Opening) (wire : List UInt8) : Option (List JsonObject) :=
  let handshake := (WebSocket.Connection.handshake o.hello).flatten
  if wire.length < handshake.length then some []
  else (WebSocketFrame.received (wire.drop handshake.length)).bind fun r ↦
    (messages r.1).mapM messageObject

/-- A page and the connection it has to a proxy. -/
structure PageSide where
  id : ℕ
  opening : Opening
  connectionSteps : List (WebSocket.ConnectionEvent × Unit)
  connection : WebSocket.Connection
  queueSteps : Queue.Trace JsonObject
  queue : Queue.Socket JsonObject

namespace PageSide

/-- The server was handed the texts that the proxy sent to the connection, and no write failed. -/
structure Connected (p : PageSide) (steps : Proxy.Trace) : Prop where
  connection : Run (WebSocket.connection p.opening) p.connectionSteps p.connection
  sent : List.Forall₂ SentAs (sentTexts p.connectionSteps) (sentTo p.id steps)
  ok : ∀ e ∈ p.connectionSteps, e.1 ≠ .writeFailed
  size : ∀ f ∈ p.connection.frames, f.payload.length < 2 ^ 63

/-- The page has enqueued the first of the objects that it can read, and its handlers enqueue
nothing. -/
structure Follows (p : PageSide) (steps : Proxy.Trace) : Prop extends p.Connected steps where
  queue : ∃ maxQueue, 1 ≤ maxQueue ∧
    Run ((Queue.socket JsonObject maxQueue).within NoReentry) p.queueSteps p.queue
  arrivals : ∃ os, pageObjects p.opening p.connection.wire = some os ∧
    arrivals p.queueSteps <+: os

/-- Every text is on the wire, and the connection is not closed. -/
structure AllWritten (p : PageSide) : Prop where
  posted : p.connection.posted = []
  pending : p.connection.stream.pending = []
  opened : p.connection.hasSentClose = false
  live : p.connection.deleted = false

/-- Nothing is under way between the UDP thread and the handler. -/
structure CaughtUp (p : PageSide) (steps : Proxy.Trace) (s : ProxyState) : Prop where
  connected : clientPeriod p.id steps = .during
  udpLoop : s.udpLoop.pending = []
  written : p.AllWritten
  arrivals : pageObjects p.opening p.connection.wire = some (arrivals p.queueSteps)
  idle : p.queue.frames = []

end PageSide

/-- Without calls from the handler the arrivals are handled in order, and all but those that
wait. -/
theorem handled_append_msgQueue {maxQueue : ℕ} (hmax : 1 ≤ maxQueue)
    {queueSteps : Queue.Trace JsonObject} {q : Queue.Socket JsonObject}
    (h : Run ((Queue.socket JsonObject maxQueue).within NoReentry) queueSteps q) :
    handled queueSteps ++ q.msgQueue = arrivals queueSteps := by
  obtain ⟨haccounted, -⟩ := Queue.run_accounted hmax h.of_within
  have hlength := haccounted.conserved.length_eq
  rw [Queue.dropped_eq_nil hmax h, List.append_nil] at hlength
  exact haccounted.order.eq_of_length hlength.symm

/-- While a client is connected the steps since its insertion are the last ones. -/
theorem clientWindow_suffix {id : ℕ} {steps : Proxy.Trace}
    (h : clientPeriod id steps = .during) : clientWindow id steps <:+ steps := by
  rw [clientPeriod, period] at h
  rw [clientWindow, window]
  split_ifs at h with hnil hany
  rw [takeWhile_of_not_any _ (Bool.eq_false_iff.mpr hany)]
  exact List.dropWhile_suffix _

theorem clientWindow_isInfix (id : ℕ) (steps : Proxy.Trace) : clientWindow id steps <:+: steps :=
  (List.takeWhile_prefix _).isInfix.trans (List.dropWhile_suffix _).isInfix

section Page

variable {port : ℕ} {M : ProxyModule} {steps : Proxy.Trace} {s : ProxyState} {p : PageSide}

/-- A page can read the first of the objects broadcast while it was connected; and all of them,
when every text is on the wire. -/
theorem PageSide.Connected.pageObjects (hp : p.Connected steps) (hM : (port, M) ∈ proxies)
    (h : Run (proxyBase M.reply) steps s) :
    ∃ os shown, pageObjects p.opening p.connection.wire = some os ∧ List.Forall₂ List.Perm os shown ∧
      shown <+: broadcasts (clientWindow p.id steps) ∧
      (p.AllWritten → shown = broadcasts (clientWindow p.id steps)) := by
  rcases WebSocket.page_receives hp.connection hp.ok hp.size with
    ⟨-, hshort, hpending⟩ | ⟨bytes, frames, rest, hwire, hreceived, hstart, hall⟩
  · exact ⟨[], [], if_pos hshort, .nil, List.nil_prefix,
      fun hwritten ↦ absurd hwritten.pending hpending⟩
  · obtain ⟨os, hos, horders⟩ := objects_of_prefix hM h p.id hp.sent hstart
    have hlong : ¬p.connection.wire.length <
        (WebSocket.Connection.handshake p.opening.hello).flatten.length := by
      rw [hwire, List.length_append]
      omega
    refine ⟨os, _, ?_, horders, List.take_prefix .., fun hwritten ↦ List.take_of_length_le ?_⟩
    · rw [EndToEnd.pageObjects, if_neg hlong, hwire, List.drop_left, hreceived]
      exact hos
    · rw [hall hwritten.pending hwritten.posted hwritten.opened hwritten.live,
        hp.sent.length_eq, sentTo_eq_broadcasts h p.id]

/-- What the page has handled was broadcast in this order, with nothing left out between. -/
theorem PageSide.Follows.handled (hp : p.Follows steps) (hM : (port, M) ∈ proxies)
    (h : Run (proxyBase M.reply) steps s) :
    ∃ shown, List.Forall₂ List.Perm (handled p.queueSteps) shown ∧
      shown <:+: broadcasts steps ∧ (p.CaughtUp steps s → shown <:+ broadcasts steps ∧
        shown = broadcasts (clientWindow p.id steps)) := by
  obtain ⟨maxQueue, hmax, hqueue⟩ := hp.queue
  obtain ⟨os, shown, hos, horders, hshown, hall⟩ := hp.toConnected.pageObjects hM h
  obtain ⟨os', hos', harrivals⟩ := hp.arrivals
  obtain rfl : os' = os := Option.some.inj (hos'.symm.trans hos)
  have hqueued := handled_append_msgQueue hmax hqueue
  obtain ⟨later, rfl⟩ : Queue.handled p.queueSteps <+: os' :=
    (List.prefix_append ..).trans (hqueued ▸ harrivals)
  have hfirst : List.Forall₂ List.Perm (Queue.handled p.queueSteps)
      (shown.take (Queue.handled p.queueSteps).length) :=
    (List.forall₂_take_append _ _ _ horders.flip).flip
  refine ⟨_, hfirst, ?_, fun hcaught ↦ ?_⟩
  · exact ((List.take_prefix ..).trans hshown).isInfix.trans
      ((clientWindow_isInfix p.id steps).filterMap _)
  · have hread := hcaught.arrivals
    rw [hos, Option.some.injEq, ← hqueued] at hread
    have hwaiting : p.queue.msgQueue = [] :=
      ((Queue.run_accounted hmax hqueue.of_within).2.of_frames_nil hcaught.idle).1
    rw [hwaiting] at hread
    have hlength : shown.length ≤ (Queue.handled p.queueSteps).length := by
      rw [← horders.length_eq, hread, List.append_nil]
    rw [List.take_of_length_le hlength, hall hcaught.written]
    exact ⟨(clientWindow_suffix hcaught.connected).filterMap _, rfl⟩

end Page

/-! ## The clients -/

/-- A client of a proxy: its frames, the state that the proxy finds in one and the object that it
makes of it. -/
structure FrameClient (M : ProxyModule) where
  Sample : Type
  frame : Sample → List UInt8
  panel : Sample → M.Field → ℕ
  json : Sample → JsonObject
  length_le : ∀ x, (frame x).length ≤ ProxyState.bufferSize
  getPanelState_frame : ∀ x, getPanelState M.panelState (frame x) = some (.ok (panel x))
  toJson_panel : ∀ x, M.toJson (panel x) = some (json x)

section Client

variable {port : ℕ} {M : ProxyModule} (C : FrameClient M)

theorem FrameClient.answer_frame (x : C.Sample) : answer M.reply (C.frame x) = some (C.json x) := by
  have hreply : M.reply (C.frame x) = some (C.json x) := by
    simp [ProxyModule.reply, ProxyModule.udpPacketToJson, replyWith, C.getPanelState_frame,
      C.toJson_panel]
  have hacc : Accepts M.panelState.size (C.frame x) :=
    exists_getPanelState_iff.mp ⟨_, C.getPanelState_frame x⟩
  have hpos : ¬(C.frame x).length = 0 := by
    have hlen := hacc.1
    omega
  rw [answer, ProxyEvent.reply, List.take_of_length_le (C.length_le x)]
  exact (if_neg hpos).trans hreply

/-- Everything that was sent to the proxy are frames of the client. -/
def FrameClient.SendsAll (tr : SystemTrace) : Prop := ∀ d ∈ sent tr, ∃ x, C.frame x = d

/-- What the page handled are the objects of frames that were delivered one after the other; and
the last ones, when nothing is under way. -/
theorem FrameClient.handled {tr : SystemTrace} {n : Network (List UInt8) ProxyState}
    (hM : (port, M) ∈ proxies) (h : Run (overNetwork M.reply) tr n) (hclient : C.SendsAll tr)
    {p : PageSide} (hp : p.Follows (receiverSteps tr)) :
    ∃ xs : List C.Sample, List.Forall₂ List.Perm (handled p.queueSteps) (xs.map C.json) ∧
      xs.map C.frame <:+: delivered tr ∧
      (p.CaughtUp (receiverSteps tr) n.receiver → xs.map C.frame <:+ delivered tr ∧
        xs.map C.json = broadcasts (clientWindow p.id (receiverSteps tr))) := by
  obtain ⟨shown, horders, hpart, hcaught⟩ := hp.handled hM (run_receiver h)
  obtain ⟨samples, hsamples⟩ : delivered tr ∈ Set.range (List.map C.frame) := by
    rw [Set.range_list_map]
    exact fun d hd ↦ hclient d ((genuine h).2 d hd)
  have hanswers := broadcasts_eq_answers h
  have hjson : (delivered tr).filterMap (answer M.reply) = samples.map C.json := by
    rw [← hsamples, List.filterMap_map]
    exact (List.filterMap_congr fun x _ ↦ C.answer_frame x).trans
      (congrFun List.filterMap_eq_map samples)
  rw [hjson] at hanswers
  rw [← hsamples]
  by_cases hdone : p.CaughtUp (receiverSteps tr) n.receiver
  · obtain ⟨hsuffix, hall⟩ := hcaught hdone
    rw [hdone.udpLoop, List.append_nil] at hanswers
    rw [hanswers] at hsuffix
    obtain ⟨xs, hxs, rfl⟩ := List.suffix_map_iff.mp hsuffix
    exact ⟨xs, horders, (hxs.map C.frame).isInfix, fun _ ↦ ⟨hxs.map C.frame, hall⟩⟩
  · have hshown : shown <:+: samples.map C.json :=
      hanswers ▸ hpart.trans (List.prefix_append ..).isInfix
    obtain ⟨xs, hxs, rfl⟩ := List.infix_map_iff.mp hshown
    exact ⟨xs, horders, hxs.map C.frame, fun hdone' ↦ absurd hdone' hdone⟩

/-- No more frames are shown than were made on the way. -/
theorem coe_le_of_isInfix {tr : SystemTrace} {udpPacketToJson : List UInt8 → Reply}
    {n : Network (List UInt8) ProxyState} (h : Run (overNetwork udpPacketToJson) tr n)
    {ds : List (List UInt8)} (hpart : ds <:+: delivered tr) :
    (ds : Multiset (List UInt8)) ≤ sent tr + duplicated tr :=
  le_trans (Multiset.coe_le.mpr hpart.sublist.subperm) (delivered_le h)

end Client

/-! ## The register display -/

theorem getPanelState_netbsdx64SendFrames (s : Netbsdx64PanelState) (junk : ℕ → UInt8) :
    getPanelState AMD64Proxy.panelState (netbsdx64SendFrames s junk) = some (.ok s.members) :=
  getPanelState_sendFrames .netbsdx64 s.members junk rfl headerInFront_netbsdx64 (by decide)
    embedsIn_netbsdx64PanelPacket rfl (by simp) (fitsPacket_netbsdx64 s)

def netbsdx64Client : FrameClient amd64Proxy where
  Sample := Netbsdx64PanelState × (ℕ → UInt8)
  frame x := netbsdx64SendFrames x.1 x.2
  panel x := x.1.members
  json x := AMD64Proxy.dump x.1.members
  length_le x := (length_sendFrames ..).trans_le (by simp [ProxyState.bufferSize])
  getPanelState_frame x := getPanelState_netbsdx64SendFrames x.1 x.2
  toJson_panel x := AMD64Proxy.toJson_eq fun r ↦ (x.1.psFrame r).isLt

/-- Over any network the register page shows the registers of one of the frames that were sent;
of the last one that was delivered, when nothing is under way behind the network. -/
theorem amd64_page_shows_sent {tr : SystemTrace} {n : Network (List UInt8) ProxyState}
    (h : Run (overNetwork amd64Proxy.reply) tr n) (hclient : netbsdx64Client.SendsAll tr)
    {p : PageSide} (hp : p.Follows (receiverSteps tr)) :
    ∃ (states : List (Netbsdx64PanelState × (ℕ → UInt8))) (page : Amd64.Panel),
      Amd64.runPage (handled p.queueSteps) = .ok page ∧
      Amd64.Displays page ((states.map fun x ↦ x.1.members).getLastD fun _ ↦ 0) ∧
      states.map netbsdx64Client.frame <:+: delivered tr ∧
      (states.map netbsdx64Client.frame : Multiset (List UInt8)) ≤ sent tr + duplicated tr ∧
      (p.CaughtUp (receiverSteps tr) n.receiver →
        states.map netbsdx64Client.frame <:+ delivered tr ∧
          states.length = (broadcasts (clientWindow p.id (receiverSteps tr))).length) := by
  have hM : (4001, amd64Proxy) ∈ proxies := List.mem_of_getElem? (i := 1) rfl
  obtain ⟨states, horders, hpart, hcaught⟩ := netbsdx64Client.handled hM h hclient hp
  have hmessages : List.Forall₂
      (fun panel o ↦ (∀ r, panel r < 2 ^ 64) ∧ o.Perm (AMD64Proxy.dump panel))
      (states.map fun x ↦ x.1.members) (handled p.queueSteps) := by
    rw [List.forall₂_map_left_iff]
    rw [List.forall₂_map_right_iff] at horders
    exact horders.flip.imp fun x o hperm ↦ ⟨fun r ↦ (x.1.psFrame r).isLt, hperm⟩
  obtain ⟨page₀, hinit, hpage₀⟩ := Amd64.initializePanel_spec
  obtain ⟨page, hrun, hpage⟩ :=
    Amd64.foldlM_updatePanelState hmessages (fun _ ↦ by norm_num) hpage₀
  refine ⟨states, page, ?_, hpage, hpart, coe_le_of_isInfix h hpart, fun hdone ↦ ?_⟩
  · rw [Amd64.runPage, hinit]
    exact hrun
  · obtain ⟨hsuffix, hall⟩ := hcaught hdone
    exact ⟨hsuffix, (List.length_map ..).symm.trans (congrArg List.length hall)⟩

/-- The socket takes the handshake and each frame at once. -/
def atOnce : Opening := ⟨[], 1000, true⟩

def twoTexts (text text' : List UInt8) : List WebSocket.ConnectionEvent :=
  [.writeDone, .sendText text, .sendText text', .runTask, .runTask, .writeDone]

def WritesAll (text text' : List UInt8) : Prop :=
  ((connection atOnce).replay (.start atOnce) (twoTexts text text')).map (fun r ↦
    decide ((r.2.posted = [] ∧ r.2.stream.pending = [] ∧ r.2.hasSentClose = false ∧
      r.2.deleted = false) ∧ ∀ f ∈ r.2.frames, f.payload.length < 2 ^ 63)) = some true

def textOf (o : JsonObject) : List UInt8 := utf8 (wvalueOfObject o).dump

theorem connected_twoTexts {o o' : JsonObject} (hwrites : WritesAll (textOf o) (textOf o'))
    {steps : Proxy.Trace} (hsteps : sentTo 0 steps = [o, o']) :
    ∃ tr c, ∀ queueSteps queue,
      PageSide.Connected ⟨0, atOnce, tr, c, queueSteps, queue⟩ steps ∧
        PageSide.AllWritten ⟨0, atOnce, tr, c, queueSteps, queue⟩ := by
  obtain ⟨⟨tr, c⟩, htr, hfacts⟩ := Option.map_eq_some_iff.mp hwrites
  obtain ⟨⟨hposted, hpending, hopened, hlive⟩, hsize⟩ := of_decide_eq_true hfacts
  have hevents : tr.map Prod.fst = twoTexts (textOf o) (textOf o') := map_fst_replay htr
  refine ⟨tr, c, fun queueSteps queue ↦ ⟨⟨Run.replay .start htr, ?_, fun e he ↦ ?_, hsize⟩,
    hposted, hpending, hopened, hlive⟩⟩
  · have hsent : sentTexts tr = (twoTexts (textOf o) (textOf o')).flatMap WebSocket.sentBy := by
      rw [← hevents, List.flatMap_map]
      rfl
    change List.Forall₂ SentAs (sentTexts tr) (sentTo 0 steps)
    rw [hsent, hsteps]
    exact .cons ⟨o, .refl _, rfl⟩ (.cons ⟨o', .refl _, rfl⟩ .nil)
  · have hmem : e.1 ∈ twoTexts (textOf o) (textOf o') := hevents ▸ List.mem_map_of_mem he
    intro heq
    simp [heq, twoTexts] at hmem

/-- A page that has handled the two objects that were broadcast. -/
theorem exists_caughtUp {port : ℕ} {M : ProxyModule} (hM : (port, M) ∈ proxies)
    {steps : Proxy.Trace} {s : ProxyState} (h : Run (proxyBase M.reply) steps s)
    {o o' : JsonObject} (hsteps : sentTo 0 steps = [o, o'])
    (hperiod : clientPeriod 0 steps = .during) (hpending : s.udpLoop.pending = [])
    (hwrites : WritesAll (textOf o) (textOf o')) :
    ∃ p : PageSide, p.Follows steps ∧ p.CaughtUp steps s ∧
      broadcasts (clientWindow p.id steps) = [o, o'] ∧
      ∃ shown shown', handled p.queueSteps = [shown, shown'] := by
  obtain ⟨connectionSteps, c, hconnected⟩ := connected_twoTexts hwrites hsteps
  obtain ⟨os, shown, hos, horders, -, hall⟩ :=
    (hconnected [] (Queue.socket JsonObject 1).initial).1.pageObjects hM h
  have hwindow : broadcasts (clientWindow 0 steps) = [o, o'] := by
    rw [← sentTo_eq_broadcasts h 0]
    exact hsteps
  rw [hall (hconnected _ _).2, hwindow] at horders
  obtain ⟨a, rest, -, hrest, rfl⟩ := List.forall₂_cons_right_iff.mp horders
  obtain ⟨a', rest', -, hnil, rfl⟩ := List.forall₂_cons_right_iff.mp hrest
  obtain rfl := List.forall₂_nil_right_iff.mp hnil
  obtain ⟨queueSteps, q, hqueue, harrivals, hhandled, hframes⟩ : ∃ queueSteps q,
      ((Queue.socket JsonObject 1).within NoReentry).replay (Queue.socket JsonObject 1).initial
          [.enqueue a, .loop, .finish (.returned true), .loop, .enqueue a', .loop,
            .finish (.returned true), .loop] = some (queueSteps, q) ∧
        arrivals queueSteps = [a, a'] ∧ handled queueSteps = [a, a'] ∧ q.frames = [] :=
    ⟨_, _, rfl, rfl, rfl, rfl⟩
  obtain ⟨hconnected, hwritten⟩ := hconnected queueSteps q
  exact ⟨_, ⟨hconnected, ⟨1, le_rfl, Run.replay .start hqueue⟩, [a, a'], hos,
    harrivals ▸ List.prefix_rfl⟩, ⟨hperiod, hpending, hwritten, harrivals ▸ hos, hframes⟩,
    hwindow, a, a', hhandled⟩

/-- Two datagrams pass the network and the proxy, and the page handles their objects. -/
theorem exists_system {port : ℕ} {M : ProxyModule} (hM : (port, M) ∈ proxies) (C : FrameClient M)
    (x x' : C.Sample) (harrives : Arrives M (C.frame x) (C.frame x') (C.json x) (C.json x'))
    (hwrites : WritesAll (textOf (C.json x')) (textOf (C.json x))) :
    ∃ tr n, ∃ p : PageSide, ∃ o o',
      (overNetwork M.reply).replay ⟨0, .start⟩ (lossyEvents (C.frame x) (C.frame x')) =
          some (tr, n) ∧
      Run (overNetwork M.reply) tr n ∧ sent tr = [C.frame x, C.frame x'] ∧
      p.Follows (receiverSteps tr) ∧ p.CaughtUp (receiverSteps tr) n.receiver ∧
      handled p.queueSteps = [o, o'] ∧ delivered tr = [C.frame x', C.frame x] ∧
      (broadcasts (clientWindow p.id (receiverSteps tr))).length = 2 := by
  obtain ⟨tr, n, htr, hsent, hdelivered, hsentTo, hperiod, hpending⟩ := exists_of_arrives harrives
  have hrun : Run (overNetwork M.reply) tr n := Run.replay .start htr
  obtain ⟨p, hfollows, hcaught, hwindow, o, o', ho⟩ :=
    exists_caughtUp hM (run_receiver hrun) hsentTo hperiod hpending hwrites
  exact ⟨tr, n, p, o, o', htr, hrun, hsent, hfollows, hcaught, ho, hdelivered,
    congrArg List.length hwindow⟩

theorem FrameClient.sendsAll_pair {M : ProxyModule} {C : FrameClient M} {tr : SystemTrace}
    {x x' : C.Sample} (hsent : sent tr = [C.frame x, C.frame x']) : C.SendsAll tr := by
  intro d hd
  rw [hsent] at hd
  rcases List.mem_pair.mp hd with rfl | rfl
  · exact ⟨x, rfl⟩
  · exact ⟨x', rfl⟩

/-- The latest two states of the page are those that were delivered. -/
theorem panels_of_delivered {M : ProxyModule} (C : FrameClient M) {xs : List C.Sample}
    {x x' : C.Sample} {ds : List (List UInt8)} (hds : ds = [C.frame x', C.frame x])
    (hsuffix : xs.map C.frame <:+ ds) (hlength : xs.length = 2) :
    xs.map C.panel = [C.panel x', C.panel x] := by
  have hframes : xs.map C.frame = [x', x].map C.frame := by
    rw [hds] at hsuffix
    exact hsuffix.eq_of_length ((List.length_map ..).trans hlength)
  have hpanels := congrArg (List.map (getPanelState M.panelState)) hframes
  simp only [List.map_map, Function.comp_def, C.getPanelState_frame] at hpanels
  have hinjective : Function.Injective fun panel : M.Field → ℕ ↦
      (some (.ok panel) : Option (Except Rejection (M.Field → ℕ))) := by
    intro panel panel' heq
    exact Except.ok.inj (Option.some.inj heq)
  apply hinjective.list_map
  rw [List.map_map]
  exact hpanels

def ripSample : netbsdx64Client.Sample := (ripState, fun _ ↦ 0)

def raxSample : netbsdx64Client.Sample := (raxState, fun _ ↦ 0)

theorem amd64_page_shows_sent_rip :
    ∃ (tr : SystemTrace) (n : Network (List UInt8) ProxyState) (p : PageSide) (page : Amd64.Panel),
      (overNetwork amd64Proxy.reply).replay ⟨0, .start⟩
          (lossyEvents (netbsdx64Client.frame ripSample) (netbsdx64Client.frame raxSample)) =
        some (tr, n) ∧
      p.CaughtUp (receiverSteps tr) n.receiver ∧
      Amd64.runPage (handled p.queueSteps) = .ok page ∧ Amd64.Displays page ripState.members := by
  have harrives : Arrives amd64Proxy (netbsdx64Client.frame ripSample)
      (netbsdx64Client.frame raxSample) (netbsdx64Client.json ripSample)
      (netbsdx64Client.json raxSample) := by
    unfold Arrives
    decide +kernel
  have hwrites : WritesAll (textOf (netbsdx64Client.json raxSample))
      (textOf (netbsdx64Client.json ripSample)) := by
    unfold WritesAll
    decide +kernel
  have hM : (4001, amd64Proxy) ∈ proxies := List.mem_of_getElem? (i := 1) rfl
  obtain ⟨tr, n, p, o, o', htr, hrun, hsent, hfollows, hcaught, -, hdelivered, htwo⟩ :=
    exists_system hM netbsdx64Client ripSample raxSample harrives hwrites
  obtain ⟨states, page, hpage, hdisplays, -, -, hdone⟩ :=
    amd64_page_shows_sent hrun (FrameClient.sendsAll_pair hsent) hfollows
  obtain ⟨hsuffix, hlength⟩ := hdone hcaught
  have hpanels := panels_of_delivered netbsdx64Client hdelivered hsuffix (hlength.trans htwo)
  have hstates : states.map (fun x ↦ x.1.members) = [raxState.members, ripState.members] := hpanels
  rw [hstates] at hdisplays
  exact ⟨tr, n, p, page, htr, hcaught, hpage, hdisplays⟩

end VPanel.EndToEnd
