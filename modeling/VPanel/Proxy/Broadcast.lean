import Mathlib.Data.Finset.Sort
import VPanel.Library.EventRun
import VPanel.Proxy.Modules

/-!
# The broadcast of a proxy

The callbacks of the WebSocket server and the UDP thread share a set of
pointers to connections.  Each section under the mutex is one step; the steps
of the server's threads and of the UDP thread come in any order.  The server
constructs and destroys the connections, and may use an address again.
-/

namespace VPanel.Proxy

open EventRun

/-- A connection object.  `phase` tells whether its `onopen` was called, and
whether an `onclose` or `onerror` was. -/
structure Connection where
  id : ℕ
  addr : ℕ
  phase : Period
  deriving DecidableEq

/-- Where the UDP thread stands: at the head of its loop, before the section
that sends a text, or behind the loop. -/
inductive UdpLoop
  | receiving
  | sending (json : JsonObject)
  | ended
  deriving DecidableEq

structure ProxyState where
  wsClients : Finset ℕ
  udpLoop : UdpLoop
  connections : List Connection
  accepted : ℕ
  deriving DecidableEq

namespace ProxyState

variable (s : ProxyState)

def start : ProxyState := ⟨∅, .receiving, [], 0⟩

/-! ## Connections -/

def find (id : ℕ) : Option Connection := s.connections.find? (·.id = id)

def setPhase (id : ℕ) (phase : Period) : ProxyState :=
  { s with connections := s.connections.map fun c ↦ if c.id = id then { c with phase } else c }

def accept (addr : ℕ) : Option ProxyState :=
  if addr ∈ s.connections.map Connection.addr then none
  else some { s with connections := ⟨s.accepted, addr, .before⟩ :: s.connections,
                     accepted := s.accepted + 1 }

def onopen (id : ℕ) : Option ProxyState := do
  let c ← s.find id
  if c.phase = .before then
    some { s.setPhase id .during with wsClients := insert c.addr s.wsClients }
  else none

/-- The callback, which the server calls only after `onopen`. -/
def onclose (id : ℕ) : Option ProxyState := do
  let c ← s.find id
  if c.phase = .before then none
  else some { s.setPhase id .past with wsClients := s.wsClients.erase c.addr }

/-- A callback that throws in `get_remote_ip` does not come to its section, and is no event. -/
def onerror (id : ℕ) : Option ProxyState := s.onclose id

/-- The server destroys a connection that was never open or has been closed.  (Where `onopen`
throws behind its section, the object goes without a callback; that is no event either.) -/
def destroy (id : ℕ) : Option ProxyState := do
  let c ← s.find id
  if c.phase = .during then none
  else some { s with connections := s.connections.filter fun c ↦ ¬c.id = id }

/-! ## The UDP thread -/

inductive Recv
  | again
  | error
  | datagram (data : List UInt8)
  deriving DecidableEq

/-- `buffer.size()`. -/
def bufferSize : ℕ := 2048

/-- One round of the loop up to the section that sends. -/
def recv (udpPacketToJson : List UInt8 → Reply) (r : Recv) : Option ProxyState :=
  if s.udpLoop ≠ .receiving then none
  else
    match r with
    | .again => some s
    | .error => some { s with udpLoop := .ended }
    | .datagram data =>
        let received := data.take bufferSize
        if received.length = 0 then some s
        else
          match udpPacketToJson received with
          | none => some s
          | some json => some { s with udpLoop := .sending json }

/-- `stop_requested` is seen at the head of the loop. -/
def stop : Option ProxyState :=
  if s.udpLoop ≠ .receiving then none else some { s with udpLoop := .ended }

def deref (addr : ℕ) : Option ℕ := (s.connections.find? (·.addr = addr)).map Connection.id

/-- The connections `send_text` is called on, in the order of the set. -/
def receivers : List (Option ℕ) := (s.wsClients.sort (· ≤ ·)).map s.deref

end ProxyState

/-! ## Runs -/

open ProxyState (Recv)

inductive ProxyEvent
  | accept (addr : ℕ)
  | onopen (id : ℕ)
  | onclose (id : ℕ)
  | onerror (id : ℕ)
  | destroy (id : ℕ)
  | recv (r : Recv)
  | broadcast
  | stop
  deriving DecidableEq

/-- A text and the connections it was sent to; `none` is a pointer to no object. -/
abbrev Sent := Option (JsonObject × List (Option ℕ))

def ProxyState.step (udpPacketToJson : List UInt8 → Reply) (s : ProxyState) :
    ProxyEvent → Option (ProxyState × Sent)
  | .accept addr => (s.accept addr).map (·, none)
  | .onopen id => (s.onopen id).map (·, none)
  | .onclose id => (s.onclose id).map (·, none)
  | .onerror id => (s.onerror id).map (·, none)
  | .destroy id => (s.destroy id).map (·, none)
  | .recv r => (s.recv udpPacketToJson r).map (·, none)
  | .broadcast =>
      match s.udpLoop with
      | .sending json => some ({ s with udpLoop := .receiving }, some (json, s.receivers))
      | _ => none
  | .stop => s.stop.map (·, none)

/-- The proxy whose class has the given `udp_packet_to_json`. -/
def proxyBase (udpPacketToJson : List UInt8 → Reply) : Machine ProxyState ProxyEvent Sent where
  initial := .start
  step := ProxyState.step udpPacketToJson

abbrev Trace := List (ProxyEvent × Sent)

def broadcasts (tr : Trace) : List JsonObject := tr.filterMap fun x ↦ x.2.map Prod.fst

def sentTo (id : ℕ) (tr : Trace) : List JsonObject :=
  tr.flatMap fun x ↦ match x.2 with
    | some (json, receivers) => List.replicate (receivers.count (some id)) json
    | none => []

/-- The result for the datagram of an event, unless it is empty or rejected. -/
def ProxyEvent.reply (udpPacketToJson : List UInt8 → Reply) : ProxyEvent → Reply
  | .recv (.datagram data) =>
      let received := data.take ProxyState.bufferSize
      if received.length = 0 then none else udpPacketToJson received
  | _ => none

/-- The buffer holds all that a proxy of `main.cpp` looks at in a datagram. -/
theorem reply_recv {port : ℕ} {M : ProxyModule} (hM : (port, M) ∈ proxies) {data : List UInt8}
    (hdata : data ≠ []) : (ProxyEvent.recv (.datagram data)).reply M.reply = M.reply data := by
  have hsize : 6 + M.panelState.size ≤ ProxyState.bufferSize := by
    simp only [proxies, List.mem_cons, Prod.mk.injEq, List.not_mem_nil, or_false] at hM
    rcases hM with ⟨-, rfl⟩ | ⟨-, rfl⟩ | ⟨-, rfl⟩ <;> exact Nat.le_of_ble_eq_true rfl
  have hlength : (data.take ProxyState.bufferSize).length ≠ 0 := by
    have hpos := List.length_pos_iff.mpr hdata
    rw [List.length_take, ProxyState.bufferSize]
    omega
  exact (if_neg hlength).trans (M.reply_take hsize data)

def replies (udpPacketToJson : List UInt8 → Reply) (tr : Trace) : List JsonObject :=
  tr.filterMap fun x ↦ x.1.reply udpPacketToJson

def UdpLoop.pending : UdpLoop → List JsonObject
  | .sending json => [json]
  | _ => []

def inserts (id : ℕ) (x : ProxyEvent × Sent) : Bool := x.1 = .onopen id

def removes (id : ℕ) (x : ProxyEvent × Sent) : Bool := x.1 = .onclose id ∨ x.1 = .onerror id

def clientPeriod (id : ℕ) (tr : Trace) : Period := period (inserts id) (removes id) tr

/-- The steps between the insertion and the first removal of a connection. -/
def clientWindow (id : ℕ) (tr : Trace) : Trace := window (inserts id) (removes id) tr

/-! ## What a step can do -/

namespace ProxyState

variable {udpPacketToJson : List UInt8 → Reply} {s t : ProxyState} {sent : Sent}

theorem find_eq_some {id : ℕ} {c : Connection} (h : s.find id = some c) :
    c ∈ s.connections ∧ c.id = id :=
  ⟨List.mem_of_find?_eq_some h, by simpa using List.find?_some h⟩

theorem step_accept {addr : ℕ} (h : s.step udpPacketToJson (.accept addr) = some (t, sent)) :
    addr ∉ s.connections.map Connection.addr ∧ sent = none ∧
      t = { s with connections := ⟨s.accepted, addr, .before⟩ :: s.connections,
                   accepted := s.accepted + 1 } := by
  obtain ⟨haccept, rfl⟩ := eq_of_map_output h
  obtain ⟨hfree, ht⟩ := Option.ite_none_left_eq_some.mp haccept
  exact ⟨hfree, rfl, (Option.some.inj ht).symm⟩

theorem step_onopen {id : ℕ} (h : s.step udpPacketToJson (.onopen id) = some (t, sent)) :
    ∃ c ∈ s.connections, c.id = id ∧ c.phase = .before ∧ sent = none ∧
      t = { s.setPhase id .during with wsClients := insert c.addr s.wsClients } := by
  obtain ⟨hopen, rfl⟩ := eq_of_map_output h
  obtain ⟨c, hfind, hc⟩ := Option.bind_eq_some_iff.mp hopen
  obtain ⟨hphase, ht⟩ := Option.ite_none_right_eq_some.mp hc
  exact ⟨c, (find_eq_some hfind).1, (find_eq_some hfind).2, hphase, rfl, (Option.some.inj ht).symm⟩

theorem step_remove {id : ℕ} {e : ProxyEvent} (he : e = .onclose id ∨ e = .onerror id)
    (h : s.step udpPacketToJson e = some (t, sent)) :
    ∃ c ∈ s.connections, c.id = id ∧ c.phase ≠ .before ∧ sent = none ∧
      t = { s.setPhase id .past with wsClients := s.wsClients.erase c.addr } := by
  have h' : (s.onclose id).map (·, none) = some (t, sent) := by
    rcases he with rfl | rfl <;> exact h
  obtain ⟨hclose, rfl⟩ := eq_of_map_output h'
  obtain ⟨c, hfind, hc⟩ := Option.bind_eq_some_iff.mp hclose
  obtain ⟨hphase, ht⟩ := Option.ite_none_left_eq_some.mp hc
  exact ⟨c, (find_eq_some hfind).1, (find_eq_some hfind).2, hphase, rfl, (Option.some.inj ht).symm⟩

theorem step_destroy {id : ℕ} (h : s.step udpPacketToJson (.destroy id) = some (t, sent)) :
    ∃ c ∈ s.connections, c.id = id ∧ c.phase ≠ .during ∧ sent = none ∧
      t = { s with connections := s.connections.filter fun c ↦ ¬c.id = id } := by
  obtain ⟨hdestroy, rfl⟩ := eq_of_map_output h
  obtain ⟨c, hfind, hc⟩ := Option.bind_eq_some_iff.mp hdestroy
  obtain ⟨hphase, ht⟩ := Option.ite_none_left_eq_some.mp hc
  exact ⟨c, (find_eq_some hfind).1, (find_eq_some hfind).2, hphase, rfl, (Option.some.inj ht).symm⟩

theorem recv_spec {r : Recv} (h : s.recv udpPacketToJson r = some t) :
    (∃ u, t = { s with udpLoop := u }) ∧ s.udpLoop.pending = [] ∧
      t.udpLoop.pending = ((ProxyEvent.recv r).reply udpPacketToJson).toList := by
  obtain ⟨hloop, hr⟩ := Option.ite_none_left_eq_some.mp h
  have hreceiving : s.udpLoop = .receiving := not_not.mp hloop
  rw [hreceiving]
  cases r with
  | again =>
      obtain rfl := Option.some.inj hr
      exact ⟨⟨_, rfl⟩, rfl, by rw [hreceiving]; rfl⟩
  | error =>
      obtain rfl := Option.some.inj hr
      exact ⟨⟨_, rfl⟩, rfl, rfl⟩
  | datagram data =>
      simp only at hr
      rw [ProxyEvent.reply]
      split at hr
      next hempty =>
        obtain rfl := Option.some.inj hr
        rw [if_pos hempty, hreceiving]
        exact ⟨⟨_, rfl⟩, rfl, rfl⟩
      next hempty =>
        rw [if_neg hempty]
        split at hr
        next hreply =>
          obtain rfl := Option.some.inj hr
          rw [hreply, hreceiving]
          exact ⟨⟨_, rfl⟩, rfl, rfl⟩
        next json hreply =>
          obtain rfl := Option.some.inj hr
          rw [hreply]
          exact ⟨⟨_, rfl⟩, rfl, rfl⟩

theorem step_broadcast (h : s.step udpPacketToJson .broadcast = some (t, sent)) :
    ∃ json, s.udpLoop = .sending json ∧ t = { s with udpLoop := .receiving } ∧
      sent = some (json, s.receivers) := by
  rw [step] at h
  split at h
  next json hloop =>
    obtain ⟨rfl, rfl⟩ : _ = t ∧ _ = sent := by simpa using h
    exact ⟨json, hloop, rfl, rfl⟩
  next => cases h

theorem step_stop (h : s.step udpPacketToJson .stop = some (t, sent)) :
    s.udpLoop = .receiving ∧ t = { s with udpLoop := .ended } ∧ sent = none := by
  obtain ⟨hstop, rfl⟩ := eq_of_map_output h
  obtain ⟨hloop, ht⟩ := Option.ite_none_left_eq_some.mp hstop
  exact ⟨not_not.mp hloop, (Option.some.inj ht).symm, rfl⟩

structure UdpStep (s : ProxyState) (e : ProxyEvent) (t : ProxyState) (sent : Sent) : Prop where
  state : ∃ u, t = { s with udpLoop := u }
  texts : sent = none ∨ ∃ json, sent = some (json, s.receivers)
  noCallback : ∀ id, inserts id (e, sent) = false ∧ removes id (e, sent) = false

theorem step_cases {e : ProxyEvent} (h : s.step udpPacketToJson e = some (t, sent)) :
    (∃ addr, e = .accept addr ∧ addr ∉ s.connections.map Connection.addr ∧ sent = none ∧
      t = { s with connections := ⟨s.accepted, addr, .before⟩ :: s.connections,
                   accepted := s.accepted + 1 }) ∨
    (∃ c ∈ s.connections, e = .onopen c.id ∧ c.phase = .before ∧ sent = none ∧
      t = { s.setPhase c.id .during with wsClients := insert c.addr s.wsClients }) ∨
    (∃ c ∈ s.connections, (e = .onclose c.id ∨ e = .onerror c.id) ∧ c.phase ≠ .before ∧
      sent = none ∧ t = { s.setPhase c.id .past with wsClients := s.wsClients.erase c.addr }) ∨
    (∃ c ∈ s.connections, e = .destroy c.id ∧ c.phase ≠ .during ∧ sent = none ∧
      t = { s with connections := s.connections.filter fun d ↦ ¬d.id = c.id }) ∨
    s.UdpStep e t sent := by
  cases e with
  | accept addr => exact Or.inl ⟨addr, rfl, step_accept h⟩
  | onopen id =>
      obtain ⟨c, hc, rfl, hstep⟩ := step_onopen h
      exact Or.inr (Or.inl ⟨c, hc, rfl, hstep⟩)
  | onclose id =>
      obtain ⟨c, hc, rfl, hstep⟩ := step_remove (.inl rfl) h
      exact Or.inr (Or.inr (Or.inl ⟨c, hc, .inl rfl, hstep⟩))
  | onerror id =>
      obtain ⟨c, hc, rfl, hstep⟩ := step_remove (.inr rfl) h
      exact Or.inr (Or.inr (Or.inl ⟨c, hc, .inr rfl, hstep⟩))
  | destroy id =>
      obtain ⟨c, hc, rfl, hstep⟩ := step_destroy h
      exact Or.inr (Or.inr (Or.inr (Or.inl ⟨c, hc, rfl, hstep⟩)))
  | recv r =>
      obtain ⟨hrecv, rfl⟩ := eq_of_map_output h
      exact Or.inr (Or.inr (Or.inr (Or.inr ⟨(recv_spec hrecv).1, .inl rfl, fun _ ↦ ⟨rfl, rfl⟩⟩)))
  | broadcast =>
      obtain ⟨json, -, ht, hsent⟩ := step_broadcast h
      exact Or.inr (Or.inr (Or.inr (Or.inr ⟨⟨_, ht⟩, .inr ⟨json, hsent⟩, fun _ ↦ ⟨rfl, rfl⟩⟩)))
  | stop =>
      obtain ⟨-, ht, hsent⟩ := step_stop h
      exact Or.inr (Or.inr (Or.inr (Or.inr ⟨⟨_, ht⟩, .inl hsent, fun _ ↦ ⟨rfl, rfl⟩⟩)))

theorem step_pending {e : ProxyEvent} (h : s.step udpPacketToJson e = some (t, sent)) :
    (sent.map Prod.fst).toList ++ t.udpLoop.pending =
      s.udpLoop.pending ++ (e.reply udpPacketToJson).toList := by
  cases e with
  | accept addr =>
      obtain ⟨-, rfl, rfl⟩ := step_accept h
      simp [ProxyEvent.reply]
  | onopen id =>
      obtain ⟨c, -, -, -, rfl, rfl⟩ := step_onopen h
      simp [ProxyEvent.reply, setPhase]
  | onclose id =>
      obtain ⟨c, -, -, -, rfl, rfl⟩ := step_remove (.inl rfl) h
      simp [ProxyEvent.reply, setPhase]
  | onerror id =>
      obtain ⟨c, -, -, -, rfl, rfl⟩ := step_remove (.inr rfl) h
      simp [ProxyEvent.reply, setPhase]
  | destroy id =>
      obtain ⟨c, -, -, -, rfl, rfl⟩ := step_destroy h
      simp [ProxyEvent.reply]
  | recv r =>
      obtain ⟨hrecv, rfl⟩ := eq_of_map_output h
      obtain ⟨-, hs, ht⟩ := recv_spec hrecv
      rw [hs, ht]
      rfl
  | broadcast =>
      obtain ⟨json, hloop, rfl, rfl⟩ := step_broadcast h
      rw [hloop]
      rfl
  | stop =>
      obtain ⟨hloop, rfl, rfl⟩ := step_stop h
      rw [hloop]
      rfl

/-! ## The set of clients -/

/-- Connections are told apart by identity and by address, and the set holds
the addresses of those that are open. -/
structure Consistent (s : ProxyState) : Prop where
  ids : (s.connections.map Connection.id).Nodup
  addrs : (s.connections.map Connection.addr).Nodup
  fresh : ∀ c ∈ s.connections, c.id < s.accepted
  clients : ∀ a, a ∈ s.wsClients ↔ ∃ c ∈ s.connections, c.addr = a ∧ c.phase = .during

theorem mem_setPhase {id : ℕ} {phase : Period} {d : Connection} :
    d ∈ (s.setPhase id phase).connections ↔
      (∃ c ∈ s.connections, c.id = id ∧ d = { c with phase }) ∨
        d ∈ s.connections ∧ d.id ≠ id := by
  rw [setPhase, List.mem_map]
  constructor
  · rintro ⟨c, hc, rfl⟩
    split
    next hid => exact Or.inl ⟨c, hc, hid, rfl⟩
    next hid => exact Or.inr ⟨hc, hid⟩
  · rintro (⟨c, hc, hid, rfl⟩ | ⟨hd, hid⟩)
    · exact ⟨c, hc, if_pos hid⟩
    · exact ⟨d, hd, if_neg hid⟩

theorem map_id_setPhase (id : ℕ) (phase : Period) :
    (s.setPhase id phase).connections.map Connection.id = s.connections.map Connection.id := by
  rw [setPhase, List.map_map]
  exact List.map_congr_left fun c _ ↦ by rw [Function.comp_apply]; split <;> rfl

theorem map_addr_setPhase (id : ℕ) (phase : Period) :
    (s.setPhase id phase).connections.map Connection.addr =
      s.connections.map Connection.addr := by
  rw [setPhase, List.map_map]
  exact List.map_congr_left fun c _ ↦ by rw [Function.comp_apply]; split <;> rfl

theorem Consistent.eq_of_id (hs : s.Consistent) {c d : Connection} (hc : c ∈ s.connections)
    (hd : d ∈ s.connections) (hid : c.id = d.id) : c = d :=
  List.inj_on_of_nodup_map hs.ids hc hd hid

theorem Consistent.eq_of_addr (hs : s.Consistent) {c d : Connection} (hc : c ∈ s.connections)
    (hd : d ∈ s.connections) (haddr : c.addr = d.addr) : c = d :=
  List.inj_on_of_nodup_map hs.addrs hc hd haddr

theorem Consistent.accept (hs : s.Consistent) {addr : ℕ}
    (hfree : addr ∉ s.connections.map Connection.addr) :
    Consistent { s with connections := ⟨s.accepted, addr, .before⟩ :: s.connections,
                        accepted := s.accepted + 1 } where
  ids := by
    rw [List.map_cons, List.nodup_cons]
    refine ⟨fun hmem ↦ ?_, hs.ids⟩
    obtain ⟨c, hc, hid⟩ := List.mem_map.mp hmem
    exact absurd (hs.fresh c hc) (by rw [hid]; exact Nat.lt_irrefl _)
  addrs := List.nodup_cons.mpr ⟨hfree, hs.addrs⟩
  fresh := by
    intro c hc
    rcases List.mem_cons.mp hc with rfl | hc
    · exact Nat.lt_succ_self _
    · exact Nat.lt_succ_of_lt (hs.fresh c hc)
  clients := by
    intro a
    rw [hs.clients a]
    constructor
    · rintro ⟨c, hc, hcase⟩
      exact ⟨c, List.mem_cons_of_mem _ hc, hcase⟩
    · rintro ⟨c, hc, haddr, hphase⟩
      rcases List.mem_cons.mp hc with rfl | hc
      · cases hphase
      · exact ⟨c, hc, haddr, hphase⟩

theorem Consistent.setPhase (hs : s.Consistent) (id : ℕ) (phase : Period) {clients : Finset ℕ}
    (hclients : ∀ a, a ∈ clients ↔
      ∃ c ∈ (s.setPhase id phase).connections, c.addr = a ∧ c.phase = .during) :
    Consistent { s.setPhase id phase with wsClients := clients } where
  ids := by rw [map_id_setPhase]; exact hs.ids
  addrs := by rw [map_addr_setPhase]; exact hs.addrs
  fresh := by
    intro d hd
    rcases mem_setPhase.mp hd with ⟨c, hc, -, rfl⟩ | ⟨hd, -⟩
    · exact hs.fresh c hc
    · exact hs.fresh d hd
  clients := hclients

theorem Consistent.onopen (hs : s.Consistent) {c : Connection} (hc : c ∈ s.connections)
    (hphase : c.phase = .before) :
    Consistent { s.setPhase c.id .during with wsClients := insert c.addr s.wsClients } := by
  apply hs.setPhase c.id .during
  intro a
  rw [Finset.mem_insert, hs.clients a]
  constructor
  · rintro (rfl | ⟨d, hd, haddr, hduring⟩)
    · exact ⟨{ c with phase := .during }, mem_setPhase.mpr (.inl ⟨c, hc, rfl, rfl⟩), rfl, rfl⟩
    · refine ⟨d, mem_setPhase.mpr (.inr ⟨hd, fun hid ↦ ?_⟩), haddr, hduring⟩
      rw [hs.eq_of_id hd hc hid, hphase] at hduring
      cases hduring
  · rintro ⟨d, hd, haddr, hduring⟩
    rcases mem_setPhase.mp hd with ⟨c', hc', hid, rfl⟩ | ⟨hd, -⟩
    · rw [hs.eq_of_id hc' hc hid] at haddr
      exact Or.inl haddr.symm
    · exact Or.inr ⟨d, hd, haddr, hduring⟩

theorem Consistent.remove (hs : s.Consistent) {c : Connection} (hc : c ∈ s.connections) :
    Consistent { s.setPhase c.id .past with wsClients := s.wsClients.erase c.addr } := by
  apply hs.setPhase c.id .past
  intro a
  rw [Finset.mem_erase, hs.clients a]
  constructor
  · rintro ⟨hne, d, hd, haddr, hduring⟩
    refine ⟨d, mem_setPhase.mpr (.inr ⟨hd, fun hid ↦ hne ?_⟩), haddr, hduring⟩
    rw [← haddr, hs.eq_of_id hd hc hid]
  · rintro ⟨d, hd, haddr, hduring⟩
    rcases mem_setPhase.mp hd with ⟨c', -, -, rfl⟩ | ⟨hd, hid⟩
    · cases hduring
    · refine ⟨fun heq ↦ hid ?_, d, hd, haddr, hduring⟩
      rw [hs.eq_of_addr hd hc (haddr.trans heq)]

theorem Consistent.destroy (hs : s.Consistent) {c : Connection} (hc : c ∈ s.connections)
    (hphase : c.phase ≠ .during) :
    Consistent { s with connections := s.connections.filter fun d ↦ ¬d.id = c.id } where
  ids := (List.filter_sublist.map _).nodup hs.ids
  addrs := (List.filter_sublist.map _).nodup hs.addrs
  fresh := fun d hd ↦ hs.fresh d (List.mem_of_mem_filter hd)
  clients := by
    intro a
    rw [hs.clients a]
    constructor
    · rintro ⟨d, hd, haddr, hduring⟩
      refine ⟨d, List.mem_filter.mpr ⟨hd, ?_⟩, haddr, hduring⟩
      have hid : d.id ≠ c.id := fun hid ↦ hphase (by rw [← hs.eq_of_id hd hc hid, hduring])
      simpa using hid
    · rintro ⟨d, hd, hcase⟩
      exact ⟨d, List.mem_of_mem_filter hd, hcase⟩

theorem Consistent.step (hs : s.Consistent) {e : ProxyEvent}
    (h : s.step udpPacketToJson e = some (t, sent)) : t.Consistent := by
  rcases step_cases h with ⟨addr, -, hfree, -, rfl⟩ | ⟨c, hc, -, hphase, -, rfl⟩ |
      ⟨c, hc, -, -, -, rfl⟩ | ⟨c, hc, -, hphase, -, rfl⟩ | hudp
  · exact hs.accept hfree
  · exact hs.onopen hc hphase
  · exact hs.remove hc
  · exact hs.destroy hc hphase
  · obtain ⟨u, rfl⟩ := hudp.state
    exact ⟨hs.ids, hs.addrs, hs.fresh, hs.clients⟩

/-! ## The connections a text is sent to -/

theorem Consistent.deref_eq (hs : s.Consistent) {c : Connection} (hc : c ∈ s.connections) :
    s.deref c.addr = some c.id := by
  rw [deref, find?_of_nodup hs.addrs hc, Option.map_some]

theorem Consistent.mem_receivers (hs : s.Consistent) {r : Option ℕ} :
    r ∈ s.receivers ↔ ∃ c ∈ s.connections, c.phase = .during ∧ r = some c.id := by
  rw [receivers, List.mem_map]
  constructor
  · rintro ⟨a, ha, rfl⟩
    obtain ⟨c, hc, rfl, hphase⟩ := (hs.clients a).mp ((Finset.mem_sort _).mp ha)
    exact ⟨c, hc, hphase, hs.deref_eq hc⟩
  · rintro ⟨c, hc, hphase, rfl⟩
    exact ⟨c.addr, (Finset.mem_sort _).mpr ((hs.clients _).mpr ⟨c, hc, rfl, hphase⟩),
      hs.deref_eq hc⟩

theorem Consistent.nodup_receivers (hs : s.Consistent) : s.receivers.Nodup := by
  refine List.Nodup.map_on (fun a ha b hb hab ↦ ?_) (Finset.sort_nodup _ _)
  obtain ⟨c, hc, rfl, -⟩ := (hs.clients a).mp ((Finset.mem_sort _).mp ha)
  obtain ⟨d, hd, rfl, -⟩ := (hs.clients b).mp ((Finset.mem_sort _).mp hb)
  rw [hs.deref_eq hc, hs.deref_eq hd] at hab
  rw [hs.eq_of_id hc hd (Option.some.inj hab)]

end ProxyState

/-! ## Connections along a run -/

/-- The server and the history agree on which connections are open. -/
structure Agrees (tr : Trace) (s : ProxyState) : Prop where
  live : ∀ c ∈ s.connections, clientPeriod c.id tr = c.phase
  gone : ∀ id, clientPeriod id tr = .during → ∃ c ∈ s.connections, c.id = id
  fresh : ∀ id, s.accepted ≤ id → clientPeriod id tr = .before

theorem clientPeriod_concat_of_ne {id : ℕ} {x : ProxyEvent × Sent}
    (h : inserts id x = false ∧ removes id x = false) (tr : Trace) :
    clientPeriod id (tr ++ [x]) = clientPeriod id tr := by
  rw [clientPeriod, period_concat, Period.next_eq_self _ _ h.1 h.2, clientPeriod]

theorem Agrees.setPhase {tr : Trace} {s : ProxyState} (h : Agrees tr s) (hs : s.Consistent)
    {c : Connection} (hc : c ∈ s.connections) {phase : Period} {x : ProxyEvent × Sent}
    (hperiod : clientPeriod c.id (tr ++ [x]) = phase)
    (hother : ∀ id ≠ c.id, inserts id x = false ∧ removes id x = false) (clients : Finset ℕ) :
    Agrees (tr ++ [x]) { s.setPhase c.id phase with wsClients := clients } where
  live := by
    intro d hd
    rcases ProxyState.mem_setPhase.mp hd with ⟨c', -, hid, rfl⟩ | ⟨hd, hid⟩
    · exact hid ▸ hperiod
    · rw [clientPeriod_concat_of_ne (hother _ hid), h.live d hd]
  gone := by
    intro id hduring
    by_cases hid : id = c.id
    · exact ⟨_, ProxyState.mem_setPhase.mpr (.inl ⟨c, hc, rfl, rfl⟩), hid.symm⟩
    · rw [clientPeriod_concat_of_ne (hother _ hid)] at hduring
      obtain ⟨d, hd, rfl⟩ := h.gone id hduring
      exact ⟨d, ProxyState.mem_setPhase.mpr (.inr ⟨hd, hid⟩), rfl⟩
  fresh := by
    intro id hid
    have hne : id ≠ c.id := fun heq ↦ absurd (hs.fresh c hc) (Nat.not_lt.mpr (heq ▸ hid))
    rw [clientPeriod_concat_of_ne (hother _ hne)]
    exact h.fresh id hid

theorem Agrees.step {udpPacketToJson : List UInt8 → Reply} {tr : Trace} {s t : ProxyState}
    {e : ProxyEvent} {sent : Sent} (h : Agrees tr s) (hs : s.Consistent)
    (hstep : s.step udpPacketToJson e = some (t, sent)) : Agrees (tr ++ [(e, sent)]) t := by
  rcases ProxyState.step_cases hstep with ⟨addr, rfl, -, rfl, rfl⟩ | ⟨c, hc, rfl, hphase, rfl, rfl⟩ |
      ⟨c, hc, he, hphase, rfl, rfl⟩ | ⟨c, hc, rfl, hphase, rfl, rfl⟩ | hudp
  · have hsame : ∀ id, clientPeriod id (tr ++ [(.accept addr, none)]) = clientPeriod id tr :=
      fun _ ↦ clientPeriod_concat_of_ne ⟨rfl, rfl⟩ tr
    refine ⟨fun c hc ↦ ?_, fun id hduring ↦ ?_, fun id hid ↦ ?_⟩
    · rw [hsame]
      rcases List.mem_cons.mp hc with rfl | hc
      · exact h.fresh s.accepted (Nat.le_refl _)
      · exact h.live c hc
    · obtain ⟨c, hc, hid⟩ := h.gone id (hsame id ▸ hduring)
      exact ⟨c, List.mem_cons_of_mem _ hc, hid⟩
    · rw [hsame]
      exact h.fresh id (Nat.le_of_succ_le hid)
  · refine h.setPhase hs hc ?_ (fun id hid ↦ ⟨?_, rfl⟩) _
    · have hinserts : inserts c.id (.onopen c.id, none) = true := decide_eq_true rfl
      have hremoves : removes c.id (.onopen c.id, none) = false := rfl
      have hbefore := h.live c hc
      rw [hphase, clientPeriod] at hbefore
      rw [clientPeriod, period_concat, hbefore, Period.next, if_pos hinserts, hremoves]
      rfl
    · exact decide_eq_false fun heq ↦ hid (ProxyEvent.onopen.inj heq).symm
  · refine h.setPhase hs hc ?_ (fun id hid ↦ ⟨?_, ?_⟩) _
    · have hremoves : removes c.id (e, none) = true := decide_eq_true he
      have hlive := h.live c hc
      rw [clientPeriod] at hlive
      rw [clientPeriod, period_concat, hlive]
      cases hp : c.phase with
      | before => exact absurd hp hphase
      | during => exact if_pos hremoves
      | past => rfl
    · rcases he with rfl | rfl <;> rfl
    · refine decide_eq_false fun hor ↦ hid ?_
      rcases he with rfl | rfl <;> simpa [eq_comm] using hor
  · have hsame : ∀ id, clientPeriod id (tr ++ [(.destroy c.id, none)]) = clientPeriod id tr :=
      fun _ ↦ clientPeriod_concat_of_ne ⟨rfl, rfl⟩ tr
    refine ⟨fun d hd ↦ ?_, fun id hduring ↦ ?_, fun id hid ↦ ?_⟩
    · rw [hsame]
      exact h.live d (List.mem_of_mem_filter hd)
    · rw [hsame] at hduring
      obtain ⟨d, hd, rfl⟩ := h.gone id hduring
      have hid : d.id ≠ c.id := fun hid ↦ hphase <| by
        rw [← hs.eq_of_id hd hc hid, ← h.live d hd, hduring]
      exact ⟨d, List.mem_filter.mpr ⟨hd, by simpa using hid⟩, rfl⟩
    · rw [hsame]
      exact h.fresh id hid
  · have hsame := fun id ↦ clientPeriod_concat_of_ne (hudp.noCallback id) tr
    obtain ⟨u, rfl⟩ := hudp.state
    refine ⟨fun c hc ↦ ?_, fun id hduring ↦ ?_, fun id hid ↦ ?_⟩
    · rw [hsame]
      exact h.live c hc
    · exact h.gone id (hsame id ▸ hduring)
    · rw [hsame]
      exact h.fresh id hid

theorem Agrees.mem_receivers {tr : Trace} {s : ProxyState} (h : Agrees tr s)
    (hs : s.Consistent) {r : Option ℕ} :
    r ∈ s.receivers ↔ ∃ id, r = some id ∧ clientPeriod id tr = .during := by
  rw [hs.mem_receivers]
  constructor
  · rintro ⟨c, hc, hphase, rfl⟩
    exact ⟨c.id, rfl, (h.live c hc).trans hphase⟩
  · rintro ⟨id, rfl, hduring⟩
    obtain ⟨c, hc, rfl⟩ := h.gone id hduring
    exact ⟨c, hc, (h.live c hc).symm.trans hduring, rfl⟩

theorem Agrees.count_receivers {tr : Trace} {s : ProxyState} (h : Agrees tr s)
    (hs : s.Consistent) (id : ℕ) :
    s.receivers.count (some id) = if clientPeriod id tr = .during then 1 else 0 := by
  split
  next hduring =>
    exact List.count_eq_one_of_mem hs.nodup_receivers ((h.mem_receivers hs).mpr ⟨id, rfl, hduring⟩)
  next hnot =>
    refine List.count_eq_zero_of_not_mem fun hmem ↦ hnot ?_
    obtain ⟨id', hid, hduring⟩ := (h.mem_receivers hs).mp hmem
    rwa [Option.some.inj hid]

/-! ## Histories of the clients -/

section Run

variable {udpPacketToJson : List UInt8 → Reply} {tr : Trace} {s : ProxyState}

theorem consistent_of_run (h : Run (proxyBase udpPacketToJson) tr s) : s.Consistent :=
  h.invariant (I := fun _ s ↦ s.Consistent)
    ⟨List.nodup_nil, List.nodup_nil, fun _ hc ↦ (nomatch hc), fun a ↦
      ⟨fun ha ↦ absurd ha (Finset.notMem_empty a), fun ⟨_, hc, _⟩ ↦ nomatch hc⟩⟩
    fun _ _ _ _ _ hs hstep ↦ hs.step hstep

theorem agrees_of_run (h : Run (proxyBase udpPacketToJson) tr s) : Agrees tr s := by
  induction h with
  | start => exact ⟨fun _ hc ↦ (nomatch hc), fun _ hduring ↦ (nomatch hduring), fun _ _ ↦ rfl⟩
  | step hrun hstep ih => exact ih.step (consistent_of_run hrun) hstep

theorem broadcasts_concat (x : ProxyEvent × Sent) :
    broadcasts (tr ++ [x]) = broadcasts tr ++ (x.2.map Prod.fst).toList := by
  rw [broadcasts, List.filterMap_append, broadcasts]
  cases hx : x.2 <;> simp [hx]

theorem replies_concat (x : ProxyEvent × Sent) :
    replies udpPacketToJson (tr ++ [x]) =
      replies udpPacketToJson tr ++ (x.1.reply udpPacketToJson).toList := by
  rw [replies, List.filterMap_append, replies]
  cases hx : x.1.reply udpPacketToJson <;> simp [hx]

theorem broadcasts_eq_replies (h : Run (proxyBase udpPacketToJson) tr s) :
    broadcasts tr ++ s.udpLoop.pending = replies udpPacketToJson tr := by
  induction h with
  | start => rfl
  | @step tr s t e sent hrun hstep ih =>
      have hpending := ProxyState.step_pending hstep
      rw [broadcasts_concat, replies_concat, List.append_assoc, hpending, ← List.append_assoc, ih]

theorem sent_cases (tr : Trace) {t : ProxyState} {e : ProxyEvent} {sent : Sent}
    (hstep : s.step udpPacketToJson e = some (t, sent)) :
    sent = none ∨ (∃ json, sent = some (json, s.receivers)) ∧
      ∀ id, clientPeriod id (tr ++ [(e, sent)]) = clientPeriod id tr := by
  rcases ProxyState.step_cases hstep with ⟨_, -, -, hnone, -⟩ | ⟨_, -, -, -, hnone, -⟩ |
      ⟨_, -, -, -, hnone, -⟩ | ⟨_, -, -, -, hnone, -⟩ | hudp
  · exact Or.inl hnone
  · exact Or.inl hnone
  · exact Or.inl hnone
  · exact Or.inl hnone
  · exact hudp.texts.imp_right fun htexts ↦
      ⟨htexts, fun id ↦ clientPeriod_concat_of_ne (hudp.noCallback id) tr⟩

theorem sentTo_concat {t : ProxyState} {e : ProxyEvent} {sent : Sent}
    (h : Run (proxyBase udpPacketToJson) tr s)
    (hstep : s.step udpPacketToJson e = some (t, sent)) (id : ℕ) :
    sentTo id (tr ++ [(e, sent)]) =
      sentTo id tr ++ if clientPeriod id tr = .during then (sent.map Prod.fst).toList else [] := by
  rw [sentTo, List.flatMap_append, ← sentTo, List.flatMap_singleton]
  congr 1
  rcases sent_cases tr hstep with rfl | ⟨⟨json, rfl⟩, -⟩
  · simp
  · dsimp only
    rw [(agrees_of_run h).count_receivers (consistent_of_run h) id]
    split <;> rfl

theorem broadcasts_clientWindow_concat {t : ProxyState} {e : ProxyEvent} {sent : Sent}
    (hstep : s.step udpPacketToJson e = some (t, sent)) (id : ℕ) :
    broadcasts (clientWindow id (tr ++ [(e, sent)])) =
      broadcasts (clientWindow id tr) ++
        if clientPeriod id tr = .during then (sent.map Prod.fst).toList else [] := by
  rw [clientWindow, window_concat, ← clientWindow, ← clientPeriod]
  rcases sent_cases tr hstep with rfl | ⟨-, hperiod⟩
  · split
    · rw [broadcasts_concat]
      simp
    · simp
  · rw [hperiod]
    split
    · rw [broadcasts_concat]
    · rw [List.append_nil, List.append_nil]

theorem sentTo_eq_broadcasts (h : Run (proxyBase udpPacketToJson) tr s) (id : ℕ) :
    sentTo id tr = broadcasts (clientWindow id tr) := by
  induction h with
  | start => rfl
  | step hrun hstep ih => rw [sentTo_concat hrun hstep, broadcasts_clientWindow_concat hstep, ih]

/-- At every broadcast of the run both clients were connected, or neither was. -/
def SamePeriod (id id' : ℕ) (tr : Trace) : Prop :=
  ∀ pre x, pre ++ [x] <+: tr → x.2.isSome →
    (clientPeriod id pre = .during ↔ clientPeriod id' pre = .during)

theorem sentTo_eq_of_samePeriod (h : Run (proxyBase udpPacketToJson) tr s) {id id' : ℕ}
    (hsame : SamePeriod id id' tr) : sentTo id tr = sentTo id' tr := by
  induction h with
  | start => rfl
  | @step tr s t e sent hrun hstep ih =>
      have hpre : SamePeriod id id' tr := fun pre x hx ↦
        hsame pre x (hx.trans (List.prefix_append _ _))
      rw [sentTo_concat hrun hstep, sentTo_concat hrun hstep, ih hpre]
      cases sent with
      | none => simp
      | some text =>
          have hiff := hsame tr _ (List.prefix_refl _) rfl
          simp only [hiff]

theorem step_recv_of_dropped {t : ProxyState} {data : List UInt8} {sent : Sent}
    (hdropped : (data.take ProxyState.bufferSize).length = 0 ∨
      udpPacketToJson (data.take ProxyState.bufferSize) = none)
    (hstep : s.step udpPacketToJson (.recv (.datagram data)) = some (t, sent)) :
    t = s ∧ sent = none := by
  obtain ⟨hrecv, rfl⟩ := eq_of_map_output hstep
  obtain ⟨-, hr⟩ := Option.ite_none_left_eq_some.mp hrecv
  refine ⟨?_, rfl⟩
  dsimp only at hr
  rcases hdropped with hempty | hrejected
  · rw [if_pos hempty] at hr
    exact (Option.some.inj hr).symm
  · rw [hrejected] at hr
    split at hr <;> exact (Option.some.inj hr).symm

/-- In every run, each client is sent the results that are broadcast while it
is connected, no more and no others; the broadcasts are the results of the
accepted datagrams in the order of their arrival, the last of which may still be
outstanding; and a dropped datagram has no effect. -/
theorem proxyBase_broadcast (h : Run (proxyBase udpPacketToJson) tr s) :
    (∀ id, sentTo id tr = broadcasts (clientWindow id tr)) ∧
    broadcasts tr ++ s.udpLoop.pending = replies udpPacketToJson tr ∧
    (∀ e t json receivers, s.step udpPacketToJson e = some (t, some (json, receivers)) →
      ∀ r ∈ receivers, ∃ id, r = some id ∧ clientPeriod id tr = .during) ∧
    (∀ data t sent,
      (data.take ProxyState.bufferSize).length = 0 ∨
          udpPacketToJson (data.take ProxyState.bufferSize) = none →
        s.step udpPacketToJson (.recv (.datagram data)) = some (t, sent) → t = s ∧ sent = none) ∧
    ∀ id id', SamePeriod id id' tr → sentTo id tr = sentTo id' tr := by
  refine ⟨sentTo_eq_broadcasts h, broadcasts_eq_replies h, ?_,
    fun _ _ _ hdropped hstep ↦ step_recv_of_dropped hdropped hstep,
    fun _ _ hsame ↦ sentTo_eq_of_samePeriod h hsame⟩
  intro e t json receivers hstep r hr
  rcases sent_cases tr hstep with hnone | ⟨⟨json', hsome⟩, -⟩
  · cases hnone
  · obtain ⟨rfl, rfl⟩ : json = json' ∧ receivers = s.receivers := by simpa using hsome
    exact ((agrees_of_run h).mem_receivers (consistent_of_run h)).mp hr

end Run

/-- The VAX proxy serves one client, then another at the address of the first;
a third is connected throughout, and two datagrams are dropped. -/
def addressReuse : List ProxyEvent :=
  [.accept 16, .accept 32, .onopen 1, .onopen 0,
    .recv (.datagram [8, 0, 2, 0, 0, 0, 1, 0, 0, 0, 2, 0, 0, 0]), .broadcast,
    .onerror 0, .recv .again, .onclose 0, .destroy 0, .accept 16, .recv (.datagram []),
    .recv (.datagram [8, 0, 2, 0, 0, 0]), .onopen 2,
    .recv (.datagram [8, 0, 2, 0, 0, 0, 3, 0, 0, 0, 4, 0, 0, 0]), .broadcast]

theorem proxyBase_broadcast_addressReuse :
    ∃ tr s, (proxyBase netbsdvaxProxy.reply).replay .start addressReuse = some (tr, s) ∧
      ([0, 1, 2].map fun id ↦ (broadcasts (clientWindow id tr)).length) = [1, 2, 1] ∧
      ∀ id, sentTo id tr = broadcasts (clientWindow id tr) := by
  have hlengths : ((proxyBase netbsdvaxProxy.reply).replay .start addressReuse).map
      (fun r ↦ [0, 1, 2].map fun id ↦ (broadcasts (clientWindow id r.1)).length) =
        some [1, 2, 1] := by decide +kernel
  obtain ⟨⟨tr, s⟩, hreplay, htr⟩ := Option.map_eq_some_iff.mp hlengths
  exact ⟨tr, s, hreplay, htr, (proxyBase_broadcast (Run.replay .start hreplay)).1⟩

end VPanel.Proxy
