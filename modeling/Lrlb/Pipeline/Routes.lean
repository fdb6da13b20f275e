import Lrlb.Agent.Requests
import Lrlb.Dns.Versions
import Lrlb.Reactor.TcpClient

/-! An agent and the dns server that its routes come from: the three `route_lb`s and the queue of
pulls on one side, the workers and the poller on the other, and one connection between them that
carries whole messages in order. -/
namespace Lrlb.Pipeline
open Lib Lib.Message Agent Dns
open Proto (GetRouteRequest GetRouteResponse)
open Reactor (TcpClient)

/-- `new_dns_request` and `new_report_request`: what was in the queue is handed to `send_message`
one by one, and its result is ignored. The messages are returned as those taken and those
refused. -/
def forward {M : Type} [Message M] (msgid : Int32) :
    TcpClient → List M → TcpClient × List M × List M
  | c, [] => (c, [], [])
  | c, m :: msgs =>
    let (c, ret) := c.sendMessage (serialize m) msgid
    let (c, taken, refused) := forward msgid c msgs
    if ret = 0 then (c, m :: taken, refused) else (c, taken, m :: refused)

/-- What is taken stays in order. -/
theorem forward_sublist {M : Type} [Message M] (msgid : Int32) (c : TcpClient) (msgs : List M) :
    (forward msgid c msgs).2.1.Sublist msgs := by
  induction msgs generalizing c with
  | nil => exact List.Sublist.refl _
  | cons m msgs ih =>
    unfold forward
    dsimp only
    split_ifs
    · exact (ih _).cons_cons m
    · exact (ih _).cons m

/-- Every message is taken or refused. -/
theorem forward_perm {M : Type} [Message M] (msgid : Int32) (c : TcpClient) (msgs : List M) :
    ((forward msgid c msgs).2.1 ++ (forward msgid c msgs).2.2).Perm msgs := by
  induction msgs generalizing c with
  | nil => exact List.Perm.refl _
  | cons m msgs ih =>
    unfold forward
    dsimp only
    split_ifs
    · exact (ih _).cons m
    · exact List.perm_middle.trans ((ih _).cons m)

theorem mem_forward {M : Type} [Message M] (msgid : Int32) (c : TcpClient) {msgs : List M} {m : M}
    (h : m ∈ msgs) : m ∈ (forward msgid c msgs).2.1 ∨ m ∈ (forward msgid c msgs).2.2 :=
  List.mem_append.mp ((forward_perm msgid c msgs).mem_iff.mpr h)

/-- The agent's end of its connection to the dns server. `do_connect` runs in the constructor and
nowhere else, so that a connection that is lost is not replaced. -/
inductive Link where
  | connecting | connected | lost
deriving DecidableEq, Repr

/-- The server's end. -/
inductive Peer where
  | waiting
  | accepted (fd : Fd)
  | closed
deriving DecidableEq, Repr

/-- `handed`, `received` and `lost` are no data of the program: they record the responses that have
left the connection, those of them that the agent got, and the modules whose request or response
`send_message` refused. -/
structure System where
  dns : Versioned
  peer : Peer
  link : Link
  rLb : Fin 3 → RouteLb
  dnsQueue : List GetRouteRequest
  /-- payloads taken by `send_message` that `get_route` has not been called with -/
  up : List (List UInt8)
  /-- responses sent on the connection that are still on their way -/
  down : List GetRouteResponse
  handed : List GetRouteResponse
  received : List GetRouteResponse
  lost : List GetRouteRequest

inductive Action where
  /-- a datagram for one of the UDP servers, with what its read buffer held -/
  | datagram (i : Fin 3) (env : Env) (readBuf d : List UInt8)
  /-- the dns client with its output buffer in any state -/
  | newDnsRequest (client : TcpClient)
  | connInit
  | disconnect
  | dealRecvRoute (mem : Memory) (currentTime : Int64)
  /-- `tcp_conn::send_message` had no room for the next response, which is lost as a whole; what the
  refusal takes from the unsent bytes is left out here -/
  | refuse
  /-- the server opens its end of the connection -/
  | accept (w : ℕ) (fd : Fd)
  /-- the next payload arrives at `get_route` -/
  | request (w : ℕ)
  /-- anything that the server does besides -/
  | dns (a : ServerAction)

namespace System

/-- Where `connect` succeeds at once, the constructor has no start hook to call yet. -/
def start (rows : List RouteRow) (link : Link) : System where
  dns := Versioned.init rows
  peer := .waiting
  link := link
  rLb := fun _ => RouteLb.empty
  dnsQueue := []
  up := []
  down := []
  handed := []
  received := []
  lost := []

/-- The server has moved: what it sent to the agent is on its way, or the connection is closed. -/
def observe (s : System) (dns : Versioned) : System :=
  match s.peer with
  | .accepted fd =>
    match dns.server.view fd with
    | some v => { s with dns := dns, down := s.down ++ v.sent.drop (s.handed ++ s.down).length }
    | none => { s with dns := dns, peer := .closed }
  | _ => { s with dns := dns }

variable {R : Type} [RateArith R] (cfg : Config R) (threads : ℕ)

/-- `none` is an action that cannot happen, or an abort of the agent. -/
def step? (s : System) : Action → Option System
  | .datagram i env readBuf d =>
    (serve? cfg env readBuf (s.rLb i) d).map fun served =>
      { s with
        rLb := Function.update s.rLb i served.routeLb
        dnsQueue := s.dnsQueue ++ served.pull.toList }
  | .newDnsRequest client =>
    if client.connected = decide (s.link = .connected) then
      let (_, taken, refused) := forward Proto.MessageID.idGetRouteRequest.value client s.dnsQueue
      some { s with
        dnsQueue := []
        up := s.up ++ taken.map serialize
        lost := s.lost ++ refused }
    else none
  | .connInit =>
    if s.link = .connecting then some { s with link := .connected, rLb := connInit s.rLb } else none
  | .disconnect => some { s with link := .lost }
  | .dealRecvRoute mem currentTime =>
    match s.link, s.down with
    | .connected, rsp :: down =>
      (dealRecvRoute? cfg mem currentTime s.rLb (serialize rsp)).map fun rLb =>
        { s with
          rLb := rLb
          down := down
          handed := s.handed ++ [rsp]
          received := s.received ++ [rsp] }
    | _, _ => none
  | .refuse =>
    match s.down with
    | rsp :: down =>
      some { s with
        down := down
        handed := s.handed ++ [rsp]
        lost := s.lost ++ [⟨rsp.modid, rsp.cmdid⟩] }
    | [] => none
  | .accept w fd =>
    if s.peer = .waiting then
      (s.dns.step threads (.newConn w fd)).map fun dns => { s with dns := dns, peer := .accepted fd }
    else none
  | .request w =>
    match s.peer, s.up with
    | .accepted fd, data :: up =>
      (s.dns.step threads (.getRoute w fd data)).map fun dns => { s.observe dns with up := up }
    | _, _ => none
  -- requests on the agent's own descriptor come from the agent
  | .dns (.getRoute w fd data) =>
    if s.peer = .accepted fd then none else (s.dns.step threads (.getRoute w fd data)).map s.observe
  | .dns a => (s.dns.step threads a).map s.observe

/-- What a step is, with what it finds. -/
inductive Step (s : System) : Action → System → Prop
  | datagram (i : Fin 3) (env : Env) (readBuf d : List UInt8) (served : Served) :
    serve? cfg env readBuf (s.rLb i) d = some served →
    Step s (.datagram i env readBuf d)
      { s with
        rLb := Function.update s.rLb i served.routeLb
        dnsQueue := s.dnsQueue ++ served.pull.toList }
  | newDnsRequest (client : TcpClient) (sent : TcpClient × List GetRouteRequest × List GetRouteRequest) :
    client.connected = decide (s.link = .connected) →
    sent = forward Proto.MessageID.idGetRouteRequest.value client s.dnsQueue →
    Step s (.newDnsRequest client)
      { s with
        dnsQueue := []
        up := s.up ++ sent.2.1.map serialize
        lost := s.lost ++ sent.2.2 }
  | connInit : s.link = .connecting →
    Step s .connInit { s with link := .connected, rLb := Agent.connInit s.rLb }
  | disconnect : Step s .disconnect { s with link := .lost }
  | dealRecvRoute (mem : Memory) (currentTime : Int64) (rsp : GetRouteResponse)
      (down : List GetRouteResponse) (rLb : Fin 3 → RouteLb) :
    s.link = .connected → s.down = rsp :: down →
    dealRecvRoute? cfg mem currentTime s.rLb (serialize rsp) = some rLb →
    Step s (.dealRecvRoute mem currentTime)
      { s with
        rLb := rLb
        down := down
        handed := s.handed ++ [rsp]
        received := s.received ++ [rsp] }
  | refuse (rsp : GetRouteResponse) (down : List GetRouteResponse) : s.down = rsp :: down →
    Step s .refuse
      { s with
        down := down
        handed := s.handed ++ [rsp]
        lost := s.lost ++ [⟨rsp.modid, rsp.cmdid⟩] }
  | accept (w : ℕ) (fd : Fd) (dns : Versioned) : s.peer = .waiting →
    s.dns.step threads (.newConn w fd) = some dns →
    Step s (.accept w fd) { s with dns := dns, peer := .accepted fd }
  | request (w : ℕ) (fd : Fd) (data : List UInt8) (up : List (List UInt8)) (dns : Versioned) :
    s.peer = .accepted fd → s.up = data :: up →
    s.dns.step threads (.getRoute w fd data) = some dns →
    Step s (.request w) { s.observe dns with up := up }
  | dns (a : ServerAction) (dns : Versioned) : s.dns.step threads a = some dns →
    Step s (.dns a) (s.observe dns)

variable {cfg threads} {s t : System}

theorem step?_inv {a : Action} (h : s.step? cfg threads a = some t) : Step cfg threads s a t := by
  cases a with
  | datagram i env readBuf d =>
    obtain ⟨served, hserve, rfl⟩ := Option.map_eq_some_iff.mp h
    exact .datagram i env readBuf d served hserve
  | newDnsRequest client =>
    simp only [step?, Option.ite_none_right_eq_some] at h
    obtain ⟨hc, h⟩ := h
    cases h
    exact .newDnsRequest client _ hc rfl
  | connInit =>
    simp only [step?, Option.ite_none_right_eq_some] at h
    obtain ⟨hlink, h⟩ := h
    cases h
    exact .connInit hlink
  | disconnect =>
    cases h
    exact .disconnect
  | dealRecvRoute mem currentTime =>
    simp only [step?] at h
    split at h
    · rename_i rsp down hlink hdown
      obtain ⟨rLb, hdeal, rfl⟩ := Option.map_eq_some_iff.mp h
      exact .dealRecvRoute mem currentTime rsp down rLb hlink hdown hdeal
    · cases h
  | refuse =>
    simp only [step?] at h
    split at h
    · rename_i rsp down hdown
      cases h
      exact .refuse rsp down hdown
    · cases h
  | accept w fd =>
    simp only [step?, Option.ite_none_right_eq_some] at h
    obtain ⟨hpeer, h⟩ := h
    obtain ⟨dns, hdns, rfl⟩ := Option.map_eq_some_iff.mp h
    exact .accept w fd dns hpeer hdns
  | request w =>
    simp only [step?] at h
    split at h
    · rename_i fd data up hpeer hup
      obtain ⟨dns, hdns, rfl⟩ := Option.map_eq_some_iff.mp h
      exact .request w fd data up dns hpeer hup hdns
    · cases h
  | dns a =>
    have hmap : ∃ dns, s.dns.step threads a = some dns ∧ s.observe dns = t := by
      cases a with
      | getRoute w fd data =>
        simp only [step?, Option.ite_none_left_eq_some] at h
        exact Option.map_eq_some_iff.mp h.2
      | _ => exact Option.map_eq_some_iff.mp h
    obtain ⟨dns, hdns, rfl⟩ := hmap
    exact .dns a dns hdns

section Observe

variable (s : System) (dns : Versioned)

/-- The server's moves change nothing on the agent's side but what is on its way there. -/
theorem observe_eq : ∃ peer down, s.observe dns = { s with dns := dns, peer := peer, down := down } := by
  unfold observe
  split
  · split
    · exact ⟨_, _, rfl⟩
    · exact ⟨_, _, rfl⟩
  · exact ⟨_, _, rfl⟩

@[simp] theorem observe_dns : (s.observe dns).dns = dns := by
  obtain ⟨_, _, h⟩ := observe_eq s dns
  rw [h]

@[simp] theorem observe_link : (s.observe dns).link = s.link := by
  obtain ⟨_, _, h⟩ := observe_eq s dns
  rw [h]

@[simp] theorem observe_rLb : (s.observe dns).rLb = s.rLb := by
  obtain ⟨_, _, h⟩ := observe_eq s dns
  rw [h]

@[simp] theorem observe_handed : (s.observe dns).handed = s.handed := by
  obtain ⟨_, _, h⟩ := observe_eq s dns
  rw [h]

@[simp] theorem observe_received : (s.observe dns).received = s.received := by
  obtain ⟨_, _, h⟩ := observe_eq s dns
  rw [h]

variable {s dns}

theorem observe_open {fd : Fd} (hpeer : s.peer = .accepted fd) {v : View}
    (hv : dns.server.view fd = some v) : s.observe dns =
      { s with dns := dns, down := s.down ++ v.sent.drop (s.handed ++ s.down).length } := by
  unfold observe
  rw [hpeer]
  dsimp only
  rw [hv]

theorem observe_closed {fd : Fd} (hpeer : s.peer = .accepted fd)
    (hv : dns.server.view fd = none) : s.observe dns = { s with dns := dns, peer := .closed } := by
  unfold observe
  rw [hpeer]
  dsimp only
  rw [hv]

theorem observe_of_ne (hpeer : ∀ fd, s.peer ≠ .accepted fd) :
    s.observe dns = { s with dns := dns } := by
  unfold observe
  split
  · rename_i fd hfd
    exact absurd hfd (hpeer fd)
  · rfl

end Observe

end System

end Lrlb.Pipeline
