import Lrlb.Pipeline.Tables
import Lrlb.Reactor.Duplex

/-! The agent and the dns server with the connection between them as bytes: the buffers of the two
ends, partial writes and reads of any size. Every run of it is one of the system that hands over
whole messages. -/
namespace Lrlb.Pipeline
open Lib Lib.Message Agent Dns LoadBalance
open Proto (GetRouteRequest GetRouteResponse)
open Reactor (Duplex DuplexOp Msg SendCall TcpClient WriteResult messageLengthLimit)

def requestMsg (req : GetRouteRequest) : Msg := (Proto.MessageID.idGetRouteRequest.value, serialize req)

def responseMsg (rsp : GetRouteResponse) : Msg :=
  (Proto.MessageID.idGetRouteResponse.value, serialize rsp)

/-- `served` counts the messages that the server's router has been called with so far, among those
that its connection has unpacked. -/
structure Wired where
  dns : Versioned
  peer : Peer
  link : Link
  rLb : Fin 3 → RouteLb
  dnsQueue : List GetRouteRequest
  tcp : Duplex
  served : ℕ

/-- Old contents of the memory that a `send_message` may allocate. -/
abbrev Raws := (ℤ → UInt8) × (ℤ → UInt8)

inductive WiredAction where
  | datagram (i : Fin 3) (env : Env) (readBuf d : List UInt8)
  | newDnsRequest
  | connInit
  | disconnect
  /-- a `write` of the client's `do_write` that takes `k` bytes -/
  | write (k : ℕ)
  /-- the server's `do_read` with `n` bytes to read -/
  | read (raw : ℤ → UInt8) (n : ℕ)
  /-- the server's `do_write` -/
  | flush (results : List WriteResult)
  /-- the client's `do_read` with `n` bytes to read; `deal_recv_route` finds `env i` for its `i`-th
  message -/
  | receive (n : ℕ) (env : ℕ → Memory × Int64)
  | accept (w : ℕ) (fd : Fd)
  | request (w : ℕ)
  | dns (a : ServerAction) (raws : Raws)

section Deal

variable {R : Type} (cfg : Config R)

/-- The client's router is called with the messages of one read, one after the other. -/
def dealAll? : (ℕ → Memory × Int64) → (Fin 3 → RouteLb) → List Msg → Option (Fin 3 → RouteLb)
  | _, rLb, [] => some rLb
  | env, rLb, (msgid, data) :: msgs =>
    let rLb? :=
      if msgid = Proto.MessageID.idGetRouteResponse.value then
        dealRecvRoute? cfg (env 0).1 (env 0).2 rLb data
      else some rLb
    rLb?.bind fun rLb => dealAll? (fun i => env (i + 1)) rLb msgs

end Deal

namespace Wired

/-- The memory of the two buffers of the client is as it was found. -/
def start (rows : List RouteRow) (link : Link) (rawIn rawOut : ℤ → UInt8) : Wired where
  dns := Versioned.init rows
  peer := .waiting
  link := link
  rLb := fun _ => RouteLb.empty
  dnsQueue := []
  tcp := { Duplex.new rawIn rawOut with
    client := { TcpClient.new rawIn rawOut with connected := decide (link = .connected) } }
  served := 0

def sendCall? (raws : Raws) (rsp : GetRouteResponse) : Option SendCall :=
  if h : (serialize rsp).length ≤ 2 ^ 30 then
    some ⟨Proto.MessageID.idGetRouteResponse.value, serialize rsp, raws.1, raws.2, h⟩
  else none

/-- The responses for the agent that a step of the server brings. -/
def fresh (s : Wired) (dns : Versioned) : List GetRouteResponse :=
  match s.peer with
  | .accepted fd =>
    match s.dns.server.view fd, dns.server.view fd with
    | some v, some v' => v'.sent.drop v.sent.length
    | _, _ => []
  | _ => []

/-- The server has moved: its responses are handed to `send_message`, or the connection is closed. -/
def handOver? (s : Wired) (raws : Raws) (dns : Versioned) : Option Wired := do
  let calls ← (s.fresh dns).mapM (sendCall? raws)
  let tcp ← run? Duplex.step? s.tcp (calls.map .reply)
  match s.peer with
  | .accepted fd =>
    if (dns.server.view fd).isSome then some { s with dns := dns, tcp := tcp }
    else some { s with
      dns := dns
      peer := .closed
      tcp := tcp.cleanConn }
  | _ => some { s with dns := dns, tcp := tcp }

variable {R : Type} [RateArith R] (cfg : Config R) (threads : ℕ)

/-- `none` is an action that cannot happen, or an abort. -/
def step? (s : Wired) : WiredAction → Option Wired
  | .datagram i env readBuf d =>
    (serve? cfg env readBuf (s.rLb i) d).map fun served =>
      { s with
        rLb := Function.update s.rLb i served.routeLb
        dnsQueue := s.dnsQueue ++ served.pull.toList }
  | .newDnsRequest =>
    let (client, taken, _) :=
      forward Proto.MessageID.idGetRouteRequest.value s.tcp.client s.dnsQueue
    some { s with
      dnsQueue := []
      tcp := { s.tcp with client := client, asked := s.tcp.asked ++ taken.map requestMsg } }
  | .connInit =>
    if s.link = .connecting then
      some { s with
        link := .connected
        rLb := connInit s.rLb
        tcp := { s.tcp with client := { s.tcp.client with connected := true } } }
    else none
  | .disconnect =>
    some { s with
      link := .lost
      tcp := { s.tcp with client := { s.tcp.client with connected := false } } }
  | .write k => (s.tcp.step? (.write k)).map fun tcp => { s with tcp := tcp }
  | .read raw n =>
    match s.peer with
    | .accepted _ => (s.tcp.step? (.read raw n)).map fun tcp => { s with tcp := tcp }
    | _ => none
  | .flush results => (s.tcp.step? (.flush results)).map fun tcp => { s with tcp := tcp }
  | .receive n env =>
    (s.tcp.step? (.receive n)).bind fun tcp =>
      (dealAll? cfg env s.rLb (tcp.calls.drop s.tcp.calls.length)).map fun rLb =>
        { s with tcp := tcp, rLb := rLb }
  | .accept w fd =>
    if s.peer = .waiting then
      (s.dns.step threads (.newConn w fd)).map fun dns => { s with dns := dns, peer := .accepted fd }
    else none
  | .request w =>
    match s.peer, s.tcp.conn.dispatched[s.served]? with
    | .accepted fd, some (msgid, data) =>
      if msgid = Proto.MessageID.idGetRouteRequest.value then
        (s.dns.step threads (.getRoute w fd data)).map fun dns =>
          { s with dns := dns, served := s.served + 1 }
      else some { s with served := s.served + 1 }
    | _, _ => none
  | .dns (.getRoute w fd data) raws =>
    if s.peer = .accepted fd then none
    else (s.dns.step threads (.getRoute w fd data)).bind fun dns => s.handOver? raws dns
  | .dns a raws => (s.dns.step threads a).bind fun dns => s.handOver? raws dns

/-- The connection has room for each response that the server sends to the agent. -/
def Allows (s : Wired) : WiredAction → Prop
  | .dns a raws => ∀ dns ∈ s.dns.step threads a, ∀ calls ∈ (s.fresh dns).mapM (sendCall? raws),
    ∀ x ∈ attempted Duplex.step? s.tcp (calls.map .reply), x.1.Allows x.2
  | _ => True

end Wired

section Forward

variable {M : Type} [Message M] {msgid : Int32} {d d' : Duplex} {p q : List UInt8}

/-- The messages of a queue as calls of the client. -/
def sends (msgid : Int32) (msgs : List M) : List DuplexOp :=
  msgs.map fun m => .send msgid (serialize m)

/-- The calls are what `forward` makes of them. -/
theorem run_sends {msgs : List M} (h : run? Duplex.step? d (sends msgid msgs) = some d') :
    d' = { d with
      client := (forward msgid d.client msgs).1
      asked := d.asked ++ (forward msgid d.client msgs).2.1.map fun m => (msgid, serialize m) } := by
  induction msgs generalizing d with
  | nil =>
    cases h
    simp [forward]
  | cons m msgs ih =>
    obtain ⟨u, hu, h⟩ := Option.bind_eq_some_iff.mp h
    simp only [Duplex.step?, Option.ite_none_left_eq_some, Option.some.injEq] at hu
    obtain ⟨-, rfl⟩ := hu
    rw [ih h]
    simp only [forward]
    split_ifs
    · simp
    · rfl

/-- Messages within the limit never leave the client's buffer. -/
theorem run_sends_short {msgs : List M} (h : d.At p q)
    (hshort : ∀ m ∈ msgs, (serialize m).length ≤ messageLengthLimit) :
    ∃ d', run? Duplex.step? d (sends msgid msgs) = some d' ∧ d'.At p q := by
  induction msgs generalizing d with
  | nil => exact ⟨d, rfl, h⟩
  | cons m msgs ih =>
    obtain ⟨u, hu⟩ := h.send_short msgid (hshort m List.mem_cons_self)
    obtain ⟨d', hrun, hat⟩ := ih (h.send hu) fun x hx => hshort x (List.mem_cons_of_mem m hx)
    refine ⟨d', ?_, hat⟩
    rw [sends, List.map_cons, run?, hu]
    exact hrun

end Forward

theorem forward_connected {M : Type} [Message M] (msgid : Int32) (c : TcpClient) (msgs : List M) :
    (forward msgid c msgs).1.connected = c.connected := by
  induction msgs generalizing c with
  | nil => rfl
  | cons m msgs ih =>
    have hhead : (c.sendMessage (serialize m) msgid).1.connected = c.connected := by
      obtain hrej | ⟨-, hacc⟩ := c.sendMessage_cases (serialize m) msgid
      · rw [hrej]
      · rw [hacc]
    simp only [forward]
    split_ifs <;> exact (ih _).trans hhead

section Messages

theorem mapM_sendCall {raws : Raws} {rsps : List GetRouteResponse} {calls : List SendCall}
    (h : rsps.mapM (Wired.sendCall? raws) = some calls) :
    calls.map (fun m => (m.msgid, m.data)) = rsps.map responseMsg := by
  induction rsps generalizing calls with
  | nil =>
    cases h
    rfl
  | cons rsp rsps ih =>
    simp only [List.mapM_cons, Option.pure_def, Option.bind_eq_bind, Option.bind_eq_some_iff] at h
    obtain ⟨call, hcall, calls', hcalls, h⟩ := h
    cases h
    unfold Wired.sendCall? at hcall
    split_ifs at hcall
    cases hcall
    rw [List.map_cons, List.map_cons, ih hcalls]
    rfl

end Messages

namespace Wired

/-- The two levels: the queue up is what the client took for sending and the router has not been
called with, the queue down what the server took and the client has not unpacked. -/
structure Sim (w : Wired) (s : System) : Prop where
  dns : s.dns = w.dns
  peer : s.peer = w.peer
  link : s.link = w.link
  rLb : s.rLb = w.rLb
  dnsQueue : s.dnsQueue = w.dnsQueue
  tcp : ∃ p q, w.tcp.At p q
  connected : w.tcp.client.connected = decide (w.link = .connected)
  requests : ∀ m ∈ w.tcp.asked, m.1 = Proto.MessageID.idGetRouteRequest.value
  served : w.served ≤ w.tcp.conn.dispatched.length
  up : s.up = (w.tcp.asked.drop w.served).map Prod.snd
  answered : w.tcp.answered = (s.handed ++ s.down).map responseMsg
  handed : s.handed.length = w.tcp.calls.length

theorem Sim.start (rows : List RouteRow) (link : Link) (rawIn rawOut : ℤ → UInt8) :
    Sim (start rows link rawIn rawOut) (System.start rows link) where
  dns := rfl
  peer := rfl
  link := rfl
  rLb := rfl
  dnsQueue := rfl
  tcp := ⟨[], [], (Duplex.At.new rawIn rawOut).setConnected _⟩
  connected := rfl
  requests := by simp [Wired.start, Duplex.new]
  served := Nat.zero_le _
  up := rfl
  answered := rfl
  handed := rfl

variable {R : Type} {cfg : Config R} {threads : ℕ} {w w' : Wired} {s : System}

/-- The transport has moved: the messages are the same, and more of them may be unpacked. -/
theorem Sim.move (h : Sim w s) {op : DuplexOp} {tcp : Duplex} (hstep : w.tcp.step? op = some tcp)
    (hop : w.tcp.Allows op)
    (hsame : tcp.asked = w.tcp.asked ∧ tcp.answered = w.tcp.answered ∧ tcp.calls = w.tcp.calls ∧
      tcp.client.connected = w.tcp.client.connected) : Sim { w with tcp := tcp } s := by
  obtain ⟨hasked, hanswered, hcalls, hconnected⟩ := hsame
  obtain ⟨p, q, hat⟩ := h.tcp
  refine ⟨h.dns, h.peer, h.link, h.rLb, h.dnsQueue, hat.step hop hstep, ?_, ?_, ?_, ?_, ?_, ?_⟩
  · exact hconnected.trans h.connected
  · rw [hasked]
    exact h.requests
  · exact h.served.trans (Duplex.Grows.step hstep).dispatched.length_le
  · rw [hasked]
    exact h.up
  · rw [hanswered]
    exact h.answered
  · rw [hcalls]
    exact h.handed

theorem Sim.newDnsRequest (h : Sim w s) {sent : TcpClient × List GetRouteRequest × List GetRouteRequest}
    (hsent : sent = forward Proto.MessageID.idGetRouteRequest.value w.tcp.client w.dnsQueue) :
    Sim { w with
        dnsQueue := []
        tcp := { w.tcp with client := sent.1, asked := w.tcp.asked ++ sent.2.1.map requestMsg } }
      { s with
        dnsQueue := []
        up := s.up ++ sent.2.1.map serialize
        lost := s.lost ++ sent.2.2 } := by
  have hconnected : sent.1.connected = w.tcp.client.connected := by
    rw [hsent]
    exact forward_connected ..
  have hshort : ∀ req ∈ w.dnsQueue, (serialize req).length ≤ messageLengthLimit := by
    intro req _
    have hlim : messageLengthLimit = 65527 := rfl
    exact (Proto.length_getRouteRequest_le req).trans (by omega)
  obtain ⟨p, q, hat⟩ := h.tcp
  obtain ⟨tcp, hrun, hat'⟩ : ∃ tcp, run? Duplex.step? w.tcp
      (sends Proto.MessageID.idGetRouteRequest.value w.dnsQueue) = some tcp ∧ tcp.At p q :=
    run_sends_short hat hshort
  rw [run_sends hrun, ← hsent] at hat'
  refine ⟨h.dns, h.peer, h.link, h.rLb, rfl, ⟨p, q, hat'⟩, hconnected.trans h.connected, ?_, h.served,
    ?_, h.answered, h.handed⟩
  · intro m hm
    cases List.mem_append.mp hm with
    | inl hold => exact h.requests m hold
    | inr hnew =>
      obtain ⟨req, -, rfl⟩ := List.mem_map.mp hnew
      rfl
  · have hle : w.served ≤ w.tcp.asked.length := h.served.trans hat.dispatched.length_le
    dsimp only
    rw [h.up, List.drop_append_of_le_length hle, List.map_append, List.map_map]
    rfl

/-- The client has unpacked the first messages of the queue down. -/
theorem Sim.unpacked (h : Sim w s) {tcp : Duplex} {n : ℕ}
    (hstep : w.tcp.step? (.receive n) = some tcp) :
    ∃ rsps down, s.down = rsps ++ down ∧
      tcp.calls.drop w.tcp.calls.length = rsps.map responseMsg ∧
      tcp.calls = (s.handed ++ rsps).map responseMsg := by
  obtain ⟨p, q, hat⟩ := h.tcp
  obtain ⟨q', hat'⟩ := hat.receive hstep
  have hgrows := Duplex.Grows.step hstep
  have hanswered : tcp.answered = w.tcp.answered := by
    obtain ⟨-, client, calls, -, rfl⟩ := Duplex.receive_inv hstep
    rfl
  have hfifo : tcp.calls <+: (s.handed ++ s.down).map responseMsg := by
    rw [← h.answered, ← hanswered]
    exact hat'.down_fifo
  have hle : s.handed.length ≤ tcp.calls.length := h.handed.le.trans hgrows.calls.length_le
  have hcalls : tcp.calls = ((s.handed ++ s.down).map responseMsg).take tcp.calls.length :=
    List.prefix_iff_eq_take.mp hfifo
  rw [← List.map_take, List.take_append, List.take_of_length_le hle] at hcalls
  refine ⟨_, _, (List.take_append_drop (tcp.calls.length - s.handed.length) s.down).symm, ?_, hcalls⟩
  have hdrop := congrArg (List.drop s.handed.length) hcalls
  rw [← List.map_drop, List.drop_left] at hdrop
  rwa [← h.handed]

/-- `deal_recv_route` with one message after the other. -/
theorem deal_reachable [RateArith R] {env : ℕ → Memory × Int64} {rsps down : List GetRouteResponse}
    {rLb : Fin 3 → RouteLb} (hlink : s.link = .connected) (hdown : s.down = rsps ++ down)
    (hdeal : dealAll? cfg env s.rLb (rsps.map responseMsg) = some rLb) :
    Reachable (System.step? cfg threads) s
      { s with
        rLb := rLb
        down := down
        handed := s.handed ++ rsps
        received := s.received ++ rsps } := by
  induction rsps generalizing s env with
  | nil =>
    cases hdeal
    rw [List.nil_append] at hdown
    rw [List.append_nil, List.append_nil, ← hdown]
    exact .refl s
  | cons rsp rsps ih =>
    rw [List.map_cons, dealAll?, responseMsg, if_pos rfl] at hdeal
    obtain ⟨rLb₁, hfirst, hdeal⟩ := Option.bind_eq_some_iff.mp hdeal
    have hstep : s.step? cfg threads (.dealRecvRoute (env 0).1 (env 0).2) = some { s with
        rLb := rLb₁
        down := rsps ++ down
        handed := s.handed ++ [rsp]
        received := s.received ++ [rsp] } := by
      simp only [System.step?, hlink, hdown, List.cons_append]
      rw [hfirst]
      rfl
    refine (Reachable.tail (.refl s) hstep).trans ?_
    have hrest := ih (s := { s with
        rLb := rLb₁
        down := rsps ++ down
        handed := s.handed ++ [rsp]
        received := s.received ++ [rsp] }) hlink rfl hdeal
    simp only [List.append_assoc, List.singleton_append] at hrest
    exact hrest

theorem Sim.receive [RateArith R] (h : Sim w s) {tcp : Duplex} {n : ℕ} {env : ℕ → Memory × Int64}
    {rLb : Fin 3 → RouteLb} (hstep : w.tcp.step? (.receive n) = some tcp)
    (hdeal : dealAll? cfg env w.rLb (tcp.calls.drop w.tcp.calls.length) = some rLb) :
    ∃ s', Reachable (System.step? cfg threads) s s' ∧ Sim { w with tcp := tcp, rLb := rLb } s' := by
  obtain ⟨rsps, down, hdown, hnew, hcalls⟩ := h.unpacked hstep
  obtain ⟨p, q, hat⟩ := h.tcp
  obtain ⟨q', hat'⟩ := hat.receive hstep
  obtain ⟨hconn, client, calls, hconn', rfl⟩ := Duplex.receive_inv hstep
  have hlink : w.link = .connected := by
    have hdecide := h.connected
    rw [hconn] at hdecide
    exact of_decide_eq_true hdecide.symm
  rw [hnew, ← h.rLb] at hdeal
  refine ⟨_, deal_reachable (h.link.trans hlink) hdown hdeal, ?_⟩
  refine ⟨h.dns, h.peer, h.link, rfl, h.dnsQueue, ⟨p, q', hat'⟩, ?_, h.requests, h.served, h.up, ?_, ?_⟩
  · dsimp only
    rw [hconn', hlink]
    rfl
  · dsimp only
    rw [h.answered, hdown, List.append_assoc]
  · have hlen := congrArg List.length hcalls
    rw [List.length_map] at hlen
    exact hlen.symm

/-- The server's step at both levels: what it sends to the agent goes down, or its end closes. -/
theorem Sim.observe (h : Sim w s) {vs : List ℕ} (hl : System.Linked s vs) {dns : Versioned}
    {raws : Raws}
    (hok : ∀ calls, (w.fresh dns).mapM (sendCall? raws) = some calls →
      ∀ x ∈ attempted Duplex.step? w.tcp (calls.map .reply), x.1.Allows x.2)
    (hobs : w.handOver? raws dns = some w') : Sim w' (s.observe dns) := by
  unfold handOver? at hobs
  obtain ⟨calls, hcalls, hobs⟩ := Option.bind_eq_some_iff.mp hobs
  obtain ⟨tcp, hrun, hobs⟩ := Option.bind_eq_some_iff.mp hobs
  have hok := hok calls hcalls
  obtain ⟨p, q, hat⟩ := h.tcp
  have hat' := hat.run hok hrun
  obtain ⟨obuf, rfl⟩ := Duplex.run_reply hok hrun
  rw [mapM_sendCall hcalls] at hobs hat'
  by_cases hpeer : ∃ fd, w.peer = .accepted fd
  · obtain ⟨fd, hfd⟩ := hpeer
    have hsfd := h.peer.trans hfd
    obtain ⟨v, hv, hsent⟩ := hl.sent fd hsfd
    rw [h.dns] at hv
    cases hv' : dns.server.view fd with
    | some v' =>
      have hfresh : w.fresh dns = v'.sent.drop v.sent.length := by
        unfold fresh
        rw [hfd]
        dsimp only
        rw [hv, hv']
      rw [hfresh] at hobs hat'
      rw [hfd] at hobs
      dsimp only at hobs
      rw [hv', if_pos (by simp)] at hobs
      cases hobs
      rw [System.observe_open hsfd hv', hsent]
      refine ⟨rfl, hsfd, h.link, h.rLb, h.dnsQueue, hat', h.connected, h.requests, h.served, h.up, ?_, h.handed⟩
      dsimp only
      rw [h.answered, ← List.map_append, List.append_assoc]
    | none =>
      have hfresh : w.fresh dns = [] := by
        unfold fresh
        rw [hfd]
        dsimp only
        rw [hv, hv']
      rw [hfresh] at hobs hat'
      rw [hfd] at hobs
      dsimp only at hobs
      rw [hv', if_neg (by simp)] at hobs
      cases hobs
      rw [System.observe_closed hsfd hv']
      obtain ⟨p', q', hat'⟩ := hat'
      refine ⟨rfl, rfl, h.link, h.rLb, h.dnsQueue, ⟨p', q', hat'.cleanConn⟩, h.connected, h.requests, h.served, h.up, ?_, h.handed⟩
      dsimp only
      rw [List.map_nil, List.append_nil]
      exact h.answered
  · rw [not_exists] at hpeer
    have hfresh : w.fresh dns = [] := by
      unfold fresh
      split
      · rename_i fd hfd
        exact absurd hfd (hpeer fd)
      · rfl
    rw [hfresh] at hobs hat'
    rw [System.observe_of_ne (by rw [h.peer]; exact hpeer)]
    split at hobs
    · rename_i fd hfd
      exact absurd hfd (hpeer fd)
    · cases hobs
      refine ⟨rfl, h.peer, h.link, h.rLb, h.dnsQueue, hat', h.connected, h.requests, h.served, h.up, ?_, h.handed⟩
      dsimp only
      rw [List.map_nil, List.append_nil]
      exact h.answered

variable [RateArith R]

/-- The router is called with the next message, which is the head of the queue up. -/
theorem Sim.request (h : Sim w s) {vs : List ℕ} (hl : System.Linked s vs) {wk : ℕ}
    (hstep : w.step? cfg threads (.request wk) = some w') :
    ∃ s', Reachable (System.step? cfg threads) s s' ∧ Sim w' s' := by
  obtain ⟨p, q, hat⟩ := h.tcp
  simp only [step?] at hstep
  split at hstep
  · rename_i fd msgid data hpeer hnext
    have hlt : w.served < w.tcp.conn.dispatched.length := (List.getElem?_eq_some_iff.mp hnext).1
    have hasked : w.tcp.asked[w.served]? = some (msgid, data) := by
      obtain ⟨rest, hrest⟩ := hat.dispatched
      rw [← hrest, List.getElem?_append_left hlt]
      exact hnext
    have hup : s.up = data :: (w.tcp.asked.drop (w.served + 1)).map Prod.snd := by
      rw [h.up, List.drop_eq_getElem?_toList_append, hasked]
      rfl
    rw [if_pos (h.requests _ (List.mem_of_getElem? hasked))] at hstep
    obtain ⟨dns, hdns, rfl⟩ := Option.map_eq_some_iff.mp hstep
    obtain ⟨sent, hquiet, hview⟩ := Versioned.view_request hdns
    have hspeer := h.peer.trans hpeer
    obtain ⟨v, hv, hsent⟩ := hl.sent fd hspeer
    rw [h.dns] at hv
    cases hv.symm.trans hquiet
    have hobs : s.observe dns = { s with dns := dns } := by
      rw [System.observe_open hspeer hview, hsent]
      simp
    have hsys : s.step? cfg threads (.request wk) =
        some { s with dns := dns, up := (w.tcp.asked.drop (w.served + 1)).map Prod.snd } := by
      simp only [System.step?, hspeer, hup]
      rw [h.dns, hdns, Option.map_some, hobs]
      simp only [hspeer]
    refine ⟨_, .tail (.refl s) hsys, rfl, h.peer, h.link, h.rLb, h.dnsQueue, h.tcp, h.connected, h.requests, hlt, rfl,
      h.answered, h.handed⟩
  · cases hstep

/-- Any other step of the server. -/
theorem Sim.server (h : Sim w s) {vs : List ℕ} (hl : System.Linked s vs) {a : ServerAction}
    {raws : Raws} (hok : w.Allows threads (.dns a raws))
    (hstep : w.step? cfg threads (.dns a raws) = some w') :
    ∃ s', Reachable (System.step? cfg threads) s s' ∧ Sim w' s' := by
  have hinv : ∃ dns, w.dns.step threads a = some dns ∧ w.handOver? raws dns = some w' ∧
      s.step? cfg threads (.dns a) = some (s.observe dns) := by
    cases a with
    | getRoute wk fd data =>
      simp only [step?, Option.ite_none_left_eq_some] at hstep
      obtain ⟨hpeer, hstep⟩ := hstep
      obtain ⟨dns, hdns, hobs⟩ := Option.bind_eq_some_iff.mp hstep
      refine ⟨dns, hdns, hobs, ?_⟩
      rw [System.step?, if_neg (by rw [h.peer]; exact hpeer), h.dns, hdns]
      rfl
    | _ =>
      obtain ⟨dns, hdns, hobs⟩ := Option.bind_eq_some_iff.mp hstep
      refine ⟨dns, hdns, hobs, ?_⟩
      simp only [System.step?]
      rw [h.dns, hdns]
      rfl
  obtain ⟨dns, hdns, hobs, hsys⟩ := hinv
  exact ⟨_, .tail (.refl s) hsys, h.observe hl (hok dns hdns) hobs⟩

/-- Each step at the level of bytes is a run at the level of messages. -/
theorem Sim.step (h : Sim w s) {vs : List ℕ} (hl : System.Linked s vs) {a : WiredAction}
    (hok : w.Allows threads a) (hstep : w.step? cfg threads a = some w') :
    ∃ s', Reachable (System.step? cfg threads) s s' ∧ Sim w' s' := by
  cases a with
  | datagram i env readBuf d =>
    obtain ⟨served, hserve, rfl⟩ := Option.map_eq_some_iff.mp hstep
    have hsys : s.step? cfg threads (.datagram i env readBuf d) = some { s with
        rLb := Function.update w.rLb i served.routeLb
        dnsQueue := w.dnsQueue ++ served.pull.toList } := by
      rw [System.step?, h.rLb, h.dnsQueue, hserve]
      rfl
    exact ⟨_, .tail (.refl s) hsys, h.dns, h.peer, h.link, rfl, rfl, h.tcp, h.connected, h.requests, h.served, h.up,
      h.answered, h.handed⟩
  | newDnsRequest =>
    have hsys : s.step? cfg threads (.newDnsRequest w.tcp.client) = some { s with
        dnsQueue := []
        up := s.up ++ (forward Proto.MessageID.idGetRouteRequest.value w.tcp.client
          w.dnsQueue).2.1.map serialize
        lost := s.lost ++ (forward Proto.MessageID.idGetRouteRequest.value w.tcp.client
          w.dnsQueue).2.2 } := by
      rw [System.step?, h.link, h.dnsQueue, if_pos h.connected]
    cases hstep
    exact ⟨_, .tail (.refl s) hsys, h.newDnsRequest rfl⟩
  | connInit =>
    simp only [step?, Option.ite_none_right_eq_some] at hstep
    obtain ⟨hlink, hstep⟩ := hstep
    cases hstep
    have hsys : s.step? cfg threads .connInit =
        some { s with link := .connected, rLb := connInit w.rLb } := by
      rw [System.step?, if_pos (h.link.trans hlink), h.rLb]
    obtain ⟨p, q, hat⟩ := h.tcp
    exact ⟨_, .tail (.refl s) hsys, h.dns, h.peer, rfl, rfl, h.dnsQueue, ⟨p, q, hat.setConnected true⟩, rfl, h.requests,
      h.served, h.up, h.answered, h.handed⟩
  | disconnect =>
    cases hstep
    obtain ⟨p, q, hat⟩ := h.tcp
    exact ⟨_, .tail (.refl s) (show s.step? cfg threads .disconnect = _ from rfl), h.dns, h.peer, rfl, h.rLb, h.dnsQueue,
      ⟨p, q, hat.setConnected false⟩, rfl, h.requests, h.served, h.up, h.answered, h.handed⟩
  | write k =>
    obtain ⟨tcp, htcp, rfl⟩ := Option.map_eq_some_iff.mp hstep
    refine ⟨s, .refl s, h.move htcp trivial ?_⟩
    simp only [Duplex.step?, Option.ite_none_right_eq_some] at htcp
    obtain ⟨-, htcp⟩ := htcp
    cases htcp
    exact ⟨rfl, rfl, rfl, rfl⟩
  | read raw n =>
    simp only [step?] at hstep
    split at hstep
    · obtain ⟨tcp, htcp, rfl⟩ := Option.map_eq_some_iff.mp hstep
      refine ⟨s, .refl s, h.move htcp trivial ?_⟩
      simp only [Duplex.step?, Option.ite_none_right_eq_some] at htcp
      obtain ⟨conn, -, rfl⟩ := Option.map_eq_some_iff.mp htcp.2
      exact ⟨rfl, rfl, rfl, rfl⟩
    · cases hstep
  | flush results =>
    obtain ⟨tcp, htcp, rfl⟩ := Option.map_eq_some_iff.mp hstep
    refine ⟨s, .refl s, h.move htcp trivial ?_⟩
    simp only [Duplex.step?, Option.ite_none_left_eq_some] at htcp
    obtain ⟨r, -, rfl⟩ := Option.map_eq_some_iff.mp htcp.2
    exact ⟨rfl, rfl, rfl, rfl⟩
  | receive n env =>
    obtain ⟨tcp, htcp, hstep⟩ := Option.bind_eq_some_iff.mp hstep
    obtain ⟨rLb, hdeal, rfl⟩ := Option.map_eq_some_iff.mp hstep
    exact h.receive htcp hdeal
  | accept wk fd =>
    simp only [step?, Option.ite_none_right_eq_some] at hstep
    obtain ⟨hpeer, hstep⟩ := hstep
    obtain ⟨dns, hdns, rfl⟩ := Option.map_eq_some_iff.mp hstep
    have hsys : s.step? cfg threads (.accept wk fd) =
        some { s with dns := dns, peer := .accepted fd } := by
      rw [System.step?, if_pos (h.peer.trans hpeer), h.dns, hdns]
      rfl
    exact ⟨_, .tail (.refl s) hsys, rfl, rfl, h.link, h.rLb, h.dnsQueue, h.tcp, h.connected, h.requests, h.served, h.up,
      h.answered, h.handed⟩
  | request wk => exact h.request hl hstep
  | dns a raws => exact h.server hl hok hstep

/-- Whatever the two ends of the connection do with its bytes, every state of the agent and the
server is one that they reach with whole messages, as long as the server's output buffer has room
for its responses. -/
theorem wired_refines (cfg : Config R) (threads : ℕ) (rows : List RouteRow) (link : Link)
    (rawIn rawOut : ℤ → UInt8) (as : List WiredAction) (w : Wired)
    (hrun : run? (step? cfg threads) (Wired.start rows link rawIn rawOut) as = some w)
    (hok : ∀ x ∈ attempted (step? cfg threads) (Wired.start rows link rawIn rawOut) as,
      x.1.Allows threads x.2) :
    ∃ s, Reachable (System.step? cfg threads) (System.start rows link) s ∧ Sim w s := by
  refine forall_visited (G := Allows threads) (P := fun w => ∃ s,
    Reachable (System.step? cfg threads) (System.start rows link) s ∧ Sim w s) ?_ _ as
    ⟨_, .refl _, .start rows link rawIn rawOut⟩ hok w (mem_visited_of_run? hrun)
  intro w a w' hw hallows hstep
  obtain ⟨s, hr, hsim⟩ := hw
  obtain ⟨vs, hl⟩ := System.linked_of_reachable hr
  obtain ⟨s', hr', hsim'⟩ := hsim.step hl hallows hstep
  exact ⟨s', hr.trans hr', hsim'⟩

instance (s : Wired) (a : WiredAction) : Decidable (s.Allows threads a) :=
  match a with
  | .dns a _ => inferInstanceAs (Decidable (∀ dns ∈ s.dns.step threads a, _))
  | .datagram _ _ _ _ => .isTrue trivial
  | .newDnsRequest => .isTrue trivial
  | .connInit => .isTrue trivial
  | .disconnect => .isTrue trivial
  | .write _ => .isTrue trivial
  | .read _ _ => .isTrue trivial
  | .flush _ => .isTrue trivial
  | .receive _ _ => .isTrue trivial
  | .accept _ _ => .isTrue trivial
  | .request _ => .isTrue trivial

/-- The module (1, 1) is pulled; the request and the response travel in two pieces each. -/
def piecesRun : List WiredAction :=
  [.accept 0 5, .connInit, .datagram System.shard System.clock [] System.hostRequest, .newDnsRequest, .write 5,
    .read (fun _ => 0) 5, .write 7, .read (fun _ => 0) 7, .request 0,
    .dns (.resume 0) (fun _ => 0, fun _ => 0), .dns (.resume 0) (fun _ => 0, fun _ => 0),
    .dns (.resume 0) (fun _ => 0, fun _ => 0), .flush [.wrote 10, .again],
    .receive 10 fun _ => (bumpMemory, 100), .flush [.wrote 8, .again],
    .receive 8 fun _ => (bumpMemory, 100)]

theorem wired_refines_piecesRun :
    ∃ w s, run? (step? defaultConfig 1)
        (Wired.start [⟨1, 1, 7, 80⟩] .connecting (fun _ => 0) fun _ => 0) piecesRun = some w ∧
      w.tcp.calls = [responseMsg ⟨1, 1, [⟨7, 80⟩]⟩] ∧
      Reachable (System.step? defaultConfig 1) (System.start [⟨1, 1, 7, 80⟩] .connecting) s ∧
      Sim w s := by
  have hrun : (run? (step? defaultConfig 1) (Wired.start [⟨1, 1, 7, 80⟩] .connecting (fun _ => 0)
      fun _ => 0) piecesRun).map (fun w => w.tcp.calls) = some [responseMsg ⟨1, 1, [⟨7, 80⟩]⟩] := by
    decide +kernel
  obtain ⟨w, hw, hcalls⟩ := Option.map_eq_some_iff.mp hrun
  obtain ⟨s, hr, hsim⟩ := wired_refines defaultConfig 1 _ _ _ _ piecesRun w hw (by decide +kernel)
  exact ⟨w, s, hw, hcalls, hr, hsim⟩

end Wired

end Lrlb.Pipeline
