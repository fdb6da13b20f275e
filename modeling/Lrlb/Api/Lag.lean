import Lrlb.Agent.Requests
import Lrlb.Api.Session

/-! The replies that wait on the client's sockets. `report` never reads the reply that the agent
sends to it and `get_route` takes the oldest one, so each report puts the routes one call behind. -/
namespace Lrlb.Api
open Lib Lib.Message Reactor Agent
open Proto (MessageID GetHostResponse GetRouteRequest GetRouteResponse ReportRequest)
open Proto.LrlbRetCode (retSucc retSystemError retNoexist)

theorem socketIndex?_eq (modid cmdid : Int32) :
    socketIndex? modid cmdid = arrayIndex? 3 (getRouteIndex modid cmdid) := by
  have hlt := shard_lt modid cmdid
  unfold socketIndex? arrayIndex?
  change _ = if h : 0 ≤ (shard modid cmdid).toInt ∧ (shard modid cmdid).toInt < 3 then _ else _
  by_cases h : 0 ≤ (shard modid cmdid).toInt
  · rw [dif_pos h, dif_pos ⟨h, hlt⟩]
    rfl
  · rw [dif_neg h, dif_neg fun hboth => h hboth.1]

namespace Client

/-- The response that `get_route` finds in a datagram. -/
def routeIn (d : List UInt8) : Option GetRouteResponse :=
  if (MsgHead.ofBytes d).msgid ≠ MessageID.idAPIGetRouteResponse.value then none
  else
    match (parse (d.drop messageHeadLen) : GetRouteResponse × Bool) with
    | (_, false) => none
    | (rsp, true) => some rsp

/-- What a call returns that takes this datagram from its socket. -/
def routeResult (modid cmdid : Int32) (d : List UInt8) : Int32 × List Proto.HostInfo :=
  getRouteResult modid cmdid (routeIn d)

theorem recvRoute?_cons (d : List UInt8) (q : List (List UInt8)) :
    recvRoute? (d :: q) = some (routeIn d, q) := by
  rw [recvRoute?, routeIn]
  by_cases h : (MsgHead.ofBytes d).msgid ≠ MessageID.idAPIGetRouteResponse.value
  · rw [if_pos h, if_pos h]
  · rw [if_neg h, if_neg h]
    obtain ⟨rsp, _ | _⟩ : GetRouteResponse × Bool := parse (d.drop messageHeadLen) <;> rfl

/-- The receive loop of `get_host` takes at least one datagram. -/
theorem length_recvResponse? {seq : UInt32} {q q' : List (List UInt8)}
    {rsp : Option GetHostResponse} (h : recvResponse? seq q = some (rsp, q')) :
    q'.length < q.length := by
  induction q with
  | nil => cases h
  | cons d q ih =>
    rw [recvResponse?] at h
    split at h
    · cases h
      simp
    · split at h
      · cases h
        simp
      · split_ifs at h
        · exact (ih h).trans (by simp)
        · cases h
          simp

end Client

/-- What the agent answers to a route request. -/
def routeAnswer (r : RouteLb) (modid cmdid : Int32) : GetRouteResponse :=
  ⟨modid, cmdid, told (r.routeLbMap (packInts modid cmdid))⟩

def routeReply (r : RouteLb) (modid cmdid : Int32) : List UInt8 :=
  frame MessageID.idAPIGetRouteResponse.value (serialize (routeAnswer r modid cmdid))

/-- The answer fits the buffer that it is sent from. -/
def Fits (r : RouteLb) (modid cmdid : Int32) : Prop :=
  messageHeadLen + (serialize (routeAnswer r modid cmdid)).length ≤ messageLengthLimit

instance (r : RouteLb) (modid cmdid : Int32) : Decidable (Fits r modid cmdid) :=
  inferInstanceAs (Decidable (_ ≤ _))

/-- A call of the client, or an operation that somebody else runs on the agent. -/
inductive ClientOp where
  | getHost (env : Env) (modid cmdid : Int32)
  | getRoute (env : Env) (modid cmdid : Int32)
  | report (env : Env) (modid cmdid ip port retcode : Int32)
  | agent (i : Fin 3) (op : RouteOp)

section Steps

variable {R : Type} [RateArith R] (cfg : Config R)

/-- An operation of others on one of the three `route_lb`. -/
def agentStep? (rLb : Fin 3 → RouteLb) (x : Fin 3 × RouteOp) : Option (Fin 3 → RouteLb) :=
  (routeStep? cfg (rLb x.1) x.2).map (Function.update rLb x.1)

def clientStep? (s : Session) : ClientOp → Option Session
  | .getHost env modid cmdid => (s.getHost? cfg env modid cmdid).map Prod.fst
  | .getRoute env modid cmdid => (s.getRoute? cfg env modid cmdid).map Prod.fst
  | .report env modid cmdid ip port retcode =>
    (s.report? cfg env modid cmdid ip port retcode).map Prod.fst
  | .agent i op => (agentStep? cfg s.rLb (i, op)).map fun rLb => { s with rLb := rLb }

end Steps

namespace ClientOp

/-- The operation is a report that goes to socket `i`. -/
def reportsOn (i : Fin 3) : ClientOp → Bool
  | .report _ modid cmdid .. => socketIndex? modid cmdid = some i
  | _ => false

/-- The operation is a host request on socket `i`. -/
def getsHostOn (i : Fin 3) : ClientOp → Bool
  | .getHost _ modid cmdid => socketIndex? modid cmdid = some i
  | _ => false

/-- The operation is a route request on socket `i`. -/
def getsRouteOn (i : Fin 3) : ClientOp → Bool
  | .getRoute _ modid cmdid => socketIndex? modid cmdid = some i
  | _ => false

end ClientOp

namespace Session

variable {R : Type} {cfg : Config R} {s s' : Session} {env : Env} {i : Fin 3} {modid cmdid : Int32}

/-- The agent's answer to a route request can be sent. -/
def Answers (s : Session) : ClientOp → Prop
  | .getRoute _ modid cmdid =>
    ∀ i, socketIndex? modid cmdid = some i → Fits (s.rLb i) modid cmdid
  | _ => True

/-- The session after a route request whose reply left `q` on the socket. -/
def afterRoute (cfg : Config R) (s : Session) (env : Env) (i : Fin 3) (modid cmdid : Int32)
    (q : List (List UInt8)) : Session where
  client := { s.client with sockets := Function.update s.client.sockets i q }
  rLb := Function.update s.rLb i ((s.rLb i).getRoute cfg env.time env.raw modid cmdid
    { modid := modid, cmdid := cmdid }).1
  readBuf := Function.update s.readBuf i
    (recvInto (s.readBuf i) (Client.getRouteRequest modid cmdid))

@[simp] theorem sockets_afterRoute (q : List (List UInt8)) :
    (s.afterRoute cfg env i modid cmdid q).client.sockets =
      Function.update s.client.sockets i q := rfl

variable [RateArith R]

theorem send?_getRouteRequest (hfits : Fits (s.rLb i) modid cmdid) :
    (send? cfg env s i (Client.getRouteRequest modid cmdid)).map Prod.fst =
      some (s.afterRoute cfg env i modid cmdid
        (s.client.sockets i ++ [routeReply (s.rLb i) modid cmdid])) := by
  have hserve := serve?_getRouteRequest cfg env (s.readBuf i) (s.rLb i) ⟨modid, cmdid⟩
  have hanswer : ((s.rLb i).getRoute cfg env.time env.raw modid cmdid
      { modid := modid, cmdid := cmdid }).2.1 = routeAnswer (s.rLb i) modid cmdid := by
    rw [RouteLb.getRoute_response]
    rfl
  dsimp only at hserve
  rw [hanswer, reply?, udpSendMessage_of_le _ _ hfits] at hserve
  rw [send?, Client.getRouteRequest, hserve]
  rfl

/-- A route request takes the first datagram of its socket, and that is its own answer only if
nothing else was waiting. -/
theorem getRoute?_eq (hi : socketIndex? modid cmdid = some i)
    (hfits : Fits (s.rLb i) modid cmdid) {d : List UInt8} {q : List (List UInt8)}
    (hq : s.client.sockets i ++ [routeReply (s.rLb i) modid cmdid] = d :: q) :
    s.getRoute? cfg env modid cmdid =
      some (s.afterRoute cfg env i modid cmdid q, Client.routeResult modid cmdid d) := by
  have hsend : (send? cfg env s i (Client.getRouteRequest modid cmdid)).map Prod.fst = _ :=
    send?_getRouteRequest hfits
  obtain ⟨⟨t, served⟩, hsend, ht⟩ := Option.map_eq_some_iff.mp hsend
  dsimp only at ht
  have hfirst : Client.recvRoute? (t.client.sockets i) = some (Client.routeIn d, q) := by
    rw [ht, sockets_afterRoute, Function.update_self, hq, Client.recvRoute?_cons]
  rw [getRoute?, ← socketIndex?_eq, hi]
  simp only [Option.bind_eq_bind, Option.bind_some, hsend, hfirst]
  rw [ht]
  simp only [afterRoute, Function.update_idem]
  rfl

theorem report?_inv {ip port retcode : Int32} {served : Served}
    (h : s.report? cfg env modid cmdid ip port retcode = some (s', served)) :
    ∃ j rsp, socketIndex? modid cmdid = some j ∧ s'.client.sockets =
      Function.update s.client.sockets j (s.client.sockets j ++
        [frame MessageID.idGetHostResponse.value (serialize (rsp : GetHostResponse))]) := by
  have hlen := Proto.length_reportRequest_le ⟨modid, cmdid, some ⟨ip, port⟩, retcode⟩
  obtain ⟨j, hj, h⟩ := Option.bind_eq_some_iff.mp h
  rw [send?, Client.reportRequest, serve?_getHostRequest cfg env _ _
    (by simp only [messageHeadLen, messageLengthLimit]; omega)
    (Proto.parse_reportRequest_as_getHostRequest _), Option.map_map] at h
  obtain ⟨x, -, heq⟩ := Option.map_eq_some_iff.mp h
  cases heq
  exact ⟨j, x.2.1, hj, rfl⟩

/-- A host request leaves no more on its socket than was there. -/
theorem getHost?_inv {res : Int32 × Option Proto.HostInfo}
    (h : s.getHost? cfg env modid cmdid = some (s', res)) :
    ∃ j q, socketIndex? modid cmdid = some j ∧
      s'.client.sockets = Function.update s.client.sockets j q ∧
      q.length ≤ (s.client.sockets j).length := by
  obtain ⟨j, hj, h⟩ := Option.bind_eq_some_iff.mp h
  obtain ⟨⟨u, served⟩, hsend, h⟩ := Option.bind_eq_some_iff.mp h
  obtain ⟨⟨rsp, q⟩, hrecv, h⟩ := Option.bind_eq_some_iff.mp h
  cases h
  obtain ⟨x, -, heq⟩ := Option.map_eq_some_iff.mp
    ((send?_getHostRequest env j modid cmdid).symm.trans hsend)
  cases heq
  have hshort := Client.length_recvResponse? hrecv
  simp only [Client.deliver, Client.getHostRequest, Function.update_self, List.length_append,
    List.length_singleton] at hshort
  refine ⟨j, q, hj, ?_, by omega⟩
  simp only [Client.deliver, Client.getHostRequest, Function.update_idem]

/-- One step and the replies on one socket: a report adds one, a host request may take some. -/
theorem length_step {op : ClientOp} (hG : s.Answers op) (h : clientStep? cfg s op = some s')
    (i : Fin 3) :
    (s'.client.sockets i).length ≤ (s.client.sockets i).length + (op.reportsOn i).toNat ∧
      (op.getsHostOn i = false → (s'.client.sockets i).length =
        (s.client.sockets i).length + (op.reportsOn i).toNat) := by
  cases op with
  | getHost env modid cmdid =>
    obtain ⟨⟨t, res⟩, hcall, rfl⟩ := Option.map_eq_some_iff.mp h
    obtain ⟨j, q, hj, hsockets, hq⟩ := getHost?_inv hcall
    by_cases hij : i = j
    · subst hij
      simp [hsockets, hq, ClientOp.getsHostOn, ClientOp.reportsOn, hj]
    · simp [hsockets, hij, ClientOp.reportsOn]
  | getRoute env modid cmdid =>
    obtain ⟨⟨t, res⟩, hcall, rfl⟩ := Option.map_eq_some_iff.mp h
    obtain ⟨j, hj, -⟩ := Option.bind_eq_some_iff.mp hcall
    rw [← socketIndex?_eq] at hj
    cases hq : s.client.sockets j ++ [routeReply (s.rLb j) modid cmdid] with
    | nil => simp at hq
    | cons d q =>
      rw [getRoute?_eq hj (hG j hj) hq] at hcall
      cases hcall
      have hlen := congrArg List.length hq
      simp only [List.length_append, List.length_cons, List.length_nil] at hlen
      by_cases hij : i = j
      · subst hij
        simp only [sockets_afterRoute, Function.update_self, ClientOp.reportsOn, Bool.toNat_false]
        exact ⟨by omega, fun _ => by omega⟩
      · simp [hij, ClientOp.reportsOn]
  | report env modid cmdid ip port retcode =>
    obtain ⟨⟨t, served⟩, hcall, rfl⟩ := Option.map_eq_some_iff.mp h
    obtain ⟨j, rsp, hj, hsockets⟩ := report?_inv hcall
    by_cases hij : i = j
    · subst hij
      simp [hsockets, ClientOp.reportsOn, hj]
    · have hne : j ≠ i := fun hji => hij hji.symm
      simp [hsockets, hij, ClientOp.reportsOn, hj, hne]
  | agent j op =>
    obtain ⟨rLb, -, rfl⟩ := Option.map_eq_some_iff.mp h
    simp [ClientOp.reportsOn]

/-- What waits on the sockets after the operations of `past`. -/
structure Backlog (past : List ClientOp) (s : Session) : Prop where
  le : ∀ i, (s.client.sockets i).length ≤ past.countP (·.reportsOn i)
  eq : ∀ i, (∀ op ∈ past, op.getsHostOn i = false) →
    (s.client.sockets i).length = past.countP (·.reportsOn i)

theorem Backlog.step {past : List ClientOp} {op : ClientOp} (h : Backlog past s)
    (hG : s.Answers op) (hstep : clientStep? cfg s op = some s') : Backlog (past ++ [op]) s' := by
  have hcount : ∀ i, (past ++ [op]).countP (·.reportsOn i) =
      past.countP (·.reportsOn i) + (op.reportsOn i).toNat := by
    intro i
    rw [List.countP_append, List.countP_singleton]
    cases op.reportsOn i <;> rfl
  constructor
  · intro i
    have hle := h.le i
    have hlen := (length_step hG hstep i).1
    rw [hcount]
    omega
  · intro i hnone
    have heq := h.eq i fun op hop => hnone op (List.mem_append_left _ hop)
    have hlen := (length_step hG hstep i).2 (hnone op (by simp))
    rw [hcount]
    omega

/-- What waits on socket `i` is `n` replies to reports. -/
def OnlyReports (i : Fin 3) (n : ℕ) (s : Session) : Prop :=
  ∃ rsps : List GetHostResponse, rsps.length = n ∧ s.client.sockets i =
    rsps.map fun rsp => frame MessageID.idGetHostResponse.value (serialize rsp)

theorem getRoute?_sockets {res : Int32 × List Proto.HostInfo}
    (h : s.getRoute? cfg env modid cmdid = some (s', res)) :
    ∃ j q, socketIndex? modid cmdid = some j ∧
      s'.client.sockets = Function.update s.client.sockets j q := by
  obtain ⟨j, hj, h⟩ := Option.bind_eq_some_iff.mp h
  obtain ⟨⟨u, served⟩, hsend, h⟩ := Option.bind_eq_some_iff.mp h
  obtain ⟨⟨rsp, q⟩, -, h⟩ := Option.bind_eq_some_iff.mp h
  cases h
  obtain ⟨served', -, heq⟩ := Option.map_eq_some_iff.mp hsend
  cases heq
  exact ⟨j, q, (socketIndex?_eq ..).trans hj, Function.update_idem ..⟩

theorem OnlyReports.step {n : ℕ} {op : ClientOp} (h : OnlyReports i n s)
    (hhost : op.getsHostOn i = false) (hroute : op.getsRouteOn i = false)
    (hstep : clientStep? cfg s op = some s') :
    OnlyReports i (n + (op.reportsOn i).toNat) s' := by
  obtain ⟨rsps, hn, hrsps⟩ := h
  cases op with
  | getHost env modid cmdid =>
    obtain ⟨⟨t, res⟩, hcall, rfl⟩ := Option.map_eq_some_iff.mp hstep
    obtain ⟨j, q, hj, hsockets, -⟩ := getHost?_inv hcall
    have hij : i ≠ j := fun hij => by simp [ClientOp.getsHostOn, hj, hij] at hhost
    exact ⟨rsps, hn, by rw [hsockets, Function.update_of_ne hij, hrsps]⟩
  | getRoute env modid cmdid =>
    obtain ⟨⟨t, res⟩, hcall, rfl⟩ := Option.map_eq_some_iff.mp hstep
    obtain ⟨j, q, hj, hsockets⟩ := getRoute?_sockets hcall
    have hij : i ≠ j := fun hij => by simp [ClientOp.getsRouteOn, hj, hij] at hroute
    exact ⟨rsps, hn, by rw [hsockets, Function.update_of_ne hij, hrsps]⟩
  | report env modid cmdid ip port retcode =>
    obtain ⟨⟨t, served⟩, hcall, rfl⟩ := Option.map_eq_some_iff.mp hstep
    obtain ⟨j, rsp, hj, hsockets⟩ := report?_inv hcall
    by_cases hij : i = j
    · subst hij
      refine ⟨rsps ++ [rsp], ?_, ?_⟩
      · simp [hn, ClientOp.reportsOn, hj]
      · rw [hsockets, Function.update_self, hrsps, List.map_append, List.map_singleton]
    · have hne : j ≠ i := fun hji => hij hji.symm
      refine ⟨rsps, ?_, by rw [hsockets, Function.update_of_ne hij, hrsps]⟩
      simp [hn, ClientOp.reportsOn, hj, hne]
  | agent j op =>
    obtain ⟨rLb, -, rfl⟩ := Option.map_eq_some_iff.mp hstep
    exact ⟨rsps, hn, hrsps⟩

end Session

end Lrlb.Api
