import Lrlb.Agent.UdpServer
import Lrlb.Api.Client

/-! One client and its agent over lossless in-order datagrams. Between the client's calls the
dns client and other clients work on the agent's modules. -/
namespace Lrlb.Api
open Lib Lib.Message Reactor Agent
open Proto (MessageID GetHostResponse ReportRequest)

structure Session where
  client : Client
  rLb : Fin 3 → RouteLb
  readBuf : Fin 3 → List UInt8

namespace Session

variable {R : Type} [RateArith R] (cfg : Config R)

/-- A datagram of the client reaches server `i`, which handles it and answers. -/
def send? (env : Env) (s : Session) (i : Fin 3) (d : List UInt8) : Option (Session × Served) :=
  (serve? cfg env (s.readBuf i) (s.rLb i) d).map fun served =>
    ({ client := s.client.deliver i served.replies
       rLb := Function.update s.rLb i served.routeLb
       readBuf := Function.update s.readBuf i (recvInto (s.readBuf i) d) }, served)

/-- `lrlb_client::get_host` with the agent's part of it. `none` never returns: the request goes
outside the socket array, the agent aborts, or the client waits for ever. -/
def getHost? (env : Env) (s : Session) (modid cmdid : Int32) :
    Option (Session × Int32 × Option Proto.HostInfo) := do
  let i ← socketIndex? modid cmdid
  let seq := s.client.seqid
  let (client, d) := s.client.getHostRequest modid cmdid
  let (s, _) ← send? cfg env { s with client := client } i d
  let (rsp, q) ← Client.recvResponse? seq (s.client.sockets i)
  some ({ s with client := { s.client with sockets := Function.update s.client.sockets i q } },
    Client.getHostResult seq modid cmdid rsp)

/-- `lrlb_client::get_route` with the agent's part of it. -/
def getRoute? (env : Env) (s : Session) (modid cmdid : Int32) :
    Option (Session × Int32 × List Proto.HostInfo) := do
  let i ← arrayIndex? 3 (getRouteIndex modid cmdid)
  let (s, _) ← send? cfg env s i (Client.getRouteRequest modid cmdid)
  let (rsp, q) ← Client.recvRoute? (s.client.sockets i)
  some ({ s with client := { s.client with sockets := Function.update s.client.sockets i q } },
    Client.getRouteResult modid cmdid rsp)

/-- `lrlb_client::report` with the agent's part of it. -/
def report? (env : Env) (s : Session) (modid cmdid ip port retcode : Int32) :
    Option (Session × Served) := do
  let i ← socketIndex? modid cmdid
  send? cfg env s i (Client.reportRequest ⟨modid, cmdid, some ⟨ip, port⟩, retcode⟩)

end Session

/-- The client asks for a host, or somebody else runs an operation on the agent. -/
inductive SessionOp where
  | getHost (env : Env) (modid cmdid : Int32)
  | agent (i : Fin 3) (op : RouteOp)

def sessionStep? {R : Type} [RateArith R] (cfg : Config R) (s : Session) :
    SessionOp → Option Session
  | .getHost env modid cmdid => (s.getHost? cfg env modid cmdid).map Prod.fst
  | .agent i op =>
    (routeStep? cfg (s.rLb i) op).map fun r => { s with rLb := Function.update s.rLb i r }

/-- The pairs that the client asks for, in order. -/
def requests : List SessionOp → List (Int32 × Int32)
  | [] => []
  | .getHost _ modid cmdid :: ops => (modid, cmdid) :: requests ops
  | .agent .. :: ops => requests ops

namespace Session

variable {R : Type} [RateArith R] {cfg : Config R} {s s' : Session}

/-- What `get_host_cb` computes for a request that arrives now. -/
def answer? (cfg : Config R) (s : Session) (env : Env) (i : Fin 3) (modid cmdid : Int32) :=
  (s.rLb i).getHost? cfg env.time env.raw modid cmdid { modid := modid, cmdid := cmdid }

/-- The agent does not abort on this operation. -/
def AgentAnswers (cfg : Config R) (s : Session) : SessionOp → Prop
  | .getHost env modid cmdid =>
    ∀ i, socketIndex? modid cmdid = some i → (s.answer? cfg env i modid cmdid).isSome
  | .agent i op => (routeStep? cfg (s.rLb i) op).isSome

/-- A call returns the return code and the host that the agent computed for it. -/
def CallAnswered (cfg : Config R) (s : Session) : SessionOp → Prop
  | .getHost env modid cmdid => ∃ i t s', socketIndex? modid cmdid = some i ∧
      s.answer? cfg env i modid cmdid = some t ∧
      s.getHost? cfg env modid cmdid = some (s', t.2.1.retcode,
        if t.2.1.retcode = 0 then some (t.2.1.host.getD { }) else none)
  | .agent .. => True

theorem send?_getHostRequest (env : Env) (i : Fin 3) (modid cmdid : Int32) :
    send? cfg env { s with client := (s.client.getHostRequest modid cmdid).1 } i
        (s.client.getHostRequest modid cmdid).2 =
      (s.answer? cfg env i modid cmdid).map fun t =>
        ({ client := (s.client.getHostRequest modid cmdid).1.deliver i
             [frame MessageID.idGetHostResponse.value (serialize t.2.1)]
           rLb := Function.update s.rLb i t.1
           readBuf := Function.update s.readBuf i
             (recvInto (s.readBuf i) (s.client.getHostRequest modid cmdid).2) },
          ⟨t.1, some (.getHost modid cmdid), t.2.2.2, none,
            [frame MessageID.idGetHostResponse.value (serialize t.2.1)]⟩) := by
  have hlen := Proto.length_getHostResponse_le
    { seq := s.client.seqid, modid := modid, cmdid := cmdid }
  have hserve := serve?_getHostRequest cfg env (s.readBuf i) (s.rLb i)
    (by simp only [messageHeadLen, messageLengthLimit]; omega)
    (Proto.parse_getHostRequest s.client.seqid modid cmdid)
  rw [send?, Client.getHostRequest]
  dsimp only
  rw [hserve, answer?]
  cases (s.rLb i).getHost? cfg env.time env.raw modid cmdid { modid := modid, cmdid := cmdid } <;>
    rfl

/-- What a call does when nothing else waits on its socket: the agent's response carries
sequence number 0, so it ends the loop only if that is the call's own number. -/
theorem getHost?_of_answer {env : Env} {i : Fin 3} {modid cmdid : Int32}
    (hi : socketIndex? modid cmdid = some i) (hq : s.client.sockets i = [])
    {t : RouteLb × GetHostResponse × Int32 × Option Proto.GetRouteRequest}
    (ht : s.answer? cfg env i modid cmdid = some t) :
    s.getHost? cfg env modid cmdid =
      if s.client.seqid = 0 then
        some ({ client := ⟨1, Function.update s.client.sockets i []⟩
                rLb := Function.update s.rLb i t.1
                readBuf := Function.update s.readBuf i
                  (recvInto (s.readBuf i) (s.client.getHostRequest modid cmdid).2) },
          t.2.1.retcode, if t.2.1.retcode = 0 then some (t.2.1.host.getD { }) else none)
      else none := by
  obtain ⟨r, rsp, ret, req⟩ := t
  obtain ⟨hseq, hmod, hcmd⟩ := getHost?_response cfg (s.rLb i) ht
  have hsend : send? cfg env { s with client := (s.client.getHostRequest modid cmdid).1 } i
      (s.client.getHostRequest modid cmdid).2 = _ := send?_getHostRequest env i modid cmdid
  rw [ht, Option.map_some] at hsend
  dsimp only at hseq hmod hcmd
  unfold getHost?
  rw [hi]
  simp only [Option.bind_eq_bind, Option.bind_some, hsend]
  simp only [Client.deliver, Client.getHostRequest, Function.update_self, hq, List.nil_append,
    Client.recvResponse?_frame, hseq]
  by_cases h0 : s.client.seqid = 0
  · have hown := Client.getHostResult_own rsp
    rw [hseq, hmod, hcmd] at hown
    simp [h0, hown]
  · have hlt : 0 < s.client.seqid := UInt32.pos_iff_ne_zero.mpr h0
    simp [h0, hlt, Client.recvResponse?]

/-- An operation of others leaves the client alone, and the agent survives it. -/
theorem step_agent {i : Fin 3} {op : RouteOp} (h : AgentAnswers cfg s (.agent i op)) :
    ∃ t, sessionStep? cfg s (.agent i op) = some t ∧ t.client = s.client := by
  obtain ⟨r, hr⟩ := Option.isSome_iff_exists.mp h
  exact ⟨{ s with rLb := Function.update s.rLb i r }, by simp [sessionStep?, hr], rfl⟩

/-- Once the counter has left 0, no call is answered any more. -/
theorem later_calls_blocked (hseq : s.client.seqid ≠ 0) (hq : ∀ i, s.client.sockets i = [])
    (ops : List SessionOp)
    (hagent : ∀ x ∈ attempted (sessionStep? cfg) s ops, AgentAnswers cfg x.1 x.2) :
    (∀ x ∈ attempted (sessionStep? cfg) s ops, CallAnswered cfg x.1 x.2) ↔ requests ops = [] := by
  induction ops generalizing s with
  | nil => simp [attempted, requests]
  | cons op ops ih =>
    rw [forall_attempted_cons] at hagent ⊢
    obtain ⟨hnow, hlater⟩ := hagent
    cases op with
    | agent i op =>
      obtain ⟨t, ht, hc⟩ := step_agent hnow
      have hrest := ih (by rwa [hc]) (by rwa [hc]) (hlater t ht)
      refine ⟨fun h => hrest.mp (h.2 t ht), fun h => ⟨trivial, fun u hu => ?_⟩⟩
      cases Option.some.inj (hu.symm.trans ht)
      exact hrest.mpr h
    | getHost env modid cmdid =>
      refine iff_of_false ?_ (by simp [requests])
      rintro ⟨⟨i, t, s', hi, ht, hcall⟩, -⟩
      rw [getHost?_of_answer hi (hq i) ht, if_neg hseq] at hcall
      cases hcall

theorem calls_answered_of_fresh (hseq : s.client.seqid = 0) (hq : ∀ i, s.client.sockets i = [])
    (ops : List SessionOp)
    (hagent : ∀ x ∈ attempted (sessionStep? cfg) s ops, AgentAnswers cfg x.1 x.2) :
    (∀ x ∈ attempted (sessionStep? cfg) s ops, CallAnswered cfg x.1 x.2) ↔
      (requests ops).length ≤ 1 ∧ ∀ c ∈ requests ops, 0 ≤ shard c.1 c.2 := by
  induction ops generalizing s with
  | nil => simp [attempted, requests]
  | cons op ops ih =>
    rw [forall_attempted_cons] at hagent ⊢
    obtain ⟨hnow, hlater⟩ := hagent
    cases op with
    | agent i op =>
      obtain ⟨t, ht, hc⟩ := step_agent hnow
      have hrest := ih (by rwa [hc]) (by rwa [hc]) (hlater t ht)
      refine ⟨fun h => hrest.mp (h.2 t ht), fun h => ⟨trivial, fun u hu => ?_⟩⟩
      cases Option.some.inj (hu.symm.trans ht)
      exact hrest.mpr h
    | getHost env modid cmdid =>
      cases hi : socketIndex? modid cmdid with
      | none =>
        have hshard : ¬ 0 ≤ shard modid cmdid := by
          rw [← socketIndex?_isSome_iff, hi]
          simp
        refine iff_of_false ?_ (by simp [requests, hshard])
        rintro ⟨⟨i, t, s', hi', -⟩, -⟩
        simp [hi] at hi'
      | some i =>
        obtain ⟨t, ht⟩ := Option.isSome_iff_exists.mp (hnow i hi)
        have hshard : 0 ≤ shard modid cmdid := (socketIndex?_isSome_iff ..).mp (by simp [hi])
        have hcall := getHost?_of_answer hi (hq i) ht
        rw [if_pos hseq] at hcall
        have hstep := congrArg (Option.map Prod.fst) hcall
        have hrest := later_calls_blocked (by simp) (fun j => ?_) ops (hlater _ hstep)
        · constructor
          · rintro ⟨-, h⟩
            have hnil := hrest.mp (h _ hstep)
            simp [requests, hnil, hshard]
          · rintro ⟨hlen, -⟩
            have hnil : requests ops = [] := by simpa [requests] using hlen
            refine ⟨⟨i, t, _, hi, ht, hcall⟩, fun u hu => ?_⟩
            cases Option.some.inj (hu.symm.trans hstep)
            exact hrest.mpr hnil
        · by_cases hj : j = i
          · subst j; simp
          · simpa [hj] using hq j

/-- From a new client every call is answered with the agent's own result if and only if there
is at most one call and its request stays inside the socket array. -/
theorem calls_answered_iff (cfg : Config R) (rLb : Fin 3 → RouteLb) (readBuf : Fin 3 → List UInt8)
    (ops : List SessionOp)
    (hagent : ∀ x ∈ attempted (sessionStep? cfg) ⟨Client.new, rLb, readBuf⟩ ops,
      AgentAnswers cfg x.1 x.2) :
    (∀ x ∈ attempted (sessionStep? cfg) ⟨Client.new, rLb, readBuf⟩ ops, CallAnswered cfg x.1 x.2) ↔
      (requests ops).length ≤ 1 ∧ ∀ c ∈ requests ops, 0 ≤ shard c.1 c.2 :=
  calls_answered_of_fresh rfl (fun _ => rfl) ops hagent

/-- A new client with a new agent. -/
def start : Session := ⟨Client.new, fun _ => RouteLb.empty, fun _ => []⟩

def firstCall : SessionOp := .getHost ⟨100, 100, 100, ⟨0, 0, .new⟩⟩ 1 2

theorem calls_answered_firstCall : CallAnswered defaultConfig start firstCall := by
  have hagent : ∀ x ∈ attempted (sessionStep? defaultConfig) start [firstCall],
      AgentAnswers defaultConfig x.1 x.2 := by
    rw [forall_attempted_cons]
    exact ⟨fun _ _ => rfl, fun _ _ => by simp [attempted]⟩
  have hshard : ∀ c ∈ requests [firstCall], 0 ≤ shard c.1 c.2 := by
    intro c hc
    cases List.mem_singleton.mp hc
    decide
  exact (calls_answered_iff defaultConfig _ _ [firstCall] hagent).mpr ⟨by decide, hshard⟩
    (start, firstCall) List.mem_cons_self

theorem second_call_not_answered :
    ¬ ∀ x ∈ attempted (sessionStep? defaultConfig) start [firstCall, firstCall],
      CallAnswered defaultConfig x.1 x.2 := by
  intro h
  have hstuck : (run? (sessionStep? defaultConfig) start [firstCall, firstCall]).isSome = false := by
    decide +kernel
  rw [forall_attempted_cons] at h
  obtain ⟨⟨_, _, s₁, -, -, h₁⟩, h⟩ := h
  have hs₁ : sessionStep? defaultConfig start firstCall = some s₁ :=
    congrArg (Option.map Prod.fst) h₁
  have h := h s₁ hs₁
  rw [forall_attempted_cons] at h
  obtain ⟨⟨_, _, s₂, -, -, h₂⟩, -⟩ := h
  have hs₂ : sessionStep? defaultConfig s₁ firstCall = some s₂ :=
    congrArg (Option.map Prod.fst) h₂
  simp [run?, hs₁, hs₂] at hstuck

/-- The agent runs `report_host` with what the caller reported and sends nothing back. -/
def ReportDelivered (cfg : Config R) (env : Env) (s : Session)
    (modid cmdid ip port retcode : Int32) : Prop :=
  ∃ s' served, s.report? cfg env modid cmdid ip port retcode = some (s', served) ∧
    served.call = some (.reportHost ⟨modid, cmdid, some ⟨ip, port⟩, retcode⟩) ∧
    served.replies = []

/-- What the agent does with a report: it takes it for a request for a host of the module
`(cmdid, 0)` and answers it. -/
theorem serve?_reportRequest (cfg : Config R) (env : Env) (readBuf : List UInt8) (r : RouteLb)
    (req : ReportRequest) {served : Served}
    (h : serve? cfg env readBuf r (Client.reportRequest req) = some served) :
    served.call = some (.getHost req.cmdid 0) ∧ served.replies ≠ [] := by
  have hlen := Proto.length_reportRequest_le req
  rw [Client.reportRequest, serve?_getHostRequest cfg env readBuf r
    (by simp only [messageHeadLen, messageLengthLimit]; omega)
    (Proto.parse_reportRequest_as_getHostRequest req)] at h
  obtain ⟨t, -, rfl⟩ := Option.map_eq_some_iff.mp h
  exact ⟨rfl, by simp⟩

/-- No report that reaches the agent is delivered. -/
theorem report_never_delivered (cfg : Config R) (env : Env) (s : Session) {i : Fin 3}
    {modid cmdid : Int32} (ip port retcode : Int32)
    (hi : socketIndex? modid cmdid = some i) :
    ¬ ReportDelivered cfg env s modid cmdid ip port retcode := by
  rintro ⟨s', served, hrep, hcall, -⟩
  simp only [report?, hi, Option.bind_eq_bind, Option.bind_some, send?] at hrep
  obtain ⟨served', hserve, heq⟩ := Option.map_eq_some_iff.mp hrep
  cases heq
  obtain ⟨hget, -⟩ := serve?_reportRequest cfg env _ _ _ hserve
  rw [hcall] at hget
  cases hget

theorem report_never_delivered_start :
    ¬ ReportDelivered defaultConfig ⟨100, 100, 100, ⟨0, 0, .new⟩⟩ start 1 2 7 80 0 :=
  report_never_delivered _ _ _ _ _ _ (show socketIndex? 1 2 = some 0 by decide)

/-- A report for module (1, 2) to a new agent: it creates module (2, 0) and answers. -/
theorem report_answered_as_request :
    ((start.report? defaultConfig ⟨100, 100, 100, ⟨0, 0, .new⟩⟩ 1 2 7 80 0).map fun t =>
        (t.2.call, t.2.replies.length)) = some (some (.getHost 2 0), 1) ∧
      ¬ ReportDelivered defaultConfig ⟨100, 100, 100, ⟨0, 0, .new⟩⟩ start 1 2 7 80 0 := by
  have hrun : ((start.report? defaultConfig ⟨100, 100, 100, ⟨0, 0, .new⟩⟩ 1 2 7 80 0).map fun t =>
      (t.2.call, t.2.replies.length)) = some (some (.getHost 2 0), 1) := by decide +kernel
  refine ⟨hrun, ?_⟩
  rintro ⟨s', served, hrep, hcall, -⟩
  simp [hrep, hcall] at hrun

end Session

end Lrlb.Api
