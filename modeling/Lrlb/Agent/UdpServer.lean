import Lrlb.Proto.Codec
import Lrlb.Reactor.UdpServer
import Lrlb.Agent.RouteLb

/-! The agent's UDP servers: three of them, each with its own `route_lb`. -/
namespace Lrlb.Agent
open Lib Lib.Message Reactor
open Proto (MessageID GetHostRequest GetHostResponse GetRouteRequest GetRouteResponse ReportRequest
  ReportStatusReq)

/-- The callbacks that `agent_server_main` registers. -/
inductive AgentCallback where
  | getRouteCb | getHostCb | reportCb
deriving DecidableEq, Repr

def agentRouter : MsgRouter AgentCallback :=
  ((MsgRouter.empty.registerMsgRouter MessageID.idGetHostRequest.value .getHostCb)
    |>.registerMsgRouter MessageID.idReportRequest.value .reportCb)
    |>.registerMsgRouter MessageID.idAPIGetRouteRequest.value .getRouteCb

/-- The clocks that a callback reads and the memory that it may build a module in. -/
structure Env where
  currentTime : Int64
  time : Int64
  ts : Int64
  raw : RawLoadBalance

/-- The `route_lb` operation that a callback runs. -/
inductive RouteCall where
  | getHost (modid cmdid : Int32)
  | getRoute (modid cmdid : Int32)
  | reportHost (req : ReportRequest)
deriving DecidableEq, Repr

/-- What one message does: the new state of the `route_lb`, the operation run on it, what it
put on the dns and reporter queues, and the datagrams sent back. -/
structure Served where
  routeLb : RouteLb
  call : Option RouteCall
  pull : Option GetRouteRequest
  report : Option ReportStatusReq
  replies : List (List UInt8)

variable {R : Type}

/-- Sending a callback's response; `none` where it would overrun the write buffer. -/
def reply? (r : RouteLb) (call : RouteCall) (pull : Option GetRouteRequest) (data : List UInt8)
    (id : MessageID) : Option Served :=
  match udpSendMessage data id.value with
  | .rejected => some ⟨r, some call, pull, none, []⟩
  | .overflow => none
  | .sent d => some ⟨r, some call, pull, none, [d]⟩

def getRouteCb? (cfg : Config R) (env : Env) (r : RouteLb) (data : List UInt8) : Option Served :=
  let req : GetRouteRequest := (parse data).1
  let rsp : GetRouteResponse := { modid := req.modid, cmdid := req.cmdid }
  let (r, rsp, _, pull) := r.getRoute cfg env.time env.raw req.modid req.cmdid rsp
  reply? r (.getRoute req.modid req.cmdid) pull (serialize rsp) .idAPIGetRouteResponse

/-- The sequence number is copied from the response to itself, not from the request. -/
def getHostCb? (cfg : Config R) (env : Env) (r : RouteLb) (data : List UInt8) : Option Served := do
  let req : GetHostRequest := (parse data).1
  let rsp : GetHostResponse := { }
  let rsp := { rsp with seq := rsp.seq, modid := req.modid, cmdid := req.cmdid }
  let (r, rsp, _, pull) ← r.getHost? cfg env.time env.raw req.modid req.cmdid rsp
  reply? r (.getHost req.modid req.cmdid) pull (serialize rsp) .idGetHostResponse

def reportCb [RateArith R] (cfg : Config R) (env : Env) (r : RouteLb) (data : List UInt8) :
    Served :=
  let req : ReportRequest := (parse data).1
  let (r, report) := r.reportHost cfg env.currentTime env.time env.ts req
  ⟨r, some (.reportHost req), none, report, []⟩

def callback? [RateArith R] (cfg : Config R) (env : Env) (r : RouteLb) (data : List UInt8) :
    AgentCallback → Option Served
  | .getRouteCb => getRouteCb? cfg env r data
  | .getHostCb => getHostCb? cfg env r data
  | .reportCb => some (reportCb cfg env r data)

/-- One datagram on one server; `none` is an abort of the agent. -/
def serve? [RateArith R] (cfg : Config R) (env : Env) (readBuf : List UInt8) (r : RouteLb)
    (datagram : List UInt8) : Option Served :=
  match udpMessage? readBuf datagram with
  | none => some ⟨r, none, none, none, []⟩
  | some (msgid, data) =>
    match agentRouter.router msgid with
    | none => some ⟨r, none, none, none, []⟩
    | some cb => callback? cfg env r data cb

/-- The index of the `route_lb` that the server on a port works on. -/
def serverIndex (port : Int32) : Int32 := port - 8888

theorem agentRouter_getHost :
    agentRouter.router MessageID.idGetHostRequest.value = some .getHostCb := by decide

theorem agentRouter_getRoute :
    agentRouter.router MessageID.idAPIGetRouteRequest.value = some .getRouteCb := by decide

/-- Whether or not the response can be sent, the callback's work on the `route_lb` is done. -/
theorem reply?_eq_some {r : RouteLb} {call : RouteCall} {pull : Option GetRouteRequest}
    {data : List UInt8} {id : MessageID} {served : Served}
    (h : reply? r call pull data id = some served) :
    served.routeLb = r ∧ served.pull = pull := by
  unfold reply? at h
  split at h
  · cases h
    exact ⟨rfl, rfl⟩
  · cases h
  · cases h
    exact ⟨rfl, rfl⟩

section Serve

variable (cfg : Config R) (env : Env) (readBuf : List UInt8) (r : RouteLb)

/-- `get_host` fills in the return code and the host and leaves the rest of the response. -/
theorem getHost?_response {time : Int64} {raw : RawLoadBalance} {modid cmdid : Int32}
    {rsp rsp' : GetHostResponse} {r' : RouteLb} {ret : Int32} {req : Option GetRouteRequest}
    (h : r.getHost? cfg time raw modid cmdid rsp = some (r', rsp', ret, req)) :
    rsp'.seq = rsp.seq ∧ rsp'.modid = rsp.modid ∧ rsp'.cmdid = rsp.cmdid := by
  unfold RouteLb.getHost? at h
  dsimp only at h
  cases hget : r.routeLbMap (packInts modid cmdid) with
  | none =>
    rw [hget] at h
    cases h
    exact ⟨rfl, rfl, rfl⟩
  | some lb =>
    rw [hget] at h
    dsimp only at h
    split_ifs at h
    · cases h
      exact ⟨rfl, rfl, rfl⟩
    · obtain ⟨⟨lb', rsp₁, ret₁⟩, hc, h⟩ := Option.bind_eq_some_iff.mp h
      cases h
      rcases LoadBalance.choiceOneHost?_cases cfg lb rsp hc with
        ⟨_, _, _, -, -, -, rfl, -⟩ | ⟨_, _, -, -, -, rfl, -⟩ | ⟨-, -, -, rfl, -⟩ <;>
        exact ⟨rfl, rfl, rfl⟩

theorem reply?_getHostResponse (call : RouteCall) (pull : Option GetRouteRequest)
    (rsp : GetHostResponse) (id : MessageID) :
    reply? r call pull (serialize rsp) id =
      some ⟨r, some call, pull, none, [frame id.value (serialize rsp)]⟩ := by
  have hlen := Proto.length_getHostResponse_le rsp
  rw [reply?, udpSendMessage_of_le _ _ (by simp only [messageHeadLen, messageLengthLimit]; omega)]

variable [RateArith R]

/-- A datagram with the id of a host request runs `get_host` on whatever the payload reads as,
and is answered with a response whose sequence number is 0. -/
theorem serve?_getHostRequest {data : List UInt8} {req : GetHostRequest} {ok : Bool}
    (hlen : messageHeadLen + data.length ≤ messageLengthLimit) (hreq : parse data = (req, ok)) :
    serve? cfg env readBuf r (frame MessageID.idGetHostRequest.value data) =
      (r.getHost? cfg env.time env.raw req.modid req.cmdid
        { modid := req.modid, cmdid := req.cmdid }).map fun t =>
        ⟨t.1, some (.getHost req.modid req.cmdid), t.2.2.2, none,
          [frame MessageID.idGetHostResponse.value (serialize t.2.1)]⟩ := by
  rw [serve?, udpMessage?_frame readBuf _ data hlen]
  dsimp only
  rw [agentRouter_getHost]
  change getHostCb? cfg env r data = _
  rw [getHostCb?, hreq]
  dsimp only
  cases r.getHost? cfg env.time env.raw req.modid req.cmdid
      { modid := req.modid, cmdid := req.cmdid } with
  | none => rfl
  | some t =>
    simp only [Option.bind_eq_bind, Option.bind_some]
    rw [reply?_getHostResponse]
    rfl

/-- A route request of the client library runs `get_route` on the module it names. -/
theorem serve?_getRouteRequest (req : GetRouteRequest) :
    serve? cfg env readBuf r (frame MessageID.idAPIGetRouteRequest.value (serialize req)) =
      reply? (r.getRoute cfg env.time env.raw req.modid req.cmdid
          { modid := req.modid, cmdid := req.cmdid }).1 (.getRoute req.modid req.cmdid)
        (r.getRoute cfg env.time env.raw req.modid req.cmdid
          { modid := req.modid, cmdid := req.cmdid }).2.2.2
        (serialize (r.getRoute cfg env.time env.raw req.modid req.cmdid
          { modid := req.modid, cmdid := req.cmdid }).2.1) .idAPIGetRouteResponse := by
  have hlen := Proto.length_getRouteRequest_le req
  rw [serve?, udpMessage?_frame readBuf _ (serialize req)
    (by simp only [messageHeadLen, messageLengthLimit]; omega)]
  dsimp only
  rw [agentRouter_getRoute]
  change getRouteCb? cfg env r (serialize req) = _
  rw [getRouteCb?, Proto.parse_getRouteRequest]

end Serve

end Lrlb.Agent
