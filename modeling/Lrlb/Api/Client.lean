import Lrlb.Proto.Codec
import Lrlb.Reactor.Message

/-! The client library: one socket for each UDP server of the agent on the same host. -/
namespace Lrlb.Api
open Lib Lib.Message Reactor
open Proto (MessageID HostInfo GetHostResponse GetRouteRequest GetRouteResponse ReportRequest)
open Proto.LrlbRetCode (retSucc retSystemError)

/-- The counter and, for each socket, the datagrams that wait to be received. -/
structure Client where
  seqid : UInt32
  sockets : Fin 3 → List (List UInt8)

def Client.new : Client := ⟨0, fun _ => []⟩

def shard (modid cmdid : Int32) : Int32 := (modid + cmdid) % 3

theorem shard_lt (modid cmdid : Int32) : (shard modid cmdid).toInt < 3 := by
  rw [shard, Int32.toInt_mod]
  exact Int.tmod_lt_of_pos _ (by decide)

/-- The socket a request goes to; `none` is an access outside `_sockfd`. -/
def socketIndex? (modid cmdid : Int32) : Option (Fin 3) :=
  if h : 0 ≤ (shard modid cmdid).toInt then
    some ⟨(shard modid cmdid).toInt.toNat, by have := shard_lt modid cmdid; omega⟩
  else none

theorem socketIndex?_isSome_iff (modid cmdid : Int32) :
    (socketIndex? modid cmdid).isSome ↔ 0 ≤ shard modid cmdid := by
  rw [Int32.le_iff_toInt_le, socketIndex?]
  change _ ↔ 0 ≤ (shard modid cmdid).toInt
  split_ifs with h <;> simp [h]

/-! The index into the socket array, as each of the three calls computes it. -/

def getHostIndex (modid cmdid : Int32) : Int32 := (modid + cmdid) % 3

def getRouteIndex (modid cmdid : Int32) : Int32 := (modid + cmdid) % 3

def reportIndex (modid cmdid : Int32) : Int32 := (cmdid + modid) % 3

/-- The port that the constructor connects a socket to. -/
def socketPort (i : Fin 3) : Int32 := 8888 + Int32.ofNat i

namespace Client

/-- The datagram of a host request. The body is built as a response message. -/
def getHostRequest (c : Client) (modid cmdid : Int32) : Client × List UInt8 :=
  let req : GetHostResponse := { seq := c.seqid, modid := modid, cmdid := cmdid }
  ({ c with seqid := c.seqid + 1 }, frame MessageID.idGetHostRequest.value (serialize req))

/-- The receive loop over the datagrams on the socket, all of them from the agent it is
connected to. `none` blocks for ever; an inner `none` is a message that the client refuses. -/
def recvResponse? (seq : UInt32) :
    List (List UInt8) → Option (Option GetHostResponse × List (List UInt8))
  | [] => none
  | d :: q =>
    if (MsgHead.ofBytes d).msgid ≠ MessageID.idGetHostResponse.value then some (none, q)
    else
      match (parse (d.drop messageHeadLen) : GetHostResponse × Bool) with
      | (_, false) => some (none, q)
      | (rsp, true) => if rsp.seq < seq then recvResponse? seq q else some (some rsp, q)

/-- The return value, and the address and port given to the caller. -/
def getHostResult (seq : UInt32) (modid cmdid : Int32) :
    Option GetHostResponse → Int32 × Option HostInfo
  | none => (retSystemError.value, none)
  | some rsp =>
    if rsp.seq ≠ seq ∨ rsp.modid ≠ modid ∨ rsp.cmdid ≠ cmdid then (retSystemError.value, none)
    else (rsp.retcode, if rsp.retcode = 0 then some (rsp.host.getD { }) else none)

def getRouteRequest (modid cmdid : Int32) : List UInt8 :=
  frame MessageID.idAPIGetRouteRequest.value (serialize (⟨modid, cmdid⟩ : GetRouteRequest))

/-- The one datagram that `get_route` takes from its socket, read like those of `get_host`. -/
def recvRoute? : List (List UInt8) → Option (Option GetRouteResponse × List (List UInt8))
  | [] => none
  | d :: q =>
    if (MsgHead.ofBytes d).msgid ≠ MessageID.idAPIGetRouteResponse.value then some (none, q)
    else
      match (parse (d.drop messageHeadLen) : GetRouteResponse × Bool) with
      | (_, false) => some (none, q)
      | (rsp, true) => some (some rsp, q)

/-- The return value and the hosts that are added to the caller's vector. -/
def getRouteResult (modid cmdid : Int32) : Option GetRouteResponse → Int32 × List HostInfo
  | none => (retSystemError.value, [])
  | some rsp =>
    if rsp.modid ≠ modid ∨ rsp.cmdid ≠ cmdid then (retSystemError.value, [])
    else (retSucc.value, rsp.host)

/-- The datagram of a report, sent with the id of a host request. -/
def reportRequest (req : ReportRequest) : List UInt8 :=
  frame MessageID.idGetHostRequest.value (serialize req)

def deliver (c : Client) (i : Fin 3) (replies : List (List UInt8)) : Client :=
  { c with sockets := Function.update c.sockets i (c.sockets i ++ replies) }

/-- What the loop does with a response from the agent at the front of the queue. -/
theorem recvResponse?_frame (seq : UInt32) (rsp : GetHostResponse) (q : List (List UInt8)) :
    recvResponse? seq (frame MessageID.idGetHostResponse.value (serialize rsp) :: q) =
      if rsp.seq < seq then recvResponse? seq q else some (some rsp, q) := by
  have hhead : (MsgHead.ofBytes (frame MessageID.idGetHostResponse.value (serialize rsp))).msgid =
      MessageID.idGetHostResponse.value := by rw [frame, MsgHead.ofBytes_bytes]
  have hbody : (frame MessageID.idGetHostResponse.value (serialize rsp)).drop messageHeadLen =
      serialize rsp := by rw [frame, List.drop_left' (MsgHead.length_bytes _)]
  rw [recvResponse?, if_neg (not_not.mpr hhead), hbody, Proto.parse_getHostResponse]

theorem getHostResult_own (rsp : GetHostResponse) :
    getHostResult rsp.seq rsp.modid rsp.cmdid (some rsp) =
      (rsp.retcode, if rsp.retcode = 0 then some (rsp.host.getD { }) else none) := by
  simp [getHostResult]

end Client

end Lrlb.Api
