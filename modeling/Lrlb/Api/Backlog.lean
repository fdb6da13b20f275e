import Lrlb.Api.Client
import Lrlb.Reactor.UdpServer

/-! A call of `get_host` while responses to earlier calls still wait on its socket, with an agent
that echoes the sequence number. -/
namespace Lrlb.Api
open Lib Lib.Message Reactor
open Proto (MessageID HostInfo GetHostRequest GetHostResponse)
open Proto.LrlbRetCode (retSystemError)

/-- The agent's answer to the datagram of a request. -/
def echoAgent (readBuf : List UInt8) (retcode : Int32) (host : Option HostInfo)
    (d : List UInt8) : List (List UInt8) :=
  match udpMessage? readBuf d with
  | none => []
  | some (msgid, data) =>
    if msgid = MessageID.idGetHostRequest.value then
      let req : GetHostRequest := (parse data).1
      let rsp : GetHostResponse := ⟨req.seq, req.modid, req.cmdid, retcode, host⟩
      [frame MessageID.idGetHostResponse.value (serialize rsp)]
    else []

/-- One of the first `made` calls, whose response comes late on socket `i`. -/
structure PastCall (made : ℕ) (i : Fin 3) where
  number : Fin made
  modid : Int32
  cmdid : Int32
  retcode : Int32
  host : Option HostInfo
  socket : socketIndex? modid cmdid = some i

namespace PastCall

variable {made : ℕ} {i : Fin 3}

/-- The counter has 32 bits and starts at 0. -/
def response (p : PastCall made i) : GetHostResponse :=
  ⟨UInt32.ofNat p.number, p.modid, p.cmdid, p.retcode, p.host⟩

def datagram (p : PastCall made i) : List UInt8 :=
  frame MessageID.idGetHostResponse.value (serialize p.response)

end PastCall

namespace Client

/-- `lrlb_client::get_host`, where `agent` says what a datagram is answered with. `none` never
returns: the request goes outside the socket array, or the client waits for ever. -/
def getHost? (agent : List UInt8 → List (List UInt8)) (c : Client) (modid cmdid : Int32) :
    Option (Client × Int32 × Option HostInfo) := do
  let i ← socketIndex? modid cmdid
  let seq := c.seqid
  let (c, d) := c.getHostRequest modid cmdid
  let c := c.deliver i (agent d)
  let (rsp, q) ← recvResponse? seq (c.sockets i)
  some ({ c with sockets := Function.update c.sockets i q }, getHostResult seq modid cmdid rsp)

/-- After `made` calls, some of which are still to be answered. -/
def waiting (made : ℕ) (late : (i : Fin 3) → List (PastCall made i)) : Client :=
  ⟨UInt32.ofNat made, fun i => (late i).map PastCall.datagram⟩

/-- The call takes everything from its socket and returns what the agent answered to it. -/
def SkipsBacklog (agent : List UInt8 → List (List UInt8)) (c : Client) (modid cmdid : Int32)
    (retcode : Int32) (host : Option HostInfo) : Prop :=
  ∃ i, socketIndex? modid cmdid = some i ∧ c.getHost? agent modid cmdid =
    some (⟨c.seqid + 1, Function.update c.sockets i []⟩, retcode,
      if retcode = 0 then some (host.getD { }) else none)

theorem echoAgent_getHostRequest (readBuf : List UInt8) (retcode : Int32) (host : Option HostInfo)
    (c : Client) (modid cmdid : Int32) :
    echoAgent readBuf retcode host (c.getHostRequest modid cmdid).2 =
      [frame MessageID.idGetHostResponse.value
        (serialize (⟨c.seqid, modid, cmdid, retcode, host⟩ : GetHostResponse))] := by
  have hlen := Proto.length_getHostResponse_le
    { seq := c.seqid, modid := modid, cmdid := cmdid }
  have hmessage := udpMessage?_frame readBuf MessageID.idGetHostRequest.value
    (serialize ({ seq := c.seqid, modid := modid, cmdid := cmdid } : GetHostResponse))
    (by simp only [messageHeadLen, messageLengthLimit]; omega)
  simp only [echoAgent, getHostRequest, hmessage, if_true, Proto.parse_getHostRequest]

theorem recvResponse?_skip {seq : UInt32} {rsps : List GetHostResponse}
    (h : ∀ rsp ∈ rsps, rsp.seq < seq) (q : List (List UInt8)) :
    recvResponse? seq
        (rsps.map (fun rsp => frame MessageID.idGetHostResponse.value (serialize rsp)) ++ q) =
      recvResponse? seq q := by
  induction rsps with
  | nil => rfl
  | cons rsp rsps ih =>
    rw [List.map_cons, List.cons_append, recvResponse?_frame, if_pos (h rsp List.mem_cons_self)]
    exact ih fun r hr => h r (List.mem_cons_of_mem rsp hr)

/-- A response with a number that is not below the call's own ends the loop, and what was behind
it stays on the socket. -/
theorem recvResponse?_stops {seq : UInt32} {rsps : List GetHostResponse}
    (h : ¬ ∀ rsp ∈ rsps, rsp.seq < seq) {q : List (List UInt8)} (hq : q ≠ []) :
    ∃ rsp q', q' ≠ [] ∧ recvResponse? seq
        (rsps.map (fun rsp => frame MessageID.idGetHostResponse.value (serialize rsp)) ++ q) =
      some (some rsp, q') := by
  induction rsps with
  | nil => exact absurd (by simp) h
  | cons rsp rsps ih =>
    rw [List.map_cons, List.cons_append, recvResponse?_frame]
    by_cases hlt : rsp.seq < seq
    · rw [if_pos hlt]
      apply ih
      intro hall
      apply h
      intro r hr
      rcases List.mem_cons.mp hr with rfl | hr
      · exact hlt
      · exact hall r hr
    · rw [if_neg hlt]
      exact ⟨rsp, _, List.append_ne_nil_of_right_ne_nil _ hq, rfl⟩

/-- A call on a socket with the responses `rsps` on it. -/
theorem getHost?_backlog (readBuf : List UInt8) (retcode : Int32) (host : Option HostInfo)
    {c : Client} {modid cmdid : Int32} {i : Fin 3} (hi : socketIndex? modid cmdid = some i)
    (rsps : List GetHostResponse) (hrsps : c.sockets i =
      rsps.map fun rsp => frame MessageID.idGetHostResponse.value (serialize rsp)) :
    c.SkipsBacklog (echoAgent readBuf retcode host) modid cmdid retcode host ↔
      ∀ rsp ∈ rsps, rsp.seq < c.seqid := by
  have hagent := echoAgent_getHostRequest readBuf retcode host c modid cmdid
  have hown := getHostResult_own ⟨c.seqid, modid, cmdid, retcode, host⟩
  have hlast : recvResponse? c.seqid [frame MessageID.idGetHostResponse.value
      (serialize (⟨c.seqid, modid, cmdid, retcode, host⟩ : GetHostResponse))] =
      some (some ⟨c.seqid, modid, cmdid, retcode, host⟩, []) := by
    rw [recvResponse?_frame, if_neg (by simp)]
  have hcall : c.getHost? (echoAgent readBuf retcode host) modid cmdid =
      (recvResponse? c.seqid (c.sockets i ++ [frame MessageID.idGetHostResponse.value
        (serialize (⟨c.seqid, modid, cmdid, retcode, host⟩ : GetHostResponse))])).map fun r =>
          (⟨c.seqid + 1, Function.update c.sockets i r.2⟩,
            getHostResult c.seqid modid cmdid r.1) := by
    unfold getHost?
    rw [hi]
    simp only [Option.bind_eq_bind, Option.bind_some, hagent, deliver, Function.update_self]
    simp only [getHostRequest, Function.update_idem]
    cases recvResponse? c.seqid _ <;> rfl
  unfold SkipsBacklog
  rw [hcall, hrsps]
  constructor
  · intro h
    by_contra hlate
    obtain ⟨j, hj, hres⟩ := h
    cases hi.symm.trans hj
    obtain ⟨rsp, q', hq', hstop⟩ := recvResponse?_stops hlate (List.cons_ne_nil
      (frame MessageID.idGetHostResponse.value
        (serialize (⟨c.seqid, modid, cmdid, retcode, host⟩ : GetHostResponse))) [])
    rw [hstop] at hres
    have hsockets := congrArg (fun r => r.map fun r => r.1.sockets i) hres
    exact hq' (by simpa using hsockets)
  · intro hearly
    refine ⟨i, hi, ?_⟩
    rw [recvResponse?_skip hearly, hlast, Option.map_some, hown]

theorem backlog_skipped_iff (readBuf : List UInt8) (made : ℕ)
    (late : (i : Fin 3) → List (PastCall made i)) (modid cmdid retcode : Int32)
    (host : Option HostInfo) :
    (waiting made late).SkipsBacklog (echoAgent readBuf retcode host) modid cmdid retcode host ↔
      ∃ i, socketIndex? modid cmdid = some i ∧
        ∀ p ∈ late i, (p.number : ℕ) % 2 ^ 32 < made % 2 ^ 32 := by
  have hseq : ∀ {i} (p : PastCall made i), p.response.seq < (waiting made late).seqid ↔
      (p.number : ℕ) % 2 ^ 32 < made % 2 ^ 32 := by
    intro i p
    rw [UInt32.lt_iff_toNat_lt]
    simp only [PastCall.response, waiting, UInt32.toNat_ofNat']
  have hbacklog : ∀ {i}, socketIndex? modid cmdid = some i →
      ((waiting made late).SkipsBacklog (echoAgent readBuf retcode host) modid cmdid retcode host ↔
        ∀ p ∈ late i, (p.number : ℕ) % 2 ^ 32 < made % 2 ^ 32) := by
    intro i hi
    have hsocket : (waiting made late).sockets i = ((late i).map PastCall.response).map fun rsp =>
        frame MessageID.idGetHostResponse.value (serialize rsp) := by
      simp only [waiting, List.map_map]
      rfl
    rw [getHost?_backlog readBuf retcode host hi _ hsocket, List.forall_mem_map]
    simp only [hseq]
  constructor
  · intro h
    obtain ⟨i, hi, -⟩ := id h
    exact ⟨i, hi, (hbacklog hi).mp h⟩
  · intro h
    obtain ⟨i, hi, hearly⟩ := h
    exact (hbacklog hi).mpr hearly

/-- The call after the wrap of the counter, with the response to the one before it still on the
socket: that response has the largest number, and the call fails. -/
theorem wrapped_call_fails :
    (((waiting (2 ^ 32) fun i => if h : i = 0 then
        [⟨⟨2 ^ 32 - 1, by decide⟩, 1, 2, 0, some ⟨7, 80⟩, h ▸ by decide⟩] else []).getHost?
      (echoAgent [] 0 (some ⟨9, 90⟩)) 1 2).map Prod.snd) = some (retSystemError.value, none) := by
  decide +kernel

end Client

end Lrlb.Api
