import Lrlb.Reactor.Delivery
import Lrlb.Reactor.OutputBuf

/-! Messages from `tcp_conn::send_message` to the router behind `tcp_client::do_read`: the way
back, through an output buffer that grows and an input buffer that does not. -/
namespace Lrlb.Reactor
open Lib

/-- A connection's output with the bytes it has written to the socket and the messages it has
accepted. -/
structure Replier where
  obuf : Option IoBuf
  closed : Bool
  wire : List UInt8
  accepted : List Msg

/-- `cleanConn` is for a connection that is closed from outside of `do_write`. -/
inductive ReplyOp where
  | sendMessage (m : SendCall)
  | doWrite (results : List WriteResult)
  | cleanConn

namespace Replier

def new : Replier := ⟨none, false, [], []⟩

def step? (s : Replier) : ReplyOp → Option Replier
  | .sendMessage m => (sendMessage? s.obuf m).map fun (obuf, ret, _) =>
    { s with
      obuf := obuf
      accepted := if ret = 0 then s.accepted ++ [(m.msgid, m.data)] else s.accepted }
  | .doWrite results =>
    if s.closed then none
    else (writeLoop? results s.obuf).map fun (obuf, bytes, failed) =>
      { s with
        obuf := if failed then none else obuf
        closed := failed
        wire := s.wire ++ bytes }
  | .cleanConn => some { s with obuf := none, closed := true }

/-- The call of `send_message`, if it is one, returns 0. -/
def Accepts (s : Replier) : ReplyOp → Prop
  | .sendMessage m => (sendMessage? s.obuf m).map (fun r => r.2.1) = some 0
  | _ => True

/-- The bytes on the wire and those still buffered are the accepted messages. -/
structure Replying (s : Replier) : Prop where
  out : OutOk s.obuf
  limit : ∀ m ∈ s.accepted, m.2.length ≤ 2 ^ 30
  bytes : s.closed = false → s.wire ++ unread s.obuf = stream s.accepted
  wire : s.wire <+: stream s.accepted

variable {s t : Replier}

theorem Replying.new : Replying new := ⟨OutOk.none, nofun, fun _ => rfl, List.prefix_rfl⟩

theorem Replying.sendMessage (h : Replying s) {m : SendCall} (hacc : s.Accepts (.sendMessage m))
    (hs : s.step? (.sendMessage m) = some t) : Replying t := by
  obtain ⟨buf, hok, ⟨hsend, hcon⟩ | ⟨hsend, -⟩⟩ := sendMessage?_spec h.out m
  · simp only [step?, hsend, Option.map_some, if_true] at hs
    cases hs
    refine ⟨hok, ?_, ?_, ?_⟩
    · intro x hx
      rcases List.mem_append.mp hx with hx | hx
      · exact h.limit x hx
      · rw [List.mem_singleton.mp hx]
        exact m.short
    · intro hopen
      dsimp only
      rw [hcon, stream_append, ← h.bytes hopen, List.append_assoc]
      simp [stream]
    · rw [stream_append]
      exact h.wire.trans (List.prefix_append _ _)
  · simp only [Accepts, hsend, Option.map_some, Option.some.injEq] at hacc
    exact absurd hacc (by decide)

theorem Replying.doWrite (h : Replying s) {results : List WriteResult}
    (hs : s.step? (.doWrite results) = some t) : Replying t := by
  obtain ⟨hopen, hs⟩ := Option.ite_none_left_eq_some.mp hs
  obtain ⟨⟨obuf, bytes, failed⟩, hwrite, rfl⟩ := Option.map_eq_some_iff.mp hs
  obtain ⟨hok, hcon⟩ := writeLoop?_spec h.out hwrite
  have hbytes : s.wire ++ bytes ++ unread obuf = stream s.accepted := by
    rw [List.append_assoc, hcon, h.bytes (by simpa using hopen)]
  refine ⟨?_, h.limit, ?_, ?_⟩
  · cases failed with
    | true => exact OutOk.none
    | false => exact hok
  · rintro rfl
    exact hbytes
  · rw [← hbytes]
    exact List.prefix_append _ _

theorem Replying.step {op : ReplyOp} (h : Replying s) (hacc : s.Accepts op)
    (hs : s.step? op = some t) : Replying t := by
  cases op with
  | sendMessage m => exact h.sendMessage hacc hs
  | doWrite results => exact h.doWrite hs
  | cleanConn =>
    cases hs
    exact ⟨OutOk.none, h.limit, nofun, h.wire⟩

theorem Replying.run {ops : List ReplyOp} (h : Replying s)
    (hacc : ∀ x ∈ attempted step? s ops, x.1.Accepts x.2) (hrun : run? step? s ops = some t) :
    Replying t := by
  induction ops generalizing s with
  | nil =>
    cases hrun
    exact h
  | cons op ops ih =>
    obtain ⟨hnow, hlater⟩ := (forall_attempted_cons s op ops).mp hacc
    obtain ⟨u, hu, hrun⟩ := Option.bind_eq_some_iff.mp hrun
    exact ih (h.step hnow hu) (hlater u hu) hrun

end Replier

/-- The client's parser finds the completed messages in the first bytes of a stream. -/
theorem parseAll_clientFront {ms : List Msg} (hms : ∀ m ∈ ms, m.2.length ≤ 2 ^ 30)
    {p : List UInt8} (hp : p <+: stream ms) :
    (parseAll clientFront p).1 = completed ms p.length ∧ HeadersOk p := by
  induction ms generalizing p with
  | nil =>
    obtain rfl : p = [] := List.prefix_nil.mp hp
    exact ⟨rfl, rfl⟩
  | cons m ms ih =>
    have hm := hms m (by simp)
    obtain ⟨hlt, hpre⟩ | ⟨p', rfl, hp'⟩ := stream_cons_cases hp
    · have hmore : clientFront p = .more :=
        frameFront_unfinished le_rfl hpre (by omega) (by omega) hlt
      rw [HeadersOk, parseAll_more hmore, completed_cons_of_lt hlt]
      exact ⟨rfl, rfl⟩
    · have hitem : clientFront (frame m.1 m.2 ++ p') = .item (m.1, m.2) p' :=
        frameFront_frame (by omega) (by omega) (by omega)
      obtain ⟨hdone, hok⟩ := ih (fun x hx => hms x (by simp [hx])) hp'
      rw [HeadersOk, parseAll_item clientFront_incremental hitem, completed_frame_append]
      exact ⟨by rw [hdone], hok⟩

/-- A client with the calls it has made to its router. -/
structure Receiver where
  client : TcpClient
  dispatched : List Msg

namespace Receiver

def new (rawIn rawOut : ℤ → UInt8) : Receiver := ⟨TcpClient.new rawIn rawOut, []⟩

def step? (r : Receiver) (chunk : List UInt8) : Option Receiver :=
  (r.client.doRead? TcpClient.maxRounds chunk).map fun (client, ds, _) =>
    ⟨client, r.dispatched ++ ds.map fun d => (d.msgid, d.payload)⟩

/-- A receiver that has read `p`. -/
structure At (r : Receiver) (p : List UInt8) : Prop where
  reading : r.client.Reading p
  calls : r.dispatched = (parseAll clientFront p).1

variable {r : Receiver} {p chunk : List UInt8}

theorem At.step (h : At r p) (hne : chunk ≠ []) (hfree : r.client.FreeSpace chunk)
    (hok : HeadersOk (p ++ chunk)) : ∃ r', r.step? chunk = some r' ∧ At r' (p ++ chunk) := by
  obtain ⟨c, ds, hread, hreading, hcalls⟩ := h.reading.receive hne hfree hok (Nat.lt_succ_self maxCap)
  refine ⟨⟨c, r.dispatched ++ ds.map fun d => (d.msgid, d.payload)⟩, ?_, hreading, ?_⟩
  · rw [step?, hread]
    rfl
  · rw [hcalls, h.calls]

/-- Chunk by chunk, while the stream's headers are in range. -/
theorem At.run (h : At r p) {ms : List Msg} (hms : ∀ m ∈ ms, m.2.length ≤ 2 ^ 30)
    {cs : List (List UInt8)} (hne : ∀ chunk ∈ cs, chunk ≠ []) (hp : p ++ cs.flatten <+: stream ms)
    (hfree : ∀ x ∈ attempted step? r cs, x.1.client.FreeSpace x.2) :
    ∃ r', run? step? r cs = some r' ∧ At r' (p ++ cs.flatten) := by
  induction cs generalizing r p with
  | nil => exact ⟨r, rfl, by simpa using h⟩
  | cons chunk cs ih =>
    obtain ⟨hnow, hlater⟩ := (forall_attempted_cons r chunk cs).mp hfree
    rw [List.flatten_cons, ← List.append_assoc] at hp ⊢
    have hok := (parseAll_clientFront hms ((List.prefix_append _ _).trans hp)).2
    obtain ⟨r₁, hstep, hat⟩ := h.step (hne chunk (by simp)) hnow hok
    obtain ⟨r', hrun, hat'⟩ := ih hat (fun x hx => hne x (by simp [hx])) hp (hlater r₁ hstep)
    exact ⟨r', by rw [run?, hstep]; exact hrun, hat'⟩

end Receiver

/-- While every message is accepted, over any sends and partial writes and any chunks of what has
been written that the client has room for, each read dispatches exactly the messages that have
arrived. -/
theorem replies_delivered (rawIn rawOut : ℤ → UInt8) {ops : List ReplyOp} {s : Replier}
    (hrun : run? Replier.step? Replier.new ops = some s)
    (hacc : ∀ x ∈ attempted Replier.step? Replier.new ops, x.1.Accepts x.2)
    (chunks : List (List UInt8)) (hne : ∀ chunk ∈ chunks, chunk ≠ [])
    (hchunks : chunks.flatten <+: s.wire)
    (hfree : ∀ x ∈ attempted Receiver.step? (Receiver.new rawIn rawOut) chunks,
      x.1.client.FreeSpace x.2) :
    ∀ cs, cs <+: chunks → ∃ r, run? Receiver.step? (Receiver.new rawIn rawOut) cs = some r ∧
      r.dispatched = completed s.accepted cs.flatten.length := by
  have hsend := Replier.Replying.new.run hacc hrun
  rintro cs ⟨later, rfl⟩
  have hp : [] ++ cs.flatten <+: stream s.accepted := by
    rw [List.flatten_append] at hchunks
    exact ((List.prefix_append _ _).trans hchunks).trans hsend.wire
  have hstart : (Receiver.new rawIn rawOut).At [] := ⟨TcpClient.Reading.new rawIn rawOut, rfl⟩
  obtain ⟨r, hr, hat⟩ := hstart.run hsend.limit (fun x hx => hne x (by simp [hx])) hp
    (fun x hx => hfree x (mem_attempted_append hx later))
  exact ⟨r, hr, by rw [hat.calls, (parseAll_clientFront hsend.limit hp).1]; simp⟩

/-- A message of one byte that leaves in two writes, an empty one behind it, and the start of a
third. -/
def partialWrites : List ReplyOp :=
  [.sendMessage ⟨5, [1], fun _ => 0, fun _ => 0, by decide⟩, .doWrite [.wrote 4, .again],
    .sendMessage ⟨6, [], fun _ => 0, fun _ => 0, by decide⟩,
    .sendMessage ⟨7, [2], fun _ => 0, fun _ => 0, by decide⟩, .doWrite [.wrote 15, .again]]

instance (s : Replier) (op : ReplyOp) : Decidable (s.Accepts op) :=
  match op with
  | .sendMessage _ => inferInstanceAs (Decidable (_ = some 0))
  | .doWrite _ => .isTrue trivial
  | .cleanConn => .isTrue trivial

theorem replies_delivered_partialWrites :
    ∃ s, run? Replier.step? Replier.new partialWrites = some s ∧
      s.accepted = [(5, [1]), (6, []), (7, [2])] ∧
      ∃ r, run? Receiver.step? (Receiver.new (fun _ => 0) (fun _ => 0)) [s.wire] = some r ∧
        r.dispatched = [(5, [1]), (6, [])] := by
  have hends : (run? Replier.step? Replier.new partialWrites).map (fun s => (s.accepted, s.wire)) =
      some ([(5, [1]), (6, []), (7, [2])], frame 5 [1] ++ frame 6 [] ++ [7, 0]) := by decide +kernel
  obtain ⟨s, hrun, hs⟩ := Option.map_eq_some_iff.mp hends
  obtain ⟨haccepted, hwire⟩ := Prod.mk.inj hs
  have hacc : ∀ x ∈ attempted Replier.step? Replier.new partialWrites, x.1.Accepts x.2 := by
    decide +kernel
  have hfree : ∀ x ∈ attempted Receiver.step? (Receiver.new (fun _ => 0) (fun _ => 0)) [s.wire],
      x.1.client.FreeSpace x.2 := by
    rw [hwire, forall_attempted_cons]
    exact ⟨by unfold TcpClient.FreeSpace; decide, fun _ _ => by simp [attempted]⟩
  obtain ⟨r, hr, hcalls⟩ := replies_delivered (fun _ => 0) (fun _ => 0) hrun hacc [s.wire]
    (by rw [hwire]; decide) (by simp) hfree [s.wire] List.prefix_rfl
  refine ⟨s, hrun, haccepted, r, hr, hcalls.trans ?_⟩
  rw [haccepted, hwire]
  decide +kernel

end Lrlb.Reactor
