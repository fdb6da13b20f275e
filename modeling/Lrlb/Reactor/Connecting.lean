import Lrlb.Reactor.ClientConn

/-! What can happen to a client between `connect` and the end of the handshake. -/
namespace Lrlb.Reactor
open Lib

section Elsewhere

variable {C : Type} {l : EventLoop C}

def LoopCall.fd : LoopCall C → Fd
  | .addIoEvent _ fd _ _ | .delIoEvent _ fd | .delIoEventMask _ fd _ => fd

theorem tryCtl?_other (fails : Bool) (interest : Fd → Option UInt32) (op : CtlOp) {fd f : Fd}
    (events : UInt32) (hf : f ≠ fd) :
    (tryCtl? fails interest op fd events).getD interest f = interest f := by
  cases hctl : tryCtl? fails interest op fd events with
  | none => rfl
  | some interest' =>
    obtain ⟨-, hctl⟩ := Option.ite_none_left_eq_some.mp hctl
    rw [EventLoop.epollCtl?_eq hctl]
    simp [hf]

namespace EventLoop

theorem addIoEvent_other {fails : Bool} {fd f : Fd} {proc : C} {mask : UInt32} (hf : f ≠ fd) :
    (l.addIoEvent fails fd proc mask).ioEvs f = l.ioEvs f ∧
      (l.addIoEvent fails fd proc mask).interest f = l.interest f := by
  have hctl := tryCtl?_other fails l.interest (l.addOp fd)
    (IoEvent.register (l.ioEvs fd) mask proc).mask hf
  unfold addIoEvent
  dsimp only
  cases h : tryCtl? fails l.interest (l.addOp fd) fd
      (IoEvent.register (l.ioEvs fd) mask proc).mask with
  | none => simp [hf]
  | some interest =>
    rw [h] at hctl
    simpa [hf] using hctl

theorem delIoEvent_other {fails : Bool} {fd f : Fd} (hf : f ≠ fd) :
    (l.delIoEvent fails fd).ioEvs f = l.ioEvs f ∧
      (l.delIoEvent fails fd).interest f = l.interest f :=
  ⟨Function.update_of_ne hf _ _, tryCtl?_other fails l.interest .del 0 hf⟩

/-- A call for another descriptor leaves the callbacks of this one alone. -/
theorem perform_other {a : LoopCall C} {f : Fd} (hf : f ≠ a.fd) :
    (l.perform a).ioEvs f = l.ioEvs f ∧ (l.perform a).interest f = l.interest f := by
  cases a with
  | addIoEvent fails fd proc mask => exact addIoEvent_other hf
  | delIoEvent fails fd => exact delIoEvent_other hf
  | delIoEventMask fails fd mask =>
    change (l.delIoEventMask fails fd mask).ioEvs f = _ ∧
      (l.delIoEventMask fails fd mask).interest f = _
    unfold delIoEventMask
    cases l.ioEvs fd with
    | none => exact ⟨rfl, rfl⟩
    | some ev =>
      dsimp only
      split_ifs with hzero
      · exact delIoEvent_other hf
      · exact ⟨rfl, tryCtl?_other fails l.interest .mod _ hf⟩

/-- A descriptor that has just been opened. -/
structure Unused (l : EventLoop C) (fd : Fd) : Prop where
  table : l.ioEvs fd = none
  kernel : l.interest fd = none

/-- The only callback of an unused descriptor is the one that is added. -/
theorem Unused.addIoEvent {fd : Fd} (h : l.Unused fd) (proc : C) (d : Direction) :
    (l.addIoEvent false fd proc d.mask).ioEvs fd = some (IoEvent.register none d.mask proc) ∧
      (l.addIoEvent false fd proc d.mask).interest fd = some d.mask := by
  obtain ⟨l', hl'⟩ := addIoEvent?_of_none h.table h.kernel proc d.mask
  rw [addIoEvent_of_addIoEvent? hl', addIoEvent?_eq hl', h.table]
  simp [IoEvent.register]

end EventLoop

end Elsewhere

/-- What happens while the connection is being made. A `connection_delay` that finds the socket
connected would end that; `elsewhere` is a call for another descriptor of the loop. -/
inductive ConnectingOp where
  | sendMessage (data : List UInt8) (msgid : Int32)
  | setConnStart (cb : Bool)
  | connectionDelay (soError : Int32)
  | elsewhere (a : LoopCall ClientCallback)

/-- The message is too long for an empty buffer. -/
def ConnectingOp.TooLong : ConnectingOp → Prop
  | .sendMessage data _ => (4194304 : Int32) < Int32.ofNat data.length + 8
  | _ => True

namespace ClientConn

/-- The callback that an `EPOLLOUT` of the socket would run. -/
def writeCallback? (s : ClientConn) : Option ClientCallback :=
  (s.loop.ioEvs s.sockfd).bind fun ev => ev.callback .epollout

def connectingStep? (s : ClientConn) : ConnectingOp → Option ClientConn
  | .sendMessage data msgid => some (s.sendMessage data msgid).1
  | .setConnStart cb => some { s with connStartCb := cb }
  | .connectionDelay soError =>
    if s.writeCallback? = some .connectionDelay ∧ soError ≠ 0 then some (s.connectionDelay soError)
    else none
  | .elsewhere a => if a.fd = s.sockfd then none else some { s with loop := s.loop.perform a }

/-- A message is refused and leaves everything as it was. -/
def Refuses (s : ClientConn) : ConnectingOp → Prop
  | .sendMessage data msgid => s.sendMessage data msgid = (s, -1)
  | _ => True

/-- The kernel watches for `EPOLLOUT`, which runs `connection_delay`, and with it the start hook
if there is one. -/
structure Awaits (s : ClientConn) : Prop where
  watched : s.loop.interest s.sockfd = some Direction.epollout.mask
  called : ∀ events fired, reaction events = .call .epollout →
    { s.loop with firedEvs := (s.sockfd, events) :: fired }.called? = some .connectionDelay
  connects : (s.connectionDelay 0).tcp.connected = true
  starts : (s.connectionDelay 0).starts = s.starts + if s.connStartCb then 1 else 0

/-- Nothing has been written, and the socket is registered for `connection_delay` only. -/
structure Waiting (rawConnected : Bool) (s : ClientConn) : Prop where
  connected : s.tcp.connected = rawConnected
  capacity : s.tcp.obuf.capacity = 4194304
  empty : s.tcp.obuf.length = 0
  table : s.delays = 0 → s.loop.ioEvs s.sockfd =
    some (IoEvent.register none Direction.epollout.mask .connectionDelay)
  kernel : s.delays = 0 → s.loop.interest s.sockfd = some Direction.epollout.mask

variable {s t : ClientConn} {rawConnected : Bool}

theorem Waiting.new? {loop : EventLoop ClientCallback} {sockfd : Fd} (h : loop.Unused sockfd)
    {rawIn rawOut : ℤ → UInt8}
    (hs : new? loop sockfd rawConnected rawIn rawOut .inProgress = some s) :
    s.Waiting rawConnected := by
  cases hs
  obtain ⟨htable, hkernel⟩ := h.addIoEvent ClientCallback.connectionDelay .epollout
  exact ⟨rfl, rfl, rfl, fun _ => htable, fun _ => hkernel⟩

theorem established_connected (s : ClientConn) : s.established.tcp.connected = true := by
  unfold established
  dsimp only
  split_ifs <;> rfl

theorem established_starts (s : ClientConn) :
    s.established.starts = s.starts + if s.connStartCb then 1 else 0 := by
  unfold established
  dsimp only
  split_ifs <;> rfl

theorem Waiting.awaits (h : s.Waiting rawConnected) (hdelays : s.delays = 0) : s.Awaits := by
  constructor
  · exact h.kernel hdelays
  · intro events fired hevents
    simp only [EventLoop.called?, hevents, h.table hdelays]
    rfl
  · exact established_connected _
  · exact established_starts _

theorem sendMessage_ret (s : ClientConn) (data : List UInt8) (msgid : Int32) :
    (s.sendMessage data msgid).2 = (s.tcp.sendMessage data msgid).2 := by
  unfold sendMessage
  dsimp only
  split_ifs <;> rfl

/-- A message is refused because the flag says so or because the empty buffer is too small. -/
theorem Waiting.refuses_iff (h : s.Waiting rawConnected) (op : ConnectingOp) :
    s.Refuses op ↔ rawConnected = false ∨ op.TooLong := by
  cases op with
  | sendMessage data msgid =>
    change s.sendMessage data msgid = (s, -1) ↔
      rawConnected = false ∨ (4194304 : Int32) < Int32.ofNat data.length + 8
    have hroom : s.tcp.obuf.capacity - s.tcp.obuf.length = 4194304 := by
      rw [h.capacity, h.empty]
      rfl
    rw [← h.connected, ← hroom]
    constructor
    · intro hsend
      have hret := s.sendMessage_ret data msgid
      rw [hsend] at hret
      by_contra hfits
      simp [TcpClient.sendMessage, not_or.mp hfits] at hret
    · intro hrefused
      have htcp : s.tcp.sendMessage data msgid = (s.tcp, -1) := by
        unfold TcpClient.sendMessage
        dsimp only
        obtain hconn | hlong := hrefused
        · rw [if_pos hconn]
        · rw [if_pos hlong, ite_self]
      simp [ClientConn.sendMessage, htcp]
  | setConnStart cb => exact iff_of_true trivial (Or.inr trivial)
  | connectionDelay soError => exact iff_of_true trivial (Or.inr trivial)
  | elsewhere a => exact iff_of_true trivial (Or.inr trivial)

theorem Waiting.step (h : s.Waiting rawConnected) {op : ConnectingOp} (hop : s.Refuses op)
    (ht : s.connectingStep? op = some t) : t.Waiting rawConnected := by
  cases op with
  | sendMessage data msgid =>
    cases ht
    rw [show s.sendMessage data msgid = (s, -1) from hop]
    exact h
  | setConnStart cb =>
    cases ht
    exact ⟨h.connected, h.capacity, h.empty, h.table, h.kernel⟩
  | connectionDelay soError =>
    obtain ⟨⟨-, herror⟩, ht⟩ := Option.ite_none_right_eq_some.mp ht
    rw [connectionDelay, if_neg herror] at ht
    cases ht
    exact ⟨h.connected, h.capacity, h.empty, by simp, by simp⟩
  | elsewhere a =>
    obtain ⟨hfd, ht⟩ := Option.ite_none_left_eq_some.mp ht
    cases ht
    obtain ⟨htable, hkernel⟩ := s.loop.perform_other (Ne.symm hfd)
    refine ⟨h.connected, h.capacity, h.empty, fun hdelays => ?_, fun hdelays => ?_⟩
    · exact htable.trans (h.table hdelays)
    · exact hkernel.trans (h.kernel hdelays)

/-- Between `connect` and the end of the handshake every message is refused, and the end of the
handshake is still waited for, if the flag that the constructor leaves alone happens to be false.
Otherwise this takes messages that are all too long. -/
theorem messages_refused_iff (loop : EventLoop ClientCallback) (sockfd : Fd)
    (hunused : loop.Unused sockfd) (rawConnected : Bool) (rawIn rawOut : ℤ → UInt8)
    (ops : List ConnectingOp) :
    ∃ s, new? loop sockfd rawConnected rawIn rawOut .inProgress = some s ∧
      (((∀ x ∈ attempted connectingStep? s ops, x.1.Refuses x.2) ∧
          ∀ t ∈ visited connectingStep? s ops, t.delays = 0 → t.Awaits) ↔
        rawConnected = false ∨ ∀ x ∈ attempted connectingStep? s ops, x.2.TooLong) := by
  obtain ⟨s, hs⟩ : ∃ s, new? loop sockfd rawConnected rawIn rawOut .inProgress = some s := ⟨_, rfl⟩
  have hstart := Waiting.new? hunused hs
  have hkeep : ∀ s op t, s.Waiting rawConnected → (rawConnected = false ∨ op.TooLong) →
      connectingStep? s op = some t → t.Waiting rawConnected := by
    intro s op t h hop ht
    exact h.step ((h.refuses_iff op).mpr hop) ht
  refine ⟨s, hs, ?_, ?_⟩
  · intro h
    have hwaiting := forall_visited (fun s op t hw hr ht => Waiting.step hw hr ht) s ops hstart h.1
    rw [or_iff_not_imp_left]
    intro hraw x hx
    have hx' := hwaiting x.1 (mem_visited_of_mem_attempted hx)
    exact ((hx'.refuses_iff x.2).mp (h.1 x hx)).resolve_left hraw
  · intro h
    have hguard : ∀ x ∈ attempted connectingStep? s ops, rawConnected = false ∨ x.2.TooLong :=
      fun x hx => h.imp_right fun hlong => hlong x hx
    have hwaiting := forall_visited hkeep s ops hstart hguard
    constructor
    · intro x hx
      have hx' := hwaiting x.1 (mem_visited_of_mem_attempted hx)
      exact (hx'.refuses_iff x.2).mpr (hguard x hx)
    · intro t ht hdelays
      exact (hwaiting t ht).awaits hdelays

/-- A loop with nothing in it yet, and a descriptor that it does not know. -/
theorem init_unused (fd : Fd) : (EventLoop.init : EventLoop ClientCallback).Unused fd :=
  ⟨rfl, rfl⟩

/-- A message on a client whose memory was clear. -/
theorem cleared_client_waits :
    ∃ s, new? EventLoop.init 5 false (fun _ => 0) (fun _ => 0) .inProgress = some s ∧
      s.Refuses (.sendMessage [7] 1) := by
  obtain ⟨s, hs, hiff⟩ := messages_refused_iff EventLoop.init 5 (init_unused 5) false (fun _ => 0)
    (fun _ => 0) [.sendMessage [7] 1]
  exact ⟨s, hs, (hiff.mpr (Or.inl rfl)).1 (s, .sendMessage [7] 1) (by simp [attempted])⟩

/-- With another byte in its place the message is taken, and `write_callback` stands where
`connection_delay` was: the end of the handshake is never noticed. -/
theorem connecting_client_sends :
    ∃ s, new? EventLoop.init 5 true (fun _ => 0) (fun _ => 0) .inProgress = some s ∧
      s.writeCallback? = some .connectionDelay ∧ (s.sendMessage [7] 1).2 = 0 ∧
      (s.sendMessage [7] 1).1.tcp.obuf.length = 9 ∧
      (s.sendMessage [7] 1).1.writeCallback? = some .writeCallback :=
  ⟨_, rfl, by decide, by decide, by decide, by decide⟩

end ClientConn

end Lrlb.Reactor
