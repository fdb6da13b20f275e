import Lrlb.Reactor.EventLoop
import Lrlb.Reactor.OutputBuf
import Lrlb.Reactor.TcpConn

/-! A connection in its event loop: when the kernel watches for room to write. -/
namespace Lrlb.Reactor
open Lib

/-- `input` is the reading side, which also knows whether the connection has been cleaned. -/
structure ServerConn (C : Type) where
  loop : EventLoop C
  connfd : Fd
  input : TcpConn
  obuf : Option IoBuf

/-- `replies` are what the callbacks of the messages in a chunk send, one list for each. -/
inductive ConnAction (C : Type) where
  | sendMessage (m : SendCall)
  | doWrite (results : List WriteResult)
  | doRead (raw : ℤ → UInt8) (chunk : List UInt8) (replies : List (List SendCall))
  | other (a : LoopAction C)

namespace ServerConn

variable {C : Type} (rd wt : C)

/-- `tcp_conn::send_message` with the return value. -/
def sendMessage? (s : ServerConn C) (m : SendCall) : Option (ServerConn C × Int32) := do
  let (obuf, ret, activeEpollout) ← Reactor.sendMessage? s.obuf m
  if activeEpollout then
    let loop ← s.loop.addIoEvent? s.connfd wt Direction.epollout.mask
    some ({ s with loop := loop, obuf := obuf }, ret)
  else some ({ s with obuf := obuf }, ret)

/-- Messages sent one after the other, whatever becomes of them. -/
def sendAll? (s : ServerConn C) (ms : List SendCall) : Option (ServerConn C) :=
  run? (fun s m => (s.sendMessage? wt m).map Prod.fst) s ms

def cleanConn? (s : ServerConn C) : Option (ServerConn C) :=
  (s.loop.delIoEvent? s.connfd).map fun loop =>
    { s with loop := loop, input := { s.input with ibuf := none, closed := true }, obuf := none }

/-- The constructor of `tcp_conn`; the hook for new connections sends `hook`. -/
def create? (loop : EventLoop C) (connfd : Fd) (hook : List SendCall) : Option (ServerConn C) := do
  let s ← sendAll? wt ⟨loop, connfd, TcpConn.new, none⟩ hook
  let loop ← s.loop.addIoEvent? connfd rd Direction.epollin.mask
  some { s with loop := loop }

def doWrite? (s : ServerConn C) (results : List WriteResult) : Option (ServerConn C) := do
  let (obuf, _, failed) ← writeLoop? results s.obuf
  let s := { s with obuf := obuf }
  if failed then s.cleanConn?
  else if bufLength s.obuf = 0 then
    let loop ← s.loop.delIoEventMask? s.connfd Direction.epollout.mask
    some { s with loop := loop }
  else some s

/-- `tcp_conn::do_read`. The callbacks see neither `ibuf` nor the parser, so that what they send
can follow the reading. -/
def doRead? (s : ServerConn C) (raw : ℤ → UInt8) (chunk : List UInt8)
    (replies : List (List SendCall)) : Option (ServerConn C) := do
  let input ← s.input.doRead? raw chunk
  let calls := input.dispatched.length - s.input.dispatched.length
  let s ← sendAll? wt { s with input := { input with closed := false } } (replies.take calls).flatten
  if input.closed then s.cleanConn? else some s

/-- What happens to a connection until it has been cleaned. Other users of the loop keep to their
own descriptors. -/
def step? (s : ServerConn C) (a : ConnAction C) : Option (ServerConn C) :=
  if s.input.closed then none
  else match a with
    | .sendMessage m => (s.sendMessage? wt m).map Prod.fst
    | .doWrite results => s.doWrite? results
    | .doRead raw chunk replies => s.doRead? wt raw chunk replies
    | .other a =>
      if s.loop.target? a = some s.connfd then none
      else (s.loop.step? a).map fun loop => { s with loop := loop }

/-- The kernel reports when there is room to write. -/
def WatchesWrites (s : ServerConn C) : Prop :=
  ∃ mask ∈ s.loop.interest s.connfd, mask &&& Direction.epollout.mask ≠ 0

/-- The connection's descriptor is new to its loop. -/
def Fresh (l : EventLoop C) (fd : Fd) : Prop := l.ioEvs fd = none ∧ l.interest fd = none

/-- Inside the constructor: the table and the kernel know of the hook's messages only. -/
structure Starting (s : ServerConn C) : Prop where
  out : OutOk s.obuf
  table : (s.loop.ioEvs s.connfd).map IoEvent.mask = s.loop.interest s.connfd
  kernel : s.loop.interest s.connfd = if bufLength s.obuf = 0 then none else some 4

/-- Later on: the table may also have kept the write event of an earlier message. -/
structure Running (s : ServerConn C) : Prop where
  out : OutOk s.obuf
  table : (s.loop.ioEvs s.connfd).map IoEvent.mask = some 1 ∨
    (s.loop.ioEvs s.connfd).map IoEvent.mask = some 5
  kernel : s.loop.interest s.connfd = some (if bufLength s.obuf = 0 then 1 else 5)

variable {rd wt} {s t : ServerConn C}

theorem Running.watches_iff (h : Running s) : s.WatchesWrites ↔ bufLength s.obuf ≠ 0 := by
  unfold WatchesWrites
  rw [h.kernel]
  by_cases hempty : bufLength s.obuf = 0
  · rw [if_pos hempty]
    exact iff_of_false (by rintro ⟨_, ⟨⟩, hmask⟩; exact hmask rfl) (not_not.mpr hempty)
  · rw [if_neg hempty]
    exact iff_of_true ⟨5, rfl, by decide⟩ hempty

/-- A call of `send_message` leaves the loop and the emptiness of the buffer alone, or it adds the
write event together with the first unsent bytes. -/
theorem sendMessage?_cases (h : OutOk s.obuf) {m : SendCall} {ret : Int32}
    (hs : s.sendMessage? wt m = some (t, ret)) :
    OutOk t.obuf ∧ t.connfd = s.connfd ∧ t.input = s.input ∧
      ((t.loop = s.loop ∧ (bufLength t.obuf = 0 ↔ bufLength s.obuf = 0)) ∨
        (s.loop.addIoEvent? s.connfd wt Direction.epollout.mask = some t.loop ∧
          bufLength s.obuf = 0 ∧ bufLength t.obuf ≠ 0)) := by
  obtain ⟨⟨obuf, ret', active⟩, hsend, hs⟩ := Option.bind_eq_some_iff.mp hs
  dsimp only at hs
  obtain ⟨buf', hok, ⟨hacc, hcon⟩ | ⟨hrej, hlen⟩⟩ := sendMessage?_spec h m
  · cases hsend.symm.trans hacc
    have hfull : bufLength obuf ≠ 0 := by
      rw [Ne, hok.bufLength_eq_zero_iff, hcon]
      simp [frame, MsgHead.bytes, ← List.length_pos_iff]
    split_ifs at hs with hactive
    · obtain ⟨loop, hadd, hs⟩ := Option.bind_eq_some_iff.mp hs
      cases hs
      exact ⟨hok, rfl, rfl, Or.inr ⟨hadd, of_decide_eq_true hactive, hfull⟩⟩
    · cases hs
      have hbefore : bufLength s.obuf ≠ 0 := by simpa using hactive
      exact ⟨hok, rfl, rfl, Or.inl ⟨rfl, iff_of_false hfull hbefore⟩⟩
  · cases hsend.symm.trans hrej
    rw [if_neg (by decide)] at hs
    cases hs
    refine ⟨hok, rfl, rfl, Or.inl ⟨rfl, ?_⟩⟩
    rw [hok.bufLength_eq_zero_iff, h.bufLength_eq_zero_iff, ← List.length_eq_zero_iff, hlen,
      List.length_eq_zero_iff]

theorem mask_register (old : Option (IoEvent C)) (mask : UInt32) (proc : C) :
    (IoEvent.register old mask proc).mask = (old.map IoEvent.mask).getD 0 ||| mask := by
  cases old <;> simp [IoEvent.register]

/-- Adding an event puts the old mask of the table with the new one into the table and the
kernel. -/
theorem added_mask {l l' : EventLoop C} {fd : Fd} {proc : C} {mask : UInt32}
    (h : l.addIoEvent? fd proc mask = some l') :
    (l'.ioEvs fd).map IoEvent.mask = some (((l.ioEvs fd).map IoEvent.mask).getD 0 ||| mask) ∧
      l'.interest fd = some (((l.ioEvs fd).map IoEvent.mask).getD 0 ||| mask) := by
  rw [EventLoop.addIoEvent?_eq h, ← mask_register (l.ioEvs fd) mask proc]
  simp

theorem Starting.sendMessage (h : Starting s) {m : SendCall} {ret : Int32}
    (hs : s.sendMessage? wt m = some (t, ret)) : Starting t := by
  obtain ⟨hok, hfd, -, ⟨hloop, hempty⟩ | ⟨hadd, hbefore, hafter⟩⟩ := sendMessage?_cases h.out hs
  · refine ⟨hok, ?_, ?_⟩
    · rw [hloop, hfd]
      exact h.table
    · rw [hloop, hfd, h.kernel]
      simp only [hempty]
  · obtain ⟨htable, hkernel⟩ := added_mask hadd
    have hold : (s.loop.ioEvs s.connfd).map IoEvent.mask = none := by
      rw [h.table, h.kernel, if_pos hbefore]
    rw [hold] at htable hkernel
    refine ⟨hok, ?_, ?_⟩
    · rw [hfd, htable, hkernel]
    · rw [hfd, hkernel, if_neg hafter]
      rfl

theorem Running.sendMessage (h : Running s) {m : SendCall} {ret : Int32}
    (hs : s.sendMessage? wt m = some (t, ret)) : Running t := by
  obtain ⟨hok, hfd, -, ⟨hloop, hempty⟩ | ⟨hadd, -, hafter⟩⟩ := sendMessage?_cases h.out hs
  · refine ⟨hok, ?_, ?_⟩
    · rw [hloop, hfd]
      exact h.table
    · rw [hloop, hfd, h.kernel]
      simp only [hempty]
  · -- with or without the old write event, the table's mask becomes that of both
    obtain ⟨htable, hkernel⟩ := added_mask hadd
    have hold : ((s.loop.ioEvs s.connfd).map IoEvent.mask).getD 0 ||| Direction.epollout.mask = 5 := by
      rcases h.table with hmask | hmask <;> rw [hmask] <;> rfl
    rw [hold] at htable hkernel
    refine ⟨hok, Or.inr ?_, ?_⟩
    · rw [hfd, htable]
    · rw [hfd, hkernel, if_neg hafter]

/-- What each message keeps, a list of them keeps. -/
theorem sendAll?_invariant {P : ServerConn C → Prop}
    (hP : ∀ s t m ret, P s → s.sendMessage? wt m = some (t, ret) → P t) {ms : List SendCall}
    (h : P s) (hs : s.sendAll? wt ms = some t) : P t := by
  refine Reachable.invariant ?_ h ⟨ms, hs⟩
  intro s m t hPs hstep
  obtain ⟨⟨t', ret⟩, hsend, rfl⟩ := Option.map_eq_some_iff.mp hstep
  exact hP s t' m ret hPs hsend

theorem Running.create {l : EventLoop C} {fd : Fd} (hfresh : Fresh l fd) {hook : List SendCall}
    (hs : create? rd wt l fd hook = some s) : Running s := by
  obtain ⟨s₁, hsend, hs⟩ := Option.bind_eq_some_iff.mp hs
  obtain ⟨loop, hadd, hs⟩ := Option.bind_eq_some_iff.mp hs
  cases hs
  have hstart : Starting s₁ ∧ s₁.connfd = fd := by
    refine sendAll?_invariant (P := fun s => Starting s ∧ s.connfd = fd) ?_ ⟨⟨OutOk.none, ?_, ?_⟩, rfl⟩
      hsend
    · intro s t m ret hs hsend
      exact ⟨hs.1.sendMessage hsend, (sendMessage?_cases hs.1.out hsend).2.1.trans hs.2⟩
    · rw [hfresh.1, hfresh.2]
      rfl
    · rw [hfresh.2]
      rfl
  obtain ⟨hstart, rfl⟩ := hstart
  obtain ⟨htable, hkernel⟩ := added_mask hadd
  rw [hstart.table, hstart.kernel] at htable hkernel
  refine ⟨hstart.out, ?_, ?_⟩
  · dsimp only
    rw [htable]
    split_ifs
    · exact Or.inl rfl
    · exact Or.inr rfl
  · dsimp only
    rw [hkernel]
    split_ifs <;> rfl

theorem closed_cleanConn (hs : s.cleanConn? = some t) : t.input.closed = true := by
  obtain ⟨loop, -, rfl⟩ := Option.map_eq_some_iff.mp hs
  rfl

/-- Deleting the write event leaves the kernel with the read event, whatever the table has. -/
theorem Running.deleted_mask (h : Running s) {l : EventLoop C}
    (hdel : s.loop.delIoEventMask? s.connfd Direction.epollout.mask = some l) :
    l.ioEvs = s.loop.ioEvs ∧ l.interest s.connfd = some 1 := by
  have hmask {ev : IoEvent C} (hev : s.loop.ioEvs s.connfd = some ev) :
      ev.mask &&& ~~~Direction.epollout.mask = 1 := by
    have htable := h.table
    rw [hev, Option.map_some, Option.some_inj, Option.some_inj] at htable
    rcases htable with hmask | hmask <;> rw [hmask] <;> decide
  obtain ⟨hnone, -⟩ | ⟨ev, hev, ⟨hzero, -⟩ | ⟨-, rfl⟩⟩ := EventLoop.delIoEventMask?_cases hdel
  · have htable := h.table
    simp [hnone] at htable
  · rw [hmask hev] at hzero
    exact absurd hzero (by decide)
  · refine ⟨rfl, ?_⟩
    rw [hmask hev]
    simp

theorem Running.doWrite (h : Running s) {results : List WriteResult}
    (hs : s.doWrite? results = some t) : t.input.closed = false → Running t := by
  obtain ⟨⟨obuf, bytes, failed⟩, hwrite, hs⟩ := Option.bind_eq_some_iff.mp hs
  obtain ⟨hok, hcon⟩ := writeLoop?_spec h.out hwrite
  dsimp only at hs
  split_ifs at hs with hfailed hempty
  · simp [closed_cleanConn hs]
  · obtain ⟨loop, hdel, hs⟩ := Option.bind_eq_some_iff.mp hs
    cases hs
    obtain ⟨htable, hkernel⟩ := h.deleted_mask hdel
    refine fun _ => ⟨hok, ?_, ?_⟩
    · dsimp only
      rw [htable]
      exact h.table
    · rw [hkernel, if_pos hempty]
  · cases hs
    -- what is still unsent was unsent before
    have hbefore : bufLength s.obuf ≠ 0 := by
      rw [hok.bufLength_eq_zero_iff] at hempty
      rw [Ne, h.out.bufLength_eq_zero_iff, ← hcon, List.append_eq_nil_iff]
      exact fun hnil => hempty hnil.2
    refine fun _ => ⟨hok, h.table, ?_⟩
    dsimp only
    rw [h.kernel, if_neg hbefore, if_neg hempty]

theorem Running.doRead (h : Running s) {raw : ℤ → UInt8} {chunk : List UInt8}
    {replies : List (List SendCall)} (hs : s.doRead? wt raw chunk replies = some t) :
    t.input.closed = false → Running t := by
  obtain ⟨input, -, hs⟩ := Option.bind_eq_some_iff.mp hs
  obtain ⟨s₁, hsend, hs⟩ := Option.bind_eq_some_iff.mp hs
  have hread : Running { s with input := { input with closed := false } } :=
    ⟨h.out, h.table, h.kernel⟩
  have hrun : Running s₁ := sendAll?_invariant (fun _ _ _ _ h hm => h.sendMessage hm) hread hsend
  split_ifs at hs
  · simp [closed_cleanConn hs]
  · cases hs
    exact fun _ => hrun

theorem Running.step (h : s.input.closed = false → Running s) {a : ConnAction C}
    (hstep : s.step? wt a = some t) : t.input.closed = false → Running t := by
  unfold step? at hstep
  split_ifs at hstep with hclosed
  have hrun := h (by simpa using hclosed)
  cases a with
  | sendMessage m =>
    obtain ⟨⟨t', ret⟩, hsend, rfl⟩ := Option.map_eq_some_iff.mp hstep
    exact fun _ => hrun.sendMessage hsend
  | doWrite results => exact hrun.doWrite hstep
  | doRead raw chunk replies => exact hrun.doRead hstep
  | other a =>
    obtain ⟨htarget, hstep⟩ := Option.ite_none_left_eq_some.mp hstep
    obtain ⟨loop, hloop, rfl⟩ := Option.map_eq_some_iff.mp hstep
    obtain ⟨htable, hkernel⟩ := EventLoop.step?_frame hloop htarget
    refine fun _ => ⟨hrun.out, ?_, ?_⟩
    · dsimp only
      rw [htable]
      exact hrun.table
    · dsimp only
      rw [hkernel]
      exact hrun.kernel

/-- Between the callbacks of a connection that has not been cleaned, the kernel watches for room
to write exactly while there are unsent bytes. -/
theorem watchesWrites_iff {l : EventLoop C} {fd : Fd} (hfresh : Fresh l fd) (hook : List SendCall)
    (hs : create? rd wt l fd hook = some s) (as : List (ConnAction C)) :
    ∀ t ∈ visited (step? wt) s as, t.input.closed = false →
      (t.WatchesWrites ↔ bufLength t.obuf ≠ 0) := by
  have hrun : ∀ t ∈ visited (step? wt) s as, t.input.closed = false → Running t :=
    forall_visited (G := fun _ _ => True) (fun _ _ _ h _ hstep => Running.step h hstep) s as
      (fun _ => Running.create hfresh hs) (fun _ _ => trivial)
  intro t ht hlive
  exact (hrun t ht hlive).watches_iff

def hello : SendCall := ⟨5, [3], fun _ => 0, fun _ => 0, by decide⟩

/-- The hook sends, the message leaves in two pieces, a later message waits. -/
theorem watchesWrites_hook :
    ∃ s, create? 0 1 EventLoop.init 7 [hello] = some s ∧ bufLength s.obuf = 9 ∧
      (run? (step? 1) s [.doWrite [.wrote 5, .again], .doWrite [.wrote 4], .sendMessage hello,
        .doWrite [.wrote 0]]).isSome ∧
      ∀ t ∈ visited (step? 1) s [.doWrite [.wrote 5, .again], .doWrite [.wrote 4],
        .sendMessage hello, .doWrite [.wrote 0]],
        t.input.closed = false → (t.WatchesWrites ↔ bufLength t.obuf ≠ 0) := by
  have hs : create? 0 1 EventLoop.init 7 [hello] = some _ := rfl
  exact ⟨_, hs, by decide +kernel, by decide +kernel, watchesWrites_iff ⟨rfl, rfl⟩ [hello] hs _⟩

end ServerConn

end Lrlb.Reactor
