import Lrlb.Lib.Run
import Lrlb.Reactor.EventLoop

/-! `tcp_server` with its thread pool: the main thread accepts connections and hands them to the
workers, whose event loops read and write on them until they are cleaned. Every step is one
section under a lock, one system call or one change of an event loop. -/
namespace Lrlb.Reactor
open Lib

/-- `MAX_CONNS` -/
def maxConns : ℕ := 1024

/-- A `tcp_conn` on the heap. -/
abbrev ConnId := ℕ

/-- What a descriptor of the process is open for. A descriptor of a connection is on its way to
a worker, in the queue of the worker, or held by a `tcp_conn`. -/
inductive FdUse where
  | free
  | own
  | other
  | accepted
  | queued (w : ℕ)
  | conn (c : ConnId)
deriving DecidableEq

/-- The callbacks that worker loops have, with their arguments. -/
inductive Callback where
  | dealTaskMessage
  | connRd (c : ConnId)
  | connWt (c : ConnId)
deriving DecidableEq

/-- A `connfd` of -1 is `none`. The other fields are no data of the program: they record the
descriptor that the connection was made for, and how often the close hook was run for it and its
descriptor was closed. -/
structure ConnObj where
  connfd : Option Fd
  loop : ℕ
  fd : Fd
  hooks : ℕ
  closes : ℕ
deriving DecidableEq

/-- Where the main thread is in `do_accept`: before the next `accept`, before `get_conn_num`, or
before the `send` to a queue. -/
inductive MainMode where
  | accept
  | getConnNum (connfd : Fd)
  | send (connfd : Fd)
deriving DecidableEq

/-- What a worker thread is in the middle of. -/
inductive WorkerMode where
  /-- `event_process` between two callbacks -/
  | waiting
  /-- `deal_task_message` before the next task -/
  | tasks (connfds : List Fd)
  /-- the constructor of `tcp_conn` before `increase_conn` -/
  | increase (c : ConnId) (connfds : List Fd)
  /-- `do_read` or `do_write` -/
  | callback (c : ConnId) (d : Direction)
  /-- `clean_conn` before `decrease_conn`, before `del_io_event` and before `close` -/
  | decrease (c : ConnId)
  | delIoEvent (c : ConnId)
  | close (c : ConnId)
deriving DecidableEq

/-- Whether the user's code runs in the worker: in a callback, in the close hook or in a task of
the loop. -/
def WorkerMode.user : WorkerMode → Bool
  | .waiting | .callback _ _ | .decrease _ => true
  | _ => false

/-- The connection that a worker is in the middle of making, serving or cleaning. -/
def WorkerMode.conn? : WorkerMode → Option ConnId
  | .waiting | .tasks _ => none
  | .increase c _ | .callback c _ | .decrease c | .delIoEvent c | .close c => some c

/-- The descriptors that a worker has taken out of its queue and made no connection for yet. -/
def WorkerMode.connfds : WorkerMode → List Fd
  | .tasks connfds | .increase _ connfds => connfds
  | _ => []

/-- How `do_read` or `do_write` ends: it leaves the connection as it is, it has written all there
was, or it cleans the connection. -/
inductive Outcome where
  | keep
  | drained
  | clean
deriving DecidableEq

/-- The process around the server: the threads of the pool with the eventfds of their queues, the
descriptors that the server itself has open, those that are open for anything else when it starts,
the limit on descriptors, the memory that `conns` is made of and whether there is a close hook. -/
structure TcpConfig where
  threads : ℕ
  threads_pos : 0 < threads
  evfd : ℕ → Fd
  own : Fd → Bool
  evfd_own : ∀ w, own (evfd w) = true
  others : Fd → Bool
  nofile : ℕ
  raw : Fd → Option ConnId
  closeCb : Bool

structure TcpServer where
  fds : Fd → FdUse
  main : MainMode
  /-- `_index` of the thread pool -/
  index : ℕ
  /-- the `NEW_CONN` tasks in the queues of the workers -/
  queues : ℕ → List Fd
  mode : ℕ → WorkerMode
  loops : ℕ → EventLoop Callback
  objs : ConnId → ConnObj
  /-- the number of `tcp_conn` made so far -/
  count : ℕ
  conns : Fd → Option ConnId
  currConns : ℤ

inductive TcpAction where
  | openFd (fd : Fd)
  | closeFd (fd : Fd)
  | accept (connfd : Fd)
  | getConnNum
  | send
  | epollWait (w : ℕ) (fired : List (Fd × UInt32))
  | dispatch (w : ℕ)
  /-- the first half of the constructor; the start hook may send a message -/
  | newConn (w : ℕ) (sends : Bool)
  | sendMessage (w : ℕ) (c : ConnId)
  | finish (w : ℕ) (outcome : Outcome)
  /-- the worker's next step in what it is in the middle of -/
  | resume (w : ℕ)
deriving DecidableEq

namespace TcpServer

def init (cfg : TcpConfig) : TcpServer where
  fds fd := if cfg.own fd then .own else if cfg.others fd then .other else .free
  main := .accept
  index := 0
  queues _ := []
  mode _ := .waiting
  loops w := (EventLoop.init.addIoEvent? (cfg.evfd w) .dealTaskMessage
    Direction.epollin.mask).getD EventLoop.init
  objs _ := ⟨none, 0, 0, 0, 0⟩
  count := 0
  conns := cfg.raw
  currConns := 0

def setFd (s : TcpServer) (fd : Fd) (use : FdUse) : TcpServer :=
  { s with fds := Function.update s.fds fd use }

def setMode (s : TcpServer) (w : ℕ) (m : WorkerMode) : TcpServer :=
  { s with mode := Function.update s.mode w m }

def setLoop (s : TcpServer) (w : ℕ) (l : EventLoop Callback) : TcpServer :=
  { s with loops := Function.update s.loops w l }

/-- The events that a loop has still to dispatch. -/
def setFired (s : TcpServer) (w : ℕ) (fired : List (Fd × UInt32)) : TcpServer :=
  s.setLoop w { s.loops w with firedEvs := fired }

def setObj (s : TcpServer) (c : ConnId) (o : ConnObj) : TcpServer :=
  { s with objs := Function.update s.objs c o }

theorem mode_setMode_self (s : TcpServer) (w : ℕ) (m : WorkerMode) : (s.setMode w m).mode w = m :=
  Function.update_self ..

theorem mode_setMode_ne (s : TcpServer) {v w : ℕ} (h : v ≠ w) (m : WorkerMode) :
    (s.setMode w m).mode v = s.mode v := Function.update_of_ne h ..

theorem loops_setLoop_self (s : TcpServer) (w : ℕ) (l : EventLoop Callback) :
    (s.setLoop w l).loops w = l := Function.update_self ..

theorem loops_setLoop_ne (s : TcpServer) {v w : ℕ} (h : v ≠ w) (l : EventLoop Callback) :
    (s.setLoop w l).loops v = s.loops v := Function.update_of_ne h ..

theorem setLoop_setLoop (s : TcpServer) (w : ℕ) (l l' : EventLoop Callback) :
    (s.setLoop w l).setLoop w l' = s.setLoop w l' := by
  simp only [setLoop, Function.update_idem]

theorem objs_setObj_self (s : TcpServer) (c : ConnId) (o : ConnObj) : (s.setObj c o).objs c = o :=
  Function.update_self ..

theorem objs_setObj_ne (s : TcpServer) {c c' : ConnId} (h : c' ≠ c) (o : ConnObj) :
    (s.setObj c o).objs c' = s.objs c' := Function.update_of_ne h ..

theorem fds_setFd_self (s : TcpServer) (fd : Fd) (use : FdUse) : (s.setFd fd use).fds fd = use :=
  Function.update_self ..

theorem fds_setFd_ne (s : TcpServer) {f fd : Fd} (h : f ≠ fd) (use : FdUse) :
    (s.setFd fd use).fds f = s.fds f := Function.update_of_ne h ..

/-- The descriptor that the kernel hands out: the lowest one that is free, below the limit. -/
def Lowest (cfg : TcpConfig) (s : TcpServer) (fd : Fd) : Prop :=
  fd < cfg.nofile ∧ s.fds fd = .free ∧ ∀ k < fd, s.fds k ≠ .free

instance (cfg : TcpConfig) (s : TcpServer) (fd : Fd) : Decidable (s.Lowest cfg fd) :=
  inferInstanceAs (Decidable (_ ∧ _ ∧ ∀ k < fd, _))

/-- The descriptors that wait for a worker. -/
def pending (s : TcpServer) (w : ℕ) : List Fd := (s.mode w).connfds ++ s.queues w

/-- The entry of `conns` that a connection is kept in. -/
def slot (s : TcpServer) (c : ConnId) : ℤ :=
  match (s.objs c).connfd with
  | none => -1
  | some fd => fd

/-- What `conns` is indexed with in an action. -/
def indexed? (s : TcpServer) : TcpAction → Option ℤ
  | .resume w =>
    match s.mode w with
    | .increase c _ | .decrease c => some (s.slot c)
    | _ => none
  | _ => none

/-- `get_conn_num` and what `do_accept` makes of it. -/
def getConnNum? (s : TcpServer) : Option TcpServer :=
  match s.main with
  | .getConnNum fd =>
    if maxConns ≤ s.currConns then some { s.setFd fd .free with main := .accept }
    else some { s with main := .send fd }
  | _ => none

/-- A descriptor is put into the queue that `get_thread` has returned. -/
def enqueue (s : TcpServer) (i : ℕ) (fd : Fd) : TcpServer :=
  { s.setFd fd (.queued i) with
    main := .accept
    index := i + 1
    queues := Function.update s.queues i (s.queues i ++ [fd]) }

/-- `get_thread` and the `send` to its queue. -/
def send? (cfg : TcpConfig) (s : TcpServer) : Option TcpServer :=
  match s.main with
  | .send fd => some (s.enqueue (if s.index = cfg.threads then 0 else s.index) fd)
  | _ => none

/-- One round of the loop over the fired events. `recv` takes the whole queue. -/
def dispatch? (s : TcpServer) (w : ℕ) : Option TcpServer :=
  (s.loops w).dispatch?.map fun l =>
    let s' := s.setLoop w l
    match (s.loops w).called? with
    | none => s'
    | some .dealTaskMessage =>
      { s' with queues := Function.update s.queues w [] }.setMode w (.tasks (s.queues w))
    | some (.connRd c) => s'.setMode w (.callback c .epollin)
    | some (.connWt c) => s'.setMode w (.callback c .epollout)

/-- `add_io_event` for a connection on the loop of its worker. -/
def watch? (s : TcpServer) (w : ℕ) (fd : Fd) (cb : Callback) (d : Direction) : Option TcpServer :=
  ((s.loops w).addIoEvent? fd cb d.mask).map (s.setLoop w)

/-- A new `tcp_conn` for a descriptor. -/
def makeConn (s : TcpServer) (w : ℕ) (fd : Fd) : TcpServer :=
  { (s.setFd fd (.conn s.count)).setObj s.count ⟨some fd, w, fd, 0, 0⟩ with count := s.count + 1 }

/-- The constructor of `tcp_conn` up to `increase_conn`. -/
def newConn? (s : TcpServer) (w : ℕ) (sends : Bool) : Option TcpServer :=
  match s.mode w with
  | .tasks (fd :: connfds) =>
    let c := s.count
    let s := s.makeConn w fd
    ((if sends then s.watch? w fd (.connWt c) .epollout else some s).bind fun s =>
      s.watch? w fd (.connRd c) .epollin).map fun s => s.setMode w (.increase c connfds)
  | _ => none

/-- `send_message` on a connection of the worker that has nothing left to write. -/
def sendMessage? (s : TcpServer) (w : ℕ) (c : ConnId) : Option TcpServer :=
  if (s.mode w).user ∧ c < s.count ∧ (s.objs c).loop = w then
    (s.objs c).connfd.bind fun fd => s.watch? w fd (.connWt c) .epollout
  else none

/-- `clean_conn` up to `decrease_conn`. -/
def cleanConn (cfg : TcpConfig) (s : TcpServer) (w : ℕ) (c : ConnId) : TcpServer :=
  let o := s.objs c
  (s.setObj c { o with hooks := o.hooks + cfg.closeCb.toNat }).setMode w (.decrease c)

def finish? (cfg : TcpConfig) (s : TcpServer) (w : ℕ) (outcome : Outcome) : Option TcpServer :=
  match s.mode w with
  | .callback c d =>
    match outcome, d with
    | .keep, _ => some (s.setMode w .waiting)
    | .drained, .epollin => none
    | .drained, .epollout =>
      (s.objs c).connfd.bind fun fd =>
        ((s.loops w).delIoEventMask? fd Direction.epollout.mask).map fun l =>
          (s.setLoop w l).setMode w .waiting
    | .clean, _ => some (s.cleanConn cfg w c)
  | _ => none

/-- The end of `clean_conn`. -/
def closeConn (s : TcpServer) (w : ℕ) (c : ConnId) (fd : Fd) : TcpServer :=
  let o := s.objs c
  ((s.setObj c { o with connfd := none, closes := o.closes + 1 }).setFd fd .free).setMode w .waiting

/-- A write to `conns`; outside the array it is undefined. -/
def setConns? (s : TcpServer) (c : ConnId) (v : Option ConnId) (d : ℤ) : Option TcpServer :=
  (s.objs c).connfd.bind fun fd =>
    if fd < maxConns + 3 then
      some { s with conns := Function.update s.conns fd v, currConns := s.currConns + d }
    else none

def resume? (s : TcpServer) (w : ℕ) : Option TcpServer :=
  match s.mode w with
  | .tasks [] => some (s.setMode w .waiting)
  | .increase c connfds => (s.setConns? c (some c) 1).map fun s => s.setMode w (.tasks connfds)
  | .decrease c => (s.setConns? c none (-1)).map fun s => s.setMode w (.delIoEvent c)
  | .delIoEvent c =>
    (s.objs c).connfd.bind fun fd =>
      ((s.loops w).delIoEvent? fd).map fun l => (s.setLoop w l).setMode w (.close c)
  | .close c => (s.objs c).connfd.map fun fd => s.closeConn w c fd
  | _ => none

def step? (cfg : TcpConfig) (s : TcpServer) : TcpAction → Option TcpServer
  | .openFd fd => if s.Lowest cfg fd then some (s.setFd fd .other) else none
  | .closeFd fd => if s.fds fd = .other then some (s.setFd fd .free) else none
  | .accept fd =>
    if s.main = .accept ∧ s.Lowest cfg fd then
      some { s.setFd fd .accepted with main := .getConnNum fd }
    else none
  | .getConnNum => s.getConnNum?
  | .send => s.send? cfg
  | .epollWait w fired =>
    if w < cfg.threads ∧ s.mode w = .waiting then ((s.loops w).epollWait? fired).map (s.setLoop w)
    else none
  | .dispatch w => if w < cfg.threads ∧ s.mode w = .waiting then s.dispatch? w else none
  | .newConn w sends => if w < cfg.threads then s.newConn? w sends else none
  | .sendMessage w c => if w < cfg.threads then s.sendMessage? w c else none
  | .finish w outcome => if w < cfg.threads then s.finish? cfg w outcome else none
  | .resume w => if w < cfg.threads then s.resume? w else none

/-- A process with its standard descriptors, a listening socket, an epoll instance and a worker. -/
def smallServer : TcpConfig where
  threads := 1
  threads_pos := Nat.one_pos
  evfd _ := 5
  own fd := fd == 3 || fd == 4 || fd == 5
  evfd_own _ := rfl
  others fd := fd < 3
  nofile := 1024
  raw _ := none
  closeCb := true

/-- What a step can do. -/
inductive Step (cfg : TcpConfig) (s : TcpServer) : TcpAction → TcpServer → Prop where
  | openFd {fd} (hlow : s.Lowest cfg fd) : Step cfg s (.openFd fd) (s.setFd fd .other)
  | closeFd {fd} (hfd : s.fds fd = .other) : Step cfg s (.closeFd fd) (s.setFd fd .free)
  | accept {fd} (hmain : s.main = .accept) (hlow : s.Lowest cfg fd) :
      Step cfg s (.accept fd) { s.setFd fd .accepted with main := .getConnNum fd }
  | refuse {fd} (hmain : s.main = .getConnNum fd) (hfull : maxConns ≤ s.currConns) :
      Step cfg s .getConnNum { s.setFd fd .free with main := .accept }
  | pass {fd} (hmain : s.main = .getConnNum fd) (hroom : s.currConns < maxConns) :
      Step cfg s .getConnNum { s with main := .send fd }
  | send {fd i} (hmain : s.main = .send fd)
      (hi : i = if s.index = cfg.threads then 0 else s.index) :
      Step cfg s .send (s.enqueue i fd)
  | fired {a w fired} (hw : w < cfg.threads) (hmode : s.mode w = .waiting) :
      Step cfg s a (s.setFired w fired)
  | error {w fd events fired l} (hw : w < cfg.threads) (hmode : s.mode w = .waiting)
      (hfired : (s.loops w).firedEvs = (fd, events) :: fired) (hevents : reaction events = .delete)
      (hdel : { s.loops w with firedEvs := fired }.delIoEvent? fd = some l) :
      Step cfg s (.dispatch w) (s.setLoop w l)
  | dealTask {w fired} (hw : w < cfg.threads) (hmode : s.mode w = .waiting) :
      Step cfg s (.dispatch w) ({ s.setFired w fired with
        queues := Function.update s.queues w [] }.setMode w (.tasks (s.queues w)))
  | call {w fd ev d d' cb c fired} (hw : w < cfg.threads) (hmode : s.mode w = .waiting)
      (hev : (s.loops w).ioEvs fd = some ev) (hcb : ev.callback d = some cb)
      (hc : cb = .connRd c ∨ cb = .connWt c) :
      Step cfg s (.dispatch w) ((s.setFired w fired).setMode w (.callback c d'))
  | newConn {w fd sends connfds l l'} (hw : w < cfg.threads)
      (hmode : s.mode w = .tasks (fd :: connfds))
      (hl : l = s.loops w ∨
        (s.loops w).addIoEvent? fd (.connWt s.count) Direction.epollout.mask = some l)
      (hl' : l.addIoEvent? fd (.connRd s.count) Direction.epollin.mask = some l') :
      Step cfg s (.newConn w sends)
        (((s.makeConn w fd).setLoop w l').setMode w (.increase s.count connfds))
  | sendMessage {w c fd l} (hw : w < cfg.threads) (huser : (s.mode w).user = true)
      (hc : c < s.count) (hloop : (s.objs c).loop = w) (hfd : (s.objs c).connfd = some fd)
      (hl : (s.loops w).addIoEvent? fd (.connWt c) Direction.epollout.mask = some l) :
      Step cfg s (.sendMessage w c) (s.setLoop w l)
  | keep {w c d} (hw : w < cfg.threads) (hmode : s.mode w = .callback c d) :
      Step cfg s (.finish w .keep) (s.setMode w .waiting)
  | drained {w c d fd l} (hw : w < cfg.threads) (hmode : s.mode w = .callback c d)
      (hfd : (s.objs c).connfd = some fd)
      (hl : (s.loops w).delIoEventMask? fd Direction.epollout.mask = some l) :
      Step cfg s (.finish w .drained) ((s.setLoop w l).setMode w .waiting)
  | clean {w c d} (hw : w < cfg.threads) (hmode : s.mode w = .callback c d) :
      Step cfg s (.finish w .clean) (s.cleanConn cfg w c)
  | tasksDone {w} (hw : w < cfg.threads) (hmode : s.mode w = .tasks []) :
      Step cfg s (.resume w) (s.setMode w .waiting)
  | increase {w c connfds fd} (hw : w < cfg.threads) (hmode : s.mode w = .increase c connfds)
      (hfd : (s.objs c).connfd = some fd) (hlt : fd < maxConns + 3) :
      Step cfg s (.resume w) ({ s with
        conns := Function.update s.conns fd (some c)
        currConns := s.currConns + 1 }.setMode w (.tasks connfds))
  | decrease {w c fd} (hw : w < cfg.threads) (hmode : s.mode w = .decrease c)
      (hfd : (s.objs c).connfd = some fd) (hlt : fd < maxConns + 3) :
      Step cfg s (.resume w) ({ s with
        conns := Function.update s.conns fd none
        currConns := s.currConns + -1 }.setMode w (.delIoEvent c))
  | delIoEvent {w c fd l} (hw : w < cfg.threads) (hmode : s.mode w = .delIoEvent c)
      (hfd : (s.objs c).connfd = some fd) (hl : (s.loops w).delIoEvent? fd = some l) :
      Step cfg s (.resume w) ((s.setLoop w l).setMode w (.close c))
  | close {w c fd} (hw : w < cfg.threads) (hmode : s.mode w = .close c)
      (hfd : (s.objs c).connfd = some fd) :
      Step cfg s (.resume w) (s.closeConn w c fd)

variable {cfg : TcpConfig} {s t : TcpServer} {v w : ℕ} {fd : Fd} {c : ConnId}

theorem pending_enqueue_self (s : TcpServer) (i : ℕ) (fd : Fd) :
    (s.enqueue i fd).pending i = s.pending i ++ [fd] := by
  change (s.mode i).connfds ++ Function.update s.queues i (s.queues i ++ [fd]) i = _
  rw [Function.update_self, ← List.append_assoc]
  rfl

theorem pending_enqueue_ne (s : TcpServer) {i v : ℕ} (h : v ≠ i) (fd : Fd) :
    (s.enqueue i fd).pending v = s.pending v := by
  change (s.mode v).connfds ++ Function.update s.queues i (s.queues i ++ [fd]) v = _
  rw [Function.update_of_ne h]
  rfl

theorem loops_init (cfg : TcpConfig) (w : ℕ) :
    EventLoop.init.addIoEvent? (cfg.evfd w) .dealTaskMessage Direction.epollin.mask =
      some ((init cfg).loops w) := rfl

/-- At first a worker only listens on the eventfd of its queue. -/
theorem loops_init_ne (cfg : TcpConfig) (w : ℕ) (h : fd ≠ cfg.evfd w) :
    ((init cfg).loops w).ioEvs fd = none ∧ ((init cfg).loops w).interest fd = none := by
  rw [EventLoop.addIoEvent?_eq (loops_init cfg w)]
  exact ⟨Function.update_of_ne h .., Function.update_of_ne h ..⟩

theorem Step.of_dispatch? (hw : w < cfg.threads) (hmode : s.mode w = .waiting)
    (h : s.dispatch? w = some t) : Step cfg s (.dispatch w) t := by
  obtain ⟨l, hl, rfl⟩ := Option.map_eq_some_iff.mp h
  obtain ⟨fd, events, fired, hfired, hcases⟩ := EventLoop.dispatch?_cases hl
  unfold EventLoop.called?
  rw [hfired]
  dsimp only
  obtain ⟨hdelete, hdel⟩ | ⟨hdelete, rfl⟩ := hcases
  · rw [hdelete]
    exact .error hw hmode hfired hdelete hdel
  · cases hreaction : reaction events with
    | delete => exact absurd hreaction hdelete
    | nothing => exact .fired hw hmode
    | call d =>
      dsimp only
      cases hev : (s.loops w).ioEvs fd with
      | none => exact .fired hw hmode
      | some ev =>
        rw [Option.bind_some]
        cases hcb : ev.callback d with
        | none => exact .fired hw hmode
        | some cb =>
          cases cb with
          | dealTaskMessage => exact .dealTask hw hmode
          | connRd c => exact .call hw hmode hev hcb (Or.inl rfl)
          | connWt c => exact .call hw hmode hev hcb (Or.inr rfl)

theorem Step.of_newConn? {sends : Bool} (hw : w < cfg.threads)
    (h : s.newConn? w sends = some t) : Step cfg s (.newConn w sends) t := by
  unfold newConn? at h
  split at h
  · next fd connfds hmode =>
    obtain ⟨s₂, hwatch, rfl⟩ := Option.map_eq_some_iff.mp h
    obtain ⟨s₁, h₁, h₂⟩ := Option.bind_eq_some_iff.mp hwatch
    obtain ⟨l', hl', rfl⟩ := Option.map_eq_some_iff.mp h₂
    cases sends with
    | false =>
      cases h₁
      exact .newConn hw hmode (Or.inl rfl) hl'
    | true =>
      obtain ⟨l, hl, rfl⟩ := Option.map_eq_some_iff.mp h₁
      rw [loops_setLoop_self] at hl'
      rw [setLoop_setLoop]
      exact .newConn hw hmode (Or.inr hl) hl'
  · cases h

theorem Step.of_finish? {outcome : Outcome} (hw : w < cfg.threads)
    (h : s.finish? cfg w outcome = some t) : Step cfg s (.finish w outcome) t := by
  unfold finish? at h
  split at h
  · next c d hmode =>
    split at h
    · cases h
      exact .keep hw hmode
    · cases h
    · obtain ⟨fd, hfd, h⟩ := Option.bind_eq_some_iff.mp h
      obtain ⟨l, hl, rfl⟩ := Option.map_eq_some_iff.mp h
      exact .drained hw hmode hfd hl
    · cases h
      exact .clean hw hmode
  · cases h

theorem setConns?_eq {v : Option ConnId} {d : ℤ} (h : s.setConns? c v d = some t) :
    ∃ fd, (s.objs c).connfd = some fd ∧ fd < maxConns + 3 ∧
      t = { s with conns := Function.update s.conns fd v, currConns := s.currConns + d } := by
  obtain ⟨fd, hfd, h⟩ := Option.bind_eq_some_iff.mp h
  obtain ⟨hlt, h⟩ := Option.ite_none_right_eq_some.mp h
  cases h
  exact ⟨fd, hfd, hlt, rfl⟩

theorem Step.of_resume? (hw : w < cfg.threads) (h : s.resume? w = some t) :
    Step cfg s (.resume w) t := by
  unfold resume? at h
  split at h
  · next hmode =>
    cases h
    exact .tasksDone hw hmode
  · next c connfds hmode =>
    obtain ⟨u, hu, rfl⟩ := Option.map_eq_some_iff.mp h
    obtain ⟨fd, hfd, hlt, rfl⟩ := setConns?_eq hu
    exact .increase hw hmode hfd hlt
  · next c hmode =>
    obtain ⟨u, hu, rfl⟩ := Option.map_eq_some_iff.mp h
    obtain ⟨fd, hfd, hlt, rfl⟩ := setConns?_eq hu
    exact .decrease hw hmode hfd hlt
  · next c hmode =>
    obtain ⟨fd, hfd, h⟩ := Option.bind_eq_some_iff.mp h
    obtain ⟨l, hl, rfl⟩ := Option.map_eq_some_iff.mp h
    exact .delIoEvent hw hmode hfd hl
  · next c hmode =>
    obtain ⟨fd, hfd, rfl⟩ := Option.map_eq_some_iff.mp h
    exact .close hw hmode hfd
  · cases h

theorem step_of_step? {a : TcpAction} (h : s.step? cfg a = some t) : Step cfg s a t := by
  unfold step? at h
  cases a with
  | openFd fd =>
    obtain ⟨hlow, h⟩ := Option.ite_none_right_eq_some.mp h
    cases h
    exact .openFd hlow
  | closeFd fd =>
    obtain ⟨hfd, h⟩ := Option.ite_none_right_eq_some.mp h
    cases h
    exact .closeFd hfd
  | accept fd =>
    obtain ⟨⟨hmain, hlow⟩, h⟩ := Option.ite_none_right_eq_some.mp h
    cases h
    exact .accept hmain hlow
  | getConnNum =>
    dsimp only [getConnNum?] at h
    split at h
    · next fd hmain =>
      split_ifs at h with hfull
      · cases h
        exact .refuse hmain hfull
      · cases h
        exact .pass hmain (not_le.mp hfull)
    · cases h
  | send =>
    dsimp only [send?] at h
    split at h
    · next fd hmain =>
      cases h
      exact .send hmain rfl
    · cases h
  | epollWait w fired =>
    obtain ⟨⟨hw, hmode⟩, h⟩ := Option.ite_none_right_eq_some.mp h
    obtain ⟨l, hl, rfl⟩ := Option.map_eq_some_iff.mp h
    obtain ⟨-, hl⟩ := Option.ite_none_right_eq_some.mp hl
    cases hl
    exact .fired hw hmode
  | dispatch w =>
    obtain ⟨⟨hw, hmode⟩, h⟩ := Option.ite_none_right_eq_some.mp h
    exact .of_dispatch? hw hmode h
  | newConn w sends =>
    obtain ⟨hw, h⟩ := Option.ite_none_right_eq_some.mp h
    exact .of_newConn? hw h
  | sendMessage w c =>
    obtain ⟨hw, h⟩ := Option.ite_none_right_eq_some.mp h
    obtain ⟨⟨huser, hc, hloop⟩, h⟩ := Option.ite_none_right_eq_some.mp h
    obtain ⟨fd, hfd, h⟩ := Option.bind_eq_some_iff.mp h
    obtain ⟨l, hl, rfl⟩ := Option.map_eq_some_iff.mp h
    exact .sendMessage hw huser hc hloop hfd hl
  | finish w outcome =>
    obtain ⟨hw, h⟩ := Option.ite_none_right_eq_some.mp h
    exact .of_finish? hw h
  | resume w =>
    obtain ⟨hw, h⟩ := Option.ite_none_right_eq_some.mp h
    exact .of_resume? hw h

/-- A connection that the worker has been given and that has not been closed. -/
def Serves (s : TcpServer) (w : ℕ) (c : ConnId) (fd : Fd) : Prop :=
  c < s.count ∧ (s.objs c).loop = w ∧ (s.objs c).connfd = some fd

/-- A callback in the table of a worker is for a connection of its own. -/
def Belongs (s : TcpServer) (w : ℕ) (fd : Fd) : Callback → Prop
  | .dealTaskMessage => True
  | .connRd c | .connWt c => s.Serves w c fd

/-- No worker ever works on a connection of another worker, or on one that is closed. -/
structure Owned (s : TcpServer) : Prop where
  callbacks : ∀ w fd ev d cb, (s.loops w).ioEvs fd = some ev → ev.callback d = some cb →
    s.Belongs w fd cb
  modes : ∀ w c, (s.mode w).conn? = some c → ∃ fd, s.Serves w c fd
  closing : ∀ w c fd, s.mode w = .close c → (s.objs c).connfd = some fd →
    (s.loops w).ioEvs fd = none

namespace Owned

theorem init (cfg : TcpConfig) : Owned (init cfg) := by
  refine ⟨fun w fd ev d cb hev hcb => ?_, fun w c hc => ?_, fun w c fd hmode => ?_⟩
  · by_cases hfd : fd = cfg.evfd w
    · subst hfd
      rw [EventLoop.ioEvs_addIoEvent? (loops_init cfg w), Function.update_self] at hev
      cases hev
      rw [IoEvent.callback_register] at hcb
      split_ifs at hcb
      · cases hcb
        trivial
      · cases hcb
    · exact nomatch (loops_init_ne cfg w hfd).1.symm.trans hev
  · cases hc
  · cases hmode

theorem setMode (h : Owned s) {m : WorkerMode}
    (hm : ∀ c, m.conn? = some c → ∃ fd, s.Serves w c fd)
    (hclose : ∀ c fd, m = .close c → (s.objs c).connfd = some fd → (s.loops w).ioEvs fd = none) :
    Owned (s.setMode w m) := by
  refine ⟨h.callbacks, fun v c hc => ?_, fun v c fd hmode hfd => ?_⟩
  · by_cases hv : v = w
    · subst hv
      rw [mode_setMode_self] at hc
      exact hm c hc
    · rw [mode_setMode_ne s hv] at hc
      exact h.modes v c hc
  · by_cases hv : v = w
    · subst hv
      rw [mode_setMode_self] at hmode
      exact hclose c fd hmode hfd
    · rw [mode_setMode_ne s hv] at hmode
      exact h.closing v c fd hmode hfd

theorem setLoop (h : Owned s) {l : EventLoop Callback}
    (hl : ∀ fd ev d cb, l.ioEvs fd = some ev → ev.callback d = some cb → s.Belongs w fd cb)
    (hclose : ∀ c fd, s.mode w = .close c → (s.objs c).connfd = some fd → l.ioEvs fd = none) :
    Owned (s.setLoop w l) := by
  refine ⟨fun v fd ev d cb hev hcb => ?_, h.modes, fun v c fd hmode hfd => ?_⟩
  · by_cases hv : v = w
    · subst hv
      rw [loops_setLoop_self] at hev
      exact hl fd ev d cb hev hcb
    · rw [loops_setLoop_ne s hv] at hev
      exact h.callbacks v fd ev d cb hev hcb
  · by_cases hv : v = w
    · subst hv
      rw [loops_setLoop_self]
      exact hclose c fd hmode hfd
    · rw [loops_setLoop_ne s hv]
      exact h.closing v c fd hmode hfd

/-- A change of the loop that leaves its table as it is. -/
theorem setLoop_table (h : Owned s) {l : EventLoop Callback} (hl : l.ioEvs = (s.loops w).ioEvs) :
    Owned (s.setLoop w l) :=
  h.setLoop (fun fd ev d cb hev hcb => h.callbacks w fd ev d cb (hl ▸ hev) hcb)
    fun c fd hmode hfd => hl ▸ h.closing w c fd hmode hfd

theorem addIoEvent (h : Owned s) {d : Direction} {cb : Callback} {l : EventLoop Callback}
    (hl : (s.loops w).addIoEvent? fd cb d.mask = some l) (hmode : ∀ c, s.mode w ≠ .close c)
    (hcb : s.Belongs w fd cb) : Owned (s.setLoop w l) := by
  refine h.setLoop (fun fd' ev d' cb' hev hcb' => ?_) fun c fd' hclose => absurd hclose (hmode c)
  rw [EventLoop.ioEvs_addIoEvent? hl] at hev
  by_cases hfd : fd' = fd
  · subst hfd
    rw [Function.update_self] at hev
    cases hev
    rw [IoEvent.callback_register] at hcb'
    split_ifs at hcb'
    · cases hcb'
      exact hcb
    · obtain ⟨ev, hev, hcb'⟩ := Option.bind_eq_some_iff.mp hcb'
      exact h.callbacks w fd' ev d' cb' hev hcb'
  · rw [Function.update_of_ne hfd] at hev
    exact h.callbacks w fd' ev d' cb' hev hcb'

theorem delIoEvent (h : Owned s) {l : EventLoop Callback}
    (htable : l.ioEvs = Function.update (s.loops w).ioEvs fd none) : Owned (s.setLoop w l) := by
  refine h.setLoop (fun fd' ev d cb hev hcb => ?_) fun c fd' hmode hfd' => ?_
  · rw [htable] at hev
    by_cases hfd : fd' = fd
    · subst hfd
      rw [Function.update_self] at hev
      cases hev
    · rw [Function.update_of_ne hfd] at hev
      exact h.callbacks w fd' ev d cb hev hcb
  · rw [htable]
    by_cases hfd : fd' = fd
    · rw [hfd, Function.update_self]
    · rw [Function.update_of_ne hfd]
      exact h.closing w c fd' hmode hfd'

/-- A step that touches no loop, and no connection in a way that matters here. -/
theorem of_serves (h : Owned s) (hloops : t.loops = s.loops) (hmode : t.mode = s.mode)
    (hserves : ∀ v c fd, s.Serves v c fd → t.Serves v c fd) : Owned t := by
  have hbelongs : ∀ v fd cb, s.Belongs v fd cb → t.Belongs v fd cb := by
    intro v fd cb hcb
    cases cb with
    | dealTaskMessage => trivial
    | connRd c => exact hserves v c fd hcb
    | connWt c => exact hserves v c fd hcb
  refine ⟨fun v fd ev d cb hev hcb => ?_, fun v c hc => ?_, fun v c fd hclose hfd => ?_⟩
  · rw [hloops] at hev
    exact hbelongs v fd cb (h.callbacks v fd ev d cb hev hcb)
  · rw [hmode] at hc
    obtain ⟨fd, hfd⟩ := h.modes v c hc
    exact ⟨fd, hserves v c fd hfd⟩
  · rw [hmode] at hclose
    obtain ⟨fd', hfd'⟩ := h.modes v c (by rw [hclose]; rfl)
    rw [(hserves v c fd' hfd').2.2] at hfd
    cases hfd
    rw [hloops]
    exact h.closing v c fd hclose hfd'.2.2

theorem newConn (h : Owned s) {connfds : List Fd} {l l' : EventLoop Callback}
    (hmode : s.mode w = .tasks (fd :: connfds))
    (hl : l = s.loops w ∨
      (s.loops w).addIoEvent? fd (.connWt s.count) Direction.epollout.mask = some l)
    (hl' : l.addIoEvent? fd (.connRd s.count) Direction.epollin.mask = some l') :
    Owned (((s.makeConn w fd).setLoop w l').setMode w (.increase s.count connfds)) := by
  set u := s.makeConn w fd with hu
  have hserves : u.Serves w s.count fd := by
    have hobj : u.objs s.count = ⟨some fd, w, fd, 0, 0⟩ := Function.update_self ..
    exact ⟨Nat.lt_succ_self _, by rw [hobj], by rw [hobj]⟩
  have hold : Owned u := by
    refine h.of_serves rfl rfl fun v c fd' hc => ?_
    have hobj : u.objs c = s.objs c := Function.update_of_ne hc.1.ne ..
    exact ⟨Nat.lt_succ_of_lt hc.1, hobj ▸ hc.2.1, hobj ▸ hc.2.2⟩
  have hnone : ∀ c, u.mode w ≠ .close c := fun c hc => nomatch hmode.symm.trans hc
  have hnew : Owned (u.setLoop w l') := by
    obtain rfl | hl := hl
    · exact hold.addIoEvent hl' hnone hserves
    · have hfirst : Owned (u.setLoop w l) := hold.addIoEvent hl hnone hserves
      rw [← setLoop_setLoop u w l l']
      rw [← loops_setLoop_self u w l] at hl'
      exact hfirst.addIoEvent hl' hnone hserves
  refine hnew.setMode (fun c hc => ?_) nofun
  cases hc
  exact ⟨fd, hserves⟩

theorem drained (h : Owned s) {l : EventLoop Callback}
    (hl : (s.loops w).delIoEventMask? fd Direction.epollout.mask = some l) :
    Owned ((s.setLoop w l).setMode w .waiting) := by
  refine setMode ?_ nofun nofun
  obtain ⟨-, rfl⟩ | ⟨ev, -, ⟨-, hdel⟩ | ⟨-, rfl⟩⟩ := EventLoop.delIoEventMask?_cases hl
  · exact h.setLoop_table rfl
  · exact h.delIoEvent (EventLoop.ioEvs_delIoEvent? hdel)
  · exact h.setLoop_table rfl

theorem clean (h : Owned s) (hc : (s.mode w).conn? = some c) : Owned (s.cleanConn cfg w c) := by
  obtain ⟨fd, hfd⟩ := h.modes w c hc
  set o := { s.objs c with hooks := (s.objs c).hooks + cfg.closeCb.toNat } with ho
  have hserves : ∀ v c' fd', s.Serves v c' fd' → (s.setObj c o).Serves v c' fd' := by
    intro v c' fd' hc'
    by_cases he : c' = c
    · subst he
      refine ⟨hc'.1, ?_, ?_⟩
      · rw [objs_setObj_self]
        exact hc'.2.1
      · rw [objs_setObj_self]
        exact hc'.2.2
    · refine ⟨hc'.1, ?_, ?_⟩
      · rw [objs_setObj_ne s he]
        exact hc'.2.1
      · rw [objs_setObj_ne s he]
        exact hc'.2.2
  have hobj : Owned (s.setObj c o) := h.of_serves rfl rfl hserves
  refine hobj.setMode (fun c' hc' => ?_) nofun
  cases hc'
  exact ⟨fd, hserves w c fd hfd⟩

/-- When a connection is closed, nothing is left that leads to it. -/
theorem close (h : Owned s) (hmode : s.mode w = .close c) (hfd : (s.objs c).connfd = some fd) :
    Owned (s.closeConn w c fd) := by
  obtain ⟨-, -, hloop, -⟩ := h.modes w c (by rw [hmode]; rfl)
  have hnone := h.closing w c fd hmode hfd
  unfold closeConn
  set o := { s.objs c with connfd := none, closes := (s.objs c).closes + 1 } with ho
  have hserves : ∀ v c' fd', c' ≠ c → s.Serves v c' fd' → (s.setObj c o).Serves v c' fd' := by
    rintro v c' fd' he ⟨hlt, hl, hf⟩
    exact ⟨hlt, by rwa [objs_setObj_ne s he], by rwa [objs_setObj_ne s he]⟩
  refine ⟨fun v f ev d cb hev hcb => ?_, fun v c' hc' => ?_, fun v c' f hclose hf => ?_⟩
  · have hbelongs := h.callbacks v f ev d cb hev hcb
    -- a callback of this connection would be in the table of its worker, at its descriptor
    have hother : ∀ c', s.Serves v c' f → c' ≠ c := by
      rintro _ ⟨-, hl, hf⟩ rfl
      cases hloop.symm.trans hl
      cases hfd.symm.trans hf
      exact nomatch hnone.symm.trans hev
    cases cb with
    | dealTaskMessage => trivial
    | connRd c' => exact hserves v c' f (hother c' hbelongs) hbelongs
    | connWt c' => exact hserves v c' f (hother c' hbelongs) hbelongs
  · by_cases hv : v = w
    · subst hv
      rw [mode_setMode_self] at hc'
      cases hc'
    · rw [mode_setMode_ne _ hv] at hc'
      obtain ⟨f, hf⟩ := h.modes v c' hc'
      refine ⟨f, hserves v c' f ?_ hf⟩
      rintro rfl
      exact hv (hf.2.1.symm.trans hloop)
  · by_cases hv : v = w
    · subst hv
      rw [mode_setMode_self] at hclose
      cases hclose
    · rw [mode_setMode_ne _ hv] at hclose
      obtain ⟨f', hf'⟩ := h.modes v c' (by rw [show s.mode v = _ from hclose]; rfl)
      have he : c' ≠ c := by
        rintro rfl
        exact hv (hf'.2.1.symm.trans hloop)
      change (Function.update s.objs c o c').connfd = some f at hf
      rw [Function.update_of_ne he] at hf
      exact h.closing v c' f hclose hf

theorem step {a : TcpAction} (h : Owned s) (hs : Step cfg s a t) : Owned t := by
  cases hs with
  | openFd | closeFd | accept | refuse | pass | send => exact ⟨h.callbacks, h.modes, h.closing⟩
  | fired => exact h.setLoop_table rfl
  | error hw hmode hfired hevents hdel =>
    have htable := EventLoop.ioEvs_delIoEvent? hdel
    exact h.delIoEvent htable
  | @dealTask w fired hw hmode =>
    have hloop : Owned (s.setFired w fired) := h.setLoop_table rfl
    refine setMode ?_ nofun nofun
    exact ⟨hloop.callbacks, hloop.modes, hloop.closing⟩
  | @call w fd ev d d' cb c fired hw hmode hev hcb hc =>
    have hloop : Owned (s.setFired w fired) := h.setLoop_table rfl
    refine hloop.setMode (fun c' hc' => ⟨fd, ?_⟩) nofun
    have hbelongs := h.callbacks w fd ev d cb hev hcb
    cases hc'
    obtain rfl | rfl := hc
    · exact hbelongs
    · exact hbelongs
  | newConn hw hmode hl hl' => exact h.newConn hmode hl hl'
  | @sendMessage w c fd l hw huser hc hloop hfd hl =>
    refine h.addIoEvent hl (fun c' hc' => ?_) ⟨hc, hloop, hfd⟩
    rw [hc'] at huser
    cases huser
  | keep => exact h.setMode nofun nofun
  | drained hw hmode hfd hl => exact h.drained hl
  | clean hw hmode => exact h.clean (by rw [hmode]; rfl)
  | tasksDone => exact h.setMode nofun nofun
  | increase =>
    refine setMode ?_ nofun nofun
    exact ⟨h.callbacks, h.modes, h.closing⟩
  | @decrease w c fd hw hmode hfd =>
    refine setMode ?_ (fun c' hc' => ?_) nofun
    · exact ⟨h.callbacks, h.modes, h.closing⟩
    · cases hc'
      exact h.modes w c (by rw [hmode]; rfl)
  | @delIoEvent w c fd l hw hmode hfd hl =>
    have hloop : Owned (s.setLoop w l) := h.delIoEvent (EventLoop.ioEvs_delIoEvent? hl)
    refine hloop.setMode (fun c' hc' => ?_) fun c' f hc' hf => ?_
    · cases hc'
      exact h.modes w c (by rw [hmode]; rfl)
    · cases hc'
      cases hfd.symm.trans hf
      rw [loops_setLoop_self, EventLoop.ioEvs_delIoEvent? hl, Function.update_self]
  | close hw hmode hfd => exact h.close hmode hfd

end Owned

end TcpServer

end Lrlb.Reactor
