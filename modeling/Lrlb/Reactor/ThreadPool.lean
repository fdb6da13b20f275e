import Lrlb.Lib.Run
import Lrlb.Lib.Rotation
import Lrlb.Reactor.EventLoop

/-! `thread_pool`: accepted connections are handed to the threads in turn and tasks to all of
them. A thread deals with its messages in batches, and runs its tasks after a round of events. -/
namespace Lrlb.Reactor
open Lib

/-- `task_msg`. -/
inductive TaskMsg (T : Type) where
  | newConn (connfd : Fd)
  | newTask (task : T)
deriving DecidableEq

/-- A thread of the pool: its message queue, the messages that `deal_task_message` has taken out
and has still to deal with, and the `_ready_tasks` of its loop. `running` are the tasks that
`execute_ready_tasks` has still to run, while it runs. `sent`, `opened` and `ran` are no data of
the program: they record the messages, the connections made and the tasks run. -/
structure PoolThread (T : Type) where
  queue : List (TaskMsg T)
  tasks : List (TaskMsg T)
  readyTasks : List T
  running : Option (List T)
  sent : List (TaskMsg T)
  opened : List Fd
  ran : List T

/-- What the loop of a thread does with its messages and tasks. The queue is a mutex-protected
object, so that `recv` is one step. -/
inductive PoolEvent where
  /-- the eventfd fires, and `deal_task_message` takes the queue -/
  | recv
  /-- `deal_task_message` deals with the next message -/
  | deal
  /-- the events of a round are handled, and `execute_ready_tasks` starts -/
  | execute
  | runTask
  | clear
deriving DecidableEq

def connsOf {T : Type} (msgs : List (TaskMsg T)) : List Fd :=
  msgs.filterMap fun
    | .newConn connfd => some connfd
    | .newTask _ => none

def tasksOf {T : Type} (msgs : List (TaskMsg T)) : List T :=
  msgs.filterMap fun
    | .newConn _ => none
    | .newTask task => some task

section Messages

variable {T : Type} (msgs msgs' : List (TaskMsg T)) (connfd : Fd) (task : T)

@[simp] theorem connsOf_nil : connsOf ([] : List (TaskMsg T)) = [] := rfl

@[simp] theorem tasksOf_nil : tasksOf ([] : List (TaskMsg T)) = [] := rfl

@[simp] theorem connsOf_append : connsOf (msgs ++ msgs') = connsOf msgs ++ connsOf msgs' :=
  List.filterMap_append

@[simp] theorem tasksOf_append : tasksOf (msgs ++ msgs') = tasksOf msgs ++ tasksOf msgs' :=
  List.filterMap_append

@[simp] theorem connsOf_newConn : connsOf (.newConn connfd :: msgs) = connfd :: connsOf msgs := rfl

@[simp] theorem connsOf_newTask : connsOf (.newTask task :: msgs) = connsOf msgs := rfl

@[simp] theorem tasksOf_newConn : tasksOf (.newConn connfd :: msgs) = tasksOf msgs := rfl

@[simp] theorem tasksOf_newTask : tasksOf (.newTask task :: msgs) = task :: tasksOf msgs := rfl

end Messages

namespace PoolThread

variable {T : Type}

def init : PoolThread T := ⟨[], [], [], none, [], [], []⟩

def send (th : PoolThread T) (msg : TaskMsg T) : PoolThread T :=
  { th with queue := th.queue ++ [msg], sent := th.sent ++ [msg] }

/-- A connection is made at once, a task is only added to the loop. -/
def dealWith (th : PoolThread T) (rest : List (TaskMsg T)) : TaskMsg T → PoolThread T
  | .newConn connfd => { th with tasks := rest, opened := th.opened ++ [connfd] }
  | .newTask task => { th with tasks := rest, readyTasks := th.readyTasks ++ [task] }

def step? (th : PoolThread T) : PoolEvent → Option (PoolThread T)
  | .recv =>
    match th.running, th.tasks, th.queue with
    | none, [], msg :: queue => some { th with queue := [], tasks := msg :: queue }
    | _, _, _ => none
  | .deal =>
    match th.running, th.tasks with
    | none, msg :: rest => some (th.dealWith rest msg)
    | _, _ => none
  | .execute =>
    match th.running, th.tasks with
    | none, [] => some { th with running := some th.readyTasks }
    | _, _ => none
  | .runTask =>
    match th.running with
    | some (task :: rest) => some { th with running := some rest, ran := th.ran ++ [task] }
    | _ => none
  | .clear =>
    match th.running with
    | some [] => some { th with readyTasks := [], running := none }
    | _ => none

/-- The tasks of the loop that have not run. -/
def waiting (th : PoolThread T) : List T := th.running.getD th.readyTasks

/-- The messages that have not been dealt with. -/
def undealt (th : PoolThread T) : List (TaskMsg T) := th.tasks ++ th.queue

/-- What an event finds and leaves. -/
inductive Step (th : PoolThread T) : PoolEvent → PoolThread T → Prop
  | recv : th.running = none → th.tasks = [] → th.queue ≠ [] →
    Step th .recv { th with queue := [], tasks := th.queue }
  | deal (msg : TaskMsg T) (rest : List (TaskMsg T)) : th.running = none → th.tasks = msg :: rest →
    Step th .deal (th.dealWith rest msg)
  | execute : th.running = none → th.tasks = [] →
    Step th .execute { th with running := some th.readyTasks }
  | runTask (task : T) (rest : List T) : th.running = some (task :: rest) →
    Step th .runTask { th with running := some rest, ran := th.ran ++ [task] }
  | clear : th.running = some [] → Step th .clear { th with readyTasks := [], running := none }

theorem step?_inv {th th' : PoolThread T} {e : PoolEvent} (h : th.step? e = some th') :
    Step th e th' := by
  cases e with
  | recv =>
    simp only [step?] at h
    split at h
    case h_1 msg queue hrunning htasks hqueue =>
      cases h
      have hne : th.queue ≠ [] := by simp [hqueue]
      have hstep := Step.recv hrunning htasks hne
      rwa [hqueue] at hstep
    case h_2 => cases h
  | deal =>
    simp only [step?] at h
    split at h
    case h_1 msg rest hrunning htasks =>
      cases h
      exact .deal msg rest hrunning htasks
    case h_2 => cases h
  | execute =>
    simp only [step?] at h
    split at h
    case h_1 hrunning htasks =>
      cases h
      exact .execute hrunning htasks
    case h_2 => cases h
  | runTask =>
    simp only [step?] at h
    split at h
    case h_1 task rest hrunning =>
      cases h
      exact .runTask task rest hrunning
    case h_2 => cases h
  | clear =>
    simp only [step?] at h
    split at h
    case h_1 hrunning =>
      cases h
      exact .clear hrunning
    case h_2 => cases h

/-- `dealt` are the messages that the thread has dealt with: a first part of those sent to it,
with its connections made and its tasks run or waiting. -/
structure Delivers (th : PoolThread T) (dealt : List (TaskMsg T)) : Prop where
  sent : dealt ++ th.undealt = th.sent
  opened : th.opened = connsOf dealt
  tasks : th.ran ++ th.waiting = tasksOf dealt

namespace Delivers

variable {th th' : PoolThread T} {dealt : List (TaskMsg T)}

theorem init : Delivers (init : PoolThread T) [] := ⟨rfl, rfl, rfl⟩

theorem send (h : Delivers th dealt) (msg : TaskMsg T) : Delivers (th.send msg) dealt := by
  refine ⟨?_, h.opened, h.tasks⟩
  have hsent := congrArg (· ++ [msg]) h.sent
  simpa [undealt, PoolThread.send] using hsent

theorem step {e : PoolEvent} (h : Delivers th dealt) (hs : Step th e th') :
    ∃ dealt', Delivers th' dealt' := by
  cases hs with
  | recv hrunning htasks hqueue =>
    refine ⟨dealt, ?_, h.opened, h.tasks⟩
    have hsent := h.sent
    rw [undealt, htasks] at hsent
    simpa [undealt] using hsent
  | deal msg rest hrunning htasks =>
    have hsent := h.sent
    have hran := h.tasks
    rw [undealt, htasks] at hsent
    rw [waiting, hrunning] at hran
    refine ⟨dealt ++ [msg], ?_⟩
    cases msg with
    | newConn connfd =>
      constructor
      · simpa [undealt, dealWith] using hsent
      · simp [dealWith, h.opened]
      · simpa [waiting, dealWith, hrunning] using hran
    | newTask task =>
      constructor
      · simpa [undealt, dealWith] using hsent
      · simp [dealWith, h.opened]
      · simp only [Option.getD_none] at hran
        simp [waiting, dealWith, hrunning, ← hran]
  | execute hrunning htasks =>
    refine ⟨dealt, h.sent, h.opened, ?_⟩
    have hran := h.tasks
    rwa [waiting, hrunning] at hran
  | runTask task rest hrunning =>
    refine ⟨dealt, h.sent, h.opened, ?_⟩
    have hran := h.tasks
    rw [waiting, hrunning] at hran
    simpa [waiting] using hran
  | clear hrunning =>
    refine ⟨dealt, h.sent, h.opened, ?_⟩
    have hran := h.tasks
    rw [waiting, hrunning] at hran
    simpa [waiting] using hran

/-- The messages before the task that runs next: the tasks that have run, and connections that
have all been made. -/
theorem next (h : Delivers th dealt) {task : T} {rest : List T}
    (hrunning : th.running = some (task :: rest)) :
    ∃ before after, th.sent = before ++ .newTask task :: after ∧ tasksOf before = th.ran ∧
      connsOf before <+: th.opened := by
  have htasks := h.tasks
  rw [waiting, hrunning, Option.getD_some] at htasks
  obtain ⟨front, back, hdealt, hfront, hback⟩ := List.filterMap_eq_append_iff.mp htasks.symm
  obtain ⟨skipped, msg, after, hsplit, hskipped, hmsg, -⟩ := List.filterMap_eq_cons_iff.mp hback
  have hnone : tasksOf skipped = [] := List.filterMap_eq_nil_iff.mpr hskipped
  obtain rfl : msg = .newTask task := by
    cases msg with
    | newConn connfd => simp at hmsg
    | newTask t => simpa using hmsg
  refine ⟨front ++ skipped, after ++ th.undealt, ?_, ?_, ?_⟩
  · rw [← h.sent, hdealt, hsplit]
    simp
  · rw [tasksOf_append, hnone, List.append_nil]
    exact hfront
  · rw [h.opened, hdealt, hsplit, ← List.append_assoc, connsOf_append (front ++ skipped)]
    exact List.prefix_append _ _

end Delivers

end PoolThread

/-- `sending` is a call of `send_task` with the queue that it serves next. `accepted` and
`broadcasts` are no data of the program: they record the connections handed to the threads and
the tasks of the calls of `send_task` that have returned. -/
structure ThreadPool (T : Type) where
  index : ℕ
  threads : ℕ → PoolThread T
  sending : Option (T × ℕ)
  accepted : List Fd
  broadcasts : List T

inductive PoolAction (T : Type) where
  /-- `do_accept` has got a connection below the limit -/
  | accept (connfd : Fd)
  /-- a call of `send_task`, when none is under way -/
  | sendTask (task : T)
  /-- the next round of the loop of `send_task` -/
  | send
  | thread (w : ℕ) (e : PoolEvent)

namespace ThreadPool

variable {T : Type}

def init : ThreadPool T := ⟨0, fun _ => .init, none, [], []⟩

def setThread (p : ThreadPool T) (w : ℕ) (th : PoolThread T) : ThreadPool T :=
  { p with threads := Function.update p.threads w th }

theorem threads_setThread_self (p : ThreadPool T) (w : ℕ) (th : PoolThread T) :
    (p.setThread w th).threads w = th := Function.update_self ..

@[simp] theorem accepted_setThread (p : ThreadPool T) (w : ℕ) (th : PoolThread T) :
    (p.setThread w th).accepted = p.accepted := rfl

@[simp] theorem broadcasts_setThread (p : ThreadPool T) (w : ℕ) (th : PoolThread T) :
    (p.setThread w th).broadcasts = p.broadcasts := rfl

theorem threads_setThread_ne (p : ThreadPool T) {v w : ℕ} (h : v ≠ w) (th : PoolThread T) :
    (p.setThread w th).threads v = p.threads v := Function.update_of_ne h ..

/-- The thread to hand a connection to, with the index after it. -/
def getThread (threadCnt : ℕ) (p : ThreadPool T) : ℕ × ℕ :=
  let i := if p.index = threadCnt then 0 else p.index
  (i, i + 1)

def accept (threadCnt : ℕ) (p : ThreadPool T) (connfd : Fd) : ThreadPool T :=
  let (w, index) := p.getThread threadCnt
  { p.setThread w ((p.threads w).send (.newConn connfd)) with
    index := index
    accepted := p.accepted ++ [connfd] }

def send (threadCnt : ℕ) (p : ThreadPool T) (task : T) (i : ℕ) : ThreadPool T :=
  if i < threadCnt then
    { p.setThread i ((p.threads i).send (.newTask task)) with sending := some (task, i + 1) }
  else { p with sending := none, broadcasts := p.broadcasts ++ [task] }

def step? (threadCnt : ℕ) (p : ThreadPool T) : PoolAction T → Option (ThreadPool T)
  | .accept connfd => if 0 < threadCnt then some (p.accept threadCnt connfd) else none
  | .sendTask task => if p.sending.isNone then some { p with sending := some (task, 0) } else none
  | .send => p.sending.map fun (task, i) => p.send threadCnt task i
  | .thread w e =>
    if w < threadCnt then ((p.threads w).step? e).map (p.setThread w) else none

/-- The tasks sent to a thread: those of the finished calls, and that of the call that has gone
past it. -/
def sentTasksTo (p : ThreadPool T) (w : ℕ) : List T :=
  p.broadcasts ++ match p.sending with
    | some (task, i) => if w < i then [task] else []
    | none => []

/-- The connections have been dealt to the threads in turn, the tasks to all. -/
structure Inv (threadCnt : ℕ) (p : ThreadPool T) : Prop where
  index_le : p.index ≤ threadCnt
  turn : p.index % threadCnt = p.accepted.length % threadCnt
  conns : ∀ w < threadCnt, connsOf (p.threads w).sent = dealtTo threadCnt w p.accepted
  tasks : ∀ w < threadCnt, tasksOf (p.threads w).sent = p.sentTasksTo w
  delivers : ∀ w < threadCnt, ∃ dealt, (p.threads w).Delivers dealt

namespace Inv

variable {threadCnt w : ℕ} {p p' : ThreadPool T}

theorem init : Inv threadCnt (init : ThreadPool T) :=
  ⟨Nat.zero_le _, rfl, fun _ _ => rfl, fun _ _ => rfl, fun _ _ => ⟨[], .init⟩⟩

theorem delivers_setThread (h : Inv threadCnt p) {th : PoolThread T}
    (hth : ∃ dealt, th.Delivers dealt) {v : ℕ} (hv : v < threadCnt) :
    ∃ dealt, ((p.setThread w th).threads v).Delivers dealt := by
  by_cases hvw : v = w
  · subst hvw
    rwa [threads_setThread_self]
  · rw [threads_setThread_ne p hvw]
    exact h.delivers v hv

/-- The index goes through the threads in turn. -/
theorem getThread_eq (h : Inv threadCnt p) :
    (p.getThread threadCnt).1 = p.accepted.length % threadCnt := by
  have hle := h.index_le
  have hturn := h.turn
  unfold getThread
  by_cases hend : p.index = threadCnt
  · rw [if_pos hend, ← hturn, hend, Nat.mod_self]
  · rw [if_neg hend, ← hturn, Nat.mod_eq_of_lt (by omega)]

theorem accept (h : Inv threadCnt p) (hpos : 0 < threadCnt) (connfd : Fd) :
    Inv threadCnt (p.accept threadCnt connfd) := by
  have hthread := h.getThread_eq
  have hlt : (p.getThread threadCnt).1 < threadCnt := hthread ▸ Nat.mod_lt _ hpos
  have hsucc : (p.getThread threadCnt).2 = (p.getThread threadCnt).1 + 1 := rfl
  refine ⟨?_, ?_, ?_, ?_, ?_⟩
  · simpa [ThreadPool.accept, hsucc] using hlt
  · simp only [ThreadPool.accept, hsucc, hthread, List.length_append, List.length_singleton,
      Nat.mod_add_mod]
  · intro v hv
    simp only [ThreadPool.accept, dealtTo_concat, ← hthread]
    by_cases hvw : v = (p.getThread threadCnt).1
    · rw [if_pos hvw.symm, hvw, threads_setThread_self, ← h.conns _ hlt]
      simp [PoolThread.send]
    · rw [if_neg (Ne.symm hvw), threads_setThread_ne p hvw, List.append_nil]
      exact h.conns v hv
  · intro v hv
    rw [show (p.accept threadCnt connfd).sentTasksTo v = p.sentTasksTo v from rfl, ← h.tasks v hv]
    simp only [ThreadPool.accept]
    by_cases hvw : v = (p.getThread threadCnt).1
    · rw [hvw, threads_setThread_self]
      simp [PoolThread.send]
    · rw [threads_setThread_ne p hvw]
  · intro v hv
    obtain ⟨dealt, hdealt⟩ := h.delivers _ hlt
    exact h.delivers_setThread ⟨dealt, hdealt.send _⟩ hv

theorem send {task : T} {i : ℕ} (h : Inv threadCnt p) (hsending : p.sending = some (task, i)) :
    Inv threadCnt (p.send threadCnt task i) := by
  unfold ThreadPool.send
  split_ifs with hi
  · refine ⟨h.index_le, h.turn, ?_, ?_, ?_⟩
    · intro v hv
      by_cases hvi : v = i
      · subst hvi
        simp [threads_setThread_self, PoolThread.send, h.conns v hv]
      · simp [threads_setThread_ne p hvi, h.conns v hv]
    · intro v hv
      have htasks := h.tasks v hv
      simp only [sentTasksTo, hsending] at htasks
      simp only [sentTasksTo]
      by_cases hvi : v = i
      · subst hvi
        rw [if_neg (Nat.lt_irrefl v), List.append_nil] at htasks
        simp [threads_setThread_self, PoolThread.send, htasks]
      · have hiff : v < i + 1 ↔ v < i := by omega
        simp only [threads_setThread_ne p hvi, broadcasts_setThread, htasks, hiff]
    · intro v hv
      obtain ⟨dealt, hdealt⟩ := h.delivers i hi
      exact h.delivers_setThread ⟨dealt, hdealt.send _⟩ hv
  · refine ⟨h.index_le, h.turn, h.conns, ?_, h.delivers⟩
    intro v hv
    have htasks := h.tasks v hv
    simp only [sentTasksTo, hsending, if_pos (show v < i by omega)] at htasks
    simpa [sentTasksTo] using htasks

theorem thread {e : PoolEvent} {th : PoolThread T} (h : Inv threadCnt p) (hw : w < threadCnt)
    (hs : PoolThread.Step (p.threads w) e th) : Inv threadCnt (p.setThread w th) := by
  have hsent : th.sent = (p.threads w).sent := by
    cases hs with
    | deal msg rest hrunning htasks => cases msg <;> rfl
    | _ => rfl
  have hkeep (v : ℕ) : ((p.setThread w th).threads v).sent = (p.threads v).sent := by
    by_cases hvw : v = w
    · subst hvw
      rw [threads_setThread_self, hsent]
    · rw [threads_setThread_ne p hvw]
  refine ⟨h.index_le, h.turn, ?_, ?_, ?_⟩
  · intro v hv
    rw [hkeep]
    exact h.conns v hv
  · intro v hv
    rw [hkeep]
    exact h.tasks v hv
  · intro v hv
    obtain ⟨dealt, hdealt⟩ := h.delivers w hw
    exact h.delivers_setThread (hdealt.step hs) hv

theorem step {a : PoolAction T} (h : Inv threadCnt p) (hs : p.step? threadCnt a = some p') :
    Inv threadCnt p' := by
  cases a with
  | accept connfd =>
    obtain ⟨hpos, hs⟩ := Option.ite_none_right_eq_some.mp hs
    cases hs
    exact h.accept hpos connfd
  | sendTask task =>
    obtain ⟨hidle, hs⟩ := Option.ite_none_right_eq_some.mp hs
    cases hs
    rw [Option.isNone_iff_eq_none] at hidle
    refine ⟨h.index_le, h.turn, h.conns, ?_, h.delivers⟩
    intro v hv
    have htasks := h.tasks v hv
    simp only [sentTasksTo, hidle] at htasks
    simpa [sentTasksTo] using htasks
  | send =>
    obtain ⟨⟨task, i⟩, hsending, rfl⟩ := Option.map_eq_some_iff.mp hs
    exact h.send hsending
  | thread w e =>
    obtain ⟨hw, hs⟩ := Option.ite_none_right_eq_some.mp hs
    obtain ⟨th, hstep, rfl⟩ := Option.map_eq_some_iff.mp hs
    exact h.thread hw (PoolThread.step?_inv hstep)

end Inv

/-- In every interleaving the messages of a thread are dealt with once and in order. It makes the
connections that come to it in turn, so that no thread gets two more than another, and it runs
the tasks of all calls of `send_task` in their order. When a task runs, all connections that were
handed to the thread before it have been made. -/
theorem pool_delivers (threadCnt : ℕ) {as : List (PoolAction T)} {p : ThreadPool T}
    (hrun : run? (step? threadCnt) init as = some p) {w : ℕ} (hw : w < threadCnt) :
    (p.threads w).opened ++ connsOf (p.threads w).undealt = dealtTo threadCnt w p.accepted ∧
    (p.threads w).ran ++ (p.threads w).waiting ++ tasksOf (p.threads w).undealt =
      p.sentTasksTo w ∧
    (∀ v < threadCnt, (connsOf (p.threads w).sent).length ≤
      (connsOf (p.threads v).sent).length + 1) ∧
    ∀ task rest, (p.threads w).running = some (task :: rest) →
      ∃ before after, (p.threads w).sent = before ++ .newTask task :: after ∧
        tasksOf before = (p.threads w).ran ∧ connsOf before <+: (p.threads w).opened := by
  have hinv : Inv threadCnt p :=
    Reachable.invariant (P := Inv threadCnt) (fun _ _ _ h hs => h.step hs) Inv.init ⟨as, hrun⟩
  obtain ⟨dealt, hdealt⟩ := hinv.delivers w hw
  refine ⟨?_, ?_, ?_, fun task rest => hdealt.next⟩
  · rw [hdealt.opened, ← connsOf_append, hdealt.sent]
    exact hinv.conns w hw
  · rw [hdealt.tasks, ← tasksOf_append, hdealt.sent]
    exact hinv.tasks w hw
  · intro v hv
    rw [hinv.conns w hw, hinv.conns v hv]
    exact length_dealtTo_le hw hv p.accepted

/-- Three connections for two threads. A task comes between the first and the third connection of
thread 0, which makes both before it runs the task. -/
def lateConnRun : List (PoolAction ℕ) :=
  [.accept 5, .accept 6, .sendTask 1, .send, .accept 7, .thread 0 .recv, .send, .thread 0 .deal,
    .thread 0 .deal, .send, .thread 0 .deal, .thread 0 .execute]

theorem pool_delivers_lateConnRun :
    ∃ p : ThreadPool ℕ, run? (step? 2) init lateConnRun = some p ∧
      (p.threads 0).opened = [5, 7] ∧ (p.threads 0).running = some [1] ∧
      ∃ before after, (p.threads 0).sent = before ++ .newTask 1 :: after ∧
        tasksOf before = (p.threads 0).ran ∧ connsOf before <+: (p.threads 0).opened := by
  have hrun : (run? (step? 2) init lateConnRun).isSome = true := by decide
  obtain ⟨p, hp⟩ := Option.isSome_iff_exists.mp hrun
  have hopened : (run? (step? 2) init lateConnRun).map (fun p => (p.threads 0).opened) =
      some [5, 7] := by decide
  have hrunning : (run? (step? 2) init lateConnRun).map (fun p => (p.threads 0).running) =
      some (some [1]) := by decide
  rw [hp] at hopened hrunning
  refine ⟨p, hp, Option.some.inj hopened, Option.some.inj hrunning, ?_⟩
  exact (pool_delivers 2 hp Nat.two_pos).2.2.2 1 [] (Option.some.inj hrunning)

end ThreadPool

end Lrlb.Reactor
