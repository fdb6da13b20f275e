import Lrlb.Lib.Run

/-! `thread_queue`: tasks under a mutex, and an eventfd that wakes the loop that takes them out. -/
namespace Lrlb.Reactor
open Lib

/-- The largest value that the kernel lets the counter of an eventfd reach. -/
def eventfdMax : ℕ := 2 ^ 64 - 2

/-- A non-blocking `write` of `n` to an eventfd; `none` is `EAGAIN`. -/
def eventfdWrite? (counter n : ℕ) : Option ℕ :=
  if counter + n ≤ eventfdMax then some (counter + n) else none

/-- The counter after a non-blocking `read` of an eventfd; `none` is `EAGAIN`. -/
def eventfdRead? (counter : ℕ) : Option ℕ := if counter = 0 then none else some 0

/-- The most elements that a `std::queue` can hold. -/
def queueMax : ℕ := 2 ^ 63 - 1

/-- What the thread that holds `_queue_mutex` does next. -/
inductive Phase (T : Type) where
  | push (task : T)
  | write
  | read (newQueue : List T)
  | swap (newQueue : List T)
  | unlock

/-- `received` is no data of the program: it records the batches that `recv` has handed out. -/
structure ThreadQueue (T : Type) where
  queue : List T
  evfd : ℕ
  mutex : Option (ℕ × Phase T)
  received : List (List T)

/-- A thread gets the mutex on entry to `send` or `recv`, or it goes on inside the call. -/
inductive QueueAction (T : Type) where
  | send (thread : ℕ) (task : T)
  | recv (thread : ℕ) (newQueue : List T)
  | resume (thread : ℕ)

namespace ThreadQueue

variable {T : Type}

def init : ThreadQueue T := ⟨[], 0, none, []⟩

/-- A failed `write` or `read` is only reported. `none` is the exception of a full queue. -/
def advance? (q : ThreadQueue T) (thread : ℕ) : Phase T → Option (ThreadQueue T)
  | .push task =>
    if q.queue.length < queueMax then
      some { q with queue := q.queue ++ [task], mutex := some (thread, .write) }
    else none
  | .write =>
    some { q with evfd := (eventfdWrite? q.evfd 1).getD q.evfd, mutex := some (thread, .unlock) }
  | .read newQueue =>
    some { q with evfd := (eventfdRead? q.evfd).getD q.evfd, mutex := some (thread, .swap newQueue) }
  | .swap newQueue =>
    some { q with queue := newQueue, received := q.received ++ [q.queue],
                  mutex := some (thread, .unlock) }
  | .unlock => some { q with mutex := none }

def step? (q : ThreadQueue T) : QueueAction T → Option (ThreadQueue T)
  | .send thread task =>
    if q.mutex.isNone then some { q with mutex := some (thread, .push task) } else none
  | .recv thread newQueue =>
    if q.mutex.isNone then some { q with mutex := some (thread, .read newQueue) } else none
  | .resume thread =>
    match q.mutex with
    | none => none
    | some (holder, phase) => if holder = thread then q.advance? thread phase else none

/-- `EPOLLIN` on the eventfd, for a loop that is level-triggered. -/
def Wakes (q : ThreadQueue T) : Prop := 0 < q.evfd

/-- The task of a call of `send` that has the mutex and has not pushed it yet. -/
def entering (q : ThreadQueue T) : List T :=
  match q.mutex with
  | some (_, .push task) => [task]
  | _ => []

/-- How the counter and the queue stand to each other while the mutex is held. -/
def InStep (q : ThreadQueue T) : Prop :=
  match q.mutex with
  | some (_, .write) => q.evfd + 1 = q.queue.length
  | some (_, .swap newQueue) => q.evfd = 0 ∧ newQueue = []
  | some (_, .read newQueue) => q.evfd = q.queue.length ∧ newQueue = []
  | _ => q.evfd = q.queue.length

end ThreadQueue

/-- The tasks of the calls of `send`, in the order in which they got the mutex. -/
def sentTasks {T : Type} (as : List (QueueAction T)) : List T :=
  as.filterMap fun
    | .send _ task => some task
    | _ => none

/-- `deal_task_message` calls `recv` with a new queue. -/
def QueueAction.TakesAll {T : Type} : QueueAction T → Prop
  | .recv _ newQueue => newQueue = []
  | _ => True

namespace ThreadQueue

variable {T : Type} {q q' : ThreadQueue T}

/-- What holds after the calls `as`: the tasks are accounted for and the counter is in step. -/
structure Accounts (as : List (QueueAction T)) (q : ThreadQueue T) : Prop where
  tasks : q.received.flatten ++ q.queue ++ q.entering = sentTasks as
  small : q.queue.length ≤ queueMax
  inStep : q.InStep

theorem Accounts.init : Accounts [] (ThreadQueue.init : ThreadQueue T) :=
  ⟨rfl, Nat.zero_le _, rfl⟩

theorem getD_eventfdRead? (counter : ℕ) : (eventfdRead? counter).getD counter = 0 := by
  unfold eventfdRead?
  split_ifs with h
  · exact h
  · rfl

theorem getD_eventfdWrite? {counter : ℕ} (h : counter + 1 ≤ queueMax) :
    (eventfdWrite? counter 1).getD counter = counter + 1 := by
  have hmax : queueMax ≤ eventfdMax := by decide
  rw [eventfdWrite?, if_pos (h.trans hmax)]
  rfl

theorem Accounts.advance {as : List (QueueAction T)} (h : Accounts as q) {thread : ℕ}
    {phase : Phase T} (hm : q.mutex = some (thread, phase))
    (hq : q.advance? thread phase = some q') : Accounts as q' := by
  obtain ⟨htasks, hsmall, hstep⟩ := h
  rw [entering, hm] at htasks
  rw [InStep, hm] at hstep
  cases phase with
  | push task =>
    obtain ⟨hroom, hq⟩ := Option.ite_none_right_eq_some.mp hq
    cases hq
    refine ⟨?_, ?_, ?_⟩
    · simpa [entering] using htasks
    · simpa using hroom
    · simpa [InStep] using hstep
  | write =>
    cases hq
    have hwrite : (eventfdWrite? q.evfd 1).getD q.evfd = q.evfd + 1 :=
      getD_eventfdWrite? (hstep.trans_le hsmall)
    exact ⟨htasks, hsmall, hwrite.trans hstep⟩
  | read newQueue =>
    cases hq
    exact ⟨htasks, hsmall, getD_eventfdRead? q.evfd, hstep.2⟩
  | swap newQueue =>
    cases hq
    obtain ⟨hzero, rfl⟩ := hstep
    refine ⟨?_, Nat.zero_le _, hzero⟩
    simpa [entering] using htasks
  | unlock =>
    cases hq
    exact ⟨htasks, hsmall, hstep⟩

theorem sentTasks_append (as : List (QueueAction T)) (a : QueueAction T) :
    sentTasks (as ++ [a]) = sentTasks as ++ sentTasks [a] := List.filterMap_append ..

theorem Accounts.step {as : List (QueueAction T)} (h : Accounts as q) {a : QueueAction T}
    (ha : a.TakesAll) (hq : q.step? a = some q') : Accounts (as ++ [a]) q' := by
  cases a with
  | send thread task =>
    obtain ⟨hfree, hq⟩ := Option.ite_none_right_eq_some.mp hq
    cases hq
    obtain ⟨htasks, hsmall, hstep⟩ := h
    rw [Option.isNone_iff_eq_none] at hfree
    rw [entering, hfree] at htasks
    rw [InStep, hfree] at hstep
    refine ⟨?_, hsmall, hstep⟩
    rw [sentTasks_append, ← htasks]
    simp [entering, sentTasks]
  | recv thread newQueue =>
    obtain ⟨hfree, hq⟩ := Option.ite_none_right_eq_some.mp hq
    cases hq
    obtain ⟨htasks, hsmall, hstep⟩ := h
    rw [Option.isNone_iff_eq_none] at hfree
    rw [entering, hfree] at htasks
    rw [InStep, hfree] at hstep
    refine ⟨?_, hsmall, hstep, ha⟩
    rw [sentTasks_append, ← htasks]
    simp [entering, sentTasks]
  | resume thread =>
    have hsent : sentTasks (as ++ [.resume thread]) = sentTasks as := by
      rw [sentTasks_append]
      exact List.append_nil _
    unfold step? at hq
    cases hm : q.mutex with
    | none => simp [hm] at hq
    | some holder =>
      obtain ⟨holder, phase⟩ := holder
      rw [hm] at hq
      obtain ⟨rfl, hq⟩ := Option.ite_none_right_eq_some.mp hq
      obtain ⟨htasks, hsmall, hstep⟩ := h.advance hm hq
      exact ⟨htasks.trans hsent.symm, hsmall, hstep⟩

/-- The counter lags behind the queue only inside a call of `send` or `recv`. -/
theorem InStep.wakes (h : q.InStep) (hne : q.queue ≠ []) :
    q.Wakes ∨ ∃ thread, q.mutex = some (thread, .write) ∨ q.mutex = some (thread, .swap []) := by
  have hpos := List.length_pos_iff.mpr hne
  unfold InStep at h
  unfold Wakes
  split at h
  case h_1 thread hm => exact Or.inr ⟨thread, Or.inl hm⟩
  case h_2 thread newQueue hm => exact Or.inr ⟨thread, Or.inr (h.2 ▸ hm)⟩
  case h_3 => exact Or.inl (h.1 ▸ hpos)
  case h_4 => exact Or.inl (h ▸ hpos)

/-- Every task is in a batch, in the queue or about to be pushed, in the order of the mutex. While
nobody is inside a call, the counter is the number of queued tasks, so that the loop is woken
again until the queue is empty. -/
theorem tasks_delivered_in_order (as : List (QueueAction T)) (has : ∀ a ∈ as, a.TakesAll)
    (hq : run? step? init as = some q) :
    q.received.flatten ++ q.queue ++ q.entering = sentTasks as ∧
      (q.mutex = none → q.evfd = q.queue.length) ∧
      (q.queue ≠ [] → q.Wakes ∨
        ∃ thread, q.mutex = some (thread, .write) ∨ q.mutex = some (thread, .swap [])) := by
  have h : Accounts as q :=
    run?_history (P := Accounts) (fun _ _ _ _ h ha hstep => h.step ha hstep) Accounts.init has hq
  refine ⟨h.tasks, fun hfree => ?_, h.inStep.wakes⟩
  have hstep := h.inStep
  rwa [InStep, hfree] at hstep

/-- Two threads send, the loop drains, and a third task arrives. -/
def burst : List (QueueAction ℕ) :=
  [.send 1 10, .resume 1, .resume 1, .resume 1, .send 2 20, .resume 2, .resume 2, .resume 2,
    .recv 0 [], .resume 0, .resume 0, .resume 0, .send 1 30, .resume 1, .resume 1, .resume 1]

theorem tasks_delivered_in_order_burst :
    ∃ q, run? step? init burst = some q ∧ q.received = [[10, 20]] ∧ q.queue = [30] ∧
      q.mutex = none ∧
      q.received.flatten ++ q.queue ++ q.entering = sentTasks burst ∧
      (q.mutex = none → q.evfd = q.queue.length) ∧
      (q.queue ≠ [] → q.Wakes ∨
        ∃ thread, q.mutex = some (thread, .write) ∨ q.mutex = some (thread, .swap [])) := by
  refine ⟨⟨[30], 1, none, [[10, 20]]⟩, rfl, rfl, rfl, rfl, ?_⟩
  apply tasks_delivered_in_order burst
  · intro a ha
    fin_cases ha <;> first | exact trivial | rfl
  · rfl

end ThreadQueue

end Lrlb.Reactor
