import Lrlb.Dns.Freshness
import Lrlb.Reactor.ThreadPool

/-! The dns server on its thread pool. The queues, the batches and the ready tasks of the threads
refine a server that only counts the push tasks of a worker. -/
namespace Lrlb.Dns
open Lib Lib.Message
open Proto (GetRouteRequest)
open Reactor (ThreadPool PoolThread PoolEvent TaskMsg connsOf tasksOf connsOf_append tasksOf_append)

/-- The tasks that `publish` sends to the pool. -/
inductive PushTask where
  | pushChangeTask
deriving DecidableEq

/-- The server's own `tasks` and `broadcast` are not used: they stand in the pool. -/
structure PoolServer where
  server : Server
  pool : ThreadPool PushTask

inductive PoolServerAction where
  | accept (fd : Fd)
  | thread (w : ℕ) (e : PoolEvent)
  | getRoute (w : ℕ) (fd : Fd) (data : List UInt8)
  | cleanConn (w : ℕ) (fd : Fd)
  | resume (w : ℕ)
  | swap (rows : List RouteRow)
  | publish (changeMods : List UInt64)
  /-- the next round of the loop of `send_task` -/
  | send

/-- The loop is not inside `deal_task_message` or `execute_ready_tasks`. -/
def betweenCallbacks (th : PoolThread PushTask) : Bool := th.tasks.isEmpty && th.running.isNone

/-- The push tasks of a thread that have not run. -/
def pushTasks (th : PoolThread PushTask) : ℕ := th.waiting.length + (tasksOf th.undealt).length

namespace PoolServer

def init (rows : List RouteRow) : PoolServer := ⟨Server.init rows, .init⟩

/-- The kernel gives a new connection a number that no other has, be it open or in a queue. -/
def Unused (threads : ℕ) (p : PoolServer) (fd : Fd) : Prop :=
  p.server.conns fd = none ∧ ∀ w < threads, fd ∉ connsOf (p.pool.threads w).undealt

instance (threads : ℕ) (p : PoolServer) (fd : Fd) : Decidable (p.Unused threads fd) :=
  inferInstanceAs (Decidable (_ ∧ _))

/-- What a thread's event does to the server's data. -/
def handle (s : Server) (w : ℕ) (th : PoolThread PushTask) : PoolEvent → Server
  | .deal =>
    match th.tasks with
    | .newConn fd :: _ => s.newConn w fd
    | _ => s
  | .runTask => s.pushChangeTask w
  | .recv | .execute | .clear => s

def step? (threads : ℕ) (p : PoolServer) : PoolServerAction → Option PoolServer
  | .accept fd =>
    if p.Unused threads fd then
      (p.pool.step? threads (.accept fd)).map fun pool => { p with pool := pool }
    else none
  | .thread w e =>
    if p.server.mode w = .idle then
      (p.pool.step? threads (.thread w e)).map fun pool =>
        ⟨handle p.server w (p.pool.threads w) e, pool⟩
    else none
  | .getRoute w fd data =>
    if betweenCallbacks (p.pool.threads w) then
      (p.server.ready? w fd).map fun c =>
        { p with server := p.server.getRoute w fd c (parse data).1 }
    else none
  | .cleanConn w fd =>
    if betweenCallbacks (p.pool.threads w) then
      (p.server.ready? w fd).map fun c => { p with server := p.server.cleanConn w fd c }
    else none
  | .resume w =>
    if w < threads then (p.server.resume? w).map fun s => { p with server := s } else none
  | .swap rows =>
    if p.pool.sending.isNone then some { p with server := p.server.swap rows } else none
  | .publish changeMods =>
    if p.server.changed ⊆ changeMods then
      (p.pool.step? threads (.sendTask .pushChangeTask)).map fun pool =>
        ⟨{ p.server.publish changeMods with broadcast := none }, pool⟩
    else none
  | .send => (p.pool.step? threads .send).map fun pool => { p with pool := pool }

end PoolServer

namespace Server

/-- The server with other counts of push tasks and another state of the broadcast. -/
def withTasks (s : Server) (tasks : ℕ → ℕ) (broadcast : Option ℕ) : Server :=
  { s with tasks := tasks, broadcast := broadcast }

variable {s t : Server} {w : ℕ} {fd : Fd}

/-- A callback reads neither the counts nor the broadcast. -/
theorem resume?_withTasks (s : Server) (w : ℕ) (tasks : ℕ → ℕ) (broadcast : Option ℕ) :
    (s.withTasks tasks broadcast).resume? w =
      (s.resume? w).map fun t => t.withTasks tasks broadcast := by
  have hmode : (s.withTasks tasks broadcast).mode w = s.mode w := rfl
  have hconns : (s.withTasks tasks broadcast).conns = s.conns := rfl
  unfold resume?
  rw [hmode]
  cases s.mode w with
  | idle => rfl
  | subscribe fd req =>
    simp only [hconns, Option.map_map]
    congr 1
    funext c
    simp only [Function.comp_apply, subscribe]
    split_ifs <;> rfl
  | getHosts fd req => rfl
  | send fd rsp =>
    simp only [hconns, Option.map_map]
    rfl
  | push needPublish => cases needPublish <;> rfl
  | pushSend fd rsp needPublish =>
    simp only [hconns]
    cases s.conns fd <;> rfl
  | clean fd mods => cases mods <;> rfl

theorem setConn_conns_none {c c' : Conn} (h : s.conns fd = none) {f : Fd}
    (hc : s.conns f = some c) : (s.setConn f (some c')).conns fd = none := by
  have hne : fd ≠ f := by
    rintro rfl
    rw [h] at hc
    cases hc
  rwa [conns_setConn_ne s hne]

/-- No callback opens a connection. -/
theorem resume?_conns_none (hs : s.resume? w = some t) (h : s.conns fd = none) :
    t.conns fd = none := by
  unfold resume? at hs
  cases hm : s.mode w with
  | idle => simp [hm] at hs
  | subscribe f req =>
    rw [hm] at hs
    obtain ⟨c, hc, rfl⟩ := Option.map_eq_some_iff.mp hs
    unfold subscribe
    split_ifs
    · exact h
    · exact setConn_conns_none (s := { s with subs := _ }) h hc
  | getHosts f req =>
    rw [hm] at hs
    cases hs
    exact h
  | send f rsp =>
    rw [hm] at hs
    obtain ⟨c, hc, rfl⟩ := Option.map_eq_some_iff.mp hs
    exact setConn_conns_none h hc
  | push needPublish =>
    rw [hm] at hs
    cases needPublish with
    | nil =>
      cases hs
      exact h
    | cons x needPublish =>
      cases hs
      exact h
  | pushSend f rsp needPublish =>
    simp only [hm] at hs
    cases hc : s.conns f with
    | none =>
      rw [hc] at hs
      cases hs
      exact h
    | some c =>
      rw [hc] at hs
      cases hs
      exact setConn_conns_none h hc
  | clean f mods =>
    rw [hm] at hs
    cases mods with
    | nil =>
      cases hs
      by_cases hf : fd = f
      · subst hf
        exact conns_setConn_self ..
      · exact (conns_setConn_ne s hf none).trans h
    | cons mod mods =>
      cases hs
      exact h

end Server

section Thread

variable {th th' : PoolThread PushTask} {e : PoolEvent}

/-- Only a run of a task lowers their number. -/
theorem pushTasks_step (hs : PoolThread.Step th e th') :
    pushTasks th = pushTasks th' + if e = .runTask then 1 else 0 := by
  unfold pushTasks PoolThread.waiting PoolThread.undealt
  cases hs with
  | recv hrunning htasks hqueue => simp [htasks]
  | deal msg rest hrunning htasks =>
    cases msg with
    | newConn fd => simp [PoolThread.dealWith, htasks]
    | newTask task =>
      simp [PoolThread.dealWith, htasks, hrunning]
      omega
  | execute hrunning htasks => simp [hrunning]
  | runTask task rest hrunning =>
    simp [hrunning]
    omega
  | clear hrunning => simp [hrunning]

/-- The connections that stay in the queue and the batch. -/
theorem connsOf_undealt_step (hs : PoolThread.Step th e th') :
    connsOf th'.undealt <:+ connsOf th.undealt := by
  unfold PoolThread.undealt
  cases hs with
  | recv hrunning htasks hqueue => simp [htasks]
  | deal msg rest hrunning htasks =>
    cases msg with
    | newConn fd => simp [PoolThread.dealWith, htasks]
    | newTask task => simp [PoolThread.dealWith, htasks]
  | execute hrunning htasks => exact List.suffix_rfl
  | runTask task rest hrunning => exact List.suffix_rfl
  | clear hrunning => exact List.suffix_rfl

end Thread

/-- The push tasks of each thread that have not run. -/
def taskCounts (pool : ThreadPool PushTask) (w : ℕ) : ℕ := pushTasks (pool.threads w)

section Send

variable (th : PoolThread PushTask) (fd : Fd) (task : PushTask)

@[simp] theorem pushTasks_send_newConn : pushTasks (th.send (.newConn fd)) = pushTasks th := by
  simp [pushTasks, PoolThread.send, PoolThread.waiting, PoolThread.undealt]

@[simp] theorem pushTasks_send_newTask :
    pushTasks (th.send (.newTask task)) = pushTasks th + 1 := by
  simp [pushTasks, PoolThread.send, PoolThread.waiting, PoolThread.undealt]
  omega

@[simp] theorem connsOf_send_newConn :
    connsOf (th.send (.newConn fd)).undealt = connsOf th.undealt ++ [fd] := by
  simp [PoolThread.send, PoolThread.undealt]

@[simp] theorem connsOf_send_newTask :
    connsOf (th.send (.newTask task)).undealt = connsOf th.undealt := by
  simp [PoolThread.send, PoolThread.undealt]

theorem taskCounts_setThread (pool : ThreadPool PushTask) (w : ℕ) :
    taskCounts (pool.setThread w th) = Function.update (taskCounts pool) w (pushTasks th) :=
  Function.comp_update pushTasks pool.threads w th

end Send

namespace PoolServer

/-- The server that counts the push tasks of each thread. -/
def abs (p : PoolServer) : Server :=
  p.server.withTasks (taskCounts p.pool) (p.pool.sending.map Prod.snd)

/-- A number that stands in a queue or a batch stands there once, and is not open. -/
structure Inv (threads : ℕ) (p : PoolServer) : Prop where
  closed : ∀ w < threads, ∀ fd ∈ connsOf (p.pool.threads w).undealt, p.server.conns fd = none
  once : ∀ w < threads, (connsOf (p.pool.threads w).undealt).Nodup
  apart : ∀ w < threads, ∀ v < threads, v ≠ w → ∀ fd ∈ connsOf (p.pool.threads w).undealt,
    fd ∉ connsOf (p.pool.threads v).undealt

variable {threads w : ℕ} {p p' : PoolServer} {fd : Fd}

namespace Inv

theorem init (rows : List RouteRow) : Inv threads (PoolServer.init rows) :=
  ⟨fun _ _ _ _ => rfl, fun _ _ => List.nodup_nil, fun _ _ _ _ _ _ h => absurd h List.not_mem_nil⟩

/-- Connections leave the queues and the batches, and those that stay are not opened. -/
theorem of_sublist (h : Inv threads p)
    (hsub : ∀ v < threads, (connsOf (p'.pool.threads v).undealt).Sublist
      (connsOf (p.pool.threads v).undealt))
    (hclosed : ∀ v < threads, ∀ fd ∈ connsOf (p'.pool.threads v).undealt,
      p.server.conns fd = none → p'.server.conns fd = none) : Inv threads p' := by
  constructor
  · intro v hv fd hfd
    exact hclosed v hv fd hfd (h.closed v hv fd ((hsub v hv).subset hfd))
  · intro v hv
    exact (h.once v hv).sublist (hsub v hv)
  · intro v hv u hu hne fd hfd hmem
    exact h.apart v hv u hu hne fd ((hsub v hv).subset hfd) ((hsub u hu).subset hmem)

/-- A step of the server's own that opens no connection. -/
theorem of_server (h : Inv threads p) {s : Server}
    (hnone : ∀ fd, p.server.conns fd = none → s.conns fd = none) :
    Inv threads { p with server := s } :=
  h.of_sublist (fun _ _ => List.Sublist.refl _) fun _ _ fd _ => hnone fd

theorem accept (h : Inv threads p) (hfree : p.Unused threads fd) :
    Inv threads { p with pool := p.pool.accept threads fd } := by
  obtain ⟨hnone, hunused⟩ := hfree
  have hthread (v : ℕ) : connsOf ((p.pool.accept threads fd).threads v).undealt =
      connsOf (p.pool.threads v).undealt ++
        if v = (p.pool.getThread threads).1 then [fd] else [] := by
    simp only [ThreadPool.accept]
    by_cases hv : v = (p.pool.getThread threads).1
    · rw [if_pos hv, hv, ThreadPool.threads_setThread_self, connsOf_send_newConn]
    · rw [if_neg hv, ThreadPool.threads_setThread_ne _ hv, List.append_nil]
  have hmem (v : ℕ) {f : Fd} (hf : f ∈ connsOf ((p.pool.accept threads fd).threads v).undealt) :
      f ∈ connsOf (p.pool.threads v).undealt ∨ f = fd ∧ v = (p.pool.getThread threads).1 := by
    rw [hthread, List.mem_append] at hf
    refine hf.imp_right fun hf => ?_
    split_ifs at hf with hv
    · exact ⟨List.mem_singleton.mp hf, hv⟩
    · cases hf
  constructor
  · intro v hv f hf
    obtain hf | ⟨rfl, -⟩ := hmem v hf
    · exact h.closed v hv f hf
    · exact hnone
  · intro v hv
    dsimp only
    rw [hthread]
    split_ifs
    · exact List.nodup_append.mpr ⟨h.once v hv, List.nodup_singleton fd, fun a ha b hb hab =>
        hunused v hv (List.mem_singleton.mp hb ▸ hab ▸ ha)⟩
    · rw [List.append_nil]
      exact h.once v hv
  · intro v hv u hu hne f hf hfu
    obtain hold | ⟨rfl, hvw⟩ := hmem v hf
    · obtain holdu | ⟨rfl, -⟩ := hmem u hfu
      · exact h.apart v hv u hu hne f hold holdu
      · exact hunused v hv hold
    · obtain holdu | ⟨-, huw⟩ := hmem u hfu
      · exact hunused u hu holdu
      · exact hne (huw.trans hvw.symm)

theorem connsOf_setThread {th : PoolThread PushTask}
    (hsub : (connsOf th.undealt).Sublist (connsOf (p.pool.threads w).undealt)) (v : ℕ) :
    (connsOf ((p.pool.setThread w th).threads v).undealt).Sublist
      (connsOf (p.pool.threads v).undealt) := by
  by_cases hv : v = w
  · subst hv
    rwa [ThreadPool.threads_setThread_self]
  · rw [ThreadPool.threads_setThread_ne _ hv]

theorem send (h : Inv threads p) (task : PushTask) (i : ℕ) :
    Inv threads { p with pool := p.pool.send threads task i } := by
  refine h.of_sublist (fun v _ => ?_) fun _ _ _ _ => id
  unfold ThreadPool.send
  split_ifs
  · exact connsOf_setThread (by rw [connsOf_send_newTask]) v
  · exact List.Sublist.refl _

/-- A connection is made under a number that no other connection has. -/
theorem thread {e : PoolEvent} {th : PoolThread PushTask} (h : Inv threads p) (hw : w < threads)
    (hs : PoolThread.Step (p.pool.threads w) e th) :
    Inv threads ⟨handle p.server w (p.pool.threads w) e, p.pool.setThread w th⟩ := by
  have hsub := connsOf_setThread (connsOf_undealt_step hs).sublist
  refine h.of_sublist (fun v _ => hsub v) ?_
  intro v hv fd hfd hnone
  dsimp only at hfd ⊢
  cases hs with
  | deal msg rest hrunning htasks =>
    cases msg with
    | newTask task => simpa [handle, htasks] using hnone
    | newConn f =>
      have hhead : connsOf (p.pool.threads w).undealt =
          f :: connsOf (rest ++ (p.pool.threads w).queue) := by
        simp [PoolThread.undealt, htasks]
      have hne : fd ≠ f := by
        rintro rfl
        by_cases hvw : v = w
        · subst hvw
          rw [ThreadPool.threads_setThread_self] at hfd
          have honce := h.once v hv
          rw [hhead] at honce
          exact (List.nodup_cons.mp honce).1 hfd
        · rw [ThreadPool.threads_setThread_ne _ hvw] at hfd
          exact h.apart v hv w hw (Ne.symm hvw) fd hfd (by simp [hhead])
      simpa [handle, htasks, Server.newConn, Server.conns_setConn_ne _ hne] using hnone
  | _ => exact hnone

end Inv

theorem abs_pool (pool : ThreadPool PushTask) (s : Server) :
    abs ⟨s, pool⟩ = s.withTasks (taskCounts pool) (pool.sending.map Prod.snd) := rfl

theorem abs_setThread (pool : ThreadPool PushTask) (s : Server) (w : ℕ)
    (th : PoolThread PushTask) :
    abs ⟨s, pool.setThread w th⟩ = s.withTasks (Function.update (taskCounts pool) w (pushTasks th))
      (pool.sending.map Prod.snd) := by
  rw [← taskCounts_setThread]
  rfl

/-- The message of a new connection is no push task. -/
theorem abs_accept (p : PoolServer) (fd : Fd) :
    abs { p with pool := p.pool.accept threads fd } = p.abs := by
  have hcounts : taskCounts (p.pool.accept threads fd) = taskCounts p.pool := by
    change taskCounts (p.pool.setThread _ _) = _
    rw [taskCounts_setThread, pushTasks_send_newConn]
    exact Function.update_eq_self _ _
  rw [abs_pool, hcounts]
  rfl

theorem abs_send {task : PushTask} {i : ℕ} (hsending : p.pool.sending = some (task, i)) :
    Server.step threads p.abs .sendTask =
      some (abs { p with pool := p.pool.send threads task i }) := by
  have hbroadcast : p.abs.broadcast = some i := by
    change p.pool.sending.map Prod.snd = some i
    rw [hsending]
    rfl
  rw [Server.step, hbroadcast, Option.map_some, Server.sendTask, ThreadPool.send, abs_pool]
  split_ifs with hi
  · change _ = some (p.server.withTasks (taskCounts (p.pool.setThread i _)) _)
    rw [taskCounts_setThread, pushTasks_send_newTask]
    rfl
  · rfl

/-- What a thread's event is to the server that counts. -/
theorem abs_thread {e : PoolEvent} {th : PoolThread PushTask} (h : Inv threads p)
    (hw : w < threads) (hidle : p.server.mode w = .idle)
    (hs : PoolThread.Step (p.pool.threads w) e th) :
    Reachable (Server.step threads) p.abs
      (abs ⟨handle p.server w (p.pool.threads w) e, p.pool.setThread w th⟩) := by
  have hcount := pushTasks_step hs
  rw [abs_setThread]
  by_cases hrun : e = .runTask
  · subst hrun
    rw [if_pos rfl] at hcount
    have hpos : 0 < p.abs.tasks w := by
      change 0 < pushTasks (p.pool.threads w)
      omega
    have hpush : Server.step threads p.abs (.pushChangeTask w) =
        some (p.abs.pushChangeTask w) := if_pos ⟨hw, hidle, hpos⟩
    have habs : p.abs.pushChangeTask w = (p.server.pushChangeTask w).withTasks
        (Function.update (taskCounts p.pool) w (pushTasks th)) (p.pool.sending.map Prod.snd) := by
      have hpred : pushTasks th = taskCounts p.pool w - 1 := by
        change _ = pushTasks (p.pool.threads w) - 1
        omega
      rw [hpred]
      rfl
    rw [habs] at hpush
    exact (Reachable.refl _).tail hpush
  · rw [if_neg hrun] at hcount
    have hsame : Function.update (taskCounts p.pool) w (pushTasks th) = taskCounts p.pool := by
      rw [show pushTasks th = taskCounts p.pool w from hcount.symm]
      exact Function.update_eq_self _ _
    rw [hsame]
    cases hs with
    | deal msg rest hrunning htasks =>
      cases msg with
      | newTask task =>
        have hkeep : handle p.server w (p.pool.threads w) .deal = p.server := by
          simp only [handle, htasks]
        rw [hkeep]
        exact Reachable.refl _
      | newConn fd =>
        have hopen : handle p.server w (p.pool.threads w) .deal = p.server.newConn w fd := by
          simp only [handle, htasks]
        have hnone : p.server.conns fd = none :=
          h.closed w hw fd (by simp [PoolThread.undealt, htasks])
        rw [hopen]
        have hnew : Server.step threads p.abs (.newConn w fd) = some (p.abs.newConn w fd) :=
          if_pos ⟨hw, hidle, hnone⟩
        exact (Reachable.refl _).tail hnew
    | runTask => exact absurd rfl hrun
    | _ => exact Reachable.refl _

/-- A step of the pool is at most one step of the server that counts. -/
theorem step {a : PoolServerAction} (h : Inv threads p) (hs : p.step? threads a = some p') :
    Inv threads p' ∧ Reachable (Server.step threads) p.abs p'.abs := by
  cases a with
  | accept fd =>
    obtain ⟨hfree, hs⟩ := Option.ite_none_right_eq_some.mp hs
    obtain ⟨pool, hpool, rfl⟩ := Option.map_eq_some_iff.mp hs
    obtain ⟨-, hpool⟩ := Option.ite_none_right_eq_some.mp hpool
    cases hpool
    refine ⟨h.accept hfree, ?_⟩
    rw [abs_accept]
    exact Reachable.refl _
  | thread w e =>
    obtain ⟨hidle, hs⟩ := Option.ite_none_right_eq_some.mp hs
    obtain ⟨pool, hpool, rfl⟩ := Option.map_eq_some_iff.mp hs
    obtain ⟨hw, hpool⟩ := Option.ite_none_right_eq_some.mp hpool
    obtain ⟨th, hstep, rfl⟩ := Option.map_eq_some_iff.mp hpool
    have hstep := PoolThread.step?_inv hstep
    exact ⟨h.thread hw hstep, abs_thread h hw hidle hstep⟩
  | getRoute w fd data =>
    obtain ⟨-, hs⟩ := Option.ite_none_right_eq_some.mp hs
    obtain ⟨c, hready, rfl⟩ := Option.map_eq_some_iff.mp hs
    obtain ⟨-, hc, -⟩ := Server.ready?_eq_some hready
    constructor
    · exact h.of_server fun f hf => Server.setConn_conns_none hf hc
    · have hready' : p.abs.ready? w fd = some c := hready
      have hstep : Server.step threads p.abs (.getRoute w fd data) =
          some (p.abs.getRoute w fd c (parse data).1) := by
        rw [Server.step, hready', Option.map_some]
      exact (Reachable.refl _).tail hstep
  | cleanConn w fd =>
    obtain ⟨-, hs⟩ := Option.ite_none_right_eq_some.mp hs
    obtain ⟨c, hready, rfl⟩ := Option.map_eq_some_iff.mp hs
    constructor
    · exact h.of_server fun _ => id
    · have hready' : p.abs.ready? w fd = some c := hready
      have hstep : Server.step threads p.abs (.cleanConn w fd) =
          some (p.abs.cleanConn w fd c) := by
        rw [Server.step, hready', Option.map_some]
      exact (Reachable.refl _).tail hstep
  | resume w =>
    obtain ⟨hw, hs⟩ := Option.ite_none_right_eq_some.mp hs
    obtain ⟨s, hresume, rfl⟩ := Option.map_eq_some_iff.mp hs
    constructor
    · exact h.of_server fun _ => Server.resume?_conns_none hresume
    · have hstep : Server.step threads p.abs (.resume w) = some (abs { p with server := s }) := by
        rw [Server.step, if_pos hw, abs, Server.resume?_withTasks, hresume]
        rfl
      exact (Reachable.refl _).tail hstep
  | swap rows =>
    obtain ⟨hfree, hs⟩ := Option.ite_none_right_eq_some.mp hs
    cases hs
    rw [Option.isNone_iff_eq_none] at hfree
    constructor
    · exact h.of_server fun _ => id
    · have hnone : p.abs.broadcast = none := by
        change p.pool.sending.map Prod.snd = none
        rw [hfree]
        rfl
      exact (Reachable.refl _).tail (a := .swap rows) (if_pos hnone)
  | publish changeMods =>
    obtain ⟨hchanged, hs⟩ := Option.ite_none_right_eq_some.mp hs
    obtain ⟨pool, hpool, rfl⟩ := Option.map_eq_some_iff.mp hs
    obtain ⟨hfree, hpool⟩ := Option.ite_none_right_eq_some.mp hpool
    cases hpool
    rw [Option.isNone_iff_eq_none] at hfree
    constructor
    · exact h.of_sublist (fun _ _ => List.Sublist.refl _) fun _ _ _ _ => id
    · have hnone : p.abs.broadcast = none := by
        change p.pool.sending.map Prod.snd = none
        rw [hfree]
        rfl
      exact (Reachable.refl _).tail (a := .publish changeMods) (if_pos ⟨hnone, hchanged⟩)
  | send =>
    obtain ⟨pool, hpool, rfl⟩ := Option.map_eq_some_iff.mp hs
    obtain ⟨⟨task, i⟩, hsending, rfl⟩ := Option.map_eq_some_iff.mp hpool
    exact ⟨h.send task i, (Reachable.refl _).tail (abs_send hsending)⟩

/-- Every swap has been published, every message has been dealt with, every task has run, and no
callback is in progress. -/
def AtRest (threads : ℕ) (p : PoolServer) : Prop :=
  p.server.changed = [] ∧ p.pool.sending = none ∧
    ∀ w < threads, p.server.mode w = .idle ∧ (p.pool.threads w).undealt = [] ∧
      (p.pool.threads w).waiting = []

instance (threads : ℕ) (p : PoolServer) : Decidable (p.AtRest threads) :=
  inferInstanceAs (Decidable (_ ∧ _ ∧ _))

/-- Every run on the thread pool is a run of the server that only counts the push tasks. It is at
rest when the pool is, and no thread makes a connection under a number that is in use. -/
theorem pool_refines {rows : List RouteRow} {as : List PoolServerAction}
    (hrun : run? (step? threads) (init rows) as = some p) :
    Reachable (Server.step threads) (Server.init rows) p.abs ∧
    (p.AtRest threads → p.abs.Quiescent threads) ∧
    ∀ w < threads, ∀ fd ∈ connsOf (p.pool.threads w).undealt, p.server.conns fd = none ∧
      ∀ v < threads, v ≠ w → fd ∉ connsOf (p.pool.threads v).undealt := by
  have hinv : Inv threads p ∧ Reachable (Server.step threads) (Server.init rows) p.abs := by
    refine Reachable.invariant
      (P := fun p => Inv threads p ∧ Reachable (Server.step threads) (Server.init rows) p.abs)
      ?_ ⟨Inv.init rows, Reachable.refl _⟩ ⟨as, hrun⟩
    intro p a p' h hs
    obtain ⟨hinv, hreach⟩ := step h.1 hs
    exact ⟨hinv, h.2.trans hreach⟩
  refine ⟨hinv.2, ?_, fun w hw fd hfd => ⟨hinv.1.closed w hw fd hfd, fun v hv hne =>
    hinv.1.apart w hw v hv hne fd hfd⟩⟩
  intro hrest
  obtain ⟨hchanged, hsending, hthreads⟩ := hrest
  refine ⟨hchanged, ?_, ?_⟩
  · change p.pool.sending.map Prod.snd = none
    rw [hsending]
    rfl
  · intro w hw
    obtain ⟨hidle, hundealt, hwaiting⟩ := hthreads w hw
    refine ⟨hidle, ?_⟩
    change (p.pool.threads w).waiting.length + (tasksOf (p.pool.threads w).undealt).length = 0
    rw [hundealt, hwaiting]
    rfl

/-- A connection asks for a module, the table changes, and the push task comes in one batch with a
second connection. -/
def batchRun : List PoolServerAction :=
  [.accept 5, .thread 0 .recv, .thread 0 .deal,
    .getRoute 0 5 (serialize (⟨1, 1⟩ : GetRouteRequest)), .resume 0, .resume 0, .resume 0,
    .swap [⟨1, 1, 8, 80⟩], .publish [packInts 1 1], .send, .accept 6, .send,
    .thread 0 .recv, .thread 0 .deal, .thread 0 .deal, .thread 0 .execute, .thread 0 .runTask,
    .resume 0, .resume 0, .resume 0, .thread 0 .clear]

theorem pool_refines_batchRun :
    ∃ p, run? (step? 1) (init [⟨1, 1, 7, 80⟩]) batchRun = some p ∧ p.AtRest 1 ∧
      (p.server.conns 5).map (fun c => c.sent.map fun rsp => rsp.host) =
        some [[⟨7, 80⟩], [⟨8, 80⟩]] ∧
      Reachable (Server.step 1) (Server.init [⟨1, 1, 7, 80⟩]) p.abs ∧ p.abs.Quiescent 1 := by
  have hrun : (run? (step? 1) (init [⟨1, 1, 7, 80⟩]) batchRun).map (fun p =>
      decide (p.AtRest 1 ∧ (p.server.conns 5).map (fun c => c.sent.map fun rsp => rsp.host) =
        some [[⟨7, 80⟩], [⟨8, 80⟩]])) = some true := by decide +kernel
  obtain ⟨p, hp, hrest⟩ := Option.map_eq_some_iff.mp hrun
  obtain ⟨hrest, hsent⟩ := of_decide_eq_true hrest
  obtain ⟨hreach, hquiet, -⟩ := pool_refines hp
  exact ⟨p, hp, hrest, hsent, hreach, hquiet hrest⟩

end PoolServer

end Lrlb.Dns
