import Mathlib.Algebra.BigOperators.Group.Finset.Basic
import Lrlb.Reactor.TcpServer

/-! The limit on connections. It is checked in the main thread against the connections that the
workers have registered so far, and the array of the connections is indexed by descriptors. -/
namespace Lrlb.Reactor
open Lib

/-- A connection that has been made and not registered yet. -/
def WorkerMode.making : WorkerMode → ℕ
  | .increase _ _ => 1
  | _ => 0

/-- A connection that has passed the check and is in no queue yet. -/
def MainMode.sending : MainMode → ℕ
  | .send _ => 1
  | _ => 0

/-- The connection that `get_conn_num` is called for. -/
def MainMode.checked? : MainMode → Option Fd
  | .getConnNum connfd => some connfd
  | _ => none

namespace TcpServer

/-- The connections that a worker has still to register. -/
def waiting (s : TcpServer) (w : ℕ) : ℕ := (s.pending w).length + (s.mode w).making

def backlog (cfg : TcpConfig) (s : TcpServer) : ℕ := ∑ w ∈ Finset.range cfg.threads, s.waiting w

/-- A connection passes the check only if there is room for it beside those that wait to be
registered, and its descriptor is one of the array. -/
def Admits (cfg : TcpConfig) (s : TcpServer) : TcpAction → Prop
  | .getConnNum => ∀ fd ∈ s.main.checked?, s.currConns < maxConns →
      s.currConns + s.backlog cfg < maxConns ∧ fd < maxConns + 3
  | _ => True

instance (cfg : TcpConfig) (s : TcpServer) (a : TcpAction) : Decidable (s.Admits cfg a) :=
  match a with
  | .getConnNum => inferInstanceAs (Decidable (∀ fd ∈ s.main.checked?, _))
  | .openFd _ | .closeFd _ | .accept _ | .send | .epollWait _ _ | .dispatch _ | .newConn _ _
  | .sendMessage _ _ | .finish _ _ | .resume _ => .isTrue trivial

structure Limited (cfg : TcpConfig) (s : TcpServer) : Prop where
  index : s.index ≤ cfg.threads
  room : s.currConns + s.backlog cfg + s.main.sending ≤ maxConns
  sending : ∀ fd, s.main = .send fd → fd < maxConns + 3
  pending : ∀ w, ∀ fd ∈ s.pending w, fd < maxConns + 3
  objs : ∀ c fd, (s.objs c).connfd = some fd → fd < maxConns + 3

variable {cfg : TcpConfig} {s t : TcpServer} {w : ℕ} {fd : Fd} {c : ConnId}

theorem backlog_add (hw : w < cfg.threads) (h : ∀ v, v ≠ w → t.waiting v = s.waiting v) :
    t.backlog cfg + s.waiting w = s.backlog cfg + t.waiting w := by
  have hmem : w ∈ Finset.range cfg.threads := Finset.mem_range.mpr hw
  have hrest : ∑ v ∈ (Finset.range cfg.threads).erase w, t.waiting v =
      ∑ v ∈ (Finset.range cfg.threads).erase w, s.waiting v :=
    Finset.sum_congr rfl fun v hv => h v (Finset.ne_of_mem_erase hv)
  unfold backlog
  rw [← Finset.add_sum_erase _ _ hmem, ← Finset.add_sum_erase _ s.waiting hmem, hrest]
  omega

namespace Limited

theorem init (cfg : TcpConfig) : Limited cfg (init cfg) := by
  refine ⟨Nat.zero_le _, ?_, nofun, nofun, nofun⟩
  have hzero : (TcpServer.init cfg).backlog cfg = 0 := Finset.sum_eq_zero fun _ _ => rfl
  rw [hzero]
  exact (by decide : (0 : ℤ) + (0 : ℕ) + (0 : ℕ) ≤ (1024 : ℕ))

/-- What a worker does: it registers no connection that did not wait for it. -/
theorem worker (h : Limited cfg s) (hw : w < cfg.threads) (hmain : t.main = s.main)
    (hindex : t.index = s.index)
    (hother : ∀ v, v ≠ w → t.mode v = s.mode v ∧ t.queues v = s.queues v)
    (hcount : t.currConns + t.waiting w ≤ s.currConns + s.waiting w)
    (hpending : t.pending w ⊆ s.pending w)
    (hobjs : ∀ c fd, (t.objs c).connfd = some fd →
      (s.objs c).connfd = some fd ∨ fd ∈ s.pending w) : Limited cfg t := by
  have hpending' : ∀ v, v ≠ w → t.pending v = s.pending v := by
    intro v hv
    obtain ⟨hmode, hqueue⟩ := hother v hv
    rw [TcpServer.pending, hmode, hqueue, TcpServer.pending]
  have hwaiting : ∀ v, v ≠ w → t.waiting v = s.waiting v := by
    intro v hv
    rw [waiting, hpending' v hv, (hother v hv).1, waiting]
  have hbacklog := backlog_add hw hwaiting
  refine ⟨hindex ▸ h.index, ?_, hmain ▸ h.sending, fun v fd hfd => ?_, fun c fd hfd => ?_⟩
  · have hroom := h.room
    rw [hmain]
    omega
  · by_cases hv : v = w
    · subst hv
      exact h.pending v fd (hpending hfd)
    · exact h.pending v fd (hpending' v hv ▸ hfd)
  · obtain hfd | hfd := hobjs c fd hfd
    · exact h.objs c fd hfd
    · exact h.pending w fd hfd

/-- A change of mode in which the worker keeps the descriptors that it has. -/
theorem setMode (h : Limited cfg s) (hw : w < cfg.threads) {m : WorkerMode}
    (hm : m.connfds = (s.mode w).connfds) (hmaking : m.making ≤ (s.mode w).making) :
    Limited cfg (s.setMode w m) := by
  have hpending : (s.setMode w m).pending w = s.pending w := by
    rw [TcpServer.pending, mode_setMode_self, hm]
    rfl
  refine h.worker hw rfl rfl (fun v hv => ⟨mode_setMode_ne s hv m, rfl⟩) ?_ ?_ fun _ _ => Or.inl
  · rw [waiting, waiting, hpending, mode_setMode_self]
    change s.currConns + _ ≤ _
    omega
  · rw [hpending]
    exact List.Subset.refl _

/-- A step in which no descriptor of a worker and no connection is touched. -/
theorem same (h : Limited cfg s) (hmain : t.main = s.main) (hindex : t.index = s.index)
    (hmode : t.mode = s.mode) (hqueues : t.queues = s.queues) (hcount : t.currConns = s.currConns)
    (hobjs : t.objs = s.objs) : Limited cfg t :=
  h.worker cfg.threads_pos hmain hindex (fun _ _ => ⟨congrFun hmode _, congrFun hqueues _⟩)
    (by rw [hcount, waiting, waiting, TcpServer.pending, TcpServer.pending, hmode, hqueues])
    (by rw [TcpServer.pending, TcpServer.pending, hmode, hqueues]; exact List.Subset.refl _)
    fun _ _ hfd => Or.inl (hobjs ▸ hfd)

theorem setObj (h : Limited cfg s) {o : ConnObj}
    (ho : ∀ fd, o.connfd = some fd → (s.objs c).connfd = some fd) : Limited cfg (s.setObj c o) := by
  refine ⟨h.index, h.room, h.sending, h.pending, fun c' fd hfd => ?_⟩
  by_cases hc : c' = c
  · subst hc
    rw [objs_setObj_self] at hfd
    exact h.objs c' fd (ho fd hfd)
  · rw [objs_setObj_ne s hc] at hfd
    exact h.objs c' fd hfd

theorem send (h : Limited cfg s) {i : ℕ} (hmain : s.main = .send fd)
    (hi : i = if s.index = cfg.threads then 0 else s.index) : Limited cfg (s.enqueue i fd) := by
  have hlt : i < cfg.threads := by
    have := h.index
    have := cfg.threads_pos
    split_ifs at hi <;> omega
  have hbacklog : (s.enqueue i fd).backlog cfg + s.waiting i =
      s.backlog cfg + (s.enqueue i fd).waiting i :=
    backlog_add hlt fun v hv => by
      rw [waiting, pending_enqueue_ne s hv]
      rfl
  have hwaiting : (s.enqueue i fd).waiting i = s.waiting i + 1 := by
    rw [waiting, pending_enqueue_self, List.length_append, List.length_singleton]
    exact Nat.add_right_comm ..
  refine ⟨hlt, ?_, nofun, fun v f hf => ?_, h.objs⟩
  · have hroom := h.room
    rw [hmain] at hroom
    change s.currConns + (s.enqueue i fd).backlog cfg + (0 : ℕ) ≤ maxConns
    change _ + ((1 : ℕ) : ℤ) ≤ _ at hroom
    omega
  · by_cases hv : v = i
    · subst hv
      rw [pending_enqueue_self, List.mem_append, List.mem_singleton] at hf
      obtain hf | rfl := hf
      · exact h.pending v f hf
      · exact h.sending f hmain
    · rw [pending_enqueue_ne s hv] at hf
      exact h.pending v f hf

theorem step {a : TcpAction} (h : Limited cfg s) (hpass : s.Admits cfg a) (hs : Step cfg s a t) :
    Limited cfg t := by
  cases hs with
  | openFd | closeFd | fired | error | sendMessage => exact h.same rfl rfl rfl rfl rfl rfl
  | accept hmain hlow =>
    refine ⟨h.index, ?_, nofun, h.pending, h.objs⟩
    have hroom := h.room
    rw [hmain] at hroom
    exact hroom
  | refuse hmain hfull =>
    refine ⟨h.index, ?_, nofun, h.pending, h.objs⟩
    have hroom := h.room
    rw [hmain] at hroom
    exact hroom
  | @pass fd hmain hroom =>
    obtain ⟨hroom, hfd⟩ := hpass fd (by rw [hmain]; rfl) hroom
    refine ⟨h.index, ?_, fun f hf => ?_, h.pending, h.objs⟩
    · change s.currConns + s.backlog cfg + (1 : ℕ) ≤ maxConns
      omega
    · cases hf
      exact hfd
  | send hmain hi => exact h.send hmain hi
  | @dealTask w fired hw hmode =>
    have hpending : TcpServer.pending ({ s.setFired w fired with
        queues := Function.update s.queues w [] }.setMode w (.tasks (s.queues w))) w =
        s.pending w := by
      rw [TcpServer.pending, TcpServer.pending, mode_setMode_self, hmode]
      change s.queues w ++ Function.update s.queues w [] w = [] ++ s.queues w
      rw [Function.update_self, List.append_nil, List.nil_append]
    refine h.worker hw rfl rfl (fun v hv => ?_) ?_ ?_ fun _ _ => Or.inl
    · exact ⟨mode_setMode_ne _ hv _, Function.update_of_ne hv ..⟩
    · rw [waiting, waiting, hpending, mode_setMode_self, hmode]
      exact le_refl _
    · rw [hpending]
      exact List.Subset.refl _
  | @call w fd ev d d' cb c fired hw hmode =>
    have hfired : Limited cfg (s.setFired w fired) := h.same rfl rfl rfl rfl rfl rfl
    refine hfired.setMode hw ?_ (Nat.zero_le _)
    change [] = (s.mode w).connfds
    rw [hmode]
    rfl
  | @newConn w fd sends connfds l l' hw hmode =>
    have hpending : s.pending w = fd :: (connfds ++ s.queues w) := by
      rw [TcpServer.pending, hmode]
      rfl
    refine h.worker hw rfl rfl (fun v hv => ⟨mode_setMode_ne _ hv _, rfl⟩) ?_ ?_ fun c f hf => ?_
    · rw [waiting, waiting, hpending, hmode, TcpServer.pending, mode_setMode_self]
      change s.currConns + ((connfds ++ s.queues w).length + 1 : ℕ) ≤
        s.currConns + ((connfds ++ s.queues w).length + 1 + 0 : ℕ)
      omega
    · rw [hpending, TcpServer.pending, mode_setMode_self]
      exact List.subset_cons_self _ _
    · change (Function.update s.objs s.count ⟨some fd, w, fd, 0, 0⟩ c).connfd = some f at hf
      by_cases hc : c = s.count
      · subst hc
        rw [Function.update_self] at hf
        cases hf
        rw [hpending]
        exact Or.inr List.mem_cons_self
      · rw [Function.update_of_ne hc] at hf
        exact Or.inl hf
  | keep hw hmode => exact h.setMode hw (by rw [hmode]; rfl) (Nat.zero_le _)
  | @drained w c d fd l hw hmode =>
    have hloop : Limited cfg (s.setLoop w l) := h.same rfl rfl rfl rfl rfl rfl
    refine hloop.setMode hw ?_ (Nat.zero_le _)
    change [] = (s.mode w).connfds
    rw [hmode]
    rfl
  | @clean w c d hw hmode =>
    refine setMode ?_ hw ?_ (Nat.zero_le _)
    · exact h.setObj fun _ hfd => hfd
    · change [] = (s.mode w).connfds
      rw [hmode]
      rfl
  | tasksDone hw hmode => exact h.setMode hw (by rw [hmode]; rfl) (Nat.zero_le _)
  | @increase w c connfds fd hw hmode =>
    have hpending : s.pending w = connfds ++ s.queues w := by
      rw [TcpServer.pending, hmode]
      rfl
    refine h.worker hw rfl rfl (fun v hv => ⟨mode_setMode_ne _ hv _, rfl⟩) ?_ ?_ fun _ _ => Or.inl
    · rw [waiting, waiting, hpending, hmode, TcpServer.pending, mode_setMode_self]
      change s.currConns + 1 + ((connfds ++ s.queues w).length + 0 : ℕ) ≤
        s.currConns + ((connfds ++ s.queues w).length + 1 : ℕ)
      omega
    · rw [hpending, TcpServer.pending, mode_setMode_self]
      exact List.Subset.refl _
  | @decrease w c fd hw hmode =>
    have hpending : s.pending w = s.queues w := by
      rw [TcpServer.pending, hmode]
      rfl
    refine h.worker hw rfl rfl (fun v hv => ⟨mode_setMode_ne _ hv _, rfl⟩) ?_ ?_ fun _ _ => Or.inl
    · rw [waiting, waiting, hpending, hmode, TcpServer.pending, mode_setMode_self]
      change s.currConns + -1 + ((s.queues w).length + 0 : ℕ) ≤
        s.currConns + ((s.queues w).length + 0 : ℕ)
      omega
    · rw [hpending, TcpServer.pending, mode_setMode_self]
      exact List.Subset.refl _
  | @delIoEvent w c fd l hw hmode =>
    have hloop : Limited cfg (s.setLoop w l) := h.same rfl rfl rfl rfl rfl rfl
    refine hloop.setMode hw ?_ (Nat.zero_le _)
    change [] = (s.mode w).connfds
    rw [hmode]
    rfl
  | @close w c fd hw hmode hfd =>
    have hobj : Limited cfg (s.setObj c _) :=
      h.setObj (o := { s.objs c with connfd := none, closes := (s.objs c).closes + 1 }) nofun
    refine setMode ?_ hw ?_ (Nat.zero_le _)
    · exact ⟨hobj.index, hobj.room, hobj.sending, hobj.pending, hobj.objs⟩
    · change [] = (s.mode w).connfds
      rw [hmode]
      rfl

end Limited

/-- What `conns` is indexed with in a state where all descriptors are below the bound. -/
theorem indexed?_lt (h : Owned s) (hlimit : Limited cfg s) {a : TcpAction} {i : ℤ}
    (hi : s.indexed? a = some i) : 0 ≤ i ∧ i < maxConns + 3 := by
  obtain ⟨w, c, hc, hslot⟩ : ∃ w c, (s.mode w).conn? = some c ∧ s.slot c = i := by
    unfold indexed? at hi
    split at hi
    · next w =>
      split at hi
      · next c _ hmode => exact ⟨w, c, by rw [hmode]; rfl, Option.some.inj hi⟩
      · next c hmode => exact ⟨w, c, by rw [hmode]; rfl, Option.some.inj hi⟩
      · cases hi
    · cases hi
  obtain ⟨fd, -, -, hfd⟩ := h.modes w c hc
  have hlt : (fd : ℤ) < maxConns + 3 := by exact_mod_cast hlimit.objs c fd hfd
  rw [slot, hfd] at hslot
  change (fd : ℤ) = i at hslot
  omega

/-- In every run in which the check admits a connection only if there is room for it beside those
that wait in the workers, and its descriptor is in the array, there are never more connections
than `_max_conns`, and the array is never left. -/
theorem connections_limited (cfg : TcpConfig) (as : List TcpAction)
    (hpass : ∀ x ∈ attempted (step? cfg) (init cfg) as, x.1.Admits cfg x.2) :
    (∀ s ∈ visited (step? cfg) (init cfg) as, s.currConns ≤ maxConns) ∧
      ∀ x ∈ attempted (step? cfg) (init cfg) as, ∀ i, x.1.indexed? x.2 = some i →
        0 ≤ i ∧ i < maxConns + 3 := by
  have hinv : ∀ s ∈ visited (step? cfg) (init cfg) as, s.Owned ∧ s.Limited cfg :=
    forall_visited (P := fun s => s.Owned ∧ s.Limited cfg)
      (fun _ _ _ h hG hstep => ⟨h.1.step (step_of_step? hstep), h.2.step hG (step_of_step? hstep)⟩)
      (init cfg) as ⟨.init cfg, .init cfg⟩ hpass
  refine ⟨fun s hs => ?_, fun x hx i hi => ?_⟩
  · have hroom := (hinv s hs).2.room
    omega
  · obtain ⟨howned, hlimit⟩ := hinv x.1 (mem_visited_of_mem_attempted hx)
    exact indexed?_lt howned hlimit hi

/-- Two connections are accepted before the worker gets to them; the first is closed again. -/
def twoConns : List TcpAction :=
  [.accept 6, .getConnNum, .send, .accept 7, .getConnNum, .send, .epollWait 0 [(5, 1)], .dispatch 0,
    .newConn 0 false, .resume 0, .newConn 0 true, .resume 0, .resume 0,
    .epollWait 0 [(6, 1), (7, 4)], .dispatch 0, .finish 0 .clean, .resume 0, .resume 0, .resume 0, .dispatch 0, .finish 0 .drained]

theorem connections_limited_twoConns :
    ((run? (step? smallServer) (init smallServer) twoConns).map fun s =>
      (s.currConns, s.conns 6, s.conns 7)) = some (1, none, some 1) ∧
    ∀ s ∈ visited (step? smallServer) (init smallServer) twoConns, s.currConns ≤ maxConns :=
  ⟨by decide, (connections_limited smallServer twoConns (by decide)).1⟩

/-- No low descriptor is in use when the server starts to accept. -/
def emptyProcess : TcpConfig where
  threads := 1
  threads_pos := Nat.one_pos
  evfd _ := 2000
  own fd := fd == 2000
  evfd_own _ := rfl
  others _ := false
  nofile := 4096
  raw _ := none
  closeCb := false

/-- Connections that the worker has not looked at yet. -/
structure Flooded (n : ℕ) (s : TcpServer) : Prop where
  main : s.main = .accept
  index : s.index ≤ 1
  count : s.currConns = 0
  mode : s.mode 0 = .waiting
  loop : s.loops 0 = (init emptyProcess).loops 0
  queue : s.queues 0 = List.range n
  fds : ∀ fd : ℕ, fd < 2000 → (s.fds fd = .free ↔ n ≤ fd)

theorem Flooded.init : Flooded 0 (init emptyProcess) := by
  refine ⟨rfl, Nat.zero_le _, rfl, rfl, rfl, rfl, fun fd hfd => ?_⟩
  simp [TcpServer.init, emptyProcess, hfd.ne]

/-- One more connection passes the check, since no other one is registered yet. -/
theorem Flooded.accept {n : ℕ} (h : Flooded n s) (hn : n < 2000)
    (hreach : Reachable (step? emptyProcess) (TcpServer.init emptyProcess) s) :
    ∃ t, Reachable (step? emptyProcess) (TcpServer.init emptyProcess) t ∧ Flooded (n + 1) t := by
  have hfree : s.fds n = .free := (h.fds n hn).mpr (le_refl n)
  have hlow : s.Lowest emptyProcess n := by
    refine ⟨Nat.lt_trans hn (by decide), hfree, fun k hk hk' => ?_⟩
    exact absurd ((h.fds k (Nat.lt_trans hk hn)).mp hk') (Nat.not_le_of_lt hk)
  have hindex : (if s.index = 1 then 0 else s.index) = 0 := by
    have := h.index
    split_ifs <;> omega
  have h₁ : s.step? emptyProcess (.accept n) =
      some { s.setFd n .accepted with main := .getConnNum n } := if_pos ⟨h.main, hlow⟩
  have h₂ : step? emptyProcess { s.setFd n .accepted with main := .getConnNum n } .getConnNum =
      some { s.setFd n .accepted with main := .send n } := by
    change (if (maxConns : ℤ) ≤ s.currConns then _ else _) = _
    rw [if_neg (by rw [h.count]; decide)]
  have h₃ : step? emptyProcess { s.setFd n .accepted with main := .send n } .send =
      some (enqueue { s.setFd n .accepted with main := .send n } 0 n) := by
    change some (enqueue _ (if s.index = 1 then 0 else s.index) n) = _
    rw [hindex]
  refine ⟨_, ((hreach.tail h₁).tail h₂).tail h₃, rfl, le_refl 1, h.count, h.mode, h.loop, ?_, ?_⟩
  · change Function.update s.queues 0 (s.queues 0 ++ [n]) 0 = _
    rw [Function.update_self, h.queue, List.range_succ]
  · intro fd hfd
    change ((s.setFd n .accepted).setFd n (.queued 0)).fds fd = .free ↔ _
    by_cases hne : fd = n
    · subst hne
      rw [fds_setFd_self]
      simp
    · rw [fds_setFd_ne _ hne, fds_setFd_ne _ hne, h.fds fd hfd]
      omega

theorem flooded_reachable (n : ℕ) (hn : n ≤ 2000) :
    ∃ s, Reachable (step? emptyProcess) (init emptyProcess) s ∧ Flooded n s := by
  induction n with
  | zero => exact ⟨_, .refl _, .init⟩
  | succ n ih =>
    obtain ⟨s, hreach, h⟩ := ih (by omega)
    exact h.accept (by omega) hreach

/-- A worker registers all the connections that it has taken out of its queue. -/
theorem registered_reachable (cfg : TcpConfig) {s₀ : TcpServer} (hw : w < cfg.threads)
    (connfds : List Fd) (hreach : Reachable (step? cfg) s₀ s) (hmode : s.mode w = .tasks connfds)
    (hnodup : connfds.Nodup) (hlt : ∀ fd ∈ connfds, fd < maxConns + 3)
    (hfree : ∀ fd ∈ connfds, (s.loops w).ioEvs fd = none ∧ (s.loops w).interest fd = none) :
    ∃ t, Reachable (step? cfg) s₀ t ∧ t.currConns = s.currConns + connfds.length := by
  induction connfds generalizing s with
  | nil => exact ⟨s, hreach, by simp⟩
  | cons fd connfds ih =>
    obtain ⟨hnew, hnodup⟩ := List.nodup_cons.mp hnodup
    obtain ⟨hev, hctl⟩ := hfree fd List.mem_cons_self
    obtain ⟨l, hl⟩ := EventLoop.addIoEvent?_of_none hev hctl (.connRd s.count)
      Direction.epollin.mask
    have h₁ : s.step? cfg (.newConn w false) =
        some (((s.makeConn w fd).setLoop w l).setMode w (.increase s.count connfds)) := by
      change (if w < cfg.threads then s.newConn? w false else none) = _
      rw [if_pos hw, newConn?, hmode]
      change (((s.loops w).addIoEvent? fd _ _).map _).map _ = _
      rw [hl]
      rfl
    set u := ((s.makeConn w fd).setLoop w l).setMode w (.increase s.count connfds) with hu
    have hobj : (u.objs s.count).connfd = some fd := by
      change (Function.update s.objs s.count ⟨some fd, w, fd, 0, 0⟩ s.count).connfd = some fd
      rw [Function.update_self]
    have hset : u.setConns? s.count (some s.count) 1 = some { u with
        conns := Function.update u.conns fd (some s.count), currConns := u.currConns + 1 } := by
      unfold setConns?
      rw [hobj, Option.bind_some, if_pos (hlt fd List.mem_cons_self)]
    have h₂ : u.step? cfg (.resume w) = some ({ u with
        conns := Function.update u.conns fd (some s.count)
        currConns := u.currConns + 1 }.setMode w (.tasks connfds)) := by
      change (if w < cfg.threads then u.resume? w else none) = _
      rw [if_pos hw, resume?, show u.mode w = _ from mode_setMode_self ..]
      dsimp only
      rw [hset]
      rfl
    have htable : ∀ f ∈ connfds, l.ioEvs f = none ∧ l.interest f = none := by
      intro f hf
      have hne : f ≠ fd := fun he => hnew (he ▸ hf)
      rw [EventLoop.addIoEvent?_eq hl]
      simpa only [Function.update_of_ne hne] using hfree f (List.mem_cons_of_mem fd hf)
    obtain ⟨t, ht, hcount⟩ := ih ((hreach.tail h₁).tail h₂) (mode_setMode_self ..) hnodup
      (fun f hf => hlt f (List.mem_cons_of_mem fd hf)) fun f hf => by
        change (u.loops w).ioEvs f = none ∧ (u.loops w).interest f = none
        rw [show u.loops w = l from loops_setLoop_self ..]
        exact htable f hf
    refine ⟨t, ht, ?_⟩
    rw [hcount, List.length_cons]
    change s.currConns + 1 + (connfds.length : ℤ) = _
    push_cast
    omega

/-- The queue of the worker becomes its list of tasks. -/
theorem Flooded.taken {n : ℕ} (h : Flooded n s)
    (hreach : Reachable (step? emptyProcess) (TcpServer.init emptyProcess) s) :
    ∃ t, Reachable (step? emptyProcess) (TcpServer.init emptyProcess) t ∧
      t.mode 0 = .tasks (List.range n) ∧ t.currConns = 0 ∧
      ∀ fd, fd ≠ 2000 → (t.loops 0).ioEvs fd = none ∧ (t.loops 0).interest fd = none := by
  have hwait : ((TcpServer.init emptyProcess).loops 0).epollWait? [(2000, 1)] =
      some { (TcpServer.init emptyProcess).loops 0 with firedEvs := [(2000, 1)] } :=
    if_pos (by decide)
  have h₁ : s.step? emptyProcess (.epollWait 0 [(2000, 1)]) = some (s.setFired 0 [(2000, 1)]) := by
    unfold step? setFired
    dsimp only
    rw [if_pos ⟨Nat.one_pos, h.mode⟩, h.loop, hwait]
    rfl
  set u := s.setFired 0 [(2000, 1)] with hu
  have hloop : u.loops 0 = { (TcpServer.init emptyProcess).loops 0 with firedEvs := [(2000, 1)] } := by
    rw [hu, setFired, loops_setLoop_self, h.loop]
  have h₂ : u.step? emptyProcess (.dispatch 0) = some ({ u.setLoop 0
      { (TcpServer.init emptyProcess).loops 0 with firedEvs := [] } with
        queues := Function.update s.queues 0 [] }.setMode 0 (.tasks (s.queues 0))) := by
    unfold step? dispatch?
    dsimp only
    rw [if_pos ⟨Nat.one_pos, h.mode⟩, hloop]
    rfl
  refine ⟨_, (hreach.tail h₁).tail h₂, ?_, h.count, fun fd hfd => ?_⟩
  · rw [mode_setMode_self, h.queue]
  · change ((u.setLoop 0 _).loops 0).ioEvs fd = none ∧ ((u.setLoop 0 _).loops 0).interest fd = none
    rw [loops_setLoop_self]
    exact loops_init_ne emptyProcess 0 hfd

/-- A process that has as many files open as there are entries in the array. -/
def busyProcess : TcpConfig where
  threads := 1
  threads_pos := Nat.one_pos
  evfd _ := 1026
  own fd := fd == 1026
  evfd_own _ := rfl
  others fd := fd < 1026
  nofile := 4096
  raw _ := none
  closeCb := false

/-- The first connection of a process with many files is registered behind the end of the array.
And a thousand and twenty-five connections that the worker has not come to yet all pass the check
and are all registered. -/
theorem connections_exceed_limit :
    (∃ x ∈ attempted (step? busyProcess) (init busyProcess) [.accept 1027, .getConnNum, .send,
      .epollWait 0 [(1026, 1)], .dispatch 0, .newConn 0 false, .resume 0],
      x.1.indexed? x.2 = some (maxConns + 3)) ∧
    ∃ s, Reachable (step? emptyProcess) (init emptyProcess) s ∧ s.currConns = maxConns + 1 := by
  refine ⟨by decide +kernel, ?_⟩
  obtain ⟨s, hs, hflood⟩ := flooded_reachable 1025 (by decide)
  obtain ⟨t, ht, hmode, hcount, hfree⟩ := hflood.taken hs
  have hlt : ∀ fd ∈ List.range 1025, fd < 1025 := fun fd hfd => List.mem_range.mp hfd
  obtain ⟨u, hu, hregistered⟩ := registered_reachable emptyProcess Nat.one_pos
    (List.range 1025) ht hmode List.nodup_range (fun fd hfd => (hlt fd hfd).trans (by decide))
    fun fd hfd => hfree fd ((hlt fd hfd).trans (by decide)).ne
  refine ⟨u, hu, ?_⟩
  rw [hregistered, hcount, List.length_range]
  rfl

end TcpServer

end Lrlb.Reactor
