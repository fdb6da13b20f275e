import Lrlb.Reactor.TcpServer

/-! What the server knows of a connection is in four places: the array of the connections with
their number, the table of one worker's loop, the `tcp_conn` itself and the descriptors of the
process. Every way in which a connection ends has to clear all four. -/
namespace Lrlb.Reactor
open Lib

/-- How far a connection is: the loop knows it, it is registered, the close hook has been run, it
is not registered any more, the loop does not know it any more. -/
inductive ConnPhase where
  | made
  | registered
  | hooked
  | unregistered
  | removed
deriving DecidableEq

/-- What the mode of its worker says of a connection that is not closed. -/
def WorkerMode.phase (c : ConnId) : WorkerMode → ConnPhase
  | .increase c' _ => if c' = c then .made else .registered
  | .decrease c' => if c' = c then .hooked else .registered
  | .delIoEvent c' => if c' = c then .unregistered else .registered
  | .close c' => if c' = c then .removed else .registered
  | .waiting | .tasks _ | .callback _ _ => .registered

namespace ConnPhase

def inConns : ConnPhase → Bool
  | .registered | .hooked => true
  | _ => false

def inLoop : ConnPhase → Bool
  | .removed => false
  | _ => true

def hookRun : ConnPhase → Bool
  | .made | .registered => false
  | _ => true

end ConnPhase

def FdUse.isConn : FdUse → Bool
  | .conn _ => true
  | _ => false

namespace TcpServer

/-- The worker that a connection was given to. -/
def worker? (s : TcpServer) (fd : Fd) : Option ℕ :=
  match s.fds fd with
  | .queued w => some w
  | .conn c => some (s.objs c).loop
  | _ => none

def Accepted (s : TcpServer) (fd : Fd) : Prop := s.fds fd = .accepted ∨ (s.worker? fd).isSome

/-- The loop of its worker reads from a connection. -/
def Watched (s : TcpServer) (c : ConnId) : Prop :=
  ∃ ev, (s.loops (s.objs c).loop).ioEvs (s.objs c).fd = some ev ∧
    ev.readCallback = some (.connRd c)

/-- What has to hold of the connections whose worker is between two callbacks. -/
structure Consistent (cfg : TcpConfig) (s : TcpServer) : Prop where
  registered : ∀ fd, s.Accepted fd → (∀ w, s.worker? fd = some w → s.mode w = .waiting) →
    ((s.conns fd).isSome ↔ ∃ w, s.worker? fd = some w ∧ (s.loops w).listenFds fd = true)
  once : ∀ fd w v, s.worker? fd = some w → v ≠ w → (s.loops v).listenFds fd = false
  counted : (∀ w, s.mode w = .waiting) → ∃ fds : Finset Fd, s.currConns = fds.card ∧
    ∀ fd, fd ∈ fds ↔ ∃ w, s.worker? fd = some w ∧ (s.loops w).listenFds fd = true
  watched : ∀ c < s.count, s.mode (s.objs c).loop = .waiting → s.Watched c →
    (s.objs c).hooks = 0 ∧ (s.objs c).closes = 0
  closed : ∀ c < s.count, s.mode (s.objs c).loop = .waiting → ¬ s.Watched c →
    (s.objs c).hooks = cfg.closeCb.toNat ∧ (s.objs c).closes = 1

/-- The next event of a connection is not `EPOLLHUP` or `EPOLLERR` alone. -/
def NoErrorAlone (s : TcpServer) : TcpAction → Prop
  | .dispatch w => ∀ x ∈ (s.loops w).firedEvs.head?, (s.fds x.1).isConn = true →
      reaction x.2 ≠ .delete
  | _ => True

instance (s : TcpServer) (a : TcpAction) : Decidable (s.NoErrorAlone a) :=
  match a with
  | .dispatch w => inferInstanceAs (Decidable (∀ x ∈ (s.loops w).firedEvs.head?, _))
  | .openFd _ | .closeFd _ | .accept _ | .getConnNum | .send | .epollWait _ _ | .newConn _ _
  | .sendMessage _ _ | .finish _ _ | .resume _ => .isTrue trivial

variable {cfg : TcpConfig} {s t : TcpServer} {v w : ℕ} {f fd : Fd} {c : ConnId}

def phase (s : TcpServer) (c : ConnId) : ConnPhase := (s.mode (s.objs c).loop).phase c

/-- All that is known of the connection that holds a descriptor. -/
structure Held (cfg : TcpConfig) (s : TcpServer) (fd : Fd) (c : ConnId) : Prop where
  lt : c < s.count
  fd_eq : (s.objs c).fd = fd
  connfd : (s.objs c).connfd = some fd
  closes : (s.objs c).closes = 0
  hooks : (s.objs c).hooks = if (s.phase c).hookRun then cfg.closeCb.toNat else 0
  conns : s.conns fd = if (s.phase c).inConns then some c else none
  entry : (s.phase c).inLoop = true → ∃ ev, (s.loops (s.objs c).loop).ioEvs fd = some ev ∧
    ev.readCallback = some (.connRd c) ∧ (ev.mask = 1 ∨ ev.mask = 5)
  removed : (s.phase c).inLoop = false → (s.loops (s.objs c).loop).ioEvs fd = none
  others : ∀ v, v ≠ (s.objs c).loop → (s.loops v).ioEvs fd = none

structure Tracked (cfg : TcpConfig) (s : TcpServer) : Prop where
  main : ∀ fd, s.main = .getConnNum fd ∨ s.main = .send fd → s.fds fd = .accepted
  pending : ∀ w, ∀ fd ∈ s.pending w, s.fds fd = .queued w
  nodup : ∀ w, (s.pending w).Nodup
  null : ∀ fd, (s.fds fd).isConn = false → s.conns fd = none
  unknown : ∀ fd, (s.fds fd).isConn = false → s.fds fd ≠ .own → ∀ w, (s.loops w).ioEvs fd = none
  held : ∀ fd c, s.fds fd = .conn c → s.Held cfg fd c
  gone : ∀ c < s.count, s.fds (s.objs c).fd = .conn c ∨
    ((s.objs c).connfd = none ∧ (s.objs c).hooks = cfg.closeCb.toNat ∧ (s.objs c).closes = 1)
  counted : ∃ fds : Finset Fd, s.currConns = fds.card ∧ ∀ fd, fd ∈ fds ↔ (s.conns fd).isSome
  listens : ∀ w, (s.loops w).Listens

theorem listens_setLoop (h : ∀ v, (s.loops v).Listens) {l : EventLoop Callback} (hl : l.Listens)
    (v : ℕ) : ((s.setLoop w l).loops v).Listens := by
  by_cases hv : v = w
  · subst hv
    rw [loops_setLoop_self]
    exact hl
  · rw [loops_setLoop_ne s hv]
    exact h v

/-- A loop that changes at one descriptor only. -/
theorem ioEvs_setLoop_ne {l : EventLoop Callback}
    (hl : ∀ f, f ≠ fd → l.ioEvs f = (s.loops w).ioEvs f) (v : ℕ) (f : Fd) (hf : f ≠ fd) :
    ((s.setLoop w l).loops v).ioEvs f = (s.loops v).ioEvs f := by
  by_cases hv : v = w
  · subst hv
    rw [loops_setLoop_self, hl f hf]
  · rw [loops_setLoop_ne s hv]

theorem phase_setMode {m : WorkerMode} (hm : m.phase c = (s.mode w).phase c) (v : ℕ) :
    ((s.setMode w m).mode v).phase c = (s.mode v).phase c := by
  by_cases hv : v = w
  · subst hv
    rw [mode_setMode_self, hm]
  · rw [mode_setMode_ne s hv]

/-- A connection that a step does not concern. -/
theorem Held.of_eq (h : s.Held cfg fd c) (hcount : s.count ≤ t.count)
    (hobj : t.objs c = s.objs c) (hconns : t.conns fd = s.conns fd)
    (hphase : ∀ v, (t.mode v).phase c = (s.mode v).phase c)
    (htable : ∀ v, (t.loops v).ioEvs fd = (s.loops v).ioEvs fd) : t.Held cfg fd c := by
  have hphase : t.phase c = s.phase c := by rw [phase, hobj, hphase, phase]
  refine ⟨h.lt.trans_le hcount, ?_, ?_, ?_, ?_, ?_, fun hin => ?_, fun hin => ?_, fun v hv => ?_⟩
  · rw [hobj, h.fd_eq]
  · rw [hobj, h.connfd]
  · rw [hobj, h.closes]
  · rw [hobj, hphase, h.hooks]
  · rw [hconns, hphase, h.conns]
  · rw [hobj, htable]
    exact h.entry (hphase ▸ hin)
  · rw [hobj, htable]
    exact h.removed (hphase ▸ hin)
  · rw [htable]
    exact h.others v (hobj ▸ hv)

namespace Tracked

theorem init (cfg : TcpConfig) (hraw : ∀ fd, cfg.raw fd = none) : Tracked cfg (init cfg) := by
  have hfds : ∀ fd, (TcpServer.init cfg).fds fd = if cfg.own fd then .own
      else if cfg.others fd then .other else .free := fun _ => rfl
  refine ⟨nofun, nofun, fun _ => List.nodup_nil, fun fd _ => hraw fd, fun fd _ hown w => ?_,
    fun fd c hc => ?_, nofun, ⟨∅, rfl, fun fd => ?_⟩, fun w => ?_⟩
  · refine (loops_init_ne cfg w fun he => hown ?_).1
    rw [hfds, he, cfg.evfd_own]
    rfl
  · rw [hfds] at hc
    split_ifs at hc
  · simp [TcpServer.init, hraw]
  · exact EventLoop.Listens.addIoEvent? (fun _ => rfl) (loops_init cfg w)

/-- A descriptor that no connection holds is opened, closed or given to a worker. -/
theorem setFd (h : Tracked cfg s) (fd : Fd) (use : FdUse) (hold : (s.fds fd).isConn = false)
    (hown : s.fds fd ≠ .own) (hnew : use.isConn = false)
    (hmain : ∀ f, t.main = .getConnNum f ∨ t.main = .send f →
      (s.fds f = .accepted ∧ f ≠ fd) ∨ (f = fd ∧ use = .accepted))
    (hpending : ∀ w, ∀ f ∈ t.pending w, (s.fds f = .queued w ∧ f ≠ fd) ∨ (f = fd ∧ use = .queued w))
    (hnodup : ∀ w, (t.pending w).Nodup) (hfds : t.fds = Function.update s.fds fd use)
    (hmode : t.mode = s.mode) (hloops : t.loops = s.loops) (hobjs : t.objs = s.objs)
    (hcount : t.count = s.count) (hconns : t.conns = s.conns) (hcurr : t.currConns = s.currConns) :
    Tracked cfg t := by
  have hself : t.fds fd = use := by rw [hfds, Function.update_self]
  have hother : ∀ f, f ≠ fd → t.fds f = s.fds f := fun f hf => by
    rw [hfds, Function.update_of_ne hf]
  have hconn : ∀ f c, t.fds f = .conn c → s.fds f = .conn c ∧ f ≠ fd := by
    intro f c hf
    have hne : f ≠ fd := by
      rintro rfl
      rw [hself] at hf
      subst hf
      cases hnew
    exact ⟨hother f hne ▸ hf, hne⟩
  have hnone : ∀ f, (t.fds f).isConn = false → (s.fds f).isConn = false := by
    intro f hf
    by_cases hne : f = fd
    · exact hne ▸ hold
    · exact hother f hne ▸ hf
  refine ⟨fun f hf => ?_, fun w f hf => ?_, hnodup, fun f hf => ?_, fun f hf hf' w => ?_,
    fun f c hf => ?_, fun c hc => ?_, ?_, ?_⟩
  · obtain ⟨hacc, hne⟩ | ⟨rfl, rfl⟩ := hmain f hf
    · rw [hother f hne, hacc]
    · exact hself
  · obtain ⟨hq, hne⟩ | ⟨rfl, rfl⟩ := hpending w f hf
    · rw [hother f hne, hq]
    · exact hself
  · rw [hconns]
    exact h.null f (hnone f hf)
  · rw [hloops]
    refine h.unknown f (hnone f hf) ?_ w
    by_cases hne : f = fd
    · exact hne ▸ hown
    · exact hother f hne ▸ hf'
  · obtain ⟨hf, hne⟩ := hconn f c hf
    exact (h.held f c hf).of_eq hcount.ge (by rw [hobjs]) (by rw [hconns])
      (fun v => by rw [hmode]) fun v => by rw [hloops]
  · rw [hcount] at hc
    rw [hobjs]
    refine (h.gone c hc).imp_left fun hf => ?_
    rw [hother _ ?_, hf]
    intro he
    rw [he] at hf
    rw [hf] at hold
    cases hold
  · rw [hconns, hcurr]
    exact h.counted
  · rw [hloops]
    exact h.listens

/-- The same for a descriptor that is on its way to no worker. -/
theorem setUse (h : Tracked cfg s) {use : FdUse} {main : MainMode}
    (hold : s.fds fd = .free ∨ s.fds fd = .other ∨ s.fds fd = .accepted)
    (hnew : use.isConn = false)
    (hmain : ∀ f, main = .getConnNum f ∨ main = .send f →
      (s.fds f = .accepted ∧ f ≠ fd) ∨ (f = fd ∧ use = .accepted)) :
    Tracked cfg { s.setFd fd use with main := main } := by
  refine h.setFd fd use ?_ ?_ hnew hmain (fun w f hf => Or.inl ?_) h.nodup rfl rfl rfl rfl rfl rfl
    rfl
  · obtain hold | hold | hold := hold <;> rw [hold] <;> rfl
  · obtain hold | hold | hold := hold <;> rw [hold] <;> exact nofun
  · have hq := h.pending w f hf
    refine ⟨hq, ?_⟩
    rintro rfl
    rw [hq] at hold
    obtain hold | hold | hold := hold <;> cases hold

theorem openFd (h : Tracked cfg s) (hlow : s.Lowest cfg fd) : Tracked cfg (s.setFd fd .other) := by
  refine h.setUse (Or.inl hlow.2.1) rfl fun f hf => Or.inl ?_
  have hacc := h.main f hf
  refine ⟨hacc, ?_⟩
  rintro rfl
  exact nomatch hacc.symm.trans hlow.2.1

theorem closeFd (h : Tracked cfg s) (hfd : s.fds fd = .other) : Tracked cfg (s.setFd fd .free) := by
  refine h.setUse (Or.inr (Or.inl hfd)) rfl fun f hf => Or.inl ?_
  have hacc := h.main f hf
  refine ⟨hacc, ?_⟩
  rintro rfl
  exact nomatch hacc.symm.trans hfd

theorem accept (h : Tracked cfg s) (hlow : s.Lowest cfg fd) :
    Tracked cfg { s.setFd fd .accepted with main := .getConnNum fd } := by
  refine h.setUse (Or.inl hlow.2.1) rfl fun f hf => Or.inr ?_
  obtain hf | hf := hf
  · cases hf
    exact ⟨rfl, rfl⟩
  · cases hf

theorem refuse (h : Tracked cfg s) (hmain : s.main = .getConnNum fd) :
    Tracked cfg { s.setFd fd .free with main := .accept } :=
  h.setUse (Or.inr (Or.inr (h.main fd (Or.inl hmain)))) rfl nofun

theorem pass (h : Tracked cfg s) (hmain : s.main = .getConnNum fd) :
    Tracked cfg { s with main := .send fd } := by
  refine ⟨fun f hf => ?_, h.pending, h.nodup, h.null, h.unknown, fun f c hf => ?_, h.gone,
    h.counted, h.listens⟩
  · obtain hf | hf := hf
    · cases hf
    · cases hf
      exact h.main fd (Or.inl hmain)
  · exact (h.held f c hf).of_eq (le_refl _) rfl rfl (fun _ => rfl) fun _ => rfl

theorem send (h : Tracked cfg s) (hmain : s.main = .send fd) (i : ℕ) :
    Tracked cfg (s.enqueue i fd) := by
  have hacc := h.main fd (Or.inr hmain)
  have hnew : ∀ v, ∀ f ∈ s.pending v, s.fds f = .queued v ∧ f ≠ fd := by
    intro v f hf
    have hq := h.pending v f hf
    refine ⟨hq, ?_⟩
    rintro rfl
    exact nomatch hacc.symm.trans hq
  refine h.setFd fd (.queued i) ?_ ?_ rfl nofun (fun v f hf => ?_) (fun v => ?_) rfl rfl rfl rfl rfl
    rfl rfl
  · rw [hacc]
    rfl
  · rw [hacc]
    exact nofun
  · by_cases hv : v = i
    · subst hv
      rw [pending_enqueue_self, List.mem_append, List.mem_singleton] at hf
      obtain hf | rfl := hf
      · exact Or.inl (hnew v f hf)
      · exact Or.inr ⟨rfl, rfl⟩
    · rw [pending_enqueue_ne s hv] at hf
      exact Or.inl (hnew v f hf)
  · by_cases hv : v = i
    · subst hv
      rw [pending_enqueue_self, List.nodup_append_comm, List.singleton_append, List.nodup_cons]
      exact ⟨fun hf => (hnew v fd hf).2 rfl, h.nodup v⟩
    · rw [pending_enqueue_ne s hv]
      exact h.nodup v

/-- A step after which the connections are where they were. -/
theorem same (h : Tracked cfg s) (hmain : t.main = s.main) (hfds : t.fds = s.fds)
    (hpending : ∀ w, t.pending w = s.pending w) (hobjs : t.objs = s.objs)
    (hcount : t.count = s.count) (hconns : t.conns = s.conns) (hcurr : t.currConns = s.currConns)
    (hphase : ∀ v c, (t.mode v).phase c = (s.mode v).phase c)
    (htable : ∀ v, (t.loops v).ioEvs = (s.loops v).ioEvs)
    (hlisten : ∀ v, (t.loops v).listenFds = (s.loops v).listenFds) : Tracked cfg t := by
  refine ⟨?_, fun w => ?_, fun w => ?_, ?_, fun f hf hf' w => ?_, fun f c hf => ?_, ?_, ?_,
    fun w f => ?_⟩
  · rw [hmain, hfds]
    exact h.main
  · rw [hpending, hfds]
    exact h.pending w
  · rw [hpending]
    exact h.nodup w
  · rw [hfds, hconns]
    exact h.null
  · rw [hfds] at hf hf'
    rw [htable]
    exact h.unknown f hf hf' w
  · rw [hfds] at hf
    exact (h.held f c hf).of_eq hcount.ge (by rw [hobjs]) (by rw [hconns]) (fun v => hphase v c)
      fun v => by rw [htable]
  · rw [hcount, hfds, hobjs]
    exact h.gone
  · rw [hconns, hcurr]
    exact h.counted
  · rw [hlisten, htable]
    exact h.listens w f

theorem setMode (h : Tracked cfg s) {m : WorkerMode} (hm : m.connfds = (s.mode w).connfds)
    (hphase : ∀ c, m.phase c = (s.mode w).phase c) : Tracked cfg (s.setMode w m) := by
  refine h.same rfl rfl (fun v => ?_) rfl rfl rfl rfl (fun v c => phase_setMode (hphase c) v)
    (fun _ => rfl) fun _ => rfl
  by_cases hv : v = w
  · subst hv
    rw [TcpServer.pending, mode_setMode_self, hm]
    rfl
  · rw [TcpServer.pending, mode_setMode_ne s hv]
    rfl

theorem setLoop (h : Tracked cfg s) {l : EventLoop Callback} (htable : l.ioEvs = (s.loops w).ioEvs)
    (hlisten : l.listenFds = (s.loops w).listenFds) : Tracked cfg (s.setLoop w l) := by
  refine h.same rfl rfl (fun _ => rfl) rfl rfl rfl rfl (fun _ _ => rfl) (fun v => ?_) fun v => ?_
  · by_cases hv : v = w
    · subst hv
      rw [loops_setLoop_self, htable]
    · rw [loops_setLoop_ne s hv]
  · by_cases hv : v = w
    · subst hv
      rw [loops_setLoop_self, hlisten]
    · rw [loops_setLoop_ne s hv]

theorem setFired (h : Tracked cfg s) (fired : List (Fd × UInt32)) :
    Tracked cfg (s.setFired w fired) := h.setLoop rfl rfl

theorem dealTask (h : Tracked cfg s) (hmode : s.mode w = .waiting) (fired : List (Fd × UInt32)) :
    Tracked cfg ({ s.setFired w fired with
      queues := Function.update s.queues w [] }.setMode w (.tasks (s.queues w))) := by
  refine (h.setFired fired).same rfl rfl (fun v => ?_) rfl rfl rfl rfl (fun v c => ?_)
    (fun _ => rfl) fun _ => rfl
  · by_cases hv : v = w
    · subst hv
      rw [TcpServer.pending, TcpServer.pending, mode_setMode_self]
      change s.queues v ++ Function.update s.queues v [] v = (s.mode v).connfds ++ s.queues v
      rw [hmode, Function.update_self, List.append_nil]
      rfl
    · rw [TcpServer.pending, TcpServer.pending, mode_setMode_ne _ hv]
      change _ ++ Function.update s.queues w [] v = _
      rw [Function.update_of_ne hv]
      rfl
  · refine phase_setMode ?_ v
    change ConnPhase.registered = (s.mode w).phase c
    rw [hmode]
    rfl

/-- A worker drops a descriptor that belongs to no connection. -/
theorem dropEvent (h : Tracked cfg s) {l : EventLoop Callback} (hfd : (s.fds fd).isConn = false)
    (htable : l.ioEvs = Function.update (s.loops w).ioEvs fd none) (hlisten : l.Listens) :
    Tracked cfg (s.setLoop w l) := by
  have hother : ∀ f, f ≠ fd → l.ioEvs f = (s.loops w).ioEvs f := fun f hf => by
    rw [htable, Function.update_of_ne hf]
  refine ⟨h.main, h.pending, h.nodup, h.null, fun f hf hf' v => ?_, fun f c hf => ?_, h.gone,
    h.counted, listens_setLoop h.listens hlisten⟩
  · by_cases hv : v = w
    · subst hv
      rw [loops_setLoop_self]
      by_cases hff : f = fd
      · rw [hff, htable, Function.update_self]
      · rw [hother f hff]
        exact h.unknown f hf hf' v
    · rw [loops_setLoop_ne s hv]
      exact h.unknown f hf hf' v
  · have hne : f ≠ fd := by
      rintro rfl
      rw [show s.fds f = .conn c from hf] at hfd
      cases hfd
    exact (h.held f c hf).of_eq (le_refl _) rfl rfl (fun _ => rfl) fun v =>
      ioEvs_setLoop_ne hother v f hne

/-- A step that concerns one connection. -/
theorem concern (h : Tracked cfg s) (hfd : s.fds fd = .conn c) (hmain : t.main = s.main)
    (hfds : t.fds = s.fds) (hpending : ∀ w, t.pending w = s.pending w) (hcount : t.count = s.count)
    (hobjs : ∀ c', c' ≠ c → t.objs c' = s.objs c')
    (hconns : ∀ f, f ≠ fd → t.conns f = s.conns f)
    (hphase : ∀ v c', c' ≠ c → (t.mode v).phase c' = (s.mode v).phase c')
    (htable : ∀ v f, f ≠ fd → (t.loops v).ioEvs f = (s.loops v).ioEvs f)
    (hlisten : ∀ v, (t.loops v).Listens) (hheld : t.Held cfg fd c)
    (hcounted : ∃ fds : Finset Fd, t.currConns = fds.card ∧ ∀ f, f ∈ fds ↔ (t.conns f).isSome) :
    Tracked cfg t := by
  have hne : ∀ f, (s.fds f).isConn = false → f ≠ fd := by
    rintro _ hf rfl
    rw [hfd] at hf
    cases hf
  refine ⟨?_, fun w => ?_, fun w => ?_, fun f hf => ?_, fun f hf hf' w => ?_, fun f c' hf => ?_,
    fun c' hc' => ?_, hcounted, hlisten⟩
  · rw [hmain, hfds]
    exact h.main
  · rw [hpending, hfds]
    exact h.pending w
  · rw [hpending]
    exact h.nodup w
  · rw [hfds] at hf
    rw [hconns f (hne f hf)]
    exact h.null f hf
  · rw [hfds] at hf hf'
    rw [htable w f (hne f hf)]
    exact h.unknown f hf hf' w
  · rw [hfds] at hf
    by_cases hff : f = fd
    · subst hff
      cases hfd.symm.trans hf
      exact hheld
    · have hc : c' ≠ c := by
        rintro rfl
        exact hff ((h.held f c' hf).fd_eq.symm.trans (h.held fd c' hfd).fd_eq)
      exact (h.held f c' hf).of_eq hcount.ge (hobjs c' hc) (hconns f hff) (fun v => hphase v c' hc)
        fun v => htable v f hff
  · rw [hcount] at hc'
    by_cases hc : c' = c
    · subst hc
      rw [hheld.fd_eq, hfds]
      exact Or.inl hfd
    · rw [hobjs c' hc, hfds]
      exact h.gone c' hc'

theorem fds_of_serves (h : Tracked cfg s) (hc : s.Serves w c fd) : s.fds fd = .conn c := by
  obtain ⟨hlt, -, hfd⟩ := hc
  obtain hf | ⟨hnone, -⟩ := h.gone c hlt
  · have hconnfd := (h.held _ c hf).connfd
    cases hfd.symm.trans hconnfd
    exact hf
  · exact nomatch hnone.symm.trans hfd

/-- The loop of its worker has an entry for a connection that is not being closed. -/
theorem entry_of_serves (h : Tracked cfg s) (hc : s.Serves w c fd)
    (hphase : ((s.mode w).phase c).inLoop = true) :
    ∃ ev, (s.loops w).ioEvs fd = some ev ∧ ev.readCallback = some (.connRd c) ∧
      (ev.mask = 1 ∨ ev.mask = 5) := by
  have hheld := h.held fd c (h.fds_of_serves hc)
  have hentry := hheld.entry
  rw [phase, hc.2.1] at hentry
  exact hentry hphase

theorem sendMessage (h : Tracked cfg s) {l : EventLoop Callback} (huser : (s.mode w).user = true)
    (hc : s.Serves w c fd)
    (hl : (s.loops w).addIoEvent? fd (.connWt c) Direction.epollout.mask = some l) :
    Tracked cfg (s.setLoop w l) := by
  have hfd := h.fds_of_serves hc
  have hheld := h.held fd c hfd
  have htable := EventLoop.ioEvs_addIoEvent? hl
  have hphase : ((s.mode w).phase c).inLoop = true := by
    cases hmode : s.mode w with
    | waiting | callback => rfl
    | decrease c' =>
      by_cases he : c' = c
      · simp [WorkerMode.phase, he, ConnPhase.inLoop]
      · simp [WorkerMode.phase, he, ConnPhase.inLoop]
    | tasks | increase | delIoEvent | close =>
      rw [hmode] at huser
      cases huser
  obtain ⟨ev, hev, hread, hmask⟩ := h.entry_of_serves hc hphase
  refine h.concern hfd rfl rfl (fun _ => rfl) rfl (fun _ _ => rfl) (fun _ _ => rfl)
    (fun _ _ _ => rfl) (ioEvs_setLoop_ne fun f hf => ?_)
    (listens_setLoop h.listens ((h.listens w).addIoEvent? hl))
    ⟨hheld.lt, hheld.fd_eq, hheld.connfd, hheld.closes, hheld.hooks, hheld.conns, fun _ => ?_,
      fun hin => ?_, fun v hv => ?_⟩ h.counted
  · rw [htable, Function.update_of_ne hf]
  · change ∃ ev, ((s.setLoop w l).loops (s.objs c).loop).ioEvs fd = some ev ∧ _
    rw [hc.2.1, loops_setLoop_self, htable, Function.update_self, hev]
    refine ⟨_, rfl, ?_, ?_⟩
    · have hcb := IoEvent.callback_register (some ev) .epollout .epollin (.connWt c)
      exact hcb.trans hread
    · change ev.mask ||| 4 = 1 ∨ ev.mask ||| 4 = 5
      obtain hmask | hmask := hmask <;> rw [hmask] <;> decide
  · change ((s.mode (s.objs c).loop).phase c).inLoop = false at hin
    rw [hc.2.1, hphase] at hin
    cases hin
  · change v ≠ (s.objs c).loop at hv
    rw [loops_setLoop_ne s (hc.2.1 ▸ hv)]
    exact hheld.others v hv

theorem drained (h : Tracked cfg s) {d : Direction} {l : EventLoop Callback}
    (hmode : s.mode w = .callback c d) (hc : s.Serves w c fd)
    (hl : (s.loops w).delIoEventMask? fd Direction.epollout.mask = some l) :
    Tracked cfg ((s.setLoop w l).setMode w .waiting) := by
  obtain ⟨ev, hev, -, hmask⟩ := h.entry_of_serves hc (by rw [hmode]; rfl)
  have hloop : Tracked cfg (s.setLoop w l) := by
    obtain ⟨hnone, -⟩ | ⟨ev', hev', ⟨hzero, -⟩ | ⟨-, rfl⟩⟩ := EventLoop.delIoEventMask?_cases hl
    · exact nomatch hnone.symm.trans hev
    · cases hev.symm.trans hev'
      obtain hmask | hmask := hmask <;> rw [hmask] at hzero <;> exact absurd hzero (by decide)
    · exact h.setLoop rfl rfl
  refine hloop.setMode ?_ fun c' => ?_
  · change [] = (s.mode w).connfds
    rw [hmode]
    rfl
  · change ConnPhase.registered = (s.mode w).phase c'
    rw [hmode]
    rfl

/-- A worker goes on with a connection that it has begun to make or to clean. -/
theorem advance (h : Tracked cfg s) {m : WorkerMode} (hc : s.Serves w c fd)
    (hmode : ∀ c', c' ≠ c → m.phase c' = (s.mode w).phase c') (hm : m.connfds = (s.mode w).connfds)
    (hmain : t.main = s.main) (hfds : t.fds = s.fds) (hqueues : t.queues = s.queues)
    (hcount : t.count = s.count) (hobjs : ∀ c', c' ≠ c → t.objs c' = s.objs c')
    (hconns : ∀ f, f ≠ fd → t.conns f = s.conns f) (hm' : t.mode = (s.setMode w m).mode)
    (htable : ∀ v f, f ≠ fd → (t.loops v).ioEvs f = (s.loops v).ioEvs f)
    (hlisten : ∀ v, (t.loops v).Listens) (hheld : t.Held cfg fd c)
    (hcounted : ∃ fds : Finset Fd, t.currConns = fds.card ∧ ∀ f, f ∈ fds ↔ (t.conns f).isSome) :
    Tracked cfg t := by
  refine h.concern (h.fds_of_serves hc) hmain hfds (fun v => ?_) hcount hobjs hconns
    (fun v c' hc' => ?_) htable hlisten hheld hcounted
  · rw [TcpServer.pending, hm', hqueues]
    by_cases hv : v = w
    · subst hv
      rw [mode_setMode_self, hm]
      rfl
    · rw [mode_setMode_ne s hv]
      rfl
  · rw [hm']
    exact phase_setMode (hmode c' hc') v

theorem clean (h : Tracked cfg s) {d : Direction} (hmode : s.mode w = .callback c d)
    (hc : s.Serves w c fd) : Tracked cfg (s.cleanConn cfg w c) := by
  have hheld := h.held fd c (h.fds_of_serves hc)
  have hold : s.phase c = .registered := by
    rw [phase, hc.2.1, hmode]
    rfl
  have hobj : (s.cleanConn cfg w c).objs c =
      { s.objs c with hooks := (s.objs c).hooks + cfg.closeCb.toNat } := Function.update_self ..
  have hnew : (s.cleanConn cfg w c).phase c = .hooked := by
    rw [phase, hobj, show (s.objs c).loop = w from hc.2.1]
    exact (congrArg _ (Function.update_self ..)).trans (if_pos rfl)
  refine h.advance (m := .decrease c) hc (fun c' hc' => ?_) ?_ rfl rfl rfl rfl
    (fun c' hc' => Function.update_of_ne hc' ..) (fun _ _ => rfl) rfl (fun _ _ _ => rfl) h.listens
    ⟨hheld.lt, ?_, ?_, ?_, ?_, ?_, fun _ => ?_, fun hin => ?_, fun v hv => ?_⟩ h.counted
  · rw [hmode]
    exact if_neg hc'.symm
  · rw [hmode]
    rfl
  · rw [hobj]
    exact hheld.fd_eq
  · rw [hobj]
    exact hheld.connfd
  · rw [hobj]
    exact hheld.closes
  · have hhooks := hheld.hooks
    rw [hold] at hhooks
    rw [hnew, hobj]
    change (s.objs c).hooks + cfg.closeCb.toNat = cfg.closeCb.toNat
    rw [hhooks]
    exact Nat.zero_add _
  · have hconns := hheld.conns
    rw [hold] at hconns
    rw [hnew]
    exact hconns
  · rw [hobj]
    exact hheld.entry (by rw [hold]; rfl)
  · rw [hnew] at hin
    cases hin
  · rw [hobj] at hv
    exact hheld.others v hv

/-- `increase_conn` and `decrease_conn`: an entry of `conns` is written while the loop keeps the
connection. -/
theorem setConns (h : Tracked cfg s) {m : WorkerMode} {o : Option ConnId} {d : ℤ}
    (hc : s.Serves w c fd) (hmode : ∀ c', c' ≠ c → m.phase c' = (s.mode w).phase c')
    (hm : m.connfds = (s.mode w).connfds) (hold : ((s.mode w).phase c).inLoop = true)
    (hnew : (m.phase c).inLoop = true)
    (hhook : (m.phase c).hookRun = ((s.mode w).phase c).hookRun)
    (ho : o = if (m.phase c).inConns then some c else none)
    (hcounted : ∃ fds : Finset Fd, s.currConns + d = fds.card ∧
      ∀ f, f ∈ fds ↔ (Function.update s.conns fd o f).isSome) :
    Tracked cfg ({ s with
      conns := Function.update s.conns fd o
      currConns := s.currConns + d }.setMode w m) := by
  have hheld := h.held fd c (h.fds_of_serves hc)
  have hphase : s.phase c = (s.mode w).phase c := by rw [phase, hc.2.1]
  set t := { s with
    conns := Function.update s.conns fd o, currConns := s.currConns + d }.setMode w m with ht
  have hphase' : t.phase c = m.phase c := by
    rw [phase, show (t.objs c).loop = w from hc.2.1, ht, mode_setMode_self]
  refine h.advance (m := m) hc hmode hm rfl rfl rfl rfl (fun _ _ => rfl)
    (fun f hf => Function.update_of_ne hf ..) rfl (fun _ _ _ => rfl) h.listens
    ⟨hheld.lt, hheld.fd_eq, hheld.connfd, hheld.closes, ?_, ?_, fun _ => ?_, fun hin => ?_,
      hheld.others⟩ hcounted
  · rw [hphase', hhook, ← hphase]
    exact hheld.hooks
  · rw [hphase', ← ho]
    exact Function.update_self ..
  · exact hheld.entry (hphase ▸ hold)
  · rw [hphase', hnew] at hin
    cases hin

theorem increase (h : Tracked cfg s) {connfds : List Fd} (hmode : s.mode w = .increase c connfds)
    (hc : s.Serves w c fd) :
    Tracked cfg ({ s with
      conns := Function.update s.conns fd (some c)
      currConns := s.currConns + 1 }.setMode w (.tasks connfds)) := by
  have hold : (s.mode w).phase c = .made := by
    rw [hmode]
    exact if_pos rfl
  have hnone : s.conns fd = none := by
    rw [(h.held fd c (h.fds_of_serves hc)).conns, phase, hc.2.1, hold]
    rfl
  refine h.setConns hc (fun c' hc' => ?_) ?_ ?_ rfl ?_ rfl ?_
  · rw [hmode]
    exact (if_neg hc'.symm).symm
  · rw [hmode]
    rfl
  · rw [hold]
    rfl
  · rw [hold]
    rfl
  · obtain ⟨fds, hcard, hfds⟩ := h.counted
    have hnotMem : fd ∉ fds := by
      rw [hfds, hnone]
      exact nofun
    refine ⟨insert fd fds, ?_, fun f => ?_⟩
    · rw [Finset.card_insert_of_notMem hnotMem, Nat.cast_succ, ← hcard]
    · rw [Finset.mem_insert]
      by_cases hf : f = fd
      · rw [hf, Function.update_self]
        exact iff_of_true (Or.inl rfl) rfl
      · rw [Function.update_of_ne hf, hfds]
        exact or_iff_right hf

theorem decrease (h : Tracked cfg s) (hmode : s.mode w = .decrease c) (hc : s.Serves w c fd) :
    Tracked cfg ({ s with
      conns := Function.update s.conns fd none
      currConns := s.currConns + -1 }.setMode w (.delIoEvent c)) := by
  have hold : (s.mode w).phase c = .hooked := by
    rw [hmode]
    exact if_pos rfl
  have hnew : (WorkerMode.delIoEvent c).phase c = .unregistered := if_pos rfl
  have hsome : s.conns fd = some c := by
    rw [(h.held fd c (h.fds_of_serves hc)).conns, phase, hc.2.1, hold]
    rfl
  refine h.setConns hc (fun c' hc' => ?_) ?_ ?_ ?_ ?_ ?_ ?_
  · rw [hmode]
    exact (if_neg hc'.symm).trans (if_neg hc'.symm).symm
  · rw [hmode]
    rfl
  · rw [hold]
    rfl
  · rw [hnew]
    rfl
  · rw [hnew, hold]
    rfl
  · rw [hnew]
    rfl
  · obtain ⟨fds, hcard, hfds⟩ := h.counted
    have hmem : fd ∈ fds := by
      rw [hfds, hsome]
      rfl
    refine ⟨fds.erase fd, ?_, fun f => ?_⟩
    · have hpred := Finset.card_erase_add_one hmem
      omega
    · rw [Finset.mem_erase]
      by_cases hf : f = fd
      · rw [hf, Function.update_self]
        exact iff_of_false (fun hf => hf.1 rfl) nofun
      · rw [Function.update_of_ne hf, hfds]
        exact and_iff_right hf

theorem delIoEvent (h : Tracked cfg s) {l : EventLoop Callback} (hmode : s.mode w = .delIoEvent c)
    (hc : s.Serves w c fd) (hl : (s.loops w).delIoEvent? fd = some l) :
    Tracked cfg ((s.setLoop w l).setMode w (.close c)) := by
  have hheld := h.held fd c (h.fds_of_serves hc)
  have htable := EventLoop.ioEvs_delIoEvent? hl
  have hold : s.phase c = .unregistered := by
    rw [phase, hc.2.1, hmode]
    exact if_pos rfl
  set t := (s.setLoop w l).setMode w (.close c) with ht
  have hnew : t.phase c = .removed := by
    rw [phase, show (t.objs c).loop = w from hc.2.1, ht, mode_setMode_self]
    exact if_pos rfl
  refine h.advance (m := .close c) hc (fun c' hc' => ?_) ?_ rfl rfl rfl rfl (fun _ _ => rfl)
    (fun _ _ => rfl) rfl (ioEvs_setLoop_ne (s := s) (w := w) fun f hf => ?_)
    (listens_setLoop h.listens ((h.listens w).delIoEvent? hl))
    ⟨hheld.lt, hheld.fd_eq, hheld.connfd, hheld.closes, ?_, ?_, fun hin => ?_, fun _ => ?_,
      fun v hv => ?_⟩ h.counted
  · rw [hmode]
    exact (if_neg hc'.symm).trans (if_neg hc'.symm).symm
  · rw [hmode]
    rfl
  · rw [htable, Function.update_of_ne hf]
  · rw [hnew]
    have hhooks := hheld.hooks
    rw [hold] at hhooks
    exact hhooks
  · rw [hnew]
    have hconns := hheld.conns
    rw [hold] at hconns
    exact hconns
  · rw [hnew] at hin
    cases hin
  · change ((s.setLoop w l).loops (s.objs c).loop).ioEvs fd = none
    rw [hc.2.1, loops_setLoop_self, htable, Function.update_self]
  · change v ≠ (s.objs c).loop at hv
    change ((s.setLoop w l).loops v).ioEvs fd = none
    rw [loops_setLoop_ne s (hc.2.1 ▸ hv)]
    exact hheld.others v hv

/-- The entry that the constructor leaves in the loop, whether the start hook has sent or not. -/
theorem newConn_entry {l l' : EventLoop Callback} (hnone : (s.loops w).ioEvs fd = none)
    (hl : l = s.loops w ∨
      (s.loops w).addIoEvent? fd (.connWt c) Direction.epollout.mask = some l)
    (hl' : l.addIoEvent? fd (.connRd c) Direction.epollin.mask = some l') :
    (∃ ev, l'.ioEvs fd = some ev ∧ ev.readCallback = some (.connRd c) ∧
      (ev.mask = 1 ∨ ev.mask = 5)) ∧ ∀ f, f ≠ fd → l'.ioEvs f = (s.loops w).ioEvs f := by
  rw [EventLoop.ioEvs_addIoEvent? hl']
  have hread := IoEvent.callback_register (l.ioEvs fd) .epollin .epollin (.connRd c)
  obtain rfl | hl := hl
  · refine ⟨⟨_, Function.update_self .., hread, Or.inl ?_⟩, fun f hf => Function.update_of_ne hf ..⟩
    rw [hnone]
    rfl
  · have htable := EventLoop.ioEvs_addIoEvent? hl
    refine ⟨⟨_, Function.update_self .., hread, Or.inr ?_⟩, fun f hf => ?_⟩
    · rw [htable, Function.update_self, hnone]
      change (4 : UInt32) ||| 1 = 5
      decide
    · rw [Function.update_of_ne hf, htable, Function.update_of_ne hf]

/-- The new connection, when no loop and no entry of `conns` knows its descriptor. -/
theorem newConn_held (cfg : TcpConfig) (connfds : List Fd) {l : EventLoop Callback} (hnull : s.conns fd = none)
    (hnone : ∀ v, (s.loops v).ioEvs fd = none)
    (hentry : ∃ ev, l.ioEvs fd = some ev ∧ ev.readCallback = some (.connRd s.count) ∧
      (ev.mask = 1 ∨ ev.mask = 5)) :
    Held cfg (((s.makeConn w fd).setLoop w l).setMode w (.increase s.count connfds)) fd s.count := by
  set t := ((s.makeConn w fd).setLoop w l).setMode w (.increase s.count connfds) with ht
  have hobj : t.objs s.count = ⟨some fd, w, fd, 0, 0⟩ := Function.update_self ..
  have hnew : t.phase s.count = .made := by
    rw [phase, hobj]
    exact (congrArg _ (mode_setMode_self ..)).trans (if_pos rfl)
  refine ⟨Nat.lt_succ_self _, by rw [hobj], by rw [hobj], by rw [hobj], ?_, ?_, fun _ => ?_,
    fun hin => ?_, fun v hv => ?_⟩
  · rw [hnew, hobj]
    rfl
  · rw [hnew]
    exact hnull
  · rw [hobj]
    change ∃ ev, (t.loops w).ioEvs fd = some ev ∧ _
    rw [show t.loops w = l from loops_setLoop_self ..]
    exact hentry
  · rw [hnew] at hin
    cases hin
  · rw [hobj] at hv
    rw [show t.loops v = s.loops v from loops_setLoop_ne _ hv _]
    exact hnone v

theorem newConn (h : Tracked cfg s) {connfds : List Fd} {l l' : EventLoop Callback}
    (hmode : s.mode w = .tasks (fd :: connfds))
    (hl : l = s.loops w ∨
      (s.loops w).addIoEvent? fd (.connWt s.count) Direction.epollout.mask = some l)
    (hl' : l.addIoEvent? fd (.connRd s.count) Direction.epollin.mask = some l') :
    Tracked cfg (((s.makeConn w fd).setLoop w l').setMode w (.increase s.count connfds)) := by
  have hpending : s.pending w = fd :: (connfds ++ s.queues w) := by
    rw [TcpServer.pending, hmode]
    rfl
  have hfd : s.fds fd = .queued w := h.pending w fd (hpending ▸ List.mem_cons_self)
  have hconn : (s.fds fd).isConn = false := by rw [hfd]; rfl
  have hnone : ∀ v, (s.loops v).ioEvs fd = none := h.unknown fd hconn (by rw [hfd]; exact nofun)
  obtain ⟨hentry, hother⟩ := newConn_entry (hnone w) hl hl'
  have hlisten : l'.Listens := by
    obtain rfl | hl := hl
    · exact (h.listens w).addIoEvent? hl'
    · exact ((h.listens w).addIoEvent? hl).addIoEvent? hl'
  have hheld := newConn_held (w := w) cfg connfds (h.null fd hconn) hnone hentry
  set t := ((s.makeConn w fd).setLoop w l').setMode w (.increase s.count connfds) with ht
  have hself : t.fds fd = .conn s.count := Function.update_self ..
  have hfds : ∀ f, f ≠ fd → t.fds f = s.fds f := fun f hf => Function.update_of_ne hf ..
  have htable : ∀ v f, f ≠ fd → (t.loops v).ioEvs f = (s.loops v).ioEvs f :=
    ioEvs_setLoop_ne (s := s) (w := w) hother
  have hobjs : ∀ c, c < s.count → t.objs c = s.objs c := fun c hc =>
    Function.update_of_ne (Nat.ne_of_lt hc) ..
  have hunused : ∀ f, (t.fds f).isConn = false → f ≠ fd := by
    rintro _ hf rfl
    rw [hself] at hf
    cases hf
  have htail : ∀ v, t.pending v = if v = w then connfds ++ s.queues w else s.pending v := by
    intro v
    by_cases hv : v = w
    · subst hv
      rw [if_pos rfl, TcpServer.pending, ht, mode_setMode_self]
      rfl
    · rw [if_neg hv, TcpServer.pending, ht, mode_setMode_ne _ hv]
      rfl
  have hnodup := h.nodup w
  rw [hpending, List.nodup_cons] at hnodup
  refine ⟨fun f hf => ?_, fun v f hf => ?_, fun v => ?_, fun f hf => ?_, fun f hf hf' v => ?_,
    fun f c hf => ?_, fun c hc => ?_, h.counted, listens_setLoop h.listens hlisten⟩
  · have hacc := h.main f hf
    rw [hfds f ?_, hacc]
    rintro rfl
    exact nomatch hfd.symm.trans hacc
  · rw [htail] at hf
    split_ifs at hf with hv
    · subst hv
      rw [hfds f fun he => hnodup.1 (he ▸ hf)]
      exact h.pending v f (hpending ▸ List.mem_cons_of_mem fd hf)
    · have hq := h.pending v f hf
      rw [hfds f ?_, hq]
      rintro rfl
      exact hv (FdUse.queued.inj (hq.symm.trans hfd))
  · rw [htail]
    split_ifs with hv
    · exact hnodup.2
    · exact h.nodup v
  · rw [hfds f (hunused f hf)] at hf
    exact h.null f hf
  · have hff := hunused f hf
    rw [hfds f hff] at hf hf'
    rw [htable v f hff]
    exact h.unknown f hf hf' v
  · by_cases hff : f = fd
    · subst hff
      cases hself.symm.trans hf
      exact hheld
    · rw [hfds f hff] at hf
      have hold := h.held f c hf
      refine hold.of_eq (Nat.le_succ _) (hobjs c hold.lt) rfl (phase_setMode ?_) fun v =>
        htable v f hff
      change (if s.count = c then _ else _) = (s.mode w).phase c
      rw [if_neg (Nat.ne_of_gt hold.lt), hmode]
      rfl
  · obtain hc | rfl := Nat.lt_succ_iff_lt_or_eq.mp hc
    · rw [hobjs c hc]
      refine (h.gone c hc).imp_left fun hf => ?_
      rw [hfds _ ?_, hf]
      intro he
      rw [he] at hf
      exact nomatch hfd.symm.trans hf
    · rw [hheld.fd_eq]
      exact Or.inl hself

theorem close (h : Tracked cfg s) (hmode : s.mode w = .close c) (hc : s.Serves w c fd) :
    Tracked cfg (s.closeConn w c fd) := by
  have hfd := h.fds_of_serves hc
  have hheld := h.held fd c hfd
  have hold : s.phase c = .removed := by
    rw [phase, hc.2.1, hmode]
    exact if_pos rfl
  have hnone : ∀ v, (s.loops v).ioEvs fd = none := by
    intro v
    by_cases hv : v = (s.objs c).loop
    · rw [hv]
      exact hheld.removed (by rw [hold]; rfl)
    · exact hheld.others v hv
  have hnull : s.conns fd = none := by
    rw [hheld.conns, hold]
    rfl
  set t := s.closeConn w c fd with ht
  have hself : t.fds fd = .free := Function.update_self ..
  have hother : ∀ f, f ≠ fd → t.fds f = s.fds f := fun f hf => Function.update_of_ne hf ..
  have hobj : t.objs c = { s.objs c with connfd := none, closes := (s.objs c).closes + 1 } :=
    Function.update_self ..
  have hobjs : ∀ c', c' ≠ c → t.objs c' = s.objs c' := fun c' hc' => Function.update_of_ne hc' ..
  have hpending : ∀ v, t.pending v = s.pending v := by
    intro v
    by_cases hv : v = w
    · subst hv
      rw [TcpServer.pending, TcpServer.pending, hmode, ht, closeConn, mode_setMode_self]
      rfl
    · rw [TcpServer.pending, ht, closeConn, mode_setMode_ne _ hv]
      rfl
  have huse : ∀ f, (s.fds f).isConn = false → t.fds f = s.fds f := by
    intro f hf
    refine hother f ?_
    rintro rfl
    rw [hfd] at hf
    cases hf
  refine ⟨fun f hf => ?_, fun v f hf => ?_, fun v => ?_, fun f hf => ?_, fun f hf hf' v => ?_,
    fun f c' hf => ?_, fun c' hc' => ?_, h.counted, h.listens⟩
  · have hacc := h.main f hf
    rw [huse f (by rw [hacc]; rfl), hacc]
  · rw [hpending] at hf
    have hq := h.pending v f hf
    rw [huse f (by rw [hq]; rfl), hq]
  · rw [hpending]
    exact h.nodup v
  · by_cases hff : f = fd
    · rw [hff]
      exact hnull
    · rw [hother f hff] at hf
      exact h.null f hf
  · by_cases hff : f = fd
    · rw [hff]
      exact hnone v
    · rw [hother f hff] at hf hf'
      exact h.unknown f hf hf' v
  · have hff : f ≠ fd := by
      rintro rfl
      exact nomatch hself.symm.trans hf
    rw [hother f hff] at hf
    have hne : c' ≠ c := by
      rintro rfl
      exact hff ((h.held f c' hf).fd_eq.symm.trans hheld.fd_eq)
    refine (h.held f c' hf).of_eq (le_refl _) (hobjs c' hne) rfl (phase_setMode ?_) fun _ => rfl
    change ConnPhase.registered = (s.mode w).phase c'
    rw [hmode]
    exact (if_neg hne.symm).symm
  · by_cases hne : c' = c
    · subst hne
      have hhooks := hheld.hooks
      rw [hold] at hhooks
      rw [hobj]
      refine Or.inr ⟨rfl, hhooks, ?_⟩
      change (s.objs c').closes + 1 = 1
      rw [hheld.closes]
    · rw [hobjs c' hne]
      refine (h.gone c' hc').imp_left fun hf => ?_
      rw [hother _ ?_, hf]
      intro he
      rw [he] at hf
      exact hne (FdUse.conn.inj (hf.symm.trans hfd))

theorem step {a : TcpAction} (h : Tracked cfg s) (howned : s.Owned) (ha : s.NoErrorAlone a)
    (hs : Step cfg s a t) : Tracked cfg t := by
  -- the connection that the worker is in the middle of, with its descriptor
  have hserves : ∀ {w c fd}, (s.mode w).conn? = some c → (s.objs c).connfd = some fd →
      s.Serves w c fd := by
    intro w c fd hc hfd
    obtain ⟨fd', hlt, hloop, hfd'⟩ := howned.modes w c hc
    exact ⟨hlt, hloop, hfd⟩
  cases hs with
  | openFd hlow => exact h.openFd hlow
  | closeFd hfd => exact h.closeFd hfd
  | accept hmain hlow => exact h.accept hlow
  | refuse hmain hfull => exact h.refuse hmain
  | pass hmain hroom => exact h.pass hmain
  | send hmain hi => exact h.send hmain _
  | fired => exact h.setFired _
  | @error w fd events fired l hw hmode hfired hevents hdel =>
    have htable := EventLoop.ioEvs_delIoEvent? hdel
    have hlisten : EventLoop.Listens { s.loops w with firedEvs := fired } := h.listens w
    refine h.dropEvent ?_ htable (hlisten.delIoEvent? hdel)
    have hnot := ha (fd, events) (by rw [hfired]; rfl)
    by_contra hconn
    exact hnot (Bool.not_eq_false _ ▸ hconn) hevents
  | dealTask hw hmode => exact h.dealTask hmode _
  | @call w fd ev d d' cb c fired hw hmode =>
    refine (h.setFired fired).setMode ?_ fun c' => ?_
    · change [] = (s.mode w).connfds
      rw [hmode]
      rfl
    · change ConnPhase.registered = (s.mode w).phase c'
      rw [hmode]
      rfl
  | newConn hw hmode hl hl' => exact h.newConn hmode hl hl'
  | sendMessage hw huser hc hloop hfd hl => exact h.sendMessage huser ⟨hc, hloop, hfd⟩ hl
  | keep hw hmode => exact h.setMode (by rw [hmode]; rfl) fun c' => by rw [hmode]; rfl
  | drained hw hmode hfd hl => exact h.drained hmode (hserves (by rw [hmode]; rfl) hfd) hl
  | @clean w c d hw hmode =>
    obtain ⟨fd, hc⟩ := howned.modes w c (by rw [hmode]; rfl)
    exact h.clean hmode hc
  | tasksDone hw hmode => exact h.setMode (by rw [hmode]; rfl) fun c' => by rw [hmode]; rfl
  | increase hw hmode hfd hlt => exact h.increase hmode (hserves (by rw [hmode]; rfl) hfd)
  | decrease hw hmode hfd hlt => exact h.decrease hmode (hserves (by rw [hmode]; rfl) hfd)
  | delIoEvent hw hmode hfd hl => exact h.delIoEvent hmode (hserves (by rw [hmode]; rfl) hfd) hl
  | close hw hmode hfd => exact h.close hmode (hserves (by rw [hmode]; rfl) hfd)

/-- A descriptor that a worker was given is in its loop if a connection holds it, and in no other
loop. -/
theorem listens_iff (h : Tracked cfg s) (hw : s.worker? fd = some w) (hmode : s.mode w = .waiting) :
    (s.loops w).listenFds fd = (s.conns fd).isSome := by
  unfold worker? at hw
  split at hw
  · next v hfd =>
    cases hw
    have hconn : (s.fds fd).isConn = false := by rw [hfd]; rfl
    rw [h.listens, h.unknown fd hconn (by rw [hfd]; exact nofun), h.null fd hconn]
    rfl
  · next c hfd =>
    cases hw
    have hheld := h.held fd c hfd
    have hphase : s.phase c = .registered := by
      rw [phase, hmode]
      rfl
    obtain ⟨ev, hev, -⟩ := hheld.entry (by rw [hphase]; rfl)
    rw [h.listens, hev, hheld.conns, hphase]
    rfl
  · cases hw

theorem listens_ne (h : Tracked cfg s) (hw : s.worker? fd = some w) (hv : v ≠ w) :
    (s.loops v).listenFds fd = false := by
  rw [h.listens]
  unfold worker? at hw
  split at hw
  · next u hfd =>
    rw [h.unknown fd (by rw [hfd]; rfl) (by rw [hfd]; exact nofun)]
    rfl
  · next c hfd =>
    cases hw
    rw [(h.held fd c hfd).others v hv]
    rfl
  · cases hw

theorem consistent (h : Tracked cfg s) (howned : s.Owned) : s.Consistent cfg := by
  -- what is registered is held by a connection
  have hworker : ∀ fd, (s.conns fd).isSome → ∃ w, s.worker? fd = some w := by
    intro fd hfd
    cases huse : s.fds fd with
    | conn c => exact ⟨(s.objs c).loop, by rw [worker?, huse]⟩
    | _ =>
      rw [h.null fd (by rw [huse]; rfl)] at hfd
      cases hfd
  have hiff : ∀ fd, (∀ w, s.worker? fd = some w → s.mode w = .waiting) →
      ((s.conns fd).isSome ↔ ∃ w, s.worker? fd = some w ∧ (s.loops w).listenFds fd = true) := by
    intro fd hwait
    constructor
    · intro hfd
      obtain ⟨w, hw⟩ := hworker fd hfd
      exact ⟨w, hw, (h.listens_iff hw (hwait w hw)).trans hfd⟩
    · rintro ⟨w, hw, hlisten⟩
      exact (h.listens_iff hw (hwait w hw)).symm.trans hlisten
  have hphase : ∀ c, s.mode (s.objs c).loop = .waiting → s.phase c = .registered := by
    intro c hc
    rw [phase, hc]
    rfl
  refine ⟨fun fd _ hwait => hiff fd hwait, fun fd w v hw hv => h.listens_ne hw hv, fun hwait => ?_,
    fun c hc hmode hwatched => ?_, fun c hc hmode hwatched => ?_⟩
  · obtain ⟨fds, hcard, hfds⟩ := h.counted
    exact ⟨fds, hcard, fun fd => (hfds fd).trans (hiff fd fun w _ => hwait w)⟩
  · obtain ⟨ev, hev, hread⟩ := hwatched
    obtain ⟨-, -, hconnfd⟩ := howned.callbacks _ _ ev .epollin _ hev hread
    obtain hfd | ⟨hnone, -⟩ := h.gone c hc
    · have hheld := h.held _ c hfd
      have hhooks := hheld.hooks
      rw [hphase c hmode] at hhooks
      exact ⟨hhooks, hheld.closes⟩
    · exact nomatch hnone.symm.trans hconnfd
  · obtain hfd | ⟨-, hgone⟩ := h.gone c hc
    · obtain ⟨ev, hev, hread, -⟩ := (h.held _ c hfd).entry (by rw [hphase c hmode]; rfl)
      exact absurd ⟨ev, hev, hread⟩ hwatched
    · exact hgone

end Tracked

theorem not_consistent_of_registered (fd : Fd) (w : ℕ) (hw : s.worker? fd = some w) (hmode : s.mode w = .waiting)
    (hlisten : (s.loops w).listenFds fd = false) (hconns : (s.conns fd).isSome) :
    ¬ s.Consistent cfg := by
  intro h
  have hwait : ∀ v, s.worker? fd = some v → s.mode v = .waiting := by
    intro v hv
    cases hw.symm.trans hv
    exact hmode
  obtain ⟨v, hv, htrue⟩ := (h.registered fd (Or.inr (by rw [hw]; rfl)) hwait).mp hconns
  cases hw.symm.trans hv
  rw [hlisten] at htrue
  cases htrue

/-- An event that is `EPOLLHUP` or `EPOLLERR` alone takes a connection out of its loop and leaves
it registered. -/
theorem not_consistent_of_error {a : TcpAction} (h : Tracked cfg s) (ha : ¬ s.NoErrorAlone a)
    (hs : s.step? cfg a = some t) : ¬ t.Consistent cfg := by
  cases a with
  | dispatch w =>
    obtain ⟨⟨-, hmode⟩, hs⟩ := Option.ite_none_right_eq_some.mp hs
    obtain ⟨l, hl, rfl⟩ := Option.map_eq_some_iff.mp hs
    obtain ⟨fd, events, fired, hfired, hcases⟩ := EventLoop.dispatch?_cases hl
    have hhead : (fd, events) ∈ (s.loops w).firedEvs.head? := by
      rw [hfired]
      rfl
    obtain ⟨hconn, hdelete⟩ : (s.fds fd).isConn = true ∧ reaction events = .delete := by
      by_contra hnot
      refine ha fun x hx hconn hdelete => ?_
      cases Option.mem_unique hx hhead
      exact hnot ⟨hconn, hdelete⟩
    have hdel : { s.loops w with firedEvs := fired }.delIoEvent? fd = some l := by
      obtain ⟨-, hdel⟩ | ⟨hnot, -⟩ := hcases
      · exact hdel
      · exact absurd hdelete hnot
    have hcalled : (s.loops w).called? = none := by
      rw [EventLoop.called?, hfired]
      dsimp only
      rw [hdelete]
    rw [hcalled]
    dsimp only
    cases hfd : s.fds fd with
    | conn c =>
      have hheld := h.held fd c hfd
      obtain ⟨ev, hev⟩ := EventLoop.ioEvs_of_dispatch? hl hfired
      -- it is the loop of the connection's own worker, which is between two callbacks
      have hloop : (s.objs c).loop = w := by
        by_contra hne
        exact nomatch (hheld.others w (Ne.symm hne)).symm.trans hev
      have hphase : s.phase c = .registered := by
        rw [phase, hloop, hmode]
        rfl
      refine not_consistent_of_registered fd w ?_ hmode ?_ ?_
      · change (match s.fds fd with
          | .queued v => some v
          | .conn c => some (s.objs c).loop
          | _ => none) = some w
        rw [hfd]
        exact congrArg some hloop
      · rw [loops_setLoop_self, EventLoop.delIoEvent?_eq hdel]
        exact Function.update_self ..
      · change (s.conns fd).isSome
        rw [hheld.conns, hphase]
        rfl
    | _ =>
      rw [hfd] at hconn
      cases hconn
  | _ => exact absurd trivial ha

/-- On an array that starts out null, whatever the connections do: what is registered is what the
loops listen on, and what is not listened on any more has had its hook run once and is closed, in
every run in which no event of a connection is `EPOLLHUP` or `EPOLLERR` alone. A run with such an
event gets to a state where this fails. -/
theorem connections_consistent (cfg : TcpConfig) (hraw : ∀ fd, cfg.raw fd = none)
    (as : List TcpAction) :
    ((∀ x ∈ attempted (step? cfg) (init cfg) as, x.1.NoErrorAlone x.2) →
      ∀ s ∈ visited (step? cfg) (init cfg) as, s.Consistent cfg) ∧
    ((run? (step? cfg) (init cfg) as).isSome →
      (∀ s ∈ visited (step? cfg) (init cfg) as, s.Consistent cfg) →
        ∀ x ∈ attempted (step? cfg) (init cfg) as, x.1.NoErrorAlone x.2) := by
  have hinv : ∀ (s : TcpServer) a t, s.Owned ∧ s.Tracked cfg → s.NoErrorAlone a →
      s.step? cfg a = some t → t.Owned ∧ t.Tracked cfg := by
    rintro s a t ⟨howned, h⟩ ha hs
    have hstep := step_of_step? hs
    exact ⟨howned.step hstep, h.step howned ha hstep⟩
  have hinit : (init cfg).Owned ∧ (init cfg).Tracked cfg := ⟨.init cfg, .init cfg hraw⟩
  constructor
  · intro hevents s hs
    obtain ⟨howned, h⟩ := forall_visited (P := fun s => s.Owned ∧ s.Tracked cfg) hinv (init cfg) as
      hinit hevents s hs
    exact h.consistent howned
  · intro hrun hvisited
    refine guard_of_invariant_run (P := fun s => s.Consistent cfg) hinv (fun s a t hs _ ht hP => ?_)
      (init cfg) as hinit hvisited hrun
    by_contra ha
    exact not_consistent_of_error hs.2 ha ht hP

/-- A connection that is read from until its peer closes it, beside one that waits in the queue. -/
def closedByPeer : List TcpAction :=
  [.accept 6, .getConnNum, .send, .epollWait 0 [(5, 1)], .dispatch 0, .newConn 0 true, .resume 0,
    .resume 0, .epollWait 0 [(6, 5)], .dispatch 0, .finish 0 .clean, .resume 0, .resume 0,
    .resume 0, .accept 6, .getConnNum, .send]

theorem connections_consistent_closedByPeer :
    ((run? (step? smallServer) (init smallServer) closedByPeer).map fun s =>
      (s.objs 0, s.worker? 6, s.conns 6)) = some (⟨none, 0, 6, 1, 1⟩, some 0, none) ∧
    ∀ s ∈ visited (step? smallServer) (init smallServer) closedByPeer, s.Consistent smallServer :=
  ⟨by decide, (connections_consistent smallServer (fun _ => rfl) closedByPeer).1 (by decide)⟩

/-- The same process with an array that is not null at first. -/
def dirtyServer : TcpConfig := { smallServer with raw := fun _ => some 0 }

/-- The only event of the connection is `EPOLLERR`. -/
def errorAlone : List TcpAction :=
  [.accept 6, .getConnNum, .send, .epollWait 0 [(5, 1)], .dispatch 0, .newConn 0 false, .resume 0,
    .resume 0, .epollWait 0 [(6, 8)], .dispatch 0]

/-- The connection is out of its loop for good, but it is still registered and counted, its hook
has not been run and its descriptor is open. And where the array is not null at first, a connection
that waits in the queue seems to be registered. -/
theorem connections_inconsistent :
    (∃ s, run? (step? smallServer) (init smallServer) errorAlone = some s ∧
      ¬ s.Consistent smallServer ∧ s.currConns = 1 ∧ s.objs 0 = ⟨some 6, 0, 6, 0, 0⟩) ∧
    ∃ s, run? (step? dirtyServer) (init dirtyServer) [.accept 6, .getConnNum, .send] = some s ∧
      ¬ s.Consistent dirtyServer := by
  constructor
  · have hend : ((run? (step? smallServer) (init smallServer) errorAlone).map fun s =>
        ((s.worker? 6, s.mode 0, (s.loops 0).listenFds 6, s.conns 6), s.currConns, s.objs 0)) =
        some ((some 0, .waiting, false, some 0), 1, ⟨some 6, 0, 6, 0, 0⟩) := by decide
    obtain ⟨s, hs, hfacts⟩ := Option.map_eq_some_iff.mp hend
    simp only [Prod.mk.injEq] at hfacts
    obtain ⟨⟨hw, hmode, hlisten, hconns⟩, hcurr, hobj⟩ := hfacts
    exact ⟨s, hs, not_consistent_of_registered 6 0 hw hmode hlisten (by rw [hconns]; rfl), hcurr, hobj⟩
  · have hend : ((run? (step? dirtyServer) (init dirtyServer) [.accept 6, .getConnNum, .send]).map
        fun s => (s.worker? 6, s.mode 0, (s.loops 0).listenFds 6, s.conns 6)) =
        some (some 0, .waiting, false, some 0) := by decide
    obtain ⟨s, hs, hfacts⟩ := Option.map_eq_some_iff.mp hend
    simp only [Prod.mk.injEq] at hfacts
    obtain ⟨hw, hmode, hlisten, hconns⟩ := hfacts
    exact ⟨s, hs, not_consistent_of_registered 6 0 hw hmode hlisten (by rw [hconns]; rfl)⟩

end TcpServer

end Lrlb.Reactor
