import Lrlb.Dns.Server

/-! No swap is lost: in every reachable state each module that an open connection has asked
for is either going to be read again or its last response holds the current hosts. -/
namespace Lrlb.Dns
open Lib
open Proto (GetRouteRequest GetRouteResponse)

namespace Mode

/-- The modules whose hosts the worker is going to read, with the descriptors to send them on. -/
def toRead : Mode → List (Fd × UInt64)
  | .subscribe fd req | .getHosts fd req => [(fd, requestKey req)]
  | .push needPublish | .pushSend _ _ needPublish => needPublish
  | _ => []

/-- The response that the worker is about to send on a descriptor. -/
def outgoing (fd : Fd) : Mode → List GetRouteResponse
  | .send f rsp | .pushSend f rsp _ => if f = fd then [rsp] else []
  | _ => []

/-- The descriptors that the worker is using. -/
def fds : Mode → List Fd
  | .idle => []
  | .subscribe fd _ | .getHosts fd _ | .send fd _ | .clean fd _ => [fd]
  | .push needPublish => needPublish.map Prod.fst
  | .pushSend fd _ needPublish => fd :: needPublish.map Prod.fst

def Cleaning (fd : Fd) : Mode → Prop
  | .clean f _ => f = fd
  | _ => False

end Mode

namespace Server

variable {s t : Server} {w : ℕ}

/-- A push task is queued for the worker, or `send_task` is going to queue one. -/
def TaskPending (s : Server) (w : ℕ) : Prop :=
  0 < s.tasks w ∨ ∃ i, s.broadcast = some i ∧ i ≤ w

/-- For a worker in mode `m` and a connection on `fd` that was sent `sent`: either something is
still to happen that makes the worker read the module's hosts again, or the last response,
counting the one about to be sent, is the current one. -/
def Fresh (s : Server) (w : ℕ) (m : Mode) (fd : Fd) (sent : List GetRouteResponse)
    (req : GetRouteRequest) : Prop :=
  requestKey req ∈ s.changed ∨
  (requestKey req ∈ s.subs.pushList.find fd ∧ s.TaskPending w) ∨
  (fd, requestKey req) ∈ m.toRead ∨
  ∃ rsp, lastAnswer? req (sent ++ m.outgoing fd) = some rsp ∧ Current s.route rsp

/-- What holds of a connection whose worker is in mode `m`, unless it is being cleaned. -/
structure ConnInv (s : Server) (m : Mode) (fd : Fd) (c : Conn) : Prop where
  booked : ¬ m.Cleaning fd → ∀ mod ∈ c.subList, fd ∈ s.subs.bookList.find mod
  subscribed : ∀ req ∈ c.requested, requestKey req ∈ c.subList ∨ m = .subscribe fd req
  fresh : ¬ m.Cleaning fd → ∀ req ∈ c.requested, 0 ≤ req.cmdid.toInt →
    s.Fresh c.loop m fd c.sent req

/-- What holds of a worker thread. -/
structure WorkerInv (s : Server) (w : ℕ) : Prop where
  owned : ∀ fd ∈ (s.mode w).fds, ∃ c, s.conns fd = some c ∧ c.loop = w
  conn : ∀ fd c, s.conns fd = some c → c.loop = w → s.ConnInv (s.mode w) fd c

namespace Fresh

variable {m n : Mode} {fd : Fd} {sent : List GetRouteResponse} {req : GetRouteRequest}

theorem of_mode (h : s.Fresh w m fd sent req)
    (hread : (fd, requestKey req) ∈ m.toRead → (fd, requestKey req) ∈ n.toRead)
    (hout : n.outgoing fd = m.outgoing fd) : s.Fresh w n fd sent req := by
  obtain h | h | h | h := h
  · exact Or.inl h
  · exact Or.inr (Or.inl h)
  · exact Or.inr (Or.inr (Or.inl (hread h)))
  · rw [← hout] at h
    exact Or.inr (Or.inr (Or.inr h))

/-- A response built from the table at this moment is current for whatever module it names. -/
theorem lastAnswer?_built (modid cmdid : Int32)
    (h : ∃ rsp, lastAnswer? req sent = some rsp ∧ Current s.route rsp) :
    ∃ rsp, lastAnswer? req (sent ++ [routeResponse s.route modid cmdid]) = some rsp ∧
      Current s.route rsp := by
  by_cases hnames : modid = req.modid ∧ cmdid = req.cmdid
  · exact ⟨_, lastAnswer?_append_of_eq hnames sent, current_routeResponse ..⟩
  · rw [lastAnswer?_append_of_ne hnames]
    exact h

/-- Reading the hosts of one module turns a pending read into a current response. -/
theorem of_read {f : Fd} {k : UInt64} {modid cmdid : Int32} (h : s.Fresh w m fd sent req)
    (hread : (fd, requestKey req) ∈ m.toRead →
      (fd, requestKey req) = (f, k) ∨ (fd, requestKey req) ∈ n.toRead)
    (hkey : requestKey req = k → modid = req.modid ∧ cmdid = req.cmdid)
    (hm : m.outgoing fd = [])
    (hn : n.outgoing fd = if f = fd then [routeResponse s.route modid cmdid] else []) :
    s.Fresh w n fd sent req := by
  obtain h | h | h | h := h
  · exact Or.inl h
  · exact Or.inr (Or.inl h)
  · obtain h | h := hread h
    · obtain ⟨rfl, hk⟩ := Prod.mk.inj h
      rw [if_pos rfl] at hn
      right; right; right
      rw [hn]
      exact ⟨_, lastAnswer?_append_of_eq (hkey hk) sent, current_routeResponse ..⟩
    · exact Or.inr (Or.inr (Or.inl h))
  · right; right; right
    rw [hm, List.append_nil] at h
    rw [hn]
    split_ifs with hf
    · exact lastAnswer?_built modid cmdid h
    · rwa [List.append_nil]

theorem of_send (h : s.Fresh w m fd sent req)
    (hread : (fd, requestKey req) ∈ m.toRead → (fd, requestKey req) ∈ n.toRead)
    (hn : n.outgoing fd = []) : s.Fresh w n fd (sent ++ m.outgoing fd) req := by
  obtain h | h | h | h := h
  · exact Or.inl h
  · exact Or.inr (Or.inl h)
  · exact Or.inr (Or.inr (Or.inl (hread h)))
  · right; right; right
    rwa [hn, List.append_nil]

end Fresh

theorem ConnInv.of_mode {m n : Mode} {fd : Fd} {c : Conn} (h : s.ConnInv m fd c)
    (hclean : ¬ n.Cleaning fd → ¬ m.Cleaning fd)
    (hsub : ∀ req, m = .subscribe fd req → requestKey req ∈ c.subList ∨ n = .subscribe fd req)
    (hfresh : ∀ req, 0 ≤ req.cmdid.toInt → s.Fresh c.loop m fd c.sent req →
      s.Fresh c.loop n fd c.sent req) : s.ConnInv n fd c := by
  refine ⟨fun hc => h.booked (hclean hc), ?_, ?_⟩
  · intro req hreq
    obtain hreq | hreq := h.subscribed req hreq
    · exact Or.inl hreq
    · exact hsub req hreq
  · intro hc req hreq hcmd
    exact hfresh req hcmd (h.fresh (hclean hc) req hreq hcmd)

/-- Only the subscriptions of the connection itself matter. -/
theorem ConnInv.of_subs {m : Mode} {fd : Fd} {c : Conn} (h : s.ConnInv m fd c)
    {subs : SubscribeList} (hpush : subs.pushList = s.subs.pushList)
    (hbook : ¬ m.Cleaning fd → ∀ mod, fd ∈ s.subs.bookList.find mod → fd ∈ subs.bookList.find mod) :
    { s with subs := subs }.ConnInv m fd c := by
  refine ⟨fun hc mod hmod => hbook hc mod (h.booked hc mod hmod), h.subscribed, ?_⟩
  intro hc req hreq hcmd
  have hfresh := h.fresh hc req hreq hcmd
  unfold Fresh at hfresh ⊢
  rw [← hpush] at hfresh
  exact hfresh

@[simp] theorem connInv_setMode {m n : Mode} {fd : Fd} {c : Conn} :
    (s.setMode w n).ConnInv m fd c ↔ s.ConnInv m fd c :=
  ⟨fun h => ⟨h.booked, h.subscribed, h.fresh⟩, fun h => ⟨h.booked, h.subscribed, h.fresh⟩⟩

@[simp] theorem connInv_setConn {m : Mode} {fd f : Fd} {c : Conn} {c' : Option Conn} :
    (s.setConn f c').ConnInv m fd c ↔ s.ConnInv m fd c :=
  ⟨fun h => ⟨h.booked, h.subscribed, h.fresh⟩, fun h => ⟨h.booked, h.subscribed, h.fresh⟩⟩

namespace WorkerInv

variable {n : Mode} {fd : Fd}

theorem setMode (h : WorkerInv s w)
    (howned : ∀ f ∈ n.fds, ∃ c, s.conns f = some c ∧ c.loop = w)
    (hconn : ∀ f c, s.conns f = some c → c.loop = w → s.ConnInv (s.mode w) f c →
      s.ConnInv n f c) : WorkerInv (s.setMode w n) w := by
  constructor
  · rw [mode_setMode_self]
    exact howned
  · rw [mode_setMode_self]
    intro f c hc hl
    rw [connInv_setMode]
    exact hconn f c hc hl (h.conn f c hc hl)

/-- The connection on `fd` changes together with the mode of its worker. -/
theorem setConn_setMode {c' : Conn} (h : WorkerInv s w) (hl : c'.loop = w)
    (howned : ∀ f ∈ n.fds, f = fd ∨ f ∈ (s.mode w).fds) (hself : s.ConnInv n fd c')
    (hothers : ∀ f c, f ≠ fd → s.conns f = some c → c.loop = w → s.ConnInv (s.mode w) f c →
      s.ConnInv n f c) : WorkerInv ((s.setConn fd (some c')).setMode w n) w := by
  constructor
  · rw [mode_setMode_self]
    intro f hf
    by_cases hfd : f = fd
    · subst f
      exact ⟨c', conns_setConn_self .., hl⟩
    · obtain ⟨c, hc, hcl⟩ := h.owned f ((howned f hf).resolve_left hfd)
      exact ⟨c, (conns_setConn_ne s hfd _).trans hc, hcl⟩
  · rw [mode_setMode_self]
    intro f c hc hcl
    rw [connInv_setMode, connInv_setConn]
    by_cases hfd : f = fd
    · subst f
      cases (conns_setConn_self ..).symm.trans hc
      exact hself
    · have hc := (conns_setConn_ne s hfd _).symm.trans hc
      exact hothers f c hfd hc hcl (h.conn f c hc hcl)

theorem setConn {c : Conn} (h : WorkerInv s w) (hl : c.loop = w)
    (hself : s.ConnInv (s.mode w) fd c) : WorkerInv (s.setConn fd (some c)) w := by
  have hboth := h.setConn_setMode (n := s.mode w) hl (fun _ hf => Or.inr hf) hself
    fun _ _ _ _ _ hd => hd
  rwa [show s.mode w = (s.setConn fd (some c)).mode w from rfl, setMode_self] at hboth

theorem newConn (h : WorkerInv s w) : WorkerInv (s.newConn w fd) w :=
  h.setConn rfl ⟨nofun, nofun, nofun⟩

theorem getRoute (h : WorkerInv s w) (hmode : s.mode w = .idle) {c : Conn}
    (hc : s.conns fd = some c) (hl : c.loop = w) (req : GetRouteRequest) :
    WorkerInv (s.getRoute w fd c req) w := by
  have hidle : ∀ f d, s.ConnInv (s.mode w) f d → s.ConnInv (.subscribe fd req) f d := by
    intro f d hd
    rw [hmode] at hd
    exact hd.of_mode (fun _ => id) nofun fun q _ hq => hq.of_mode nofun rfl
  have hold := hidle fd c (h.conn fd c hc hl)
  refine h.setConn_setMode hl ?_ ⟨hold.booked, ?_, ?_⟩ fun f d _ _ _ hd => hidle f d hd
  · intro f hf
    exact Or.inl (List.mem_singleton.mp hf)
  · intro q hq
    obtain hq | hq := List.mem_append.mp hq
    · exact hold.subscribed q hq
    · cases List.mem_singleton.mp hq
      exact Or.inr rfl
  · intro hclean q hq hcmd
    obtain hq | hq := List.mem_append.mp hq
    · exact hold.fresh hclean q hq hcmd
    · cases List.mem_singleton.mp hq
      exact Or.inr (Or.inr (Or.inl (List.mem_singleton_self _)))

theorem cleanConn (h : WorkerInv s w) (hmode : s.mode w = .idle) {c : Conn}
    (hc : s.conns fd = some c) (hl : c.loop = w) : WorkerInv (s.cleanConn w fd c) w := by
  apply h.setMode
  · intro f hf
    cases List.mem_singleton.mp hf
    exact ⟨c, hc, hl⟩
  · intro f d _ _ hd
    rw [hmode] at hd
    exact hd.of_mode (fun _ => id) nofun fun q _ hq => hq.of_mode nofun rfl

/-- The worker takes over exactly the queued modules of its own connections. -/
theorem pushChangeTask (h : WorkerInv s w) (hmode : s.mode w = .idle) :
    WorkerInv (s.pushChangeTask w) w := by
  set need := (s.subs.makePublishMap (s.listens w)).1 with hneed
  have hm : (s.pushChangeTask w).mode w = .push need.pairs := mode_setMode_self ..
  constructor
  · rw [hm]
    intro f hf
    obtain ⟨⟨_, mod⟩, hmem, rfl⟩ := List.mem_map.mp hf
    exact listens_iff.mp ((SubscribeList.mem_makePublishMap _).mp hmem).1
  · rw [hm]
    intro f c hc hl
    have hold := h.conn f c hc hl
    rw [hmode] at hold
    refine ⟨fun _ => hold.booked id, ?_, ?_⟩
    · intro req hreq
      exact Or.inl ((hold.subscribed req hreq).resolve_right nofun)
    · intro _ req hreq hcmd
      obtain hf | ⟨hf, -⟩ | hf | hf := hold.fresh id req hreq hcmd
      · exact Or.inl hf
      · have hlist : s.listens w f = true := listens_iff.mpr ⟨c, hc, hl⟩
        exact Or.inr (Or.inr (Or.inl ((SubscribeList.mem_makePublishMap _).mpr ⟨hlist, hf⟩)))
      · cases hf
      · exact Or.inr (Or.inr (Or.inr hf))

/-- The step from the subscription to `get_hosts`, once the connection has its module. -/
theorem subscribed (h : WorkerInv s w) {c : Conn} {req : GetRouteRequest}
    (hmode : s.mode w = .subscribe fd req) (hc : s.conns fd = some c)
    (hkey : requestKey req ∈ c.subList) : WorkerInv (s.setMode w (.getHosts fd req)) w := by
  apply h.setMode
  · intro f hf
    exact h.owned f (hmode ▸ hf)
  · intro f d hd _ hold
    rw [hmode] at hold
    refine hold.of_mode (fun _ => id) ?_ fun q _ hq => hq.of_mode id rfl
    intro q hq
    cases hq
    cases hc.symm.trans hd
    exact Or.inl hkey

theorem subscribe (h : WorkerInv s w) {c : Conn} {req : GetRouteRequest}
    (hmode : s.mode w = .subscribe fd req) (hc : s.conns fd = some c) (hl : c.loop = w) :
    WorkerInv (s.subscribe w fd c req) w := by
  unfold Server.subscribe
  split_ifs with hkey
  · exact h.subscribed hmode hc hkey
  · set s' : Server := { s with subs := s.subs.subscribe (requestKey req) fd } with hs'
    have hbooked : WorkerInv s' w := by
      refine ⟨h.owned, fun f d hd hdl => (h.conn f d hd hdl).of_subs rfl ?_⟩
      intro _ mod hmod
      exact SubscribeList.mem_subscribe.mpr (Or.inr hmod)
    have hself : s'.ConnInv (s'.mode w) fd
        { c with subList := c.subList.insert (requestKey req) } := by
      have hold := hbooked.conn fd c hc hl
      refine ⟨?_, ?_, hold.fresh⟩
      · intro hclean mod hmod
        obtain rfl | hmod := HashSet.mem_insert.mp hmod
        · exact SubscribeList.mem_subscribe.mpr (Or.inl ⟨rfl, rfl⟩)
        · exact hold.booked hclean mod hmod
      · intro q hq
        exact (hold.subscribed q hq).imp_left fun hq => HashSet.mem_insert.mpr (Or.inr hq)
    have hconn := hbooked.setConn (c := { c with subList := c.subList.insert (requestKey req) }) hl hself
    exact hconn.subscribed hmode (conns_setConn_self ..) (HashSet.mem_insert.mpr (Or.inl rfl))

theorem getHosts (h : WorkerInv s w) {req : GetRouteRequest}
    (hmode : s.mode w = .getHosts fd req) :
    WorkerInv (s.setMode w (.send fd (routeResponse s.route req.modid req.cmdid))) w := by
  apply h.setMode
  · intro f hf
    exact h.owned f (hmode ▸ hf)
  · intro f d _ _ hold
    rw [hmode] at hold
    refine hold.of_mode (fun _ => id) nofun fun q _ hq => ?_
    refine hq.of_read (f := fd) (k := requestKey req) (fun hmem => ?_) ?_ rfl rfl
    · exact Or.inl (List.mem_singleton.mp hmem)
    · intro hkey
      obtain ⟨h1, h2⟩ := packInts_injective hkey
      exact ⟨h1.symm, h2.symm⟩

theorem pushNext (h : WorkerInv s w) {mod : UInt64} {need : List (Fd × UInt64)}
    (hmode : s.mode w = .push ((fd, mod) :: need)) :
    WorkerInv (s.setMode w
      (.pushSend fd (routeResponse s.route (highInt mod) (lowInt mod)) need)) w := by
  apply h.setMode
  · intro f hf
    exact h.owned f (hmode ▸ hf)
  · intro f d _ _ hold
    rw [hmode] at hold
    refine hold.of_mode (fun _ => id) nofun fun q hcmd hq => ?_
    refine hq.of_read (f := fd) (k := mod) (fun hmem => List.mem_cons.mp hmem) ?_ rfl rfl
    rintro rfl
    exact ⟨highInt_packInts q.modid q.cmdid hcmd, lowInt_packInts q.modid q.cmdid⟩

/-- The response about to be sent becomes the last one that was sent. -/
theorem sendOn (h : WorkerInv s w) {c : Conn} {rsp : GetRouteResponse} {m n : Mode}
    (hmode : s.mode w = m) (hc : s.conns fd = some c) (hl : c.loop = w)
    (hout : ∀ f, m.outgoing f = if fd = f then [rsp] else []) (hread : n.toRead = m.toRead)
    (hn : ∀ f, n.outgoing f = []) (hfds : ∀ f ∈ n.fds, f ∈ m.fds)
    (hclean : ∀ f, ¬ m.Cleaning f) (hsub : ∀ f req, m ≠ .subscribe f req) :
    WorkerInv ((s.sendOn fd c rsp).setMode w n) w := by
  subst m
  have hmode : ∀ f d, f ≠ fd → s.ConnInv (s.mode w) f d → s.ConnInv n f d := by
    intro f d hf hd
    refine hd.of_mode (fun _ => hclean f) (fun q hq => absurd hq (hsub f q)) fun q _ hq => ?_
    refine hq.of_mode (fun hmem => hread ▸ hmem) ?_
    rw [hn, hout, if_neg hf.symm]
  have hold := h.conn fd c hc hl
  refine h.setConn_setMode hl (fun f hf => Or.inr (hfds f hf)) ⟨?_, ?_, ?_⟩
    fun f d hf _ _ hd => hmode f d hf hd
  · intro _
    exact hold.booked (hclean fd)
  · intro q hq
    exact Or.inl ((hold.subscribed q hq).resolve_right (hsub fd q))
  · intro _ q hq hcmd
    have hfresh := (hold.fresh (hclean fd) q hq hcmd).of_send (fun hmem => hread ▸ hmem) (hn fd)
    rwa [hout, if_pos rfl] at hfresh

theorem pushDone (h : WorkerInv s w) (hmode : s.mode w = .push []) :
    WorkerInv (s.setMode w .idle) w := by
  refine h.setMode (n := .idle) nofun ?_
  intro f d _ _ hd
  rw [hmode] at hd
  exact hd.of_mode (fun _ => id) nofun fun q _ hq => hq.of_mode nofun rfl

theorem unsubscribe (h : WorkerInv s w) {mod : UInt64} {mods : List UInt64}
    (hmode : s.mode w = .clean fd (mod :: mods)) :
    WorkerInv ({ s with subs := s.subs.unsubscribe mod fd }.setMode w (.clean fd mods)) w := by
  have hunsub : WorkerInv { s with subs := s.subs.unsubscribe mod fd } w := by
    refine ⟨h.owned, fun f d hd hdl => (h.conn f d hd hdl).of_subs rfl ?_⟩
    intro hclean m hm
    rw [hmode] at hclean
    exact SubscribeList.mem_unsubscribe.mpr ⟨hm, fun hf => hclean hf.2.symm⟩
  apply hunsub.setMode
  · intro f hf
    exact h.owned f (hmode ▸ hf)
  · intro f d _ _ hd
    rw [show Server.mode _ w = _ from hmode] at hd
    exact hd.of_mode id nofun fun q _ hq => hq.of_mode nofun rfl

theorem cleaned (h : WorkerInv s w) (hmode : s.mode w = .clean fd []) :
    WorkerInv ((s.setConn fd none).setMode w .idle) w := by
  constructor
  · rw [mode_setMode_self]
    nofun
  · rw [mode_setMode_self]
    intro f c hc hl
    have hf : f ≠ fd := by
      rintro rfl
      exact nomatch (conns_setConn_self ..).symm.trans hc
    have hd := h.conn f c ((conns_setConn_ne s hf _).symm.trans hc) hl
    rw [hmode] at hd
    rw [connInv_setMode, connInv_setConn]
    exact hd.of_mode (fun _ hfd => hf hfd.symm) nofun fun q _ hq => hq.of_mode nofun rfl

end WorkerInv

/-- A step of the worker `w` leaves what the other workers see as it was. -/
structure LocalStep (w : ℕ) (s t : Server) : Prop where
  route : t.route = s.route
  changed : t.changed = s.changed
  broadcast : t.broadcast = s.broadcast
  mode : ∀ v ≠ w, t.mode v = s.mode v
  tasks : ∀ v ≠ w, t.tasks v = s.tasks v
  conns : ∀ fd c, c.loop ≠ w → (t.conns fd = some c ↔ s.conns fd = some c)
  pushList : ∀ fd c, s.conns fd = some c → c.loop ≠ w →
    t.subs.pushList.find fd = s.subs.pushList.find fd
  bookList : ∀ fd c, s.conns fd = some c → c.loop ≠ w → ∀ mod,
    fd ∈ s.subs.bookList.find mod → fd ∈ t.subs.bookList.find mod

namespace LocalStep

theorem trans {u : Server} (h : LocalStep w s t) (h' : LocalStep w t u) : LocalStep w s u where
  route := h'.route.trans h.route
  changed := h'.changed.trans h.changed
  broadcast := h'.broadcast.trans h.broadcast
  mode v hv := (h'.mode v hv).trans (h.mode v hv)
  tasks v hv := (h'.tasks v hv).trans (h.tasks v hv)
  conns fd c hl := (h'.conns fd c hl).trans (h.conns fd c hl)
  pushList fd c hc hl :=
    (h'.pushList fd c ((h.conns fd c hl).mpr hc) hl).trans (h.pushList fd c hc hl)
  bookList fd c hc hl mod hfd :=
    h'.bookList fd c ((h.conns fd c hl).mpr hc) hl mod (h.bookList fd c hc hl mod hfd)

theorem setMode (s : Server) (w : ℕ) (m : Mode) : LocalStep w s (s.setMode w m) :=
  ⟨rfl, rfl, rfl, fun _ hv => mode_setMode_ne s hv m, fun _ _ => rfl, fun _ _ _ => Iff.rfl,
    fun _ _ _ _ => rfl, fun _ _ _ _ _ h => h⟩

theorem setConn {fd : Fd} {o : Option Conn} (hold : ∀ c, s.conns fd = some c → c.loop = w)
    (hnew : ∀ c, o = some c → c.loop = w) : LocalStep w s (s.setConn fd o) := by
  refine ⟨rfl, rfl, rfl, fun _ _ => rfl, fun _ _ => rfl, ?_, fun _ _ _ _ => rfl,
    fun _ _ _ _ _ h => h⟩
  intro f d hd
  by_cases hf : f = fd
  · subst f
    constructor
    · intro hc
      exact absurd (hnew d ((conns_setConn_self ..).symm.trans hc)) hd
    · intro hc
      exact absurd (hold d hc) hd
  · rw [conns_setConn_ne s hf]

theorem subs {l : SubscribeList} (hpush : l.pushList = s.subs.pushList)
    (hbook : ∀ fd c, s.conns fd = some c → c.loop ≠ w → ∀ mod,
      fd ∈ s.subs.bookList.find mod → fd ∈ l.bookList.find mod) :
    LocalStep w s { s with subs := l } :=
  ⟨rfl, rfl, rfl, fun _ _ => rfl, fun _ _ => rfl, fun _ _ _ => Iff.rfl,
    fun _ _ _ _ => by rw [hpush], hbook⟩

theorem pushChangeTask (s : Server) (w : ℕ) : LocalStep w s (s.pushChangeTask w) := by
  refine ⟨rfl, rfl, rfl, fun _ hv => mode_setMode_ne _ hv _,
    fun _ hv => Function.update_of_ne hv .., fun _ _ _ => Iff.rfl, ?_, fun _ _ _ _ _ h => h⟩
  intro fd c hc hl
  apply SubscribeList.makePublishMap_find
  rw [← Bool.not_eq_true, listens_iff]
  rintro ⟨d, hd, hdl⟩
  cases hc.symm.trans hd
  exact hl hdl

theorem workerInv (h : LocalStep w s t) {v : ℕ} (hv : v ≠ w) (hs : WorkerInv s v) :
    WorkerInv t v := by
  have hconn : ∀ fd c, c.loop = v → (t.conns fd = some c ↔ s.conns fd = some c) := by
    rintro fd c rfl
    exact h.conns fd c hv
  constructor
  · intro fd hfd
    rw [h.mode v hv] at hfd
    obtain ⟨c, hc, hl⟩ := hs.owned fd hfd
    exact ⟨c, (hconn fd c hl).mpr hc, hl⟩
  · intro fd c hc hl
    rw [hconn fd c hl] at hc
    rw [h.mode v hv]
    subst hl
    have hold := hs.conn fd c hc rfl
    refine ⟨?_, hold.subscribed, ?_⟩
    · intro hclean mod hmod
      exact h.bookList fd c hc hv mod (hold.booked hclean mod hmod)
    · intro hclean req hreq hcmd
      have hfresh := hold.fresh hclean req hreq hcmd
      unfold Fresh TaskPending at hfresh ⊢
      rwa [h.changed, h.pushList fd c hc hv, h.tasks _ hv, h.broadcast, h.route]

end LocalStep

theorem WorkerInv.loop_eq (h : WorkerInv s w) {fd : Fd} {c : Conn} (hfd : fd ∈ (s.mode w).fds)
    (hc : s.conns fd = some c) : c.loop = w := by
  obtain ⟨d, hd, hl⟩ := h.owned fd hfd
  cases hc.symm.trans hd
  exact hl

namespace LocalStep

/-- The connection that the worker is serving changes. -/
theorem setOwnConn {fd : Fd} {c c' : Conn} (hc : s.conns fd = some c) (hl : c.loop = w)
    (hl' : c'.loop = w) : LocalStep w s (s.setConn fd (some c')) := by
  apply setConn
  · intro d hd
    cases hc.symm.trans hd
    exact hl
  · intro d hd
    cases hd
    exact hl'

theorem sendOn {fd : Fd} {c : Conn} (hc : s.conns fd = some c) (hl : c.loop = w)
    (rsp : GetRouteResponse) : LocalStep w s (s.sendOn fd c rsp) := setOwnConn hc hl hl

theorem subscribe {fd : Fd} {c : Conn} (hc : s.conns fd = some c) (hl : c.loop = w)
    (req : GetRouteRequest) : LocalStep w s (s.subscribe w fd c req) := by
  unfold Server.subscribe
  split_ifs with hkey
  · exact setMode ..
  · refine ((subs (l := s.subs.subscribe (requestKey req) fd) rfl ?_).trans
      (setOwnConn hc hl ?_)).trans (setMode ..)
    · intro f d _ _ mod hf
      exact SubscribeList.mem_subscribe.mpr (Or.inr hf)
    · exact hl

theorem getRoute {fd : Fd} {c : Conn} (hc : s.conns fd = some c) (hl : c.loop = w)
    (req : GetRouteRequest) : LocalStep w s (s.getRoute w fd c req) :=
  LocalStep.trans (t := s.setConn fd (some { c with requested := c.requested ++ [req] }))
    (setOwnConn hc hl hl) (setMode ..)

theorem unsubscribe {fd : Fd} (hfd : ∀ c, s.conns fd = some c → c.loop = w) (mod : UInt64) :
    LocalStep w s { s with subs := s.subs.unsubscribe mod fd } := by
  apply subs (l := s.subs.unsubscribe mod fd) rfl
  intro f c hc hl m hf
  refine SubscribeList.mem_unsubscribe.mpr ⟨hf, ?_⟩
  rintro ⟨-, rfl⟩
  exact hl (hfd c hc)

end LocalStep

theorem WorkerInv.resume (h : WorkerInv s w) (hstep : s.resume? w = some t) :
    WorkerInv t w ∧ LocalStep w s t := by
  have howned : ∀ fd c, fd ∈ (s.mode w).fds → s.conns fd = some c → c.loop = w :=
    fun _ _ hfd hc => h.loop_eq hfd hc
  unfold resume? at hstep
  cases hmode : s.mode w with
  | idle =>
    rw [hmode] at hstep
    cases hstep
  | subscribe fd req =>
    rw [hmode] at hstep howned
    obtain ⟨c, hc, rfl⟩ := Option.map_eq_some_iff.mp hstep
    have hl := howned fd c (List.mem_singleton_self _) hc
    exact ⟨h.subscribe hmode hc hl, .subscribe hc hl req⟩
  | getHosts fd req =>
    rw [hmode] at hstep
    cases hstep
    exact ⟨h.getHosts hmode, .setMode ..⟩
  | send fd rsp =>
    rw [hmode] at hstep howned
    obtain ⟨c, hc, rfl⟩ := Option.map_eq_some_iff.mp hstep
    have hl := howned fd c (List.mem_singleton_self _) hc
    refine ⟨h.sendOn hmode hc hl (fun _ => rfl) rfl (fun _ => rfl) nofun (fun _ => id) nofun, ?_⟩
    exact (LocalStep.sendOn hc hl rsp).trans (.setMode ..)
  | push need =>
    rw [hmode] at hstep
    match need with
    | [] =>
      cases hstep
      exact ⟨h.pushDone hmode, .setMode ..⟩
    | (fd, mod) :: need =>
      cases hstep
      exact ⟨h.pushNext hmode, .setMode ..⟩
  | pushSend fd rsp need =>
    obtain ⟨c, hc, hl⟩ := h.owned fd (hmode ▸ List.mem_cons_self)
    rw [hmode] at hstep
    simp only [hc] at hstep
    cases hstep
    refine ⟨h.sendOn hmode hc hl (fun _ => rfl) rfl (fun _ => rfl) ?_ (fun _ => id) nofun, ?_⟩
    · exact fun f hf => List.mem_cons_of_mem fd hf
    · exact (LocalStep.sendOn hc hl rsp).trans (.setMode ..)
  | clean fd mods =>
    rw [hmode] at hstep howned
    have hfd : ∀ c, s.conns fd = some c → c.loop = w :=
      fun c hc => howned fd c (List.mem_singleton_self _) hc
    match mods with
    | [] =>
      cases hstep
      exact ⟨h.cleaned hmode, (LocalStep.setConn (o := none) hfd nofun).trans (.setMode ..)⟩
    | mod :: mods =>
      cases hstep
      exact ⟨h.unsubscribe hmode, (LocalStep.unsubscribe hfd mod).trans (.setMode ..)⟩

/-- A swap marks every module whose hosts it changes. -/
theorem WorkerInv.swap (h : WorkerInv s w) (rows : List RouteRow) : WorkerInv (s.swap rows) w := by
  refine ⟨h.owned, fun fd c hc hl => ?_⟩
  have hold := h.conn fd c hc hl
  refine ⟨hold.booked, hold.subscribed, ?_⟩
  intro hclean req hreq hcmd
  obtain hf | hf | hf | ⟨rsp, hlast, hcur⟩ := hold.fresh hclean req hreq hcmd
  · exact Or.inl (List.mem_append_left _ hf)
  · exact Or.inr (Or.inl hf)
  · exact Or.inr (Or.inr (Or.inl hf))
  · by_cases hdiff : requestKey req ∈
        RouteMap.differing s.route.dataPointer (s.swap rows).route.dataPointer
    · exact Or.inl (List.mem_append_right _ hdiff)
    · obtain ⟨hm, hc⟩ := lastAnswer?_names hlast
      refine Or.inr (Or.inr (Or.inr ⟨rsp, hlast, hcur.of_same ?_⟩))
      rw [hm, hc]
      exact RouteMap.same_of_notMem_differing hdiff

/-- Publishing queues every module that a swap has marked, since its subscribers are booked. -/
theorem WorkerInv.publish (h : WorkerInv s w) {changeMods : List UInt64}
    (hall : s.changed ⊆ changeMods) : WorkerInv (s.publish changeMods) w := by
  refine ⟨h.owned, fun fd c hc hl => ?_⟩
  have hold := h.conn fd c hc hl
  have htask : (s.publish changeMods).TaskPending c.loop := Or.inr ⟨0, rfl, Nat.zero_le _⟩
  refine ⟨hold.booked, hold.subscribed, ?_⟩
  intro hclean req hreq hcmd
  obtain hf | ⟨hf, -⟩ | hf | hf := hold.fresh hclean req hreq hcmd
  · obtain hkey | hmode := hold.subscribed req hreq
    · have hbook := hold.booked hclean _ hkey
      have hpush := (SubscribeList.mem_publish changeMods).mpr (Or.inl ⟨hall hf, hbook⟩)
      exact Or.inr (Or.inl ⟨hpush, htask⟩)
    · have hread : (fd, requestKey req) ∈ (s.mode w).toRead := by
        rw [hmode]
        exact List.mem_singleton_self _
      exact Or.inr (Or.inr (Or.inl hread))
  · exact Or.inr (Or.inl ⟨(SubscribeList.mem_publish changeMods).mpr (Or.inr hf), htask⟩)
  · exact Or.inr (Or.inr (Or.inl hf))
  · exact Or.inr (Or.inr (Or.inr hf))

theorem TaskPending.sendTask {threads i : ℕ} (h : s.TaskPending w) (hi : s.broadcast = some i)
    (hw : w < threads) : (s.sendTask threads i).TaskPending w := by
  unfold TaskPending Server.sendTask at *
  split_ifs with hlt
  · by_cases hwi : w = i
    · subst w
      left
      simp
    · obtain h | ⟨j, hj, hjw⟩ := h
      · left
        simpa [hwi] using h
      · cases hi.symm.trans hj
        exact Or.inr ⟨i + 1, rfl, by omega⟩
  · obtain h | ⟨j, hj, hjw⟩ := h
    · exact Or.inl h
    · cases hi.symm.trans hj
      omega

theorem WorkerInv.sendTask {threads i : ℕ} (h : WorkerInv s w) (hi : s.broadcast = some i)
    (hw : w < threads) : WorkerInv (s.sendTask threads i) w := by
  have hsame : (s.sendTask threads i).conns = s.conns ∧ (s.sendTask threads i).mode = s.mode ∧
      (s.sendTask threads i).subs = s.subs ∧ (s.sendTask threads i).route = s.route ∧
      (s.sendTask threads i).changed = s.changed := by
    unfold Server.sendTask
    split_ifs <;> exact ⟨rfl, rfl, rfl, rfl, rfl⟩
  obtain ⟨hconns, hmode, hsubs, hroute, hchanged⟩ := hsame
  constructor
  · rw [hconns, hmode]
    exact h.owned
  · rw [hconns, hmode]
    intro fd c hc hl
    have hold := h.conn fd c hc hl
    refine ⟨hsubs ▸ hold.booked, hold.subscribed, ?_⟩
    intro hclean req hreq hcmd
    unfold Fresh
    rw [hsubs, hroute, hchanged]
    obtain hf | ⟨hf, ht⟩ | hf := hold.fresh hclean req hreq hcmd
    · exact Or.inl hf
    · exact Or.inr (Or.inl ⟨hf, ht.sendTask hi (hl ▸ hw)⟩)
    · exact Or.inr (Or.inr hf)

structure Inv (threads : ℕ) (s : Server) : Prop where
  loop_lt : ∀ fd c, s.conns fd = some c → c.loop < threads
  worker : ∀ w < threads, WorkerInv s w

theorem Inv.init (threads : ℕ) (rows : List RouteRow) : Inv threads (Server.init rows) :=
  ⟨nofun, fun _ _ => ⟨nofun, nofun⟩⟩

/-- A step of one worker is a matter of that worker alone. -/
theorem Inv.local {threads : ℕ} (h : Inv threads s) (hw : w < threads) (hlocal : LocalStep w s t)
    (hself : WorkerInv t w) : Inv threads t := by
  constructor
  · intro fd c hc
    by_cases hl : c.loop = w
    · exact hl ▸ hw
    · exact h.loop_lt fd c ((hlocal.conns fd c hl).mp hc)
  · intro v hv
    by_cases hvw : v = w
    · subst v
      exact hself
    · exact hlocal.workerInv hvw (h.worker v hv)

theorem Inv.ready {threads : ℕ} (h : Inv threads s) {fd : Fd} {c : Conn}
    (hready : s.ready? w fd = some c) :
    w < threads ∧ s.mode w = .idle ∧ s.conns fd = some c ∧ c.loop = w := by
  obtain ⟨hidle, hc, hl⟩ := ready?_eq_some hready
  exact ⟨hl ▸ h.loop_lt fd c hc, hidle, hc, hl⟩

theorem Inv.step {threads : ℕ} (h : Inv threads s) {a : ServerAction}
    (hstep : s.step threads a = some t) : Inv threads t := by
  cases a with
  | newConn w fd =>
    simp only [Server.step, Option.ite_none_right_eq_some] at hstep
    obtain ⟨⟨hw, -, hnone⟩, hstep⟩ := hstep
    cases hstep
    refine h.local hw (.setConn ?_ ?_) (h.worker w hw).newConn
    · intro c hc
      exact nomatch hnone.symm.trans hc
    · intro c hc
      cases hc
      rfl
  | getRoute w fd data =>
    obtain ⟨c, hready, rfl⟩ := Option.map_eq_some_iff.mp hstep
    obtain ⟨hw, hidle, hc, hl⟩ := h.ready hready
    exact h.local hw (.getRoute hc hl _) ((h.worker w hw).getRoute hidle hc hl _)
  | cleanConn w fd =>
    obtain ⟨c, hready, rfl⟩ := Option.map_eq_some_iff.mp hstep
    obtain ⟨hw, hidle, hc, hl⟩ := h.ready hready
    exact h.local hw (.setMode ..) ((h.worker w hw).cleanConn hidle hc hl)
  | pushChangeTask w =>
    simp only [Server.step, Option.ite_none_right_eq_some] at hstep
    obtain ⟨⟨hw, hidle, -⟩, hstep⟩ := hstep
    cases hstep
    exact h.local hw (.pushChangeTask s w) ((h.worker w hw).pushChangeTask hidle)
  | resume w =>
    simp only [Server.step, Option.ite_none_right_eq_some] at hstep
    obtain ⟨hw, hstep⟩ := hstep
    obtain ⟨hself, hlocal⟩ := (h.worker w hw).resume hstep
    exact h.local hw hlocal hself
  | swap rows =>
    simp only [Server.step, Option.ite_none_right_eq_some] at hstep
    obtain ⟨-, hstep⟩ := hstep
    cases hstep
    exact ⟨h.loop_lt, fun w hw => (h.worker w hw).swap rows⟩
  | publish changeMods =>
    simp only [Server.step, Option.ite_none_right_eq_some] at hstep
    obtain ⟨⟨-, hall⟩, hstep⟩ := hstep
    cases hstep
    exact ⟨h.loop_lt, fun w hw => (h.worker w hw).publish hall⟩
  | sendTask =>
    obtain ⟨i, hi, rfl⟩ := Option.map_eq_some_iff.mp hstep
    refine ⟨?_, fun w hw => (h.worker w hw).sendTask hi hw⟩
    unfold Server.sendTask
    split_ifs <;> exact h.loop_lt

/-- Every swap has been published, every push task has run, and no callback is in progress. -/
def Quiescent (threads : ℕ) (s : Server) : Prop :=
  s.changed = [] ∧ s.broadcast = none ∧ ∀ w < threads, s.mode w = .idle ∧ s.tasks w = 0

instance (threads : ℕ) (s : Server) : Decidable (s.Quiescent threads) :=
  inferInstanceAs (Decidable (_ ∧ _ ∧ _))

/-- At rest, the last response for a module that was asked for is current. -/
theorem Inv.lastAnswer_current {threads : ℕ} (h : Inv threads s) (hq : s.Quiescent threads) {fd : Fd}
    {c : Conn} (hc : s.conns fd = some c) {req : GetRouteRequest} (hreq : req ∈ c.requested)
    (hcmd : 0 ≤ req.cmdid.toInt) : ∃ rsp, lastAnswer? req c.sent = some rsp ∧ Current s.route rsp := by
  obtain ⟨hchanged, hbroadcast, hidle⟩ := hq
  have hlt := h.loop_lt fd c hc
  obtain ⟨hmode, htasks⟩ := hidle c.loop hlt
  have hconn := (h.worker c.loop hlt).conn fd c hc rfl
  rw [hmode] at hconn
  obtain hf | ⟨-, ht | ⟨i, hi, -⟩⟩ | hf | hlast := hconn.fresh id req hreq hcmd
  · rw [hchanged] at hf
    cases hf
  · omega
  · rw [hbroadcast] at hi
    cases hi
  · cases hf
  · rwa [show Mode.outgoing fd .idle = [] from rfl, List.append_nil] at hlast

/-- At rest, the last response on a connection for each module that it has asked for holds
exactly the hosts of the current table. -/
theorem last_response_current (threads : ℕ) (rows : List RouteRow) (s : Server)
    (hs : Reachable (Server.step threads) (Server.init rows) s) (hq : s.Quiescent threads)
    (fd : Fd) (c : Conn) (hc : s.conns fd = some c) (req : GetRouteRequest)
    (hreq : req ∈ c.requested) (hcmd : 0 ≤ req.cmdid.toInt) :
    ∃ rsp, lastAnswer? req c.sent = some rsp ∧
      rsp.host.Perm ((s.route.getHosts req.modid req.cmdid).elems.map hostInfo) := by
  have hinv : Inv threads s :=
    Reachable.invariant (fun _ _ _ h hstep => h.step hstep) (Inv.init threads rows) hs
  obtain ⟨rsp, hlast, hcur⟩ := hinv.lastAnswer_current hq hc hreq hcmd
  obtain ⟨hm, hcm⟩ := lastAnswer?_names hlast
  refine ⟨rsp, hlast, ?_⟩
  rw [← hm, ← hcm]
  exact hcur

/-- A request whose response is built before a swap and sent after the swap is published. -/
def overtakenRun : List ServerAction :=
  [.newConn 0 5, .getRoute 0 5 (Message.serialize (⟨1, 1⟩ : GetRouteRequest)), .resume 0, .resume 0,
    .swap [⟨1, 1, 8, 80⟩], .publish [packInts 1 1], .sendTask, .resume 0, .sendTask,
    .pushChangeTask 0, .resume 0, .resume 0, .resume 0]

def overtakenServer : Server :=
  (run? (Server.step 1) (Server.init [⟨1, 1, 7, 80⟩]) overtakenRun).getD (Server.init [])

theorem overtakenServer_reachable :
    Reachable (Server.step 1) (Server.init [⟨1, 1, 7, 80⟩]) overtakenServer :=
  ⟨overtakenRun, (Option.getD_of_ne_none (Option.isSome_iff_ne_none.mp (by decide +kernel)) _).symm⟩

/-- The connection has been sent the response from before the swap and then the current one. -/
theorem last_response_current_overtaken :
    ∃ c, overtakenServer.conns 5 = some c ∧ c.sent.length = 2 ∧
      ∃ rsp, lastAnswer? ⟨1, 1⟩ c.sent = some rsp ∧
        rsp.host.Perm ((overtakenServer.route.getHosts 1 1).elems.map hostInfo) := by
  have hc : overtakenServer.conns 5 = some ⟨0, ⟨[packInts 1 1], by decide⟩, [⟨1, 1⟩],
      [⟨1, 1, [⟨7, 80⟩]⟩, ⟨1, 1, [⟨8, 80⟩]⟩]⟩ := by decide +kernel
  exact ⟨_, hc, rfl, last_response_current 1 _ _ overtakenServer_reachable (by decide +kernel) 5 _
    hc ⟨1, 1⟩ (by decide) (by decide)⟩

end Server

end Lrlb.Dns
