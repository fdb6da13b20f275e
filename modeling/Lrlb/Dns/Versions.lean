import Lrlb.Dns.BookList

/-! One connection of the dns server seen from outside, and the tables behind its responses. The
workers, their push tasks and the subscriptions refine a small machine for each descriptor. -/
namespace Lrlb.Dns
open Lib
open Proto (GetRouteRequest GetRouteResponse)

/-- What the worker of a connection is doing for it. -/
inductive Phase where
  | quiet
  | asked (req : GetRouteRequest)
  | ready (rsp : GetRouteResponse)

/-- An open connection: what is being done for it, and the responses sent on it. -/
structure View where
  phase : Phase
  sent : List GetRouteResponse

/-- The moves of one descriptor while the server takes the step `a` with this table. -/
inductive ViewStep (route : Route) (a : ServerAction) (fd : Fd) : Option View → Option View → Prop
  | same (o : Option View) : ViewStep route a fd o o
  | opened (w : ℕ) : a = .newConn w fd → ViewStep route a fd none (some ⟨.quiet, []⟩)
  | closed (v : View) : ViewStep route a fd (some v) none
  | asked (w : ℕ) (data : List UInt8) (sent : List GetRouteResponse) : a = .getRoute w fd data →
    ViewStep route a fd (some ⟨.quiet, sent⟩) (some ⟨.asked (Message.parse data).1, sent⟩)
  | answered (req : GetRouteRequest) (sent : List GetRouteResponse) :
    ViewStep route a fd (some ⟨.asked req, sent⟩)
      (some ⟨.ready (routeResponse route req.modid req.cmdid), sent⟩)
  | pushed (modid cmdid : Int32) (sent : List GetRouteResponse) :
    ViewStep route a fd (some ⟨.quiet, sent⟩)
      (some ⟨.ready (routeResponse route modid cmdid), sent⟩)
  | sent (rsp : GetRouteResponse) (sent : List GetRouteResponse) :
    ViewStep route a fd (some ⟨.ready rsp, sent⟩) (some ⟨.quiet, sent ++ [rsp]⟩)

def Mode.phase (fd : Fd) : Mode → Phase
  | .subscribe f req | .getHosts f req => if f = fd then .asked req else .quiet
  | .send f rsp | .pushSend f rsp _ => if f = fd then .ready rsp else .quiet
  | _ => .quiet

theorem Mode.phase_subscribe (fd : Fd) (req : GetRouteRequest) :
    (Mode.subscribe fd req).phase fd = .asked req := if_pos rfl

theorem Mode.phase_getHosts (fd : Fd) (req : GetRouteRequest) :
    (Mode.getHosts fd req).phase fd = .asked req := if_pos rfl

/-- What a view shows of the connection itself. -/
def Conn.traffic (c : Conn) : ℕ × List GetRouteResponse := (c.loop, c.sent)

namespace Server

/-- The abstraction of the server to one descriptor. -/
def view (s : Server) (fd : Fd) : Option View :=
  (s.conns fd).map fun c => ⟨(s.mode c.loop).phase fd, c.sent⟩

/-- A worker works for its own connections only. -/
def Owned (s : Server) : Prop := ∀ w, ∀ fd ∈ (s.mode w).fds, s.listens w fd = true

variable {s t : Server} {v w : ℕ} {fd f : Fd} {c : Conn}

theorem listens_setMode (s : Server) (w : ℕ) (m : Mode) (v : ℕ) (fd : Fd) :
    (s.setMode w m).listens v fd = s.listens v fd := rfl

/-- A connection is replaced by another of the same worker. -/
theorem listens_setConn_same {c' : Conn} (hc : s.conns fd = some c) (hl : c'.loop = c.loop)
    (v : ℕ) (f : Fd) : (s.setConn fd (some c')).listens v f = s.listens v f := by
  by_cases hf : f = fd
  · subst f
    unfold listens
    rw [conns_setConn_self, hc, Option.any_some, Option.any_some, hl]
  · exact listens_setConn_ne hf _ v

theorem loop_of_listens (h : s.listens w fd = true) (hc : s.conns fd = some c) : c.loop = w := by
  obtain ⟨d, hd, hl⟩ := listens_iff.mp h
  cases hc.symm.trans hd
  exact hl

namespace Owned

theorem init (rows : List RouteRow) : Owned (Server.init rows) := by
  intro w fd hfd
  cases hfd

/-- A worker goes on in a mode that uses no other descriptors. -/
theorem setMode (h : Owned s) (hl : ∀ v f, t.listens v f = s.listens v f)
    (hmode : t.mode = s.mode) {m : Mode}
    (hm : ∀ f ∈ m.fds, f ∈ (s.mode w).fds ∨ s.listens w f = true) : Owned (t.setMode w m) := by
  intro v f hf
  rw [listens_setMode, hl]
  by_cases hv : v = w
  · subst hv
    rw [mode_setMode_self] at hf
    cases hm f hf with
    | inl hold => exact h v f hold
    | inr hnew => exact hnew
  · rw [mode_setMode_ne t hv, hmode] at hf
    exact h v f hf

theorem closed (h : Owned s) (hmode : s.mode w = .clean fd []) :
    Owned ((s.setConn fd none).setMode w .idle) := by
  have hw : s.listens w fd = true := h w fd (hmode ▸ List.mem_singleton_self fd)
  intro v f hf
  by_cases hv : v = w
  · subst v
    rw [mode_setMode_self] at hf
    cases hf
  · rw [mode_setMode_ne _ hv] at hf
    have hvf : s.listens v f = true := h v f hf
    have hne : f ≠ fd := by
      intro he
      subst f
      exact hv (listens_unique hvf hw)
    exact (listens_setConn_ne hne none v).trans hvf

theorem sendOn (h : Owned s) {rsp : GetRouteResponse} (hc : s.conns fd = some c) {m : Mode}
    (hm : ∀ f ∈ m.fds, f ∈ (s.mode w).fds) : Owned ((s.sendOn fd c rsp).setMode w m) := by
  apply h.setMode
  · exact listens_setConn_same hc rfl
  · rfl
  · intro f hf
    exact Or.inl (hm f hf)

theorem resume (h : Owned s) (hstep : s.resume? w = some t) : Owned t := by
  have hkeep : ∀ {m : Mode}, (∀ f ∈ m.fds, f ∈ (s.mode w).fds) → Owned (s.setMode w m) :=
    fun hm => h.setMode (fun _ _ => rfl) rfl fun f hf => Or.inl (hm f hf)
  unfold resume? at hstep
  cases hmode : s.mode w with
  | idle =>
    rw [hmode] at hstep
    cases hstep
  | subscribe fd req =>
    rw [hmode] at hstep
    obtain ⟨c, hc, rfl⟩ := Option.map_eq_some_iff.mp hstep
    unfold Server.subscribe
    split_ifs
    · exact hkeep (by simp [hmode, Mode.fds])
    · apply h.setMode
      · exact listens_setConn_same (s := { s with subs := s.subs.subscribe (requestKey req) fd }) hc rfl
      · rfl
      · intro f hf
        rw [hmode]
        exact Or.inl hf
  | getHosts fd req =>
    rw [hmode] at hstep
    cases hstep
    exact hkeep (by simp [hmode, Mode.fds])
  | send fd rsp =>
    rw [hmode] at hstep
    obtain ⟨c, hc, rfl⟩ := Option.map_eq_some_iff.mp hstep
    exact h.sendOn hc (by simp [Mode.fds])
  | push needPublish =>
    rw [hmode] at hstep
    match needPublish with
    | [] =>
      cases hstep
      exact hkeep (by simp [Mode.fds])
    | (fd, mod) :: needPublish =>
      cases hstep
      exact hkeep (by simp [hmode, Mode.fds])
  | pushSend fd rsp needPublish =>
    rw [hmode] at hstep
    have hfds : ∀ f ∈ (Mode.push needPublish).fds, f ∈ (s.mode w).fds := by
      intro f hf
      rw [hmode]
      exact List.mem_cons_of_mem fd hf
    cases hc : s.conns fd with
    | none =>
      simp only [hc] at hstep
      cases hstep
      exact hkeep hfds
    | some c =>
      simp only [hc] at hstep
      cases hstep
      exact h.sendOn hc hfds
  | clean fd mods =>
    rw [hmode] at hstep
    match mods with
    | [] =>
      cases hstep
      exact h.closed hmode
    | mod :: mods =>
      cases hstep
      apply h.setMode
      · intro v f
        rfl
      · rfl
      · intro f hf
        rw [hmode]
        exact Or.inl hf

theorem step {threads : ℕ} (h : Owned s) {a : ServerAction}
    (hstep : s.pushStep threads a = some t) : Owned t := by
  cases pushStep_inv hstep with
  | newConn w fd _ hnone =>
    intro v f hf
    have hvf : s.listens v f = true := h v f hf
    have hne : f ≠ fd := by
      intro he
      subst f
      obtain ⟨c, hc, -⟩ := listens_iff.mp hvf
      cases hnone.symm.trans hc
    exact (listens_setConn_ne hne _ v).trans hvf
  | getRoute w fd data c hidle hc hl =>
    apply h.setMode
    · exact listens_setConn_same hc rfl
    · rfl
    · intro f hf
      rw [List.mem_singleton.mp hf]
      exact Or.inr (listens_iff.mpr ⟨c, hc, hl⟩)
  | cleanConn w fd c hidle hc hl =>
    apply h.setMode
    · intro v f
      rfl
    · rfl
    · intro f hf
      rw [List.mem_singleton.mp hf]
      exact Or.inr (listens_iff.mpr ⟨c, hc, hl⟩)
  | pushChangeTask w hidle =>
    apply h.setMode
    · intro v f
      rfl
    · rfl
    · intro f hf
      obtain ⟨⟨fd, mod⟩, hp, rfl⟩ := List.mem_map.mp hf
      exact Or.inr ((SubscribeList.mem_makePublishMap (s.listens w)).mp hp).1
  | resume w t ht => exact h.resume ht
  | swap rows => exact h
  | publish changeMods => exact h
  | sendTask i _ =>
    unfold Server.sendTask
    split_ifs <;> exact h

end Owned

section View

theorem view_of_conn (hc : s.conns fd = some c) (hl : c.loop = w) :
    s.view fd = some ⟨(s.mode w).phase fd, c.sent⟩ := by
  rw [view, hc, Option.map_some, hl]

theorem view_congr (hconn : (t.conns f).map Conn.traffic = (s.conns f).map Conn.traffic)
    (hphase : ∀ v, s.listens v f = true → (t.mode v).phase f = (s.mode v).phase f) :
    t.view f = s.view f := by
  cases hs : s.conns f with
  | none =>
    rw [hs, Option.map_none, Option.map_eq_none_iff] at hconn
    rw [view, view, hs, hconn]
    rfl
  | some c =>
    rw [hs, Option.map_some] at hconn
    obtain ⟨d, hd, htraffic⟩ := Option.map_eq_some_iff.mp hconn
    have hloop : d.loop = c.loop := congrArg Prod.fst htraffic
    have hsent : d.sent = c.sent := congrArg Prod.snd htraffic
    rw [view_of_conn hs rfl, view_of_conn hd hloop, hsent,
      hphase c.loop (listens_iff.mpr ⟨c, hs, rfl⟩)]

variable {route : Route} {a : ServerAction}

/-- A worker goes on in another mode without a change for the descriptor. -/
theorem viewStep_setMode (hconn : (t.conns f).map Conn.traffic = (s.conns f).map Conn.traffic)
    (hmode : t.mode = s.mode) {m : Mode} (hphase : m.phase f = (s.mode w).phase f) :
    ViewStep route a f (s.view f) ((t.setMode w m).view f) := by
  have hsame : (t.setMode w m).view f = s.view f := by
    refine view_congr (t := t.setMode w m) hconn ?_
    intro v _
    by_cases hv : v = w
    · subst hv
      rw [mode_setMode_self, hphase]
    · rw [mode_setMode_ne t hv, hmode]
  rw [hsame]
  exact .same _

theorem traffic_setConn (hc : s.conns fd = some c) (c' : Conn) (h : c'.traffic = c.traffic)
    (f : Fd) : ((s.setConn fd (some c')).conns f).map Conn.traffic =
      (s.conns f).map Conn.traffic := by
  by_cases hf : f = fd
  · subst hf
    rw [conns_setConn_self, hc, Option.map_some, Option.map_some, h]
  · rw [conns_setConn_ne s hf]

theorem traffic_setConn_ne (hf : f ≠ fd) (o : Option Conn) :
    ((s.setConn fd o).conns f).map Conn.traffic = (s.conns f).map Conn.traffic := by
  rw [conns_setConn_ne s hf]

/-- The worker has read the hosts of a module for one of its connections. -/
theorem viewStep_ready (hl : s.listens w fd = true) {m : Mode} {rsp : GetRouteResponse}
    (hm : ∀ f, m.phase f = if fd = f then .ready rsp else .quiet)
    (hquiet : ∀ f, fd ≠ f → (s.mode w).phase f = .quiet)
    (hmove : ∀ sent, ViewStep route a fd (some ⟨(s.mode w).phase fd, sent⟩)
      (some ⟨.ready rsp, sent⟩)) (f : Fd) :
    ViewStep route a f (s.view f) ((s.setMode w m).view f) := by
  by_cases hf : fd = f
  · subst hf
    obtain ⟨c, hc, hcl⟩ := listens_iff.mp hl
    have hc' : (s.setMode w m).conns fd = some c := hc
    rw [view_of_conn hc hcl, view_of_conn hc' hcl, mode_setMode_self, hm, if_pos rfl]
    exact hmove c.sent
  · apply viewStep_setMode rfl rfl
    rw [hm, if_neg hf, hquiet f hf]

/-- The worker sends what it has ready. -/
theorem viewStep_sendOn (hc : s.conns fd = some c) (hl : c.loop = w) {rsp : GetRouteResponse}
    {m : Mode} (hm : ∀ f, m.phase f = .quiet)
    (hready : ∀ f, (s.mode w).phase f = if fd = f then .ready rsp else .quiet) (f : Fd) :
    ViewStep route a f (s.view f) (((s.sendOn fd c rsp).setMode w m).view f) := by
  by_cases hf : fd = f
  · subst hf
    have hc' : ((s.sendOn fd c rsp).setMode w m).conns fd = some { c with sent := c.sent ++ [rsp] } :=
      conns_setConn_self ..
    rw [view_of_conn hc hl, view_of_conn hc' hl, hready, if_pos rfl, mode_setMode_self, hm]
    exact .sent rsp c.sent
  · refine viewStep_setMode (t := s.sendOn fd c rsp) (traffic_setConn_ne (Ne.symm hf) _) rfl ?_
    rw [hm, hready, if_neg hf]

theorem viewStep_closed (hl : s.listens w fd = true) (hquiet : ∀ f, (s.mode w).phase f = .quiet)
    (f : Fd) : ViewStep route a f (s.view f) (((s.setConn fd none).setMode w .idle).view f) := by
  by_cases hf : f = fd
  · subst hf
    obtain ⟨c, hc, hcl⟩ := listens_iff.mp hl
    have hnone : ((s.setConn f none).setMode w .idle).conns f = none := conns_setConn_self ..
    rw [view_of_conn hc hcl, view, hnone]
    exact .closed _
  · apply viewStep_setMode (traffic_setConn_ne hf none) rfl
    rw [hquiet]
    rfl

theorem view_resume (h : Owned s) (hstep : s.resume? w = some t) (f : Fd) :
    ViewStep s.route a f (s.view f) (t.view f) := by
  have hown : ∀ fd ∈ (s.mode w).fds, s.listens w fd = true := h w
  unfold resume? at hstep
  cases hmode : s.mode w with
  | idle =>
    rw [hmode] at hstep
    cases hstep
  | subscribe fd req =>
    rw [hmode] at hstep
    obtain ⟨c, hc, rfl⟩ := Option.map_eq_some_iff.mp hstep
    have hphase : (Mode.getHosts fd req).phase f = (s.mode w).phase f := by
      rw [hmode]
      rfl
    unfold Server.subscribe
    split_ifs
    · exact viewStep_setMode rfl rfl hphase
    · refine viewStep_setMode ?_ ?_ hphase
      · exact traffic_setConn (s := { s with subs := s.subs.subscribe (requestKey req) fd }) hc
          { c with subList := c.subList.insert (requestKey req) } rfl f
      · rfl
  | getHosts fd req =>
    rw [hmode] at hstep hown
    cases hstep
    apply viewStep_ready (hown fd (List.mem_singleton_self fd)) (fun _ => rfl)
    · intro f hf
      rw [hmode]
      exact if_neg hf
    · intro sent
      rw [hmode, Mode.phase_getHosts]
      exact .answered req sent
  | send fd rsp =>
    rw [hmode] at hstep hown
    obtain ⟨c, hc, rfl⟩ := Option.map_eq_some_iff.mp hstep
    have hl := loop_of_listens (hown fd (List.mem_singleton_self fd)) hc
    exact viewStep_sendOn hc hl (fun _ => rfl) (fun f => by rw [hmode]; rfl) f
  | push needPublish =>
    rw [hmode] at hstep hown
    match needPublish with
    | [] =>
      cases hstep
      exact viewStep_setMode rfl rfl (by rw [hmode]; rfl)
    | (fd, mod) :: needPublish =>
      cases hstep
      apply viewStep_ready (hown fd List.mem_cons_self) (fun _ => rfl)
      · intro f hf
        rw [hmode]
        rfl
      · intro sent
        rw [hmode]
        exact .pushed (highInt mod) (lowInt mod) sent
  | pushSend fd rsp needPublish =>
    rw [hmode] at hstep hown
    obtain ⟨c, hc, hl⟩ := listens_iff.mp (hown fd List.mem_cons_self)
    simp only [hc] at hstep
    cases hstep
    exact viewStep_sendOn hc hl (fun _ => rfl) (fun f => by rw [hmode]; rfl) f
  | clean fd mods =>
    rw [hmode] at hstep hown
    match mods with
    | [] =>
      cases hstep
      exact viewStep_closed (hown fd (List.mem_singleton_self fd)) (fun f => by rw [hmode]; rfl) f
    | mod :: mods =>
      cases hstep
      refine viewStep_setMode ?_ rfl (by rw [hmode]; rfl)
      rfl

theorem resume?_route (hstep : s.resume? w = some t) : t.route = s.route := by
  unfold resume? at hstep
  split at hstep
  · cases hstep
  · obtain ⟨c, -, rfl⟩ := Option.map_eq_some_iff.mp hstep
    unfold Server.subscribe
    split_ifs <;> rfl
  · cases hstep
    rfl
  · obtain ⟨c, -, rfl⟩ := Option.map_eq_some_iff.mp hstep
    rfl
  · cases hstep
    rfl
  · cases hstep
    rfl
  · split at hstep <;> cases hstep <;> rfl
  · cases hstep
    rfl
  · cases hstep
    rfl

theorem view_newConn (hidle : s.mode w = .idle) :
    (s.newConn w fd).view fd = some ⟨.quiet, []⟩ := by
  have hc : (s.newConn w fd).conns fd = some ⟨w, ∅, [], []⟩ := conns_setConn_self ..
  rw [view_of_conn hc rfl, show (s.newConn w fd).mode w = .idle from hidle]
  rfl

theorem view_getRoute (hidle : s.mode w = .idle) (hc : s.conns fd = some c) (hl : c.loop = w)
    (req : GetRouteRequest) : s.view fd = some ⟨.quiet, c.sent⟩ ∧
      (s.getRoute w fd c req).view fd = some ⟨.asked req, c.sent⟩ := by
  have hc' : (s.getRoute w fd c req).conns fd = some { c with requested := c.requested ++ [req] } :=
    conns_setConn_self ..
  have hmode : (s.getRoute w fd c req).mode w = .subscribe fd req := mode_setMode_self ..
  rw [view_of_conn hc hl, view_of_conn hc' hl, hidle, hmode, Mode.phase_subscribe]
  exact ⟨rfl, rfl⟩

/-- Whatever the server does, a descriptor makes one of its moves or none. -/
theorem view_step {threads : ℕ} (h : Owned s) (hstep : s.pushStep threads a = some t) (f : Fd) :
    ViewStep s.route a f (s.view f) (t.view f) := by
  cases pushStep_inv hstep with
  | newConn w fd hidle hnone =>
    by_cases hf : f = fd
    · subst hf
      rw [view_newConn hidle, view, hnone]
      exact .opened w rfl
    · have hsame : (s.newConn w fd).view f = s.view f :=
        view_congr (traffic_setConn_ne hf _) fun _ _ => rfl
      rw [hsame]
      exact .same _
  | getRoute w fd data c hidle hc hl =>
    by_cases hf : fd = f
    · subst hf
      obtain ⟨hs, ht⟩ := view_getRoute hidle hc hl (Message.parse data).1
      rw [hs, ht]
      exact .asked w data c.sent rfl
    · apply viewStep_setMode (traffic_setConn_ne (Ne.symm hf) _) rfl
      rw [hidle]
      exact if_neg hf
  | cleanConn w fd c hidle hc hl =>
    apply viewStep_setMode rfl rfl
    rw [hidle]
    rfl
  | pushChangeTask w hidle =>
    refine viewStep_setMode ?_ rfl ?_
    · rfl
    · rw [hidle]
      rfl
  | resume w t ht => exact view_resume h ht f
  | swap rows => exact .same _
  | publish changeMods => exact .same _
  | sendTask i _ =>
    unfold Server.sendTask
    split_ifs <;> exact .same _

end View

end Server

/-- The response lists what the table with this number lists for its module. -/
def Built (tables : List Route) (rsp : GetRouteResponse) (v : ℕ) : Prop :=
  ∃ route, tables[v]? = some route ∧ rsp = routeResponse route rsp.modid rsp.cmdid

/-- The numbers of the tables that responses are built from, none older than the one before. -/
structure Stamps (tables : List Route) (rsps : List GetRouteResponse) (vs : List ℕ) : Prop where
  built : List.Forall₂ (Built tables) rsps vs
  sorted : vs.Pairwise (· ≤ ·)

namespace Stamps

variable {tables : List Route} {rsps rsps' : List GetRouteResponse} {vs : List ℕ}

theorem nil (tables : List Route) : Stamps tables [] [] := ⟨.nil, .nil⟩

/-- A later table does not change the earlier ones. -/
theorem append_table (h : Stamps tables rsps vs) (route : Route) :
    Stamps (tables ++ [route]) rsps vs := by
  refine ⟨h.built.imp ?_, h.sorted⟩
  intro rsp v hb
  obtain ⟨r, hr, hrsp⟩ := hb
  exact ⟨r, List.getElem?_append_left (List.getElem?_eq_some_iff.mp hr).1 ▸ hr, hrsp⟩

theorem lt_length (h : Stamps tables rsps vs) {v : ℕ} (hv : v ∈ vs) : v < tables.length := by
  obtain ⟨i, hi, rfl⟩ := List.mem_iff_getElem.mp hv
  obtain ⟨hlen, hget⟩ := List.forall₂_iff_get.mp h.built
  obtain ⟨route, hroute, -⟩ := hget i (hlen ▸ hi) hi
  exact (List.getElem?_eq_some_iff.mp hroute).1

/-- A response built from the last table is in order after all others. -/
theorem snoc (h : Stamps tables rsps vs) {route : Route} (hlast : tables.getLast? = some route)
    (modid cmdid : Int32) :
    Stamps tables (rsps ++ [routeResponse route modid cmdid]) (vs ++ [tables.length - 1]) := by
  constructor
  · apply List.rel_append h.built
    refine .cons ⟨route, ?_, rfl⟩ .nil
    rw [← List.getLast?_eq_getElem?, hlast]
  · rw [List.pairwise_append]
    refine ⟨h.sorted, List.pairwise_singleton .., ?_⟩
    intro v hv u hu
    have hlt := h.lt_length hv
    rw [List.mem_singleton] at hu
    omega

theorem of_append (h : Stamps tables (rsps ++ rsps') vs) :
    Stamps tables rsps (vs.take rsps.length) := by
  constructor
  · have htake := List.forall₂_take rsps.length h.built
    rwa [List.take_left'] at htake
    rfl
  · exact h.sorted.sublist (List.take_sublist ..)

end Stamps

def Phase.pending : Phase → List GetRouteResponse
  | .ready rsp => [rsp]
  | _ => []

/-- The responses of a connection, with the one that is about to be sent. -/
def View.responses (v : View) : List GetRouteResponse := v.sent ++ v.phase.pending

theorem ViewStep.sent_prefix {route : Route} {a : ServerAction} {fd : Fd} {v v' : View}
    (h : ViewStep route a fd (some v) (some v')) : v.sent <+: v'.sent := by
  cases h with
  | sent rsp sent => exact List.prefix_append sent [rsp]
  | same | asked | answered | pushed => exact List.prefix_refl _

/-- A move adds at most one response, built from the table of the moment. -/
theorem Stamps.viewStep {tables : List Route} {route : Route} {a : ServerAction} {fd : Fd}
    {v v' : View} {vs : List ℕ} (h : Stamps tables v.responses vs)
    (hlast : tables.getLast? = some route) (hstep : ViewStep route a fd (some v) (some v')) :
    ∃ vs', vs <+: vs' ∧ Stamps tables v'.responses vs' := by
  cases hstep with
  | same => exact ⟨vs, List.prefix_refl vs, h⟩
  | asked w data sent _ => exact ⟨vs, List.prefix_refl vs, h⟩
  | answered req sent =>
    simp only [View.responses, Phase.pending, List.append_nil] at h
    exact ⟨_, List.prefix_append vs _, h.snoc hlast req.modid req.cmdid⟩
  | pushed modid cmdid sent =>
    simp only [View.responses, Phase.pending, List.append_nil] at h
    exact ⟨_, List.prefix_append vs _, h.snoc hlast modid cmdid⟩
  | sent rsp sent =>
    simp only [View.responses, Phase.pending, List.append_nil] at h ⊢
    exact ⟨vs, List.prefix_refl vs, h⟩

/-- The server with the tables that it has served, the current one last. -/
structure Versioned where
  server : Server
  tables : List Route

namespace Versioned

def init (rows : List RouteRow) : Versioned := ⟨Server.init rows, [(Server.init rows).route]⟩

def record (tables : List Route) (t : Server) : ServerAction → List Route
  | .swap _ => tables ++ [t.route]
  | _ => tables

def step (threads : ℕ) (h : Versioned) (a : ServerAction) : Option Versioned :=
  (h.server.pushStep threads a).map fun t => ⟨t, record h.tables t a⟩

/-- Workers only use their own connections, and the last table is the one being served. -/
structure Inv (h : Versioned) : Prop where
  owned : h.server.Owned
  last : h.tables.getLast? = some h.server.route

variable {threads : ℕ} {h k : Versioned} {a : ServerAction}

theorem Inv.init (rows : List RouteRow) : Inv (Versioned.init rows) := ⟨.init rows, rfl⟩

/-- A step keeps the table, or swaps in a new one. -/
theorem tables_step (hstep : h.step threads a = some k) :
    (k.tables = h.tables ∧ k.server.route = h.server.route) ∨
      k.tables = h.tables ++ [k.server.route] := by
  obtain ⟨t, ht, rfl⟩ := Option.map_eq_some_iff.mp hstep
  cases Server.pushStep_inv ht with
  | swap rows => exact Or.inr rfl
  | resume w t ht => exact Or.inl ⟨rfl, Server.resume?_route ht⟩
  | sendTask i _ =>
    refine Or.inl ⟨rfl, ?_⟩
    change (Server.sendTask threads h.server i).route = _
    unfold Server.sendTask
    split_ifs <;> rfl
  | newConn | getRoute | cleanConn | pushChangeTask | publish => exact Or.inl ⟨rfl, rfl⟩

theorem Inv.step (hi : Inv h) (hstep : h.step threads a = some k) : Inv k := by
  obtain ⟨t, ht, hk⟩ := Option.map_eq_some_iff.mp hstep
  refine ⟨?_, ?_⟩
  · rw [← hk]
    exact hi.owned.step ht
  · obtain ⟨htables, hroute⟩ | htables := tables_step hstep
    · rw [htables, hroute, hi.last]
    · rw [htables, List.getLast?_concat]

theorem Inv.viewStep (hi : Inv h) (hstep : h.step threads a = some k) (fd : Fd) :
    ViewStep h.server.route a fd (h.server.view fd) (k.server.view fd) := by
  obtain ⟨t, ht, rfl⟩ := Option.map_eq_some_iff.mp hstep
  exact Server.view_step hi.owned ht fd

/-- A request is only taken up where nothing else is going on, and nothing is sent yet. -/
theorem view_request {w : ℕ} {fd : Fd} {data : List UInt8}
    (hstep : h.step threads (.getRoute w fd data) = some k) :
    ∃ sent, h.server.view fd = some ⟨.quiet, sent⟩ ∧
      k.server.view fd = some ⟨.asked (Message.parse data).1, sent⟩ := by
  obtain ⟨t, ht, rfl⟩ := Option.map_eq_some_iff.mp hstep
  cases Server.pushStep_inv ht with
  | getRoute _ _ _ c hidle hc hl => exact ⟨c.sent, Server.view_getRoute hidle hc hl _⟩

/-- The tables are only added to. -/
theorem stamps_tables {rsps : List GetRouteResponse} {vs : List ℕ} (hs : Stamps h.tables rsps vs)
    (hstep : h.step threads a = some k) : Stamps k.tables rsps vs := by
  obtain ⟨htables, -⟩ | htables := tables_step hstep
  · rwa [htables]
  · rw [htables]
    exact hs.append_table _

/-- The stamps of a connection that stays open are only added to. -/
theorem Inv.stamps_step (hi : Inv h) (hstep : h.step threads a = some k) {fd : Fd} {v v' : View}
    (hv : h.server.view fd = some v) (hv' : k.server.view fd = some v') {vs : List ℕ}
    (hs : Stamps h.tables v.responses vs) :
    ∃ vs', vs <+: vs' ∧ Stamps k.tables v'.responses vs' := by
  have hview := hi.viewStep hstep fd
  rw [hv, hv'] at hview
  obtain ⟨vs', hprefix, hs'⟩ := hs.viewStep hi.last hview
  exact ⟨vs', hprefix, stamps_tables hs' hstep⟩

/-- The responses of every open connection are in order. -/
def Stamped (h : Versioned) : Prop :=
  ∀ fd v, h.server.view fd = some v → ∃ vs, Stamps h.tables v.responses vs

theorem Stamped.step (hs : Stamped h) (hi : Inv h) (hstep : h.step threads a = some k) :
    Stamped k := by
  intro fd v' hv'
  cases hv : h.server.view fd with
  | some v =>
    obtain ⟨vs, hvs⟩ := hs fd v hv
    obtain ⟨vs', -, hvs'⟩ := hi.stamps_step hstep hv hv' hvs
    exact ⟨vs', hvs'⟩
  | none =>
    have hview := hi.viewStep hstep fd
    rw [hv, hv'] at hview
    cases hview
    exact ⟨[], .nil _⟩

/-- Every response on a connection lists the hosts that one of the tables loaded so far lists for
its module, and the tables of later responses are never older, whatever module they are for. -/
theorem responses_in_table_order (threads : ℕ) (rows : List RouteRow) (h : Versioned)
    (hr : Reachable (Versioned.step threads) (Versioned.init rows) h) (fd : Fd) (c : Conn)
    (hc : h.server.conns fd = some c) : ∃ vs, Stamps h.tables c.sent vs := by
  have hall : Inv h ∧ Stamped h :=
    hr.invariant (P := fun h => Inv h ∧ Stamped h)
      (fun _ _ _ hh hstep => ⟨hh.1.step hstep, hh.2.step hh.1 hstep⟩)
      ⟨.init rows, fun _ _ hv => nomatch hv⟩
  obtain ⟨vs, hs⟩ := hall.2 fd _ (Server.view_of_conn hc rfl)
  exact ⟨_, hs.of_append⟩

/-- The table changes between two requests of one connection, and back again. -/
def changingRun : List ServerAction :=
  [.newConn 0 5, .getRoute 0 5 (Message.serialize (⟨1, 1⟩ : GetRouteRequest)), .resume 0, .resume 0,
    .swap [⟨1, 1, 8, 80⟩], .resume 0, .getRoute 0 5 (Message.serialize (⟨1, 1⟩ : GetRouteRequest)),
    .resume 0, .resume 0, .resume 0, .swap [⟨1, 1, 7, 80⟩]]

theorem responses_in_table_order_changing :
    ∃ h c, run? (Versioned.step 1) (Versioned.init [⟨1, 1, 7, 80⟩]) changingRun = some h ∧
      h.server.conns 5 = some c ∧ c.sent = [⟨1, 1, [⟨7, 80⟩]⟩, ⟨1, 1, [⟨8, 80⟩]⟩] ∧
      ∃ vs, Stamps h.tables c.sent vs := by
  have hrun : ((run? (Versioned.step 1) (Versioned.init [⟨1, 1, 7, 80⟩]) changingRun).bind fun h =>
      (h.server.conns 5).map Conn.sent) = some [⟨1, 1, [⟨7, 80⟩]⟩, ⟨1, 1, [⟨8, 80⟩]⟩] := by
    decide +kernel
  obtain ⟨h, hh, hsent⟩ := Option.bind_eq_some_iff.mp hrun
  obtain ⟨c, hc, hsent⟩ := Option.map_eq_some_iff.mp hsent
  exact ⟨h, c, hh, hc, hsent, responses_in_table_order 1 _ h ⟨_, hh⟩ 5 c hc⟩

end Versioned

end Lrlb.Dns
