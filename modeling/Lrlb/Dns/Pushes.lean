import Lrlb.Dns.Freshness

/-! Who a push reaches: descriptors are numbers that a later connection may get again, and the
push list outlives the connection that it was filled for. -/
namespace Lrlb.Dns
open Lib
open Proto (GetRouteRequest GetRouteResponse)

namespace Server

/-- The server with a poller that may publish any list. -/
def pushStep (threads : ℕ) (s : Server) : ServerAction → Option Server
  | .publish changeMods => if s.broadcast = none then some (s.publish changeMods) else none
  | a => s.step threads a

/-- What a step is, with what it finds. -/
inductive PushStep (threads : ℕ) (s : Server) : ServerAction → Server → Prop
  | newConn (w : ℕ) (fd : Fd) : s.mode w = .idle → s.conns fd = none →
    PushStep threads s (.newConn w fd) (s.newConn w fd)
  | getRoute (w : ℕ) (fd : Fd) (data : List UInt8) (c : Conn) : s.mode w = .idle →
    s.conns fd = some c → c.loop = w →
      PushStep threads s (.getRoute w fd data) (s.getRoute w fd c (Message.parse data).1)
  | cleanConn (w : ℕ) (fd : Fd) (c : Conn) : s.mode w = .idle → s.conns fd = some c → c.loop = w →
    PushStep threads s (.cleanConn w fd) (s.cleanConn w fd c)
  | pushChangeTask (w : ℕ) : s.mode w = .idle →
    PushStep threads s (.pushChangeTask w) (s.pushChangeTask w)
  | resume (w : ℕ) (t : Server) : s.resume? w = some t → PushStep threads s (.resume w) t
  | swap (rows : List RouteRow) : PushStep threads s (.swap rows) (s.swap rows)
  | publish (changeMods : List UInt64) :
    PushStep threads s (.publish changeMods) (s.publish changeMods)
  | sendTask (i : ℕ) : s.broadcast = some i → PushStep threads s .sendTask (s.sendTask threads i)

theorem pushStep_inv {threads : ℕ} {s t : Server} {a : ServerAction}
    (h : s.pushStep threads a = some t) : PushStep threads s a t := by
  cases a with
  | newConn w fd =>
    simp only [pushStep, Server.step, Option.ite_none_right_eq_some] at h
    obtain ⟨⟨-, hidle, hnone⟩, h⟩ := h
    cases h
    exact .newConn w fd hidle hnone
  | getRoute w fd data =>
    obtain ⟨c, hready, rfl⟩ := Option.map_eq_some_iff.mp h
    obtain ⟨hidle, hc, hl⟩ := ready?_eq_some hready
    exact .getRoute w fd data c hidle hc hl
  | cleanConn w fd =>
    obtain ⟨c, hready, rfl⟩ := Option.map_eq_some_iff.mp h
    obtain ⟨hidle, hc, hl⟩ := ready?_eq_some hready
    exact .cleanConn w fd c hidle hc hl
  | pushChangeTask w =>
    simp only [pushStep, Server.step, Option.ite_none_right_eq_some] at h
    obtain ⟨⟨-, hidle, -⟩, h⟩ := h
    cases h
    exact .pushChangeTask w hidle
  | resume w =>
    simp only [pushStep, Server.step, Option.ite_none_right_eq_some] at h
    exact .resume w t h.2
  | swap rows =>
    simp only [pushStep, Server.step, Option.ite_none_right_eq_some] at h
    obtain ⟨-, h⟩ := h
    cases h
    exact .swap rows
  | publish changeMods =>
    simp only [pushStep, Option.ite_none_right_eq_some] at h
    obtain ⟨-, h⟩ := h
    cases h
    exact .publish changeMods
  | sendTask =>
    obtain ⟨i, hi, rfl⟩ := Option.map_eq_some_iff.mp h
    exact .sendTask i hi

/-- The response names a module that the connection itself has asked for and subscribed to. -/
def ForSubscribed (rsp : GetRouteResponse) (c : Conn) : Prop :=
  ∃ req ∈ c.requested, requestKey req ∈ c.subList ∧ rsp.modid = req.modid ∧ rsp.cmdid = req.cmdid

/-- Whatever a push task is about to send is for a module of the connection it is sent on. -/
def PushesSubscribed (s : Server) : Prop :=
  ∀ w fd rsp needPublish c, s.mode w = .pushSend fd rsp needPublish → s.conns fd = some c →
    ForSubscribed rsp c

/-- A new connection finds nothing in the push list under its number, and a published key is
one that unpacks to its own module. -/
def NoStalePush (s : Server) : ServerAction → Prop
  | .newConn _ fd => s.subs.pushList.find fd = ∅
  | .publish changeMods => ∀ mod ∈ changeMods, 0 ≤ (lowInt mod).toInt
  | _ => True

instance (s : Server) (a : ServerAction) : Decidable (s.NoStalePush a) :=
  match a with
  | .newConn _ fd => inferInstanceAs (Decidable (s.subs.pushList.find fd = ∅))
  | .publish changeMods => List.decidableBAll (fun mod => 0 ≤ (lowInt mod).toInt) changeMods
  | .getRoute .. | .cleanConn .. | .pushChangeTask _ | .resume _ | .swap _ | .sendTask =>
    inferInstanceAs (Decidable True)

/-- The worker `w` listens on `fd`, whose connection satisfies `P`. -/
def Owner (s : Server) (w : ℕ) (fd : Fd) (P : Conn → Prop) : Prop :=
  ∃ c, s.conns fd = some c ∧ c.loop = w ∧ P c

def Subscribed (mod : UInt64) (c : Conn) : Prop := mod ∈ c.subList ∧ 0 ≤ (lowInt mod).toInt

/-- What a worker in the middle of a callback relies on. -/
def ModeOk (s : Server) (w : ℕ) : Mode → Prop
  | .idle => True
  | .subscribe fd req => s.Owner w fd fun c => req ∈ c.requested
  | .getHosts fd _ | .send fd _ => s.Owner w fd fun _ => True
  | .push needPublish => ∀ x ∈ needPublish, s.Owner w x.1 (Subscribed x.2)
  | .pushSend fd rsp needPublish =>
    s.Owner w fd (ForSubscribed rsp) ∧ ∀ x ∈ needPublish, s.Owner w x.1 (Subscribed x.2)
  | .clean fd mods => s.Owner w fd fun _ => ∀ mod, fd ∈ s.subs.bookList.find mod → mod ∈ mods

/-- A connection's own list, the book list and the push list agree, except that entries of the
push list may stand for a connection that is gone. -/
structure Subscriptions (s : Server) : Prop where
  requested : ∀ fd c, s.conns fd = some c → ∀ mod ∈ c.subList, ∃ req ∈ c.requested,
    requestKey req = mod
  booked : ∀ mod fd, fd ∈ s.subs.bookList.find mod → ∃ c, s.conns fd = some c ∧ mod ∈ c.subList
  queued : ∀ fd mod, mod ∈ s.subs.pushList.find fd → 0 ≤ (lowInt mod).toInt ∧
    ∀ c, s.conns fd = some c → mod ∈ c.subList
  mode : ∀ w, s.ModeOk w (s.mode w)

variable {s t : Server} {w : ℕ} {fd : Fd} {c : Conn}

/-- The response that a push task builds for a subscribed key names the module of the request
that subscribed to it. -/
theorem forSubscribed_routeResponse (hreq : ∀ mod ∈ c.subList, ∃ req ∈ c.requested,
    requestKey req = mod) {mod : UInt64} (hmod : Subscribed mod c) (route : Route) :
    ForSubscribed (routeResponse route (highInt mod) (lowInt mod)) c := by
  obtain ⟨hsub, hlow⟩ := hmod
  obtain ⟨req, hr, rfl⟩ := hreq mod hsub
  have hcmd : lowInt (requestKey req) = req.cmdid := lowInt_packInts ..
  rw [hcmd] at hlow
  exact ⟨req, hr, hsub, highInt_packInts req.modid req.cmdid hlow, hcmd⟩

/-- A worker's step leaves the connections of the other workers alone. -/
theorem Owner.of_local (h : LocalStep w s t) {v : ℕ} (hv : v ≠ w) {P : Conn → Prop}
    (ho : s.Owner v fd P) : t.Owner v fd P := by
  obtain ⟨c, hc, rfl, hP⟩ := ho
  exact ⟨c, (h.conns fd c hv).mpr hc, rfl, hP⟩

/-- A step of `w` books nothing for the connections of the other workers. -/
def BooksOwn (w : ℕ) (s t : Server) : Prop :=
  ∀ fd c mod, s.conns fd = some c → c.loop ≠ w → fd ∈ t.subs.bookList.find mod →
    fd ∈ s.subs.bookList.find mod

theorem ModeOk.of_local (h : LocalStep w s t) (hbook : BooksOwn w s t) {v : ℕ} (hv : v ≠ w)
    {m : Mode} (hm : s.ModeOk v m) : t.ModeOk v m := by
  cases m with
  | idle => trivial
  | subscribe fd req => exact Owner.of_local h hv hm
  | getHosts fd req => exact Owner.of_local h hv hm
  | send fd rsp => exact Owner.of_local h hv hm
  | push needPublish => exact fun x hx => Owner.of_local h hv (hm x hx)
  | pushSend fd rsp needPublish =>
    exact ⟨Owner.of_local h hv hm.1, fun x hx => Owner.of_local h hv (hm.2 x hx)⟩
  | clean fd mods =>
    obtain ⟨c, hc, rfl, hmods⟩ := hm
    refine ⟨c, (h.conns fd c hv).mpr hc, rfl, ?_⟩
    intro mod hmod
    exact hmods mod (hbook fd c mod hc hv hmod)

namespace Subscriptions

theorem init (rows : List RouteRow) : Subscriptions (Server.init rows) :=
  ⟨nofun, nofun, nofun, fun _ => trivial⟩

/-- A worker's step has to answer for that worker only. -/
theorem of_local (h : Subscriptions s) (hlocal : LocalStep w s t) (hbook : BooksOwn w s t)
    (hreq : ∀ fd c, t.conns fd = some c → ∀ mod ∈ c.subList, ∃ req ∈ c.requested,
      requestKey req = mod)
    (hbooked : ∀ mod fd, fd ∈ t.subs.bookList.find mod →
      ∃ c, t.conns fd = some c ∧ mod ∈ c.subList)
    (hqueued : ∀ fd mod, mod ∈ t.subs.pushList.find fd → 0 ≤ (lowInt mod).toInt ∧
      ∀ c, t.conns fd = some c → mod ∈ c.subList)
    (hself : t.ModeOk w (t.mode w)) : Subscriptions t := by
  refine ⟨hreq, hbooked, hqueued, ?_⟩
  intro v
  by_cases hv : v = w
  · subst v
    exact hself
  · rw [hlocal.mode v hv]
    exact ModeOk.of_local hlocal hbook hv (h.mode v)

theorem setMode (h : Subscriptions s) {m : Mode} (hm : s.ModeOk w m) :
    Subscriptions (s.setMode w m) := by
  apply h.of_local (LocalStep.setMode s w m) (fun _ _ _ _ _ hfd => hfd) h.requested h.booked h.queued
  rw [mode_setMode_self]
  cases m <;> exact hm

/-- A callback that changes its connection without dropping a subscription, and then goes on in
another mode. -/
theorem setConn_setMode (h : Subscriptions s) (hc : s.conns fd = some c) (hl : c.loop = w)
    {c' : Conn} (hl' : c'.loop = w) (hsub : c'.subList = c.subList)
    (hreq : c.requested ⊆ c'.requested) {m : Mode}
    (hm : (s.setConn fd (some c')).ModeOk w m) :
    Subscriptions ((s.setConn fd (some c')).setMode w m) := by
  have hconn : ∀ f d, (s.setConn fd (some c')).conns f = some d →
      ∃ d', s.conns f = some d' ∧ d.subList = d'.subList ∧ d'.requested ⊆ d.requested := by
    intro f d hd
    by_cases hf : f = fd
    · subst f
      cases (conns_setConn_self ..).symm.trans hd
      exact ⟨c, hc, hsub, hreq⟩
    · rw [conns_setConn_ne s hf] at hd
      exact ⟨d, hd, rfl, List.Subset.refl _⟩
  have hback : ∀ f d, s.conns f = some d →
      ∃ d', (s.setConn fd (some c')).conns f = some d' ∧ d'.subList = d.subList := by
    intro f d hd
    by_cases hf : f = fd
    · subst f
      cases hc.symm.trans hd
      exact ⟨c', conns_setConn_self .., hsub⟩
    · exact ⟨d, (conns_setConn_ne s hf _).trans hd, rfl⟩
  apply h.of_local ((LocalStep.setOwnConn hc hl hl').trans (.setMode _ w m))
  · exact fun _ _ _ _ _ hfd => hfd
  · intro f d hd mod hmod
    obtain ⟨d', hd', hs, hr⟩ := hconn f d hd
    obtain ⟨req, hreq, hkey⟩ := h.requested f d' hd' mod (hs ▸ hmod)
    exact ⟨req, hr hreq, hkey⟩
  · intro mod f hf
    obtain ⟨d, hd, hmod⟩ := h.booked mod f hf
    obtain ⟨d', hd', hs⟩ := hback f d hd
    exact ⟨d', hd', hs ▸ hmod⟩
  · intro f mod hmod
    obtain ⟨hlow, hin⟩ := h.queued f mod hmod
    refine ⟨hlow, ?_⟩
    intro d hd
    obtain ⟨d', hd', hs, -⟩ := hconn f d hd
    exact hs ▸ hin d' hd'
  · rw [mode_setMode_self]
    cases m <;> exact hm

theorem newConn (h : Subscriptions s) (hnone : s.conns fd = none)
    (hidle : s.mode w = .idle) (hclean : s.subs.pushList.find fd = ∅) :
    Subscriptions (s.newConn w fd) := by
  have hold : ∀ f d, s.conns f = some d → f ≠ fd := by
    rintro f d hd rfl
    exact nomatch hnone.symm.trans hd
  have hlocal : LocalStep w s (s.newConn w fd) := by
    apply LocalStep.setConn
    · intro d hd
      exact nomatch hnone.symm.trans hd
    · intro d hd
      cases hd
      rfl
  apply h.of_local hlocal (fun _ _ _ _ _ hfd => hfd)
  · intro f d hd mod hmod
    by_cases hf : f = fd
    · subst f
      cases (conns_setConn_self ..).symm.trans hd
      exact absurd hmod (HashSet.notMem_empty mod)
    · exact h.requested f d ((conns_setConn_ne s hf _).symm.trans hd) mod hmod
  · intro mod f hf
    obtain ⟨d, hd, hmod⟩ := h.booked mod f hf
    exact ⟨d, (conns_setConn_ne s (hold f d hd) _).trans hd, hmod⟩
  · intro f mod hmod
    obtain ⟨hlow, hin⟩ := h.queued f mod hmod
    refine ⟨hlow, ?_⟩
    intro d hd
    by_cases hf : f = fd
    · subst f
      rw [show (s.newConn w fd).subs.pushList.find fd = ∅ from hclean] at hmod
      exact absurd hmod (HashSet.notMem_empty mod)
    · exact hin d ((conns_setConn_ne s hf _).symm.trans hd)
  · rw [show (s.newConn w fd).mode w = .idle from hidle]
    trivial

theorem getRoute (h : Subscriptions s) (hc : s.conns fd = some c) (hl : c.loop = w)
    (req : GetRouteRequest) : Subscriptions (s.getRoute w fd c req) := by
  apply h.setConn_setMode hc hl
  · exact hl
  · rfl
  · exact List.subset_append_left ..
  · exact ⟨_, conns_setConn_self .., hl, List.mem_append_right _ (List.mem_singleton_self _)⟩

theorem cleanConn (h : Subscriptions s) (hc : s.conns fd = some c) (hl : c.loop = w) :
    Subscriptions (s.cleanConn w fd c) := by
  apply h.setMode
  refine ⟨c, hc, hl, ?_⟩
  intro mod hmod
  obtain ⟨d, hd, hin⟩ := h.booked mod fd hmod
  cases hc.symm.trans hd
  exact hin

/-- A push task takes the entries of its own connections, which are still subscribed. -/
theorem pushChangeTask (h : Subscriptions s) : Subscriptions (s.pushChangeTask w) := by
  apply h.of_local (LocalStep.pushChangeTask s w) (fun _ _ _ _ _ hfd => hfd) h.requested h.booked
  · intro f mod hmod
    apply h.queued f mod
    cases hon : s.listens w f with
    | false => exact SubscribeList.makePublishMap_find hon ▸ hmod
    | true =>
      have hgone := (SetMap.find_extract s.subs.pushList (s.listens w) f).2
      rw [hon, if_pos rfl] at hgone
      change mod ∈ (s.subs.pushList.extract (s.listens w)).2.find f at hmod
      rw [hgone] at hmod
      exact absurd hmod (HashSet.notMem_empty mod)
  · rw [Server.pushChangeTask, mode_setMode_self]
    rintro ⟨f, mod⟩ hx
    obtain ⟨hon, hmod⟩ := (SubscribeList.mem_makePublishMap _).mp hx
    obtain ⟨d, hd, hl⟩ := listens_iff.mp hon
    obtain ⟨hlow, hin⟩ := h.queued f mod hmod
    exact ⟨d, hd, hl, hin d hd, hlow⟩

theorem subscribe (h : Subscriptions s) (hc : s.conns fd = some c) (hl : c.loop = w)
    {req : GetRouteRequest} (hreq : req ∈ c.requested) :
    Subscriptions (s.subscribe w fd c req) := by
  have hlocal := LocalStep.subscribe hc hl req
  unfold Server.subscribe at hlocal ⊢
  split_ifs at hlocal ⊢ with hkey
  · exact h.setMode ⟨c, hc, hl, trivial⟩
  · set c' : Conn := { c with subList := c.subList.insert (requestKey req) }
    have hself : ∀ f d, (s.setConn fd (some c')).conns f = some d →
        (f = fd ∧ d = c') ∨ f ≠ fd ∧ s.conns f = some d := by
      intro f d hd
      by_cases hf : f = fd
      · subst f
        exact Or.inl ⟨rfl, Option.some.inj (hd.symm.trans (conns_setConn_self ..))⟩
      · exact Or.inr ⟨hf, (conns_setConn_ne s hf _).symm.trans hd⟩
    have hkept : ∀ f d mod, s.conns f = some d → mod ∈ d.subList →
        ∃ d', (s.setConn fd (some c')).conns f = some d' ∧ mod ∈ d'.subList := by
      intro f d mod hd hmod
      by_cases hf : f = fd
      · subst f
        cases hc.symm.trans hd
        exact ⟨c', conns_setConn_self .., HashSet.mem_insert.mpr (Or.inr hmod)⟩
      · exact ⟨d, (conns_setConn_ne s hf _).trans hd, hmod⟩
    apply h.of_local hlocal
    · intro f d mod hd hdl hmod
      obtain ⟨-, rfl⟩ | hmod := SubscribeList.mem_subscribe.mp hmod
      · cases hc.symm.trans hd
        exact absurd hl hdl
      · exact hmod
    · intro f d hd mod hmod
      obtain ⟨rfl, rfl⟩ | ⟨-, hd⟩ := hself f d hd
      · obtain rfl | hmod := HashSet.mem_insert.mp hmod
        · exact ⟨req, hreq, rfl⟩
        · exact h.requested f c hc mod hmod
      · exact h.requested f d hd mod hmod
    · intro mod f hf
      obtain ⟨rfl, rfl⟩ | hf := SubscribeList.mem_subscribe.mp hf
      · exact ⟨c', conns_setConn_self .., HashSet.mem_insert.mpr (Or.inl rfl)⟩
      · obtain ⟨d, hd, hmod⟩ := h.booked mod f hf
        exact hkept f d mod hd hmod
    · intro f mod hmod
      obtain ⟨hlow, hin⟩ := h.queued f mod hmod
      refine ⟨hlow, ?_⟩
      intro d hd
      obtain ⟨rfl, rfl⟩ | ⟨-, hd⟩ := hself f d hd
      · exact HashSet.mem_insert.mpr (Or.inr (hin c hc))
      · exact hin d hd
    · rw [mode_setMode_self]
      exact ⟨c', conns_setConn_self .., hl, trivial⟩

theorem unsubscribe (h : Subscriptions s) {mod : UInt64} {mods : List UInt64}
    (hmode : s.mode w = .clean fd (mod :: mods)) :
    Subscriptions ({ s with subs := s.subs.unsubscribe mod fd }.setMode w (.clean fd mods)) := by
  obtain ⟨c, hc, hl, hmods⟩ : s.ModeOk w (.clean fd (mod :: mods)) := hmode ▸ h.mode w
  have hlocal : LocalStep w s { s with subs := s.subs.unsubscribe mod fd } := by
    apply LocalStep.unsubscribe
    intro d hd
    cases hc.symm.trans hd
    exact hl
  apply h.of_local (hlocal.trans (.setMode ..))
  · intro f d m hd hdl hf
    exact (SubscribeList.mem_unsubscribe.mp hf).1
  · exact h.requested
  · intro m f hf
    exact h.booked m f (SubscribeList.mem_unsubscribe.mp hf).1
  · exact h.queued
  · rw [mode_setMode_self]
    refine ⟨c, hc, hl, ?_⟩
    intro m hm
    obtain ⟨hm, hne⟩ := SubscribeList.mem_unsubscribe.mp hm
    obtain rfl | hrest := List.mem_cons.mp (hmods m hm)
    · exact absurd ⟨rfl, rfl⟩ hne
    · exact hrest

/-- A connection that is closed is in no set of the book list any more, but it may be in the
push list. -/
theorem closed (h : Subscriptions s) (hmode : s.mode w = .clean fd []) :
    Subscriptions ((s.setConn fd none).setMode w .idle) := by
  obtain ⟨c, hc, hl, hmods⟩ : s.ModeOk w (.clean fd []) := hmode ▸ h.mode w
  have hleft : ∀ f d, (s.setConn fd none).conns f = some d → s.conns f = some d := by
    intro f d hd
    by_cases hf : f = fd
    · subst f
      exact nomatch (conns_setConn_self ..).symm.trans hd
    · exact (conns_setConn_ne s hf _).symm.trans hd
  have hlocal : LocalStep w s (s.setConn fd none) := by
    apply LocalStep.setConn
    · intro d hd
      cases hc.symm.trans hd
      exact hl
    · exact nofun
  apply h.of_local (hlocal.trans (.setMode ..))
  · exact fun _ _ _ _ _ hf => hf
  · exact fun f d hd => h.requested f d (hleft f d hd)
  · intro mod f hf
    obtain ⟨d, hd, hmod⟩ := h.booked mod f hf
    have hne : f ≠ fd := by
      rintro rfl
      exact nomatch hmods mod hf
    exact ⟨d, (conns_setConn_ne s hne _).trans hd, hmod⟩
  · intro f mod hmod
    obtain ⟨hlow, hin⟩ := h.queued f mod hmod
    exact ⟨hlow, fun d hd => hin d (hleft f d hd)⟩
  · rw [mode_setMode_self]
    trivial

/-- The connections that a push task still has to serve keep their subscriptions while it
sends on one of them. -/
theorem owner_sendOn (hc : s.conns fd = some c) (rsp : GetRouteResponse) {f : Fd} {mod : UInt64}
    (ho : s.Owner w f (Subscribed mod)) : (s.sendOn fd c rsp).Owner w f (Subscribed mod) := by
  obtain ⟨d, hd, hl, hsub⟩ := ho
  by_cases hf : f = fd
  · subst f
    cases hc.symm.trans hd
    exact ⟨_, conns_setConn_self .., hl, hsub⟩
  · exact ⟨d, (conns_setConn_ne s hf _).trans hd, hl, hsub⟩

theorem sendOn (h : Subscriptions s) (hc : s.conns fd = some c) (hl : c.loop = w)
    (rsp : GetRouteResponse) {m : Mode} (hm : (s.sendOn fd c rsp).ModeOk w m) :
    Subscriptions ((s.sendOn fd c rsp).setMode w m) := by
  apply h.setConn_setMode hc hl
  · exact hl
  · rfl
  · exact List.Subset.refl _
  · exact hm

theorem resume (h : Subscriptions s) (hstep : s.resume? w = some t) : Subscriptions t := by
  have hok := h.mode w
  unfold resume? at hstep
  cases hmode : s.mode w with
  | idle =>
    rw [hmode] at hstep
    cases hstep
  | subscribe fd req =>
    rw [hmode] at hstep hok
    obtain ⟨c, hc, hl, hreq⟩ := hok
    simp only [hc, Option.map_some] at hstep
    cases hstep
    exact h.subscribe hc hl hreq
  | getHosts fd req =>
    rw [hmode] at hstep hok
    cases hstep
    exact h.setMode hok
  | send fd rsp =>
    rw [hmode] at hstep hok
    obtain ⟨c, hc, hl, -⟩ := hok
    simp only [hc, Option.map_some] at hstep
    cases hstep
    exact h.sendOn hc hl rsp trivial
  | push needPublish =>
    rw [hmode] at hstep hok
    match needPublish with
    | [] =>
      cases hstep
      exact h.setMode trivial
    | (fd, mod) :: needPublish =>
      cases hstep
      obtain ⟨c, hc, hl, hsub⟩ := hok (fd, mod) List.mem_cons_self
      apply h.setMode
      exact ⟨⟨c, hc, hl, forSubscribed_routeResponse (h.requested fd c hc) hsub s.route⟩,
        fun x hx => hok x (List.mem_cons_of_mem _ hx)⟩
  | pushSend fd rsp needPublish =>
    rw [hmode] at hstep hok
    obtain ⟨⟨c, hc, hl, -⟩, hneed⟩ := hok
    simp only [hc] at hstep
    cases hstep
    exact h.sendOn hc hl rsp fun x hx => owner_sendOn hc rsp (hneed x hx)
  | clean fd mods =>
    rw [hmode] at hstep
    match mods with
    | [] =>
      cases hstep
      exact h.closed hmode
    | mod :: mods =>
      cases hstep
      exact h.unsubscribe hmode

theorem publish (h : Subscriptions s) {changeMods : List UInt64}
    (hlow : ∀ mod ∈ changeMods, 0 ≤ (lowInt mod).toInt) : Subscriptions (s.publish changeMods) := by
  refine ⟨h.requested, h.booked, ?_, ?_⟩
  · intro fd mod hmod
    obtain ⟨hin, hfd⟩ | hmod := (SubscribeList.mem_publish changeMods).mp hmod
    · refine ⟨hlow mod hin, ?_⟩
      intro c hc
      obtain ⟨d, hd, hsub⟩ := h.booked mod fd hfd
      cases hc.symm.trans hd
      exact hsub
    · exact h.queued fd mod hmod
  · intro w
    have hm := h.mode w
    change (s.publish changeMods).ModeOk w (s.mode w)
    generalize s.mode w = m at hm ⊢
    cases m <;> exact hm

theorem of_poller (h : Subscriptions s) (hconns : t.conns = s.conns) (hsubs : t.subs = s.subs)
    (hmode : t.mode = s.mode) : Subscriptions t := by
  refine ⟨hconns ▸ h.requested, ?_, ?_, ?_⟩
  · rw [hsubs, hconns]
    exact h.booked
  · rw [hsubs, hconns]
    exact h.queued
  · intro w
    have hm := h.mode w
    rw [hmode]
    unfold ModeOk Owner at hm ⊢
    rw [hconns, hsubs]
    exact hm

theorem step {threads : ℕ} (h : Subscriptions s) {a : ServerAction} (hG : s.NoStalePush a)
    (hstep : s.pushStep threads a = some t) : Subscriptions t := by
  cases pushStep_inv hstep with
  | newConn w fd hidle hnone => exact h.newConn hnone hidle hG
  | getRoute w fd data c _ hc hl => exact h.getRoute hc hl _
  | cleanConn w fd c _ hc hl => exact h.cleanConn hc hl
  | pushChangeTask w _ => exact h.pushChangeTask
  | resume w t ht => exact h.resume ht
  | swap rows => exact h.of_poller rfl rfl rfl
  | publish changeMods => exact h.publish hG
  | sendTask i _ =>
    unfold Server.sendTask
    split_ifs <;> exact h.of_poller rfl rfl rfl

theorem pushesSubscribed (h : Subscriptions s) : PushesSubscribed s := by
  intro w fd rsp needPublish c hmode hc
  have hok := h.mode w
  rw [hmode] at hok
  obtain ⟨⟨d, hd, -, hfor⟩, -⟩ := hok
  cases hc.symm.trans hd
  exact hfor

end Subscriptions

/-- In every run in which a descriptor is given out again only after the push list has no entry
for it, and in which only keys that unpack to their own module are published, a push task sends
on a connection only responses for modules that this connection has subscribed to. -/
theorem pushes_only_subscribed (threads : ℕ) (rows : List RouteRow) (as : List ServerAction)
    (hG : ∀ x ∈ attempted (pushStep threads) (Server.init rows) as, NoStalePush x.1 x.2) :
    ∀ s ∈ visited (pushStep threads) (Server.init rows) as, PushesSubscribed s := by
  intro s hs
  have hsubs : Subscriptions s :=
    forall_visited (G := NoStalePush) (fun _ _ _ h hG hstep => h.step hG hstep) (Server.init rows) as
      (.init rows) hG s hs
  exact hsubs.pushesSubscribed

/-- A connection subscribes to the module (1, 1), which is published. -/
def subscribedRun : List ServerAction :=
  [.newConn 0 5, .getRoute 0 5 (Message.serialize (⟨1, 1⟩ : GetRouteRequest)), .resume 0, .resume 0,
    .resume 0, .publish [packInts 1 1], .sendTask]

/-- The push task runs, and the descriptor is used again after the connection is closed. -/
def pushedThenReused : List ServerAction :=
  subscribedRun ++ [.pushChangeTask 0, .resume 0, .resume 0, .resume 0, .cleanConn 0 5, .resume 0,
    .resume 0, .newConn 0 5]

theorem pushes_only_subscribed_reused :
    (∃ s ∈ visited (pushStep 1) (Server.init []) pushedThenReused,
      ∃ rsp, s.mode 0 = .pushSend 5 rsp []) ∧
    ∀ s ∈ visited (pushStep 1) (Server.init []) pushedThenReused, PushesSubscribed s := by
  refine ⟨?_, pushes_only_subscribed 1 [] pushedThenReused (by decide +kernel)⟩
  have hmode : ∃ s ∈ visited (pushStep 1) (Server.init []) pushedThenReused,
      s.mode 0 = .pushSend 5 ⟨1, 1, []⟩ [] := by decide +kernel
  obtain ⟨s, hs, hmode⟩ := hmode
  exact ⟨s, hs, _, hmode⟩

/-- The connection is closed before the push task runs, and the next one with its number is sent
the response for a module that it never asked for. -/
def reusedBeforePush : List ServerAction :=
  subscribedRun ++ [.cleanConn 0 5, .resume 0, .resume 0, .newConn 0 5, .pushChangeTask 0, .resume 0]

theorem push_reaches_next_connection :
    ∃ s ∈ visited (pushStep 1) (Server.init []) reusedBeforePush, ¬ PushesSubscribed s := by
  have hstale : ∃ s ∈ visited (pushStep 1) (Server.init []) reusedBeforePush,
      s.mode 0 = .pushSend 5 ⟨1, 1, []⟩ [] ∧ s.conns 5 = some ⟨0, ∅, [], []⟩ := by decide +kernel
  obtain ⟨s, hs, hmode, hc⟩ := hstale
  refine ⟨s, hs, ?_⟩
  intro hpush
  obtain ⟨req, hreq, -⟩ := hpush 0 5 _ _ _ hmode hc
  cases hreq

/-- A module key as `push_change_task` takes it apart. -/
def unpackKey (key : UInt64) : Int32 × Int32 := (highInt key, lowInt key)

/-- `get_route` and `load_changes` pack a module into a key that unpacks to it, and for this key
`push_change_task` builds the response that `get_route` builds from the same table. -/
def PushLikeGetRoute (s : Server) (w : ℕ) (fd : Fd) (needPublish : List (Fd × UInt64))
    (modid cmdid : Int32) : Prop :=
  unpackKey (requestKey ⟨modid, cmdid⟩) = (modid, cmdid) ∧
  (∀ key ∈ Route.loadChanges [] (some [(modid.toUInt32, cmdid.toUInt32)]),
    unpackKey key = (modid, cmdid)) ∧
  ∃ rsp pushed,
    (s.setMode w (.getHosts fd ⟨modid, cmdid⟩)).resume? w = some (s.setMode w (.send fd rsp)) ∧
    (s.setMode w (.push ((fd, requestKey ⟨modid, cmdid⟩) :: needPublish))).resume? w =
      some (s.setMode w (.pushSend fd pushed needPublish)) ∧
    pushed.modid = rsp.modid ∧ pushed.cmdid = rsp.cmdid ∧ pushed.host.Perm rsp.host

theorem unpackKey_requestKey_iff (req : GetRouteRequest) :
    unpackKey (requestKey req) = (req.modid, req.cmdid) ↔ 0 ≤ req.cmdid.toInt := by
  rw [unpackKey, requestKey, Prod.mk.injEq, highInt_packInts_iff, lowInt_packInts]
  exact and_iff_left rfl

theorem setMode_setMode (s : Server) (w : ℕ) (m m' : Mode) :
    (s.setMode w m).setMode w m' = s.setMode w m' := by
  simp [setMode]

theorem resume?_getHosts (s : Server) (w : ℕ) (fd : Fd) (req : GetRouteRequest) :
    (s.setMode w (.getHosts fd req)).resume? w =
      some (s.setMode w (.send fd (routeResponse s.route req.modid req.cmdid))) := by
  rw [resume?, mode_setMode_self]
  exact congrArg some (setMode_setMode s w _ _)

theorem resume?_push (s : Server) (w : ℕ) (fd : Fd) (mod : UInt64)
    (needPublish : List (Fd × UInt64)) :
    (s.setMode w (.push ((fd, mod) :: needPublish))).resume? w = some (s.setMode w
      (.pushSend fd (routeResponse s.route (highInt mod) (lowInt mod)) needPublish)) := by
  rw [resume?, mode_setMode_self]
  exact congrArg some (setMode_setMode s w _ _)

/-- A negative command id is the only thing that makes the two responses differ: its sign
extension takes one from the module id in the upper half of the key. -/
theorem push_like_getRoute_iff (s : Server) (w : ℕ) (fd : Fd) (needPublish : List (Fd × UInt64))
    (modid cmdid : Int32) : PushLikeGetRoute s w fd needPublish modid cmdid ↔ 0 ≤ cmdid.toInt := by
  constructor
  · intro h
    exact (unpackKey_requestKey_iff ⟨modid, cmdid⟩).mp h.1
  · intro hcmd
    have hkey := (unpackKey_requestKey_iff ⟨modid, cmdid⟩).mpr hcmd
    refine ⟨hkey, ?_, _, _, resume?_getHosts .., resume?_push .., ?_⟩
    · intro key hmem
      -- the change list holds the key that the request packs
      obtain rfl : key = requestKey ⟨modid, cmdid⟩ := by
        simpa [Route.loadChanges, atoi, requestKey] using hmem
      exact hkey
    · obtain ⟨hmod, hcmd⟩ := Prod.mk.inj hkey
      rw [hmod, hcmd]
      exact ⟨rfl, rfl, List.Perm.refl _⟩

theorem push_unlike_getRoute_negative :
    ¬ PushLikeGetRoute (Server.init [⟨5, 4294967295, 1, 80⟩]) 0 5 [] 5 (-1) := by
  intro h
  have hkey : unpackKey (requestKey ⟨5, -1⟩) = (4, -1) := by decide
  exact absurd (hkey.symm.trans h.1) (by decide)

end Server

end Lrlb.Dns
