import Lrlb.Dns.Pushes

/-! The book list and the lists of the connections are two records of one relation, which
`get_route` and `clear_subscribe` keep in step. -/
namespace Lrlb.Dns
open Lib
open Proto (GetRouteRequest)

/-- What the book list has to know of a connection. -/
def Conn.books (c : Conn) : ℕ × HashSet UInt64 := (c.loop, c.subList)

namespace Server

/-- What the book list relies on of a worker in the middle of a callback. -/
def ModeBooked (s : Server) (w : ℕ) : Mode → Prop
  | .subscribe fd _ => s.listens w fd = true
  | .clean fd mods =>
    s.listens w fd = true ∧ mods.Nodup ∧ ∀ mod, fd ∈ s.subs.bookList.find mod ↔ mod ∈ mods
  | _ => True

structure Booked (s : Server) : Prop where
  nonempty : s.subs.bookList.NoEmpty
  booked : ∀ mod fd, fd ∈ s.subs.bookList.find mod → ∃ c, s.conns fd = some c ∧ mod ∈ c.subList
  listed : ∀ fd c mod, s.conns fd = some c → mod ∈ c.subList →
    fd ∈ s.subs.bookList.find mod ∨ ∃ mods, s.mode c.loop = .clean fd mods
  mode : ∀ w, s.ModeBooked w (s.mode w)

variable {s t : Server} {v w : ℕ} {fd : Fd} {c : Conn}

theorem listens_of_books (h : (t.conns fd).map Conn.books = (s.conns fd).map Conn.books) (w : ℕ) :
    t.listens w fd = s.listens w fd := by
  have hany : ∀ o : Option Conn, (o.any fun c => decide (c.loop = w)) =
      (o.map Conn.books).any fun b => decide (b.1 = w) := by
    rintro (_ | c) <;> rfl
  unfold listens
  rw [hany, hany, h]

/-- A descriptor belongs to one worker. -/
theorem listens_unique (hv : s.listens v fd = true) (hw : s.listens w fd = true) : v = w := by
  obtain ⟨c, hc, rfl⟩ := listens_iff.mp hv
  obtain ⟨d, hd, rfl⟩ := listens_iff.mp hw
  cases hc.symm.trans hd
  rfl

theorem listens_setConn_ne {f : Fd} (hf : f ≠ fd) (o : Option Conn) (w : ℕ) :
    (s.setConn fd o).listens w f = s.listens w f := by
  unfold listens
  rw [conns_setConn_ne s hf]

theorem ModeBooked.of_same {m : Mode} (h : s.ModeBooked w m)
    (hlisten : ∀ fd, s.listens w fd = true → t.listens w fd = true)
    (hbook : ∀ fd mod, s.listens w fd = true → m.Cleaning fd →
      (fd ∈ t.subs.bookList.find mod ↔ fd ∈ s.subs.bookList.find mod)) :
    t.ModeBooked w m := by
  cases m with
  | subscribe fd req => exact hlisten fd h
  | clean fd mods =>
    obtain ⟨hl, hnodup, hmods⟩ := h
    exact ⟨hlisten fd hl, hnodup, fun mod => (hbook fd mod hl rfl).trans (hmods mod)⟩
  | _ => trivial

namespace Booked

theorem init (rows : List RouteRow) : Booked (Server.init rows) := by
  refine ⟨fun mod fds h => ?_, nofun, nofun, fun _ => trivial⟩
  simp [Server.init, SubscribeList.empty] at h

/-- Only the worker that listens on a descriptor cleans it. -/
theorem listens_of_cleaning (h : Booked s) (hm : (s.mode w).Cleaning fd) : s.listens w fd = true := by
  have hok := h.mode w
  cases hmode : s.mode w with
  | clean f mods =>
    rw [hmode] at hm hok
    cases hm
    exact hok.1
  | _ =>
    rw [hmode] at hm
    cases hm

/-- A step that neither books nor changes a connection's list nor ends a cleaning. -/
theorem quiet (h : Booked s) (hbook : t.subs.bookList = s.subs.bookList)
    (hconns : ∀ fd, (t.conns fd).map Conn.books = (s.conns fd).map Conn.books)
    (hclean : ∀ v fd mods, s.mode v = .clean fd mods → t.mode v = .clean fd mods)
    (hmode : ∀ v, t.mode v = s.mode v ∨ t.ModeBooked v (t.mode v)) : Booked t := by
  refine ⟨hbook ▸ h.nonempty, fun mod fd hfd => ?_, fun fd c mod hc hmod => ?_, fun v => ?_⟩
  · obtain ⟨c, hc, hmod⟩ := h.booked mod fd (hbook ▸ hfd)
    have hc' := hconns fd
    rw [hc] at hc'
    obtain ⟨d, hd, hbooks⟩ := Option.map_eq_some_iff.mp hc'
    have hsub : d.subList = c.subList := congrArg Prod.snd hbooks
    exact ⟨d, hd, hsub ▸ hmod⟩
  · have hc' := (hconns fd).symm
    rw [hc] at hc'
    obtain ⟨d, hd, hbooks⟩ := Option.map_eq_some_iff.mp hc'
    have hsub : d.subList = c.subList := congrArg Prod.snd hbooks
    have hloop : d.loop = c.loop := congrArg Prod.fst hbooks
    rw [hbook]
    refine (h.listed fd d mod hd (hsub ▸ hmod)).imp_right ?_
    rintro ⟨mods, hm⟩
    exact ⟨mods, hclean _ fd mods (hloop ▸ hm)⟩
  · rcases hmode v with hm | hm
    · rw [hm]
      exact (h.mode v).of_same (fun fd hl => (listens_of_books (hconns fd) v).trans hl)
        fun fd mod _ _ => by rw [hbook]
    · exact hm

/-- A worker that is not cleaning goes on in another mode. -/
theorem quiet_setMode (h : Booked s) (hbook : t.subs.bookList = s.subs.bookList)
    (hconns : ∀ fd, (t.conns fd).map Conn.books = (s.conns fd).map Conn.books)
    (hmode : t.mode = s.mode) (hidle : ∀ fd, ¬ (s.mode w).Cleaning fd) {m : Mode}
    (hm : t.ModeBooked w m) : Booked (t.setMode w m) := by
  refine h.quiet hbook hconns (fun v fd mods hv => ?_) fun v => ?_
  · have hne : v ≠ w := by
      rintro rfl
      exact hidle fd (hv ▸ rfl)
    rw [mode_setMode_ne t hne, hmode, hv]
  · by_cases hne : v = w
    · subst v
      rw [mode_setMode_self]
      cases m <;> exact Or.inr hm
    · rw [mode_setMode_ne t hne, hmode]
      exact Or.inl rfl

theorem books_setConn {c' : Conn} (hc : s.conns fd = some c) (hbooks : c'.books = c.books) (f : Fd) :
    ((s.setConn fd (some c')).conns f).map Conn.books = (s.conns f).map Conn.books := by
  by_cases hf : f = fd
  · subst f
    rw [conns_setConn_self, hc, Option.map_some, Option.map_some, hbooks]
  · rw [conns_setConn_ne s hf]

theorem newConn (h : Booked s) (hnone : s.conns fd = none) : Booked (s.newConn w fd) := by
  have hne : ∀ {f c}, s.conns f = some c → f ≠ fd := by
    rintro f c hc rfl
    exact nomatch hnone.symm.trans hc
  refine ⟨h.nonempty, fun mod f hf => ?_, fun f d mod hd hmod => ?_, fun v => ?_⟩
  · obtain ⟨d, hd, hmod⟩ := h.booked mod f hf
    exact ⟨d, (conns_setConn_ne s (hne hd) _).trans hd, hmod⟩
  · by_cases hf : f = fd
    · subst f
      cases (conns_setConn_self ..).symm.trans hd
      exact absurd hmod (HashSet.notMem_empty mod)
    · exact h.listed f d mod ((conns_setConn_ne s hf _).symm.trans hd) hmod
  · refine (h.mode v).of_same (fun f hl => ?_) fun _ _ _ _ => Iff.rfl
    obtain ⟨d, hd, -⟩ := listens_iff.mp hl
    exact (listens_setConn_ne (hne hd) _ v).trans hl

/-- What `clear_subscribe` is going to unsubscribe is what is booked. -/
theorem cleanConn (h : Booked s) (hidle : s.mode w = .idle) (hc : s.conns fd = some c)
    (hl : c.loop = w) : Booked (s.cleanConn w fd c) := by
  refine h.quiet_setMode rfl (fun _ => rfl) rfl (fun f hf => ?_) ?_
  · rw [hidle] at hf
    cases hf
  · refine ⟨listens_iff.mpr ⟨c, hc, hl⟩, c.subList.nodup, fun mod => ⟨fun hfd => ?_, fun hmod => ?_⟩⟩
    · obtain ⟨d, hd, hin⟩ := h.booked mod fd hfd
      cases hc.symm.trans hd
      exact hin
    · rcases h.listed fd c mod hc hmod with hfd | ⟨mods, hm⟩
      · exact hfd
      · rw [hl, hidle] at hm
        cases hm

/-- The module enters both records. -/
theorem subscribe (h : Booked s) {req : GetRouteRequest} (hmode : s.mode w = .subscribe fd req)
    (hc : s.conns fd = some c) : Booked (s.subscribe w fd c req) := by
  have hl : s.listens w fd = true := by
    have hm := h.mode w
    rwa [hmode] at hm
  have hidle : ∀ f, ¬ (s.mode w).Cleaning f := by
    intro f hf
    rw [hmode] at hf
    cases hf
  unfold Server.subscribe
  split_ifs with hkey
  · exact h.quiet_setMode rfl (fun _ => rfl) rfl hidle trivial
  · set c' : Conn := { c with subList := c.subList.insert (requestKey req) }
    refine ⟨h.nonempty.insertAt _ _, fun mod f hf => ?_, fun f d mod hd hmod => ?_, fun v => ?_⟩
    · obtain ⟨rfl, rfl⟩ | hf := SubscribeList.mem_subscribe.mp hf
      · exact ⟨c', conns_setConn_self .., HashSet.mem_insert.mpr (Or.inl rfl)⟩
      · obtain ⟨d, hd, hmod⟩ := h.booked mod f hf
        by_cases hfd : f = fd
        · subst f
          cases hc.symm.trans hd
          exact ⟨c', conns_setConn_self .., HashSet.mem_insert.mpr (Or.inr hmod)⟩
        · exact ⟨d, (conns_setConn_ne s hfd _).trans hd, hmod⟩
    · -- a descriptor that is still being cleaned is not this worker's
      have hcleaning : ∀ {u f mods}, s.mode u = .clean f mods → u ≠ w := by
        rintro u f mods hu rfl
        exact hidle f (hu ▸ rfl)
      have hstill : ∀ {d : Conn}, (f ∈ s.subs.bookList.find mod ∨
          ∃ mods, s.mode d.loop = .clean f mods) →
          f ∈ (s.subs.subscribe (requestKey req) fd).bookList.find mod ∨ ∃ mods,
            Function.update s.mode w (.getHosts fd req) d.loop = .clean f mods := by
        rintro d (hf | ⟨mods, hm⟩)
        · exact Or.inl (SubscribeList.mem_subscribe.mpr (Or.inr hf))
        · exact Or.inr ⟨mods, (Function.update_of_ne (hcleaning hm) ..).trans hm⟩
      by_cases hfd : f = fd
      · subst f
        cases (conns_setConn_self ..).symm.trans hd
        obtain rfl | hmod := HashSet.mem_insert.mp hmod
        · exact Or.inl (SubscribeList.mem_subscribe.mpr (Or.inl ⟨rfl, rfl⟩))
        · exact hstill (d := c) (h.listed fd c mod hc hmod)
      · exact hstill (h.listed f d mod ((conns_setConn_ne s hfd _).symm.trans hd) hmod)
    · by_cases hv : v = w
      · subst v
        rw [mode_setMode_self]
        trivial
      · rw [mode_setMode_ne _ hv]
        have hne : ∀ f, s.listens v f = true → f ≠ fd := by
          rintro f hf rfl
          exact hv (listens_unique hf hl)
        refine (h.mode v).of_same (fun f hf => ?_) fun f mod hf _ => ?_
        · exact (listens_setConn_ne (hne f hf) _ v).trans hf
        · refine SubscribeList.mem_subscribe.trans (or_iff_right ?_)
          exact fun he => hne f hf he.2

/-- The module leaves the book list; the connection's list goes with the connection. -/
theorem unsubscribe (h : Booked s) {mod : UInt64} {mods : List UInt64}
    (hmode : s.mode w = .clean fd (mod :: mods)) :
    Booked ({ s with subs := s.subs.unsubscribe mod fd }.setMode w (.clean fd mods)) := by
  obtain ⟨hl, hnodup, hmods⟩ : s.ModeBooked w (.clean fd (mod :: mods)) := hmode ▸ h.mode w
  obtain ⟨hmod, hnodup⟩ := List.nodup_cons.mp hnodup
  refine ⟨h.nonempty.eraseAt _ _, fun m f hf => ?_, fun f d m hd hm => ?_, fun v => ?_⟩
  · exact h.booked m f (SubscribeList.mem_unsubscribe.mp hf).1
  · by_cases hfd : f = fd
    · subst f
      have hdl : d.loop = w := listens_unique (listens_iff.mpr ⟨d, hd, rfl⟩) hl
      exact Or.inr ⟨mods, by rw [hdl, mode_setMode_self]⟩
    · rcases h.listed f d m hd hm with hf | ⟨ms, hms⟩
      · exact Or.inl (SubscribeList.mem_unsubscribe.mpr ⟨hf, fun he => hfd he.2⟩)
      · have hne : d.loop ≠ w := by
          intro he
          rw [he, hmode] at hms
          cases hms
          exact hfd rfl
        exact Or.inr ⟨ms, (mode_setMode_ne _ hne _).trans hms⟩
  · by_cases hv : v = w
    · subst v
      rw [mode_setMode_self]
      refine ⟨hl, hnodup, fun m => ?_⟩
      refine SubscribeList.mem_unsubscribe.trans ?_
      rw [hmods m, List.mem_cons]
      constructor
      · rintro ⟨rfl | hm, hne⟩
        · exact absurd ⟨rfl, rfl⟩ hne
        · exact hm
      · intro hm
        refine ⟨Or.inr hm, ?_⟩
        rintro ⟨rfl, -⟩
        exact hmod hm
    · rw [mode_setMode_ne _ hv]
      refine (h.mode v).of_same (fun f hf => hf) fun f m hf _ => ?_
      refine SubscribeList.mem_unsubscribe.trans (and_iff_left ?_)
      rintro ⟨-, rfl⟩
      exact hv (listens_unique hf hl)

theorem closed (h : Booked s) (hmode : s.mode w = .clean fd []) :
    Booked ((s.setConn fd none).setMode w .idle) := by
  obtain ⟨hl, -, hmods⟩ : s.ModeBooked w (.clean fd []) := hmode ▸ h.mode w
  refine ⟨h.nonempty, fun m f hf => ?_, fun f d m hd hm => ?_, fun v => ?_⟩
  · have hne : f ≠ fd := by
      rintro rfl
      exact nomatch (hmods m).mp hf
    obtain ⟨d, hd, hm⟩ := h.booked m f hf
    exact ⟨d, (conns_setConn_ne s hne _).trans hd, hm⟩
  · have hfd : f ≠ fd := by
      rintro rfl
      exact nomatch (conns_setConn_self ..).symm.trans hd
    refine (h.listed f d m ((conns_setConn_ne s hfd _).symm.trans hd) hm).imp_right ?_
    rintro ⟨mods, hms⟩
    have hne : d.loop ≠ w := by
      intro he
      rw [he, hmode] at hms
      cases hms
      exact hfd rfl
    exact ⟨mods, (mode_setMode_ne _ hne _).trans hms⟩
  · by_cases hv : v = w
    · subst v
      rw [mode_setMode_self]
      trivial
    · rw [mode_setMode_ne _ hv]
      refine (h.mode v).of_same (fun f hf => ?_) fun _ _ _ _ => Iff.rfl
      have hne : f ≠ fd := by
        rintro rfl
        exact hv (listens_unique hf hl)
      exact (listens_setConn_ne hne _ v).trans hf

theorem resume (h : Booked s) (hstep : s.resume? w = some t) : Booked t := by
  have hidle : ∀ {m}, s.mode w = m → (∀ f, ¬ m.Cleaning f) → ∀ f, ¬ (s.mode w).Cleaning f :=
    fun hm hf => hm ▸ hf
  unfold resume? at hstep
  cases hmode : s.mode w with
  | idle =>
    rw [hmode] at hstep
    cases hstep
  | subscribe fd req =>
    rw [hmode] at hstep
    obtain ⟨c, hc, rfl⟩ := Option.map_eq_some_iff.mp hstep
    exact h.subscribe hmode hc
  | getHosts fd req =>
    rw [hmode] at hstep
    cases hstep
    exact h.quiet_setMode rfl (fun _ => rfl) rfl (hidle hmode nofun) trivial
  | send fd rsp =>
    rw [hmode] at hstep
    obtain ⟨c, hc, rfl⟩ := Option.map_eq_some_iff.mp hstep
    exact h.quiet_setMode (t := s.sendOn fd c rsp) rfl (books_setConn hc rfl) rfl
      (hidle hmode nofun) trivial
  | push needPublish =>
    rw [hmode] at hstep
    match needPublish with
    | [] =>
      cases hstep
      exact h.quiet_setMode rfl (fun _ => rfl) rfl (hidle hmode nofun) trivial
    | (fd, mod) :: needPublish =>
      cases hstep
      exact h.quiet_setMode rfl (fun _ => rfl) rfl (hidle hmode nofun) trivial
  | pushSend fd rsp needPublish =>
    rw [hmode] at hstep
    cases hc : s.conns fd with
    | none =>
      simp only [hc] at hstep
      cases hstep
      exact h.quiet_setMode rfl (fun _ => rfl) rfl (hidle hmode nofun) trivial
    | some c =>
      simp only [hc] at hstep
      cases hstep
      exact h.quiet_setMode (t := s.sendOn fd c rsp) rfl (books_setConn hc rfl) rfl
        (hidle hmode nofun) trivial
  | clean fd mods =>
    rw [hmode] at hstep
    match mods with
    | [] =>
      cases hstep
      exact h.closed hmode
    | mod :: mods =>
      cases hstep
      exact h.unsubscribe hmode

theorem of_poller (h : Booked s) (hbook : t.subs.bookList = s.subs.bookList)
    (hconns : t.conns = s.conns) (hmode : t.mode = s.mode) : Booked t :=
  h.quiet hbook (fun _ => by rw [hconns]) (fun _ _ _ hv => hmode ▸ hv) fun v => Or.inl (hmode ▸ rfl)

theorem step {threads : ℕ} (h : Booked s) {a : ServerAction}
    (hstep : s.pushStep threads a = some t) : Booked t := by
  cases pushStep_inv hstep with
  | newConn w fd _ hnone => exact h.newConn hnone
  | getRoute w fd data c hidle hc hl =>
    refine h.quiet_setMode ?_ ?_ ?_ (fun f hf => ?_) ?_
    · rfl
    · exact books_setConn hc rfl
    · rfl
    · rw [hidle] at hf
      cases hf
    · exact listens_iff.mpr ⟨_, conns_setConn_self .., hl⟩
  | cleanConn w fd c hidle hc hl => exact h.cleanConn hidle hc hl
  | pushChangeTask w hidle =>
    refine h.quiet_setMode ?_ (fun _ => ?_) ?_ (fun f hf => ?_) ?_
    · rfl
    · rfl
    · rfl
    · rw [hidle] at hf
      cases hf
    · trivial
  | resume w t ht => exact h.resume ht
  | swap rows => exact h.of_poller rfl rfl rfl
  | publish changeMods => exact h.of_poller rfl rfl rfl
  | sendTask i _ =>
    unfold Server.sendTask
    split_ifs <;> exact h.of_poller rfl rfl rfl

end Booked

/-- While no worker is in the middle of cleaning a descriptor, it is booked for exactly the modules
of the open connection with that number. There are no empty sets, and nothing is booked for a
descriptor without a connection. -/
theorem bookList_mirrors_connections (threads : ℕ) (rows : List RouteRow) (s : Server)
    (hs : Reachable (pushStep threads) (Server.init rows) s) :
    (∀ fd mod, (∀ w, ¬ (s.mode w).Cleaning fd) →
      (fd ∈ s.subs.bookList.find mod ↔ ∃ c, s.conns fd = some c ∧ mod ∈ c.subList)) ∧
    (∀ mod fds, s.subs.bookList.lookup mod = some fds → fds ≠ ∅) ∧
    ∀ fd mod, s.conns fd = none → fd ∉ s.subs.bookList.find mod := by
  have h : Booked s := hs.invariant (fun _ _ _ h hstep => h.step hstep) (.init rows)
  refine ⟨fun fd mod hidle => ⟨h.booked mod fd, ?_⟩, h.nonempty, fun fd mod hnone hfd => ?_⟩
  · rintro ⟨c, hc, hmod⟩
    refine (h.listed fd c mod hc hmod).resolve_right ?_
    rintro ⟨mods, hm⟩
    exact hidle c.loop (hm ▸ rfl)
  · obtain ⟨c, hc, -⟩ := h.booked mod fd hfd
    exact nomatch hnone.symm.trans hc

/-- Two connections share a module, one of them closes, and its number is given out again. -/
def sharedThenReused : List ServerAction :=
  [.newConn 0 5, .newConn 1 6, .getRoute 0 5 (Message.serialize (⟨1, 1⟩ : GetRouteRequest)),
    .getRoute 1 6 (Message.serialize (⟨1, 1⟩ : GetRouteRequest)), .resume 0, .resume 1, .resume 0,
    .resume 0, .cleanConn 0 5, .resume 0, .resume 0, .newConn 0 5]

theorem bookList_mirrors_connections_sharedThenReused :
    ∃ s, run? (pushStep 2) (Server.init []) sharedThenReused = some s ∧
      (s.subs.bookList.find (packInts 1 1)).elems = [6] ∧ (s.conns 5).isSome ∧
      (6 ∈ s.subs.bookList.find (packInts 1 1) ↔ ∃ c, s.conns 6 = some c ∧ packInts 1 1 ∈ c.subList) := by
  have hrun : (run? (pushStep 2) (Server.init []) sharedThenReused).map (fun s =>
      ((s.subs.bookList.find (packInts 1 1)).elems, (s.conns 5).isSome, s.listens 1 6, s.mode 1)) =
      some ([6], true, true, .getHosts 6 ⟨1, 1⟩) := by decide +kernel
  obtain ⟨s, hs, he⟩ := Option.map_eq_some_iff.mp hrun
  simp only [Prod.mk.injEq] at he
  obtain ⟨hfind, hopen, hlisten, hmode⟩ := he
  have hb : Booked s :=
    Reachable.invariant (fun _ _ _ h hstep => h.step hstep) (Booked.init []) ⟨_, hs⟩
  refine ⟨s, hs, hfind, hopen, ?_⟩
  refine (bookList_mirrors_connections 2 [] s ⟨_, hs⟩).1 6 (packInts 1 1) fun w hw => ?_
  obtain rfl : w = 1 := listens_unique (hb.listens_of_cleaning hw) hlisten
  rw [hmode] at hw
  cases hw

end Server

end Lrlb.Dns
