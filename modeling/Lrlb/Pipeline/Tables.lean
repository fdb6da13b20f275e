import Lrlb.Agent.HostKeys
import Lrlb.Agent.Survivors
import Lrlb.Pipeline.Routes

/-! The tables that the modules of an agent show. The hosts of a module come from one table of the
dns server at a time, and the tables follow each other as the server loaded them. -/
namespace Lrlb.Pipeline
open Lib Lib.Message Agent Dns LoadBalance
open Proto (GetRouteRequest GetRouteResponse)
open Reactor (TcpClient frame)

/-- The hosts that the table with this number lists for a module. -/
def Lists (tables : List Route) (v : ℕ) (modid cmdid : Int32) (hosts : List Proto.HostInfo) : Prop :=
  ∃ route, tables[v]? = some route ∧ hosts = (routeResponse route modid cmdid).host

/-- The module holds a host under each key of the table with this number and under no other, and
each of its hosts has been listed for it in that table or an earlier one. -/
structure Shows (tables : List Route) (u : ℕ) (modid cmdid : Int32) (lb : LoadBalance) : Prop where
  keys : ∃ hosts, Lists tables u modid cmdid hosts ∧ ∀ k, k ∈ lb.hostMap ↔ k ∈ responseKeys hosts
  listed : ∀ p, lb.Holds p → ∃ v ≤ u, ∃ hosts, Lists tables v modid cmdid hosts ∧
    ∃ x ∈ hosts, Matches (lb.hosts p) x

section Shows

variable {R : Type} {cfg : Config R} {tables : List Route} {u v : ℕ} {modid cmdid : Int32}
  {hosts : List Proto.HostInfo} {lb lb' : LoadBalance}

theorem Lists.append (h : Lists tables v modid cmdid hosts) (route : Route) :
    Lists (tables ++ [route]) v modid cmdid hosts := by
  obtain ⟨r, hr, hhosts⟩ := h
  exact ⟨r, List.getElem?_append_left (List.getElem?_eq_some_iff.mp hr).1 ▸ hr, hhosts⟩

theorem Lists.of_built {rsp : GetRouteResponse} (h : Built tables rsp v) :
    Lists tables v rsp.modid rsp.cmdid rsp.host := by
  obtain ⟨route, hroute, hrsp⟩ := h
  refine ⟨route, hroute, ?_⟩
  rw [← hrsp]

theorem Shows.append (h : Shows tables u modid cmdid lb) (route : Route) :
    Shows (tables ++ [route]) u modid cmdid lb := by
  obtain ⟨hosts, hl, hk⟩ := h.keys
  refine ⟨⟨hosts, hl.append route, hk⟩, ?_⟩
  intro p hp
  obtain ⟨v, hv, hosts, hl, hx⟩ := h.listed p hp
  exact ⟨v, hv, hosts, hl.append route, hx⟩

theorem Shows.kept (h : Shows tables u modid cmdid lb) (hkept : lb.Kept lb') :
    Shows tables u modid cmdid lb' := by
  refine ⟨by rw [hkept.hostMap]; exact h.keys, ?_⟩
  intro p hp
  obtain ⟨v, hv, hosts, hl, x, hx, hm⟩ := h.listed p (by rw [Holds, ← hkept.hostMap]; exact hp)
  exact ⟨v, hv, hosts, hl, x, hx, (hkept.ip p).trans hm.1, (hkept.port p).trans hm.2⟩

/-- An update takes the module to the table behind the response. Hosts that stay were listed in an
earlier one. -/
theorem Shows.update (hinv : lb.Inv) (hold : lb.empty = false → Shows tables u modid cmdid lb)
    (hle : u ≤ v) (hl : Lists tables v modid cmdid hosts) {mem : Memory} {currentTime : Int64}
    (hu : lb.update? cfg mem currentTime hosts = some lb') : Shows tables v modid cmdid lb' := by
  refine ⟨⟨hosts, hl, (update?_spec hu).mem_iff⟩, ?_⟩
  intro p hp
  obtain ⟨hheld, hsame⟩ | ⟨-, x, hx, hnew⟩ := update?_record hinv hu hp
  · obtain ⟨w, hw, hosts', hl', x, hx, hm⟩ := (hold (not_empty_of_holds hheld)).listed p hheld
    exact ⟨w, hw.trans hle, hosts', hl', x, hx, by rwa [hsame]⟩
  · refine ⟨v, le_rfl, hosts, hl, x, hx, ?_⟩
    rw [hnew]
    exact ⟨rfl, rfl⟩

end Shows

namespace System

/-- The response that the server is about to send to the agent. -/
def pending (s : System) : List GetRouteResponse :=
  match s.peer with
  | .accepted fd => ((s.dns.server.view fd).map fun v => v.phase.pending).getD []
  | _ => []

/-- The two ends of the connection fit together, and its responses are in order. -/
structure Linked (s : System) (vs : List ℕ) : Prop where
  dns : s.dns.Inv
  stamps : Stamps s.dns.tables (s.handed ++ s.down ++ s.pending) vs
  waiting : s.peer = .waiting → s.handed ++ s.down = []
  sent : ∀ fd, s.peer = .accepted fd → ∃ v, s.dns.server.view fd = some v ∧ s.handed ++ s.down = v.sent

variable {R : Type} {cfg : Config R} {threads : ℕ} {s t : System} {vs : List ℕ}

theorem pending_of_view {fd : Fd} (hpeer : s.peer = .accepted fd) {v : View}
    (hv : s.dns.server.view fd = some v) : s.pending = v.phase.pending := by
  unfold pending
  rw [hpeer]
  dsimp only
  rw [hv]
  rfl

theorem pending_of_ne (hpeer : ∀ fd, s.peer ≠ .accepted fd) : s.pending = [] := by
  unfold pending
  split
  · rename_i fd hfd
    exact absurd hfd (hpeer fd)
  · rfl

/-- What has left the server keeps its stamps. -/
theorem Linked.observe (h : Linked s vs) {a : ServerAction} {dns : Versioned}
    (hdns : s.dns.step threads a = some dns) :
    ∃ vs', vs.take (s.handed ++ s.down).length <+: vs' ∧ Linked (s.observe dns) vs' := by
  by_cases hpeer : ∃ fd, s.peer = .accepted fd
  · obtain ⟨fd, hfd⟩ := hpeer
    obtain ⟨v, hv, hsent⟩ := h.sent fd hfd
    have hstamps : Stamps s.dns.tables v.responses vs := by
      have hall := h.stamps
      rwa [hsent, pending_of_view hfd hv] at hall
    cases hv' : dns.server.view fd with
    | none =>
      refine ⟨_, List.prefix_refl _, ?_⟩
      rw [observe_closed hfd hv']
      have hclosed : ∀ fd, ({ s with dns := dns, peer := .closed } : System).peer ≠ .accepted fd := by
        simp
      refine ⟨h.dns.step hdns, ?_, by simp, by simp⟩
      rw [pending_of_ne hclosed, List.append_nil]
      exact Versioned.stamps_tables h.stamps.of_append hdns
    | some v' =>
      obtain ⟨vs', hprefix, hs'⟩ := h.dns.stamps_step hdns hv hv' hstamps
      have hview := h.dns.viewStep hdns fd
      rw [hv, hv'] at hview
      have hall : s.handed ++ (s.down ++ v'.sent.drop (s.handed ++ s.down).length) = v'.sent := by
        rw [← List.append_assoc, hsent]
        exact (List.prefix_append_drop hview.sent_prefix).symm
      refine ⟨vs', (List.take_prefix ..).trans hprefix, ?_⟩
      rw [observe_open hfd hv']
      refine ⟨h.dns.step hdns, ?_, ?_, ?_⟩
      · rw [pending_of_view (v := v') (by exact hfd) hv']
        dsimp only
        rw [hall]
        exact hs'
      · intro hw
        cases hfd.symm.trans hw
      · intro f hf
        cases hfd.symm.trans hf
        exact ⟨v', hv', hall⟩
  · rw [not_exists] at hpeer
    rw [observe_of_ne hpeer]
    refine ⟨vs, List.take_prefix .., h.dns.step hdns, ?_, h.waiting, fun fd hfd => absurd hfd (hpeer fd)⟩
    have hstamps := h.stamps
    rw [pending_of_ne hpeer] at hstamps
    rw [pending_of_ne (s := { s with dns := dns }) hpeer]
    exact Versioned.stamps_tables hstamps hdns

theorem Linked.congr (h : Linked s vs) (hdns : t.dns = s.dns) (hpeer : t.peer = s.peer)
    (hall : t.handed ++ t.down = s.handed ++ s.down) : Linked t vs := by
  have hpending : t.pending = s.pending := by
    unfold pending
    rw [hpeer, hdns]
  refine ⟨hdns ▸ h.dns, ?_, ?_, ?_⟩
  · rw [hdns, hall, hpending]
    exact h.stamps
  · rw [hpeer, hall]
    exact h.waiting
  · rw [hpeer, hall, hdns]
    exact h.sent

theorem Linked.start (rows : List RouteRow) (link : Link) : Linked (System.start rows link) [] :=
  ⟨.init rows, .nil _, fun _ => rfl, by simp [System.start]⟩

theorem Linked.accept (h : Linked s vs) (hpeer : s.peer = .waiting) {w : ℕ} {fd : Fd}
    {dns : Versioned} (hdns : s.dns.step threads (.newConn w fd) = some dns) :
    Linked { s with dns := dns, peer := .accepted fd } vs := by
  have hview : dns.server.view fd = some ⟨.quiet, []⟩ := by
    obtain ⟨t, ht, rfl⟩ := Option.map_eq_some_iff.mp hdns
    cases Server.pushStep_inv ht with
    | newConn _ _ hidle hnone => exact Server.view_newConn hidle
  have hall := h.waiting hpeer
  refine ⟨h.dns.step hdns, ?_, by simp, ?_⟩
  · have hstamps := h.stamps
    rw [pending_of_ne (by simp [hpeer])] at hstamps
    rw [pending_of_view (s := { s with dns := dns, peer := .accepted fd }) rfl hview]
    exact Versioned.stamps_tables hstamps hdns
  · intro f hf
    cases hf
    exact ⟨_, hview, hall⟩

/-- The stamp of the next response to arrive. -/
theorem Linked.next (h : Linked s vs) {rsp : GetRouteResponse} {down : List GetRouteResponse}
    (hdown : s.down = rsp :: down) : ∃ v, Built s.dns.tables rsp v ∧
      vs.take (s.handed.length + 1) = vs.take s.handed.length ++ [v] := by
  have hdrop := List.forall₂_drop s.handed.length h.stamps.built
  rw [hdown, List.append_assoc, List.drop_left, List.cons_append] at hdrop
  cases hvs : vs.drop s.handed.length with
  | nil =>
    rw [hvs] at hdrop
    cases hdrop
  | cons v rest =>
    rw [hvs] at hdrop
    cases hdrop with
    | cons hb _ =>
      refine ⟨v, hb, ?_⟩
      rw [List.take_add_one, ← List.head?_drop, hvs]
      rfl

/-- A module in the `route_lb` with index `i`: without hosts, or where its responses go and with the
hosts of the table `u`. -/
def Fits (tables : List Route) (u : ℕ) (modid cmdid : Int32) (i : Fin 3) (lb : LoadBalance) : Prop :=
  lb.Inv ∧ (lb.empty = false →
    arrayIndex? 3 (dealRecvRouteIndex modid cmdid) = some i ∧ Shows tables u modid cmdid lb)

variable {modid cmdid : Int32} {tables : List Route} {u : ℕ} {i : Fin 3} {lb lb' : LoadBalance}

theorem Fits.kept (h : Fits tables u modid cmdid i lb) (hkept : lb.Kept lb') :
    Fits tables u modid cmdid i lb' := by
  refine ⟨hkept.inv h.1, ?_⟩
  intro hne
  rw [LoadBalance.empty, hkept.hostMap] at hne
  obtain ⟨hi, hs⟩ := h.2 hne
  exact ⟨hi, hs.kept hkept⟩

theorem Fits.of_created (raw : RawLoadBalance) (m c : Int32) :
    Fits tables u modid cmdid i (LoadBalance.create raw m c).pull.1 :=
  ⟨(RouteLb.Ready.pull_create raw m c).inv, fun hne => nomatch hne⟩

theorem Fits.moduleStep {key : UInt64} {pull : Option GetRouteRequest} {o o' : Option LoadBalance}
    (h : ∀ lb, o = some lb → Fits tables u modid cmdid i lb) (hstep : ModuleStep key pull o o')
    (lb' : LoadBalance) (hlb' : o' = some lb') : Fits tables u modid cmdid i lb' := by
  cases hstep with
  | same => exact h lb' hlb'
  | added raw m c =>
    cases hlb'
    exact .of_created raw m c
  | kept lb _ hkept =>
    cases hlb'
    exact (h lb rfl).kept hkept

/-- What holds of one module of the agent while it shows the table `u`: that table is not newer than
the last response received. -/
structure Follows (modid cmdid : Int32) (s : System) (u : ℕ) : Prop where
  linked : ∃ vs, Linked s vs ∧ (u = 0 ∨ u ∈ vs.take s.handed.length)
  modules : ∀ i lb, (s.rLb i).routeLbMap (packInts modid cmdid) = some lb →
    Fits s.dns.tables u modid cmdid i lb

theorem Follows.start (rows : List RouteRow) (link : Link) :
    Follows modid cmdid (System.start rows link) 0 :=
  ⟨⟨[], .start rows link, Or.inl rfl⟩, fun _ _ h => nomatch h⟩

/-- The stamp of a response is not smaller than that of any before it. -/
theorem Linked.stamp_le (h : Linked s vs) {v : ℕ}
    (htake : vs.take (s.handed.length + 1) = vs.take s.handed.length ++ [v])
    (hu : u = 0 ∨ u ∈ vs.take s.handed.length) : u ≤ v := by
  cases hu with
  | inl hzero => omega
  | inr hmem =>
    have hsorted := h.stamps.sorted.sublist (List.take_sublist (s.handed.length + 1) vs)
    rw [htake, List.pairwise_append] at hsorted
    exact hsorted.2.2 u hmem v (List.mem_singleton_self v)

/-- A response for the module arrives: the module goes to the table of that response. -/
theorem Follows.receive {rsp : GetRouteResponse} {down : List GetRouteResponse}
    (h : Follows rsp.modid rsp.cmdid s u) (hdown : s.down = rsp :: down) {mem : Memory}
    {currentTime : Int64} {rLb : Fin 3 → RouteLb}
    (hdeal : dealRecvRoute? cfg mem currentTime s.rLb (serialize rsp) = some rLb) :
    ∃ u', u ≤ u' ∧ Follows rsp.modid rsp.cmdid
      { s with
        rLb := rLb
        down := down
        handed := s.handed ++ [rsp]
        received := s.received ++ [rsp] } u' := by
  obtain ⟨i, hi, hself, hother⟩ := updateStep_dealRecvRoute hdeal
  obtain ⟨vs, hl, hu⟩ := h.linked
  obtain ⟨v, hbuilt, htake⟩ := hl.next hdown
  have hle : u ≤ v := hl.stamp_le htake hu
  refine ⟨v, hle, ⟨vs, hl.congr rfl rfl ?_, Or.inr ?_⟩, ?_⟩
  · rw [hdown, List.append_assoc, List.singleton_append]
  · rw [List.length_append, List.length_singleton, htake]
    exact List.mem_append_right _ (List.mem_singleton_self v)
  · intro j lb hget
    dsimp only at hget ⊢
    by_cases hj : j = i
    · subst hj
      rw [hget] at hself
      cases hold : (s.rLb j).routeLbMap (packInts rsp.modid rsp.cmdid) with
      | none =>
        rw [hold] at hself
        cases hself
      | some lb₀ =>
        rw [hold] at hself
        cases hself with
        | updated _ _ hup =>
          obtain ⟨hinv, hshows⟩ := h.modules j lb₀ hold
          refine ⟨hinv.update mem currentTime rsp.host hup, fun _ => ⟨hi, ?_⟩⟩
          exact .update hinv (fun hne => (hshows hne).2) hle (.of_built hbuilt) hup
    · -- a module that is kept elsewhere has never had a response
      rw [hother j _ (Or.inl hj)] at hget
      obtain ⟨hinv, hshows⟩ := h.modules j lb hget
      refine ⟨hinv, fun hne => ?_⟩
      exact absurd (Option.some.inj ((hshows hne).1.symm.trans hi)) hj

variable [RateArith R]

/-- The stamps of the responses that have left the connection are fixed. -/
theorem Linked.step (h : Linked s vs) {a : Action} (hstep : s.step? cfg threads a = some t) :
    ∃ vs', vs.take s.handed.length <+: vs' ∧ Linked t vs' := by
  have hserver : ∀ {a dns}, s.dns.step threads a = some dns →
      ∃ vs', vs.take s.handed.length <+: vs' ∧ Linked (s.observe dns) vs' := by
    intro a dns hdns
    obtain ⟨vs', hprefix, hl⟩ := h.observe hdns
    refine ⟨vs', (List.IsPrefix.trans ?_ hprefix), hl⟩
    exact List.take_prefix_take_left (by simp)
  cases step?_inv hstep with
  | datagram | newDnsRequest | connInit | disconnect =>
    exact ⟨vs, List.take_prefix .., h.congr rfl rfl rfl⟩
  | dealRecvRoute mem currentTime rsp down rLb _ hdown _ =>
    refine ⟨vs, List.take_prefix .., h.congr rfl rfl ?_⟩
    rw [hdown, List.append_assoc, List.singleton_append]
  | refuse rsp down hdown =>
    refine ⟨vs, List.take_prefix .., h.congr rfl rfl ?_⟩
    rw [hdown, List.append_assoc, List.singleton_append]
  | accept w fd dns hpeer hdns => exact ⟨vs, List.take_prefix .., h.accept hpeer hdns⟩
  | request w fd data up dns _ _ hdns =>
    obtain ⟨vs', hprefix, hl⟩ := hserver hdns
    exact ⟨vs', hprefix, hl.congr rfl rfl rfl⟩
  | dns a dns hdns => exact hserver hdns

/-- Steps that hand no response to the agent keep the stamp. -/
theorem Follows.keep (h : Follows modid cmdid s u) {a : Action}
    (hstep : s.step? cfg threads a = some t) (hhanded : s.handed <+: t.handed)
    (hmodules : ∀ i lb, (t.rLb i).routeLbMap (packInts modid cmdid) = some lb →
      Fits t.dns.tables u modid cmdid i lb) : Follows modid cmdid t u := by
  obtain ⟨vs, hl, hu⟩ := h.linked
  obtain ⟨vs', hprefix, hl'⟩ := hl.step hstep
  refine ⟨⟨vs', hl', hu.imp_right fun hmem => ?_⟩, hmodules⟩
  have hle : s.handed.length ≤ t.handed.length := hhanded.length_le
  have htake := hprefix.take s.handed.length
  rw [List.take_take, Nat.min_self] at htake
  exact (List.take_prefix_take_left hle).subset (htake.subset hmem)

theorem Follows.step (h : Follows modid cmdid s u) {a : Action}
    (hstep : s.step? cfg threads a = some t) : ∃ u', u ≤ u' ∧ Follows modid cmdid t u' := by
  have hserver : ∀ {a dns}, s.dns.step threads a = some dns → ∀ i lb,
      (s.rLb i).routeLbMap (packInts modid cmdid) = some lb →
        Fits dns.tables u modid cmdid i lb := by
    intro a dns hdns i lb hget
    obtain ⟨hinv, hshows⟩ := h.modules i lb hget
    obtain ⟨htables, -⟩ | htables := Versioned.tables_step hdns
    · rw [htables]
      exact ⟨hinv, hshows⟩
    · rw [htables]
      exact ⟨hinv, fun hne => ⟨(hshows hne).1, (hshows hne).2.append _⟩⟩
  cases step?_inv hstep with
  | datagram i env readBuf d served hserve =>
    refine ⟨u, le_rfl, h.keep hstep (List.prefix_refl _) ?_⟩
    intro j lb hget
    dsimp only at hget
    by_cases hj : j = i
    · subst hj
      rw [Function.update_self] at hget
      exact Fits.moduleStep (h.modules j) (moduleStep_serve hserve _) lb hget
    · rw [Function.update_of_ne hj] at hget
      exact h.modules j lb hget
  | newDnsRequest | disconnect =>
    exact ⟨u, le_rfl, h.keep hstep (List.prefix_refl _) h.modules⟩
  | connInit hlink =>
    refine ⟨u, le_rfl, h.keep hstep (List.prefix_refl _) ?_⟩
    intro j lb hget
    obtain ⟨lb₁, hlb₁, rfl⟩ := Option.map_eq_some_iff.mp hget
    exact (h.modules j lb₁ hlb₁).kept (.resetStatus lb₁)
  | dealRecvRoute mem currentTime rsp down rLb hlink hdown hdeal =>
    by_cases hm : rsp.modid = modid ∧ rsp.cmdid = cmdid
    · obtain ⟨rfl, rfl⟩ := hm
      exact h.receive hdown hdeal
    · obtain ⟨i, -, -, hother⟩ := updateStep_dealRecvRoute hdeal
      refine ⟨u, le_rfl, h.keep hstep (List.prefix_append ..) ?_⟩
      intro j lb hget
      have hkey : packInts modid cmdid ≠ packInts rsp.modid rsp.cmdid := by
        intro he
        obtain ⟨rfl, rfl⟩ := packInts_injective he
        exact hm ⟨rfl, rfl⟩
      dsimp only at hget
      rw [hother j _ (Or.inr hkey)] at hget
      exact h.modules j lb hget
  | refuse rsp down hdown =>
    exact ⟨u, le_rfl, h.keep hstep (List.prefix_append ..) h.modules⟩
  | accept w fd dns hpeer hdns =>
    exact ⟨u, le_rfl, h.keep hstep (List.prefix_refl _) (hserver hdns)⟩
  | request w fd data up dns hpeer hup hdns =>
    refine ⟨u, le_rfl, h.keep hstep ?_ ?_⟩
    · simp
    · simpa using hserver hdns
  | dns a dns hdns =>
    refine ⟨u, le_rfl, h.keep hstep ?_ ?_⟩
    · simp
    · simpa using hserver hdns

/-- Along every run of the agent and the server, whatever else they do in between, the hosts of a
module are those of one table at each moment, and the module never goes back to an older table. -/
theorem modules_follow_tables (cfg : Config R) (threads : ℕ) (rows : List RouteRow) (link : Link)
    (as : List Action) (modid cmdid : Int32) :
    ∃ us : List ℕ, us.Pairwise (· ≤ ·) ∧
      List.Forall₂ (fun s u => ∀ i lb, (s.rLb i).routeLbMap (packInts modid cmdid) = some lb →
          lb.empty = false → Shows s.dns.tables u modid cmdid lb)
        (visited (step? cfg threads) (System.start rows link) as) us := by
  have hstep : ∀ s u a t, Follows modid cmdid s u → s.step? cfg threads a = some t →
      ∃ u', u ≤ u' ∧ Follows modid cmdid t u' := fun _ _ _ _ h hs => h.step hs
  obtain ⟨us, hus, hsorted⟩ := exists_labels hstep (.start rows link) as
  refine ⟨us, hsorted.of_cons, hus.imp ?_⟩
  intro s u h i lb hget hne
  exact ((h.modules i lb hget).2 hne).2

/-- Some table that the server has had lists the host for the module. -/
def ListedFor (tables : List Route) (modid cmdid : Int32) (x : Proto.HostInfo) : Prop :=
  ∃ route ∈ tables, x ∈ (routeResponse route modid cmdid).host

/-- A datagram of the agent whose hosts have all been listed for the module that it names. -/
inductive ListedReply (tables : List Route) : List UInt8 → Prop
  | host (rsp : Proto.GetHostResponse) :
    (∀ x ∈ rsp.host, ListedFor tables rsp.modid rsp.cmdid x) →
    ListedReply tables (frame Proto.MessageID.idGetHostResponse.value (serialize rsp))
  | route (rsp : GetRouteResponse) : (∀ x ∈ rsp.host, ListedFor tables rsp.modid rsp.cmdid x) →
    ListedReply tables (frame Proto.MessageID.idAPIGetRouteResponse.value (serialize rsp))

theorem linked_of_reachable {rows : List RouteRow} {link : Link}
    (hr : Reachable (step? cfg threads) (System.start rows link) s) : ∃ vs, Linked s vs := by
  refine hr.invariant (P := fun s => ∃ vs, Linked s vs) ?_ ⟨[], .start rows link⟩
  intro s a t hs hstep
  obtain ⟨vs, hl⟩ := hs
  obtain ⟨vs', -, hl'⟩ := hl.step hstep
  exact ⟨vs', hl'⟩

theorem follows_of_reachable {rows : List RouteRow} {link : Link}
    (hr : Reachable (step? cfg threads) (System.start rows link) s) (modid cmdid : Int32) :
    ∃ u, Follows modid cmdid s u := by
  refine hr.invariant (P := fun s => ∃ u, Follows modid cmdid s u) ?_ ⟨0, .start rows link⟩
  intro s a t hs hstep
  obtain ⟨u, hu⟩ := hs
  obtain ⟨u', -, hu'⟩ := hu.step hstep
  exact ⟨u', hu'⟩

theorem ListedFor.of_offers {rows : List RouteRow} {link : Link}
    (hr : Reachable (step? cfg threads) (System.start rows link) s) {i : Fin 3} {modid cmdid : Int32}
    {x : Proto.HostInfo} (hx : (s.rLb i).Offers modid cmdid x) :
    ListedFor s.dns.tables modid cmdid x := by
  obtain ⟨lb, p, hget, hp, rfl⟩ := hx
  obtain ⟨u, hu⟩ := follows_of_reachable hr modid cmdid
  obtain ⟨-, hshows⟩ := (hu.modules i lb hget).2 (not_empty_of_holds hp)
  obtain ⟨v, -, _, ⟨route, hroute, rfl⟩, y, hy, hip, hport⟩ := hshows.listed p hp
  refine ⟨route, List.mem_of_getElem? hroute, ?_⟩
  rw [hip, hport]
  simpa using hy

/-- Whatever datagram arrives at one of its servers, the agent only ever tells hosts that the dns
server has had listed for the module asked about. -/
theorem replies_listed (cfg : Config R) (threads : ℕ) (rows : List RouteRow) (link : Link)
    (s : System) (hr : Reachable (step? cfg threads) (System.start rows link) s) (i : Fin 3)
    (env : Env) (readBuf d : List UInt8) (served : Served)
    (hserve : serve? cfg env readBuf (s.rLb i) d = some served) :
    ∀ reply ∈ served.replies, ListedReply s.dns.tables reply := by
  have hinv : ∀ key lb, (s.rLb i).routeLbMap key = some lb → lb.Inv := by
    intro key lb hget
    obtain ⟨modid, cmdid, rfl⟩ := exists_packInts_eq key
    obtain ⟨u, hu⟩ := follows_of_reachable hr modid cmdid
    exact (hu.modules i lb hget).1
  intro reply hreply
  cases offered_serve hinv hserve reply hreply with
  | host rsp hoffers => exact .host rsp fun x hx => .of_offers hr (hoffers x hx)
  | route rsp hoffers => exact .route rsp fun x hx => .of_offers hr (hoffers x hx)

/-- Where the requests and the responses for the module (1, 1) go. -/
def shard : Fin 3 := 2

def clock : Env := ⟨100, 100, 100, ⟨0, 0, .new⟩⟩

def hostRequest : List UInt8 :=
  frame Proto.MessageID.idGetHostRequest.value (serialize (⟨0, 1, 1⟩ : Proto.GetHostRequest))

/-- The module (1, 1) is asked for and pulled, and its response arrives. -/
def pulledRun : List Action :=
  [.accept 0 5, .connInit, .datagram shard clock [] hostRequest,
    .newDnsRequest (.new (fun _ => 0) fun _ => 0), .request 0, .dns (.resume 0), .dns (.resume 0),
    .dns (.resume 0), .dealRecvRoute bumpMemory 100]

theorem replies_listed_pulledRun :
    ∃ s served, run? (step? defaultConfig 1) (System.start [⟨1, 1, 7, 80⟩] .connecting) pulledRun =
        some s ∧
      serve? defaultConfig clock [] (s.rLb shard) hostRequest = some served ∧
      served.replies = [frame Proto.MessageID.idGetHostResponse.value
        (serialize (⟨0, 1, 1, 0, some ⟨7, 80⟩⟩ : Proto.GetHostResponse))] ∧
      ∀ reply ∈ served.replies, ListedReply s.dns.tables reply := by
  have hrun : ((run? (step? defaultConfig 1) (System.start [⟨1, 1, 7, 80⟩] .connecting)
      pulledRun).bind fun s => (serve? defaultConfig clock [] (s.rLb shard) hostRequest).map
        Served.replies) = some [frame Proto.MessageID.idGetHostResponse.value
          (serialize (⟨0, 1, 1, 0, some ⟨7, 80⟩⟩ : Proto.GetHostResponse))] := by
    decide +kernel
  obtain ⟨s, hs, hserve⟩ := Option.bind_eq_some_iff.mp hrun
  obtain ⟨served, hserve, hreplies⟩ := Option.map_eq_some_iff.mp hserve
  exact ⟨s, served, hs, hserve, hreplies,
    replies_listed defaultConfig 1 _ _ s ⟨_, hs⟩ shard clock [] hostRequest served hserve⟩

end System

end Lrlb.Pipeline
