import Lrlb.Pipeline.Tables

/-! The agent's modules when nothing moves: once everything sent has arrived, and after the
connection to the dns server is lost. -/
namespace Lrlb.Pipeline
open Lib Lib.Message Agent Dns LoadBalance
open Proto (GetRouteRequest GetRouteResponse)
open Reactor (TcpClient)

section KeysApart

/-- No two hosts that any table has listed for the module share a key of `host_map`. -/
def KeysApart (tables : List Route) (modid cmdid : Int32) : Prop :=
  ∀ route ∈ tables, ∀ x ∈ (routeResponse route modid cmdid).host,
    ∀ route' ∈ tables, ∀ y ∈ (routeResponse route' modid cmdid).host,
      updateKey x.ip x.port = updateKey y.ip y.port → x = y

instance (tables : List Route) (modid cmdid : Int32) : Decidable (KeysApart tables modid cmdid) :=
  inferInstanceAs (Decidable (∀ route ∈ tables, _))

variable {tables : List Route} {u v : ℕ} {modid cmdid : Int32} {hosts : List Proto.HostInfo}
  {lb : LoadBalance}

/-- Under a key of a listed host stands that host. -/
theorem Shows.matches_of_key (h : Shows tables u modid cmdid lb) (hinv : lb.Inv)
    (hkeys : KeysApart tables modid cmdid) (hl : Lists tables v modid cmdid hosts)
    {x : Proto.HostInfo} (hx : x ∈ hosts) {p : Ptr}
    (hp : lb.hostMap.lookup (updateKey x.ip x.port) = some p) : Matches (lb.hosts p) x := by
  obtain ⟨w, -, _, ⟨route', hroute', rfl⟩, y, hy, hm⟩ := h.listed p ⟨_, hp⟩
  obtain ⟨route, hroute, rfl⟩ := hl
  have hkey := hinv.key_of_matches hp hm
  obtain rfl : x = y :=
    hkeys route (List.mem_of_getElem? hroute) x hx route' (List.mem_of_getElem? hroute') y hy hkey
  exact hm

theorem Shows.holdsExactly (h : Shows tables u modid cmdid lb) (hinv : lb.Inv)
    (hkeys : KeysApart tables modid cmdid) (hl : Lists tables v modid cmdid hosts)
    (hmem : ∀ k, k ∈ lb.hostMap ↔ k ∈ responseKeys hosts) : HoldsExactly lb hosts := by
  constructor
  · intro x hx
    have hin : updateKey x.ip x.port ∈ lb.hostMap := (hmem _).mpr (List.mem_map_of_mem hx)
    obtain ⟨p, hp⟩ := Option.isSome_iff_exists.mp (AList.lookup_isSome.mpr hin)
    refine ⟨p, ⟨(lb.mem_pointers p).mpr ⟨_, hp⟩, h.matches_of_key hinv hkeys hl hx hp⟩, ?_⟩
    intro q hq
    obtain ⟨k, hk⟩ := (lb.mem_pointers q).mp hq.1
    rw [hinv.key_of_matches hk hq.2] at hk
    exact Option.some.inj (hk.symm.trans hp)
  · intro p hp
    obtain ⟨k, hk⟩ := (lb.mem_pointers p).mp hp
    have hin : k ∈ lb.hostMap := AList.lookup_isSome.mp (by simp [hk])
    obtain ⟨x, hx, rfl⟩ := List.mem_map.mp ((hmem k).mp hin)
    exact ⟨x, hx, h.matches_of_key hinv hkeys hl hx hk⟩

end KeysApart

def Action.published? : Action → Option (List UInt64)
  | .dns (.publish changeMods) => some changeMods
  | _ => none

namespace System

/-- The server's connection to the agent. -/
def conn? (s : System) : Option Conn :=
  match s.peer with
  | .accepted fd => s.dns.server.conns fd
  | _ => none

/-- Where the action publishes a list of modules, the list has every module whose hosts have changed
since the last time. -/
def PublishesChanges (s : System) (a : Action) : Prop :=
  ∀ changeMods ∈ a.published?, s.dns.server.changed ⊆ changeMods

instance (s : System) (a : Action) : Decidable (s.PublishesChanges a) :=
  inferInstanceAs (Decidable (∀ changeMods ∈ a.published?, _))

variable {R : Type} {cfg : Config R} {threads : ℕ} {s t : System} {modid cmdid : Int32}

/-- The keys of a module that has hosts are those of the last response for it. -/
def Answered (modid cmdid : Int32) (s : System) : Prop :=
  ∀ i lb, (s.rLb i).routeLbMap (packInts modid cmdid) = some lb → lb.empty = false →
    arrayIndex? 3 (dealRecvRouteIndex modid cmdid) = some i ∧
      ∃ rsp, lastAnswer? ⟨modid, cmdid⟩ s.received = some rsp ∧
        ∀ k, k ∈ lb.hostMap ↔ k ∈ responseKeys rsp.host

theorem Answered.start (rows : List RouteRow) (link : Link) :
    Answered modid cmdid (System.start rows link) :=
  fun _ _ h => nomatch h

theorem Answered.kept (h : Answered modid cmdid s) (hrecv : t.received = s.received)
    (hmodules : ∀ i lb', (t.rLb i).routeLbMap (packInts modid cmdid) = some lb' →
      lb'.empty = false → ∃ lb, (s.rLb i).routeLbMap (packInts modid cmdid) = some lb ∧
        lb'.hostMap = lb.hostMap) : Answered modid cmdid t := by
  intro i lb' hget hne
  obtain ⟨lb, hlb, hmap⟩ := hmodules i lb' hget hne
  rw [LoadBalance.empty, hmap] at hne
  rw [hrecv, hmap]
  exact h i lb hlb hne

theorem Answered.receive {rsp : GetRouteResponse} (h : Answered modid cmdid s)
    (hrecv : t.received = s.received ++ [rsp]) {mem : Memory} {currentTime : Int64}
    (hdeal : dealRecvRoute? cfg mem currentTime s.rLb (serialize rsp) = some t.rLb) :
    Answered modid cmdid t := by
  obtain ⟨i, hi, hself, hother⟩ := updateStep_dealRecvRoute hdeal
  intro j lb hget hne
  rw [hrecv]
  by_cases hm : rsp.modid = modid ∧ rsp.cmdid = cmdid
  · obtain ⟨rfl, rfl⟩ := hm
    by_cases hj : j = i
    · subst hj
      rw [hget] at hself
      refine ⟨hi, rsp, lastAnswer?_append_of_eq ⟨rfl, rfl⟩ _, ?_⟩
      generalize (s.rLb j).routeLbMap (packInts rsp.modid rsp.cmdid) = o at hself
      cases hself with
      | updated _ _ hup => exact (update?_spec hup).mem_iff
    · rw [hother j _ (Or.inl hj)] at hget
      exact absurd (Option.some.inj ((h j lb hget hne).1.symm.trans hi)) hj
  · have hkey : packInts modid cmdid ≠ packInts rsp.modid rsp.cmdid := by
      intro he
      obtain ⟨rfl, rfl⟩ := packInts_injective he
      exact hm ⟨rfl, rfl⟩
    rw [hother j _ (Or.inr hkey)] at hget
    rw [lastAnswer?_append_of_ne hm]
    exact h j lb hget hne

variable [RateArith R]

theorem Answered.step (h : Answered modid cmdid s) {a : Action}
    (hstep : s.step? cfg threads a = some t) : Answered modid cmdid t := by
  cases step?_inv hstep with
  | datagram i env readBuf d served hserve =>
    refine h.kept rfl ?_
    intro j lb' hget hne
    dsimp only at hget
    by_cases hj : j = i
    · subst hj
      rw [Function.update_self] at hget
      have hmodule := moduleStep_serve hserve (packInts modid cmdid)
      rw [hget] at hmodule
      generalize (s.rLb j).routeLbMap (packInts modid cmdid) = o at hmodule
      cases hmodule with
      | same => exact ⟨lb', rfl, rfl⟩
      | added => cases hne
      | kept lb _ hkept => exact ⟨lb, rfl, hkept.hostMap⟩
    · rw [Function.update_of_ne hj] at hget
      exact ⟨lb', hget, rfl⟩
  | connInit hlink =>
    refine h.kept rfl ?_
    intro j lb' hget _
    obtain ⟨lb, hlb, rfl⟩ := Option.map_eq_some_iff.mp hget
    exact ⟨lb, hlb, (Kept.resetStatus lb).hostMap⟩
  | dealRecvRoute mem currentTime rsp down rLb hlink hdown hdeal => exact h.receive rfl hdeal
  | newDnsRequest | disconnect | refuse | accept => exact h.kept rfl fun _ lb hget _ => ⟨lb, hget, rfl⟩
  | request w fd data up dns =>
    refine h.kept (observe_received ..) ?_
    rw [observe_rLb]
    exact fun _ lb hget _ => ⟨lb, hget, rfl⟩
  | dns a dns hdns =>
    refine h.kept (observe_received ..) ?_
    rw [observe_rLb]
    exact fun _ lb hget _ => ⟨lb, hget, rfl⟩

/-- With a poller that publishes what has changed, the server keeps its own invariant. -/
theorem inv_of_publishesChanges {rows : List RouteRow} {link : Link} {as : List Action}
    (hpub : ∀ x ∈ attempted (step? cfg threads) (System.start rows link) as, PublishesChanges x.1 x.2)
    (hrun : run? (step? cfg threads) (System.start rows link) as = some s) :
    Server.Inv threads s.dns.server := by
  have hserver : ∀ {s : System} {a dns}, Server.Inv threads s.dns.server →
      (∀ mods, a = .publish mods → s.dns.server.changed ⊆ mods) → s.dns.step threads a = some dns →
        Server.Inv threads dns.server := by
    intro s a dns hs hG hdns
    obtain ⟨srv, hsrv, rfl⟩ := Option.map_eq_some_iff.mp hdns
    refine hs.step (a := a) ?_
    cases a with
    | publish mods =>
      simp only [Server.pushStep, Option.ite_none_right_eq_some] at hsrv
      rw [Server.step, if_pos ⟨hsrv.1, hG mods rfl⟩]
      exact hsrv.2
    | _ => exact hsrv
  refine forall_visited (P := fun s => Server.Inv threads s.dns.server) ?_ _ as (.init threads rows)
    hpub s (mem_visited_of_run? hrun)
  intro s a t hs hG hstep
  cases step?_inv hstep with
  | datagram | newDnsRequest | connInit | disconnect | dealRecvRoute | refuse => exact hs
  | accept w fd dns hpeer hdns => exact hserver hs (by simp) hdns
  | request w fd data up dns hpeer hup hdns =>
    rw [observe_dns]
    exact hserver hs (by simp) hdns
  | dns a dns hdns =>
    rw [observe_dns]
    refine hserver hs ?_ hdns
    intro mods hmods
    exact hG mods (by rw [hmods]; rfl)

/-- Everything has arrived: the server is at rest, and the agent has received all that was sent to
it. Then a module with hosts has the keys of the current table, and where the keys tell the hosts
apart it holds exactly the hosts of the current table. -/
theorem current_at_rest (cfg : Config R) (threads : ℕ) (rows : List RouteRow) (link : Link)
    (as : List Action) (s : System)
    (hrun : run? (step? cfg threads) (System.start rows link) as = some s)
    (hpub : ∀ x ∈ attempted (step? cfg threads) (System.start rows link) as, PublishesChanges x.1 x.2)
    (hq : s.dns.server.Quiescent threads) (c : Conn) (hc : s.conn? = some c)
    (hgot : s.received = c.sent) (modid cmdid : Int32) (hreq : ⟨modid, cmdid⟩ ∈ c.requested)
    (hcmd : 0 ≤ cmdid.toInt) (i : Fin 3) (lb : LoadBalance)
    (hget : (s.rLb i).routeLbMap (packInts modid cmdid) = some lb) (hne : lb.empty = false) :
    (∀ k, k ∈ lb.hostMap ↔ k ∈ responseKeys (routeResponse s.dns.server.route modid cmdid).host) ∧
      (KeysApart s.dns.tables modid cmdid →
        HoldsExactly lb (routeResponse s.dns.server.route modid cmdid).host) := by
  have hr : Reachable (step? cfg threads) (System.start rows link) s := ⟨as, hrun⟩
  have hanswered : Answered modid cmdid s :=
    hr.invariant (P := Answered modid cmdid) (fun _ _ _ h hstep => h.step hstep) (.start rows link)
  obtain ⟨fd, hfd⟩ : ∃ fd, s.dns.server.conns fd = some c := by
    unfold conn? at hc
    split at hc
    · exact ⟨_, hc⟩
    · cases hc
  obtain ⟨rsp, hlast, hcur⟩ :=
    (inv_of_publishesChanges hpub hrun).lastAnswer_current hq hfd hreq hcmd
  obtain ⟨-, rsp', hlast', hkeys⟩ := hanswered i lb hget hne
  rw [hgot] at hlast'
  cases hlast.symm.trans hlast'
  obtain ⟨hmodid, hcmdid⟩ := lastAnswer?_names hlast
  have hmem : ∀ k, k ∈ lb.hostMap ↔
      k ∈ responseKeys (routeResponse s.dns.server.route modid cmdid).host := by
    intro k
    rw [hkeys]
    unfold Current at hcur
    rw [hmodid, hcmdid] at hcur
    exact (hcur.map _).mem_iff
  refine ⟨hmem, fun hapart => ?_⟩
  obtain ⟨u, hu⟩ := follows_of_reachable hr modid cmdid
  obtain ⟨hinv, hshows⟩ := hu.modules i lb hget
  obtain ⟨vs, hlinked, -⟩ := hu.linked
  have hlists : Lists s.dns.tables (s.dns.tables.length - 1) modid cmdid
      (routeResponse s.dns.server.route modid cmdid).host := by
    refine ⟨s.dns.server.route, ?_, rfl⟩
    rw [← List.getLast?_eq_getElem?]
    exact hlinked.dns.last
  exact (hshows hne).2.holdsExactly hinv hapart hlists hmem

/-- The module (1, 1) gets a second host while its first response is on its way. -/
def movedRun : List Action :=
  pulledRun ++ [.dns (.swap [⟨1, 1, 8, 80⟩]), .dns (.publish [packInts 1 1]), .dns .sendTask,
    .dns .sendTask, .dns (.pushChangeTask 0), .dns (.resume 0), .dns (.resume 0), .dns (.resume 0),
    .dealRecvRoute bumpMemory 200]

theorem current_at_rest_movedRun :
    ∃ s lb, run? (step? defaultConfig 1) (System.start [⟨1, 1, 7, 80⟩] .connecting) movedRun = some s ∧
      (s.rLb shard).routeLbMap (packInts 1 1) = some lb ∧
        HoldsExactly lb (routeResponse s.dns.server.route 1 1).host := by
  have hfinal : (((run? (step? defaultConfig 1) (System.start [⟨1, 1, 7, 80⟩] .connecting)
      movedRun).bind fun s => s.conn?.bind fun c => ((s.rLb shard).routeLbMap (packInts 1 1)).map
        fun lb => decide (s.dns.server.Quiescent 1 ∧ s.received = c.sent ∧ ⟨1, 1⟩ ∈ c.requested ∧
          lb.empty = false ∧ KeysApart s.dns.tables 1 1))) = some true := by
    decide +kernel
  obtain ⟨s, hs, h⟩ := Option.bind_eq_some_iff.mp hfinal
  obtain ⟨c, hc, h⟩ := Option.bind_eq_some_iff.mp h
  obtain ⟨lb, hlb, h⟩ := Option.map_eq_some_iff.mp h
  obtain ⟨hq, hgot, hreq, hne, hkeys⟩ := of_decide_eq_true h
  exact ⟨s, lb, hs, hlb, (current_at_rest defaultConfig 1 _ _ movedRun s hs (by decide +kernel) hq c hc
    hgot 1 1 hreq (by decide) shard lb hlb hne).2 hkeys⟩

/-- One step after the connection is lost. -/
theorem told_of_lost (hlost : s.link = .lost) {a : Action} (hstep : s.step? cfg threads a = some t) :
    t.link = .lost ∧ ∀ i key, told ((t.rLb i).routeLbMap key) = told ((s.rLb i).routeLbMap key) := by
  cases step?_inv hstep with
  | datagram i env readBuf d served hserve =>
    refine ⟨hlost, ?_⟩
    intro j key
    dsimp only
    by_cases hj : j = i
    · subst hj
      rw [Function.update_self]
      exact (moduleStep_serve hserve key).told_eq
    · rw [Function.update_of_ne hj]
  | newDnsRequest | refuse | accept => exact ⟨hlost, fun _ _ => rfl⟩
  | disconnect => exact ⟨rfl, fun _ _ => rfl⟩
  | connInit hlink => cases hlost.symm.trans hlink
  | dealRecvRoute mem currentTime rsp down rLb hlink => cases hlost.symm.trans hlink
  | request w fd data up dns =>
    rw [observe_link, observe_rLb]
    exact ⟨hlost, fun _ _ => rfl⟩
  | dns a dns hdns =>
    rw [observe_link, observe_rLb]
    exact ⟨hlost, fun _ _ => rfl⟩

/-- After the connection to the dns server is lost, whatever else happens on either side, the
connection does not come back and `get_route` goes on to answer as it did at that moment. -/
theorem hosts_frozen (cfg : Config R) (threads : ℕ) (s t : System) (hlost : s.link = .lost)
    (hr : Reachable (step? cfg threads) s t) :
    t.link = .lost ∧ ∀ i time raw modid cmdid rsp,
      ((t.rLb i).getRoute cfg time raw modid cmdid rsp).2.1 =
        ((s.rLb i).getRoute cfg time raw modid cmdid rsp).2.1 := by
  have hsame : t.link = .lost ∧
      ∀ i key, told ((t.rLb i).routeLbMap key) = told ((s.rLb i).routeLbMap key) := by
    refine hr.invariant (P := fun t => t.link = .lost ∧
      ∀ i key, told ((t.rLb i).routeLbMap key) = told ((s.rLb i).routeLbMap key)) ?_
      ⟨hlost, fun _ _ => rfl⟩
    intro t a t' ht hstep
    obtain ⟨hl, hk⟩ := told_of_lost ht.1 hstep
    exact ⟨hl, fun i key => (hk i key).trans (ht.2 i key)⟩
  refine ⟨hsame.1, ?_⟩
  intro i time raw modid cmdid rsp
  rw [RouteLb.getRoute_response, RouteLb.getRoute_response, hsame.2]

/-- The table changes and the module is asked for again after the connection is lost. -/
def lostRun : List Action :=
  [.dns (.swap [⟨1, 1, 8, 80⟩]), .dns (.publish [packInts 1 1]), .dns .sendTask, .dns .sendTask,
    .dns (.pushChangeTask 0), .dns (.resume 0), .dns (.resume 0), .dns (.resume 0),
    .datagram shard clock [] hostRequest]

theorem hosts_frozen_lostRun :
    ∃ s t, run? (step? defaultConfig 1) (System.start [⟨1, 1, 7, 80⟩] .connecting)
        (pulledRun ++ [.disconnect]) = some s ∧
      run? (step? defaultConfig 1) s lostRun = some t ∧ t.down = [⟨1, 1, [⟨8, 80⟩]⟩] ∧
      ((s.rLb shard).getRoute defaultConfig 0 clock.raw 1 1 ⟨1, 1, []⟩).2.1 = ⟨1, 1, [⟨7, 80⟩]⟩ ∧
      ((t.rLb shard).getRoute defaultConfig 0 clock.raw 1 1 ⟨1, 1, []⟩).2.1 = ⟨1, 1, [⟨7, 80⟩]⟩ := by
  have hrun : ((run? (step? defaultConfig 1) (System.start [⟨1, 1, 7, 80⟩] .connecting)
      (pulledRun ++ [.disconnect])).bind fun s => (run? (step? defaultConfig 1) s lostRun).map fun t =>
        decide (s.link = .lost ∧ t.down = [⟨1, 1, [⟨8, 80⟩]⟩] ∧
          ((s.rLb shard).getRoute defaultConfig 0 clock.raw 1 1 ⟨1, 1, []⟩).2.1 = ⟨1, 1, [⟨7, 80⟩]⟩)) =
      some true := by
    decide +kernel
  obtain ⟨s, hs, h⟩ := Option.bind_eq_some_iff.mp hrun
  obtain ⟨t, ht, h⟩ := Option.map_eq_some_iff.mp h
  obtain ⟨hlost, hdown, htold⟩ := of_decide_eq_true h
  refine ⟨s, t, hs, ht, hdown, htold, ?_⟩
  rw [(hosts_frozen defaultConfig 1 s t hlost ⟨_, ht⟩).2]
  exact htold

end System

end Lrlb.Pipeline
