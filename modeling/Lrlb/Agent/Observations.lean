import Lrlb.Agent.Alike

/-! What the agent shows over a sequence of calls, and two runs of the same calls that meet
different bytes in the memory of new objects. -/
namespace Lrlb.Agent
open Lib
open Proto (GetHostResponse GetRouteResponse GetRouteRequest ReportRequest ReportStatusReq)

/-- What a call shows: its response and return value with the pull request it queues, or the
report it commits. -/
inductive Observation where
  | host (rsp : GetHostResponse) (ret : Int32) (pulled : Option GetRouteRequest)
  | route (rsp : GetRouteResponse) (ret : Int32) (pulled : Option GetRouteRequest)
  | committed (req : Option ReportStatusReq)
  | done
  | aborted
deriving DecidableEq

variable {R : Type} [RateArith R]

def observe (cfg : Config R) (r : RouteLb) : RouteOp → Observation
  | .getHost time raw modid cmdid rsp =>
    match r.getHost? cfg time raw modid cmdid rsp with
    | none => .aborted
    | some (_, rsp, ret, req) => .host rsp ret req
  | .getRoute time raw modid cmdid rsp =>
    let (_, rsp, ret, req) := r.getRoute cfg time raw modid cmdid rsp
    .route rsp ret req
  | .updateHost mem currentTime modid cmdid rsp =>
    if (r.updateHost? cfg mem currentTime modid cmdid rsp).isSome then .done else .aborted
  | .reportHost currentTime time ts req => .committed (r.reportHost cfg currentTime time ts req).2
  | .resetLbStatus => .done

def observations (cfg : Config R) (r : RouteLb) (ops : List RouteOp) : List Observation :=
  (attempted (routeStep? cfg) r ops).map fun x => observe cfg x.1 x.2

/-- The same call, meeting other bytes in the memory of new objects. -/
def RouteOp.withMemory (raw : RawLoadBalance) (rawHost : Ptr → RawHost) : RouteOp → RouteOp
  | .getHost time _ modid cmdid rsp => .getHost time raw modid cmdid rsp
  | .getRoute time _ modid cmdid rsp => .getRoute time raw modid cmdid rsp
  | .updateHost mem currentTime modid cmdid rsp =>
    .updateHost { mem with raw := rawHost } currentTime modid cmdid rsp
  | .reportHost currentTime time ts req => .reportHost currentTime time ts req
  | .resetLbStatus => .resetLbStatus

def RouteOp.SameCall (op op' : RouteOp) : Prop := ∃ raw rawHost, op' = op.withMemory raw rawHost

/-- The modules with what happened to each host since it was inserted. -/
structure LoggedRoute where
  route : RouteLb
  log : UInt64 → Ptr → List HostEvent

namespace LoggedRoute

def init : LoggedRoute := ⟨RouteLb.empty, fun _ _ => []⟩

/-- The logs after an operation of the module at `key`. -/
def recordAt (cfg : Config R) (s : LoggedRoute) (key : UInt64) (op : LbOp) :
    UInt64 → Ptr → List HostEvent :=
  match s.route.routeLbMap key with
  | none => s.log
  | some lb => Function.update s.log key ((⟨lb, s.log key⟩ : LoggedLb).record cfg op)

def record (cfg : Config R) (s : LoggedRoute) : RouteOp → UInt64 → Ptr → List HostEvent
  | .updateHost mem currentTime modid cmdid rsp =>
    s.recordAt cfg (packInts modid cmdid) (.update mem currentTime rsp.host)
  | .reportHost currentTime time _ req =>
    let host := req.host.getD { }
    s.recordAt cfg (packInts req.modid req.cmdid)
      (.report currentTime time host.ip host.port req.retcode)
  | .getHost .. | .getRoute .. | .resetLbStatus => s.log

def step? (cfg : Config R) (s : LoggedRoute) (op : RouteOp) : Option LoggedRoute :=
  (routeStep? cfg s.route op).map fun r => ⟨r, s.record cfg op⟩

/-- The call looks at a field that nothing has written: `_access_cnt` when it chooses beside
overloaded hosts, `last_update_time` of a module that is `NEW` without ever having had hosts, or
`idle_ts` of a host that `set_idle` was never called for. -/
def ReadsUnwritten (cfg : Config R) (s : LoggedRoute) : RouteOp → Prop
  | .getHost _ _ modid cmdid _ =>
    ∃ lb, s.route.routeLbMap (packInts modid cmdid) = some lb ∧ lb.ReadsAccessCnt cfg
  | .getRoute _ _ modid cmdid _ =>
    ∃ lb, s.route.routeLbMap (packInts modid cmdid) = some lb ∧ lb.empty = true ∧
      lb.status = .new ∧ cfg.updateTimeout ≠ Int64.maxValue
  | .reportHost _ _ _ req =>
    ∃ lb p, s.route.routeLbMap (packInts req.modid req.cmdid) = some lb ∧
      lb.hostMap.lookup (LoadBalance.reportKey (req.host.getD { }).ip (req.host.getD { }).port) =
        some p ∧
      HostInfo.ReadsIdleTs cfg req.retcode (lb.hosts p) ∧
      .setIdle ∉ s.log (packInts req.modid req.cmdid) p
  | .updateHost .. | .resetLbStatus => False

end LoggedRoute

/-- What can be relied on in a module with a given log. -/
def Trust.written (log : Ptr → List HostEvent) (lb : LoadBalance) : Trust where
  accessCnt := False
  lastUpdateTime := lb.empty = false
  idleTs p := .setIdle ∈ log p
  overloadTs p := (lb.hosts p).overload = true

namespace LoggedRoute

/-- The other run has the same modules, up to what was never written. -/
structure Alike (s : LoggedRoute) (r' : RouteLb) : Prop where
  inv : ∀ key lb, s.route.routeLbMap key = some lb → lb.Inv
  modules : ∀ key, Option.Rel (fun lb lb' => lb.Alike (.written (s.log key) lb) lb')
    (s.route.routeLbMap key) (r'.routeLbMap key)

variable {cfg : Config R} {s t : LoggedRoute} {r' : RouteLb}

theorem Alike.init : Alike init RouteLb.empty := ⟨nofun, fun _ => .none⟩

/-- Both runs change one module. -/
theorem Alike.set (h : s.Alike r') (key : UInt64) {v v' : Option LoadBalance}
    {log : Ptr → List HostEvent} (hinv : ∀ lb, v = some lb → lb.Inv)
    (hv : Option.Rel (fun lb lb' => lb.Alike (.written log lb) lb') v v') :
    Alike ⟨s.route.set key v, Function.update s.log key log⟩ (r'.set key v') := by
  refine ⟨fun key' lb hget => ?_, fun key' => ?_⟩
  · change Function.update s.route.routeLbMap key v key' = some lb at hget
    by_cases hk : key' = key
    · subst key'
      rw [Function.update_self] at hget
      exact hinv lb hget
    · rw [Function.update_of_ne hk] at hget
      exact h.inv key' lb hget
  · change Option.Rel _ (Function.update s.route.routeLbMap key v key')
      (Function.update r'.routeLbMap key v' key')
    by_cases hk : key' = key
    · subst key'
      simpa using hv
    · simpa [hk] using h.modules key'

theorem Alike.set_some (h : s.Alike r') (key : UInt64) {lb lb' : LoadBalance} (hinv : lb.Inv)
    (ha : lb.Alike (.written (s.log key) lb) lb') :
    Alike ⟨s.route.set key (some lb), s.log⟩ (r'.set key (some lb')) := by
  have hset : Alike ⟨s.route.set key (some lb), Function.update s.log key (s.log key)⟩
      (r'.set key (some lb')) := h.set key (fun _ he => Option.some.inj he ▸ hinv) (.some ha)
  rwa [Function.update_eq_self] at hset

/-- A new module has nothing that can be relied on, and nobody does. -/
theorem Alike.addModule (h : s.Alike r') (raw raw' : RawLoadBalance) (modid cmdid : Int32) :
    (r'.addModule raw' modid cmdid).2 = (s.route.addModule raw modid cmdid).2 ∧
      Alike ⟨(s.route.addModule raw modid cmdid).1, s.log⟩ (r'.addModule raw' modid cmdid).1 := by
  refine ⟨rfl, h.set_some _ (RouteLb.Ready.pull_create raw modid cmdid).inv ?_⟩
  exact .of_fields rfl rfl rfl rfl rfl rfl nofun nofun nofun

/-- Turning the lists or pulling changes neither the hosts nor what can be relied on. -/
theorem written_eq {lb lb₁ : LoadBalance} (hmap : lb₁.hostMap = lb.hostMap)
    (hhosts : lb₁.hosts = lb.hosts) (log : Ptr → List HostEvent) :
    Trust.written log lb₁ = .written log lb := by
  unfold Trust.written LoadBalance.empty
  rw [hmap, hhosts]

/-- The modules at one key are both there, or neither is. -/
theorem Alike.at (h : s.Alike r') (key : UInt64) :
    (s.route.routeLbMap key = none ∧ r'.routeLbMap key = none) ∨
      ∃ lb lb', s.route.routeLbMap key = some lb ∧ r'.routeLbMap key = some lb' ∧ lb.Inv ∧
        lb.Alike (.written (s.log key) lb) lb' := by
  have hrel := h.modules key
  cases hget : s.route.routeLbMap key with
  | none =>
    rw [hget] at hrel
    generalize r'.routeLbMap key = v at hrel
    cases hrel
    exact Or.inl ⟨rfl, rfl⟩
  | some lb =>
    rw [hget] at hrel
    generalize r'.routeLbMap key = v at hrel
    cases hrel with
    | some ha => exact Or.inr ⟨lb, _, rfl, rfl, h.inv key lb hget, ha⟩

theorem Alike.getHost (h : s.Alike r') {time : Int64} {raw : RawLoadBalance} {modid cmdid : Int32}
    {rsp : GetHostResponse} (hgood : ¬ s.ReadsUnwritten cfg (.getHost time raw modid cmdid rsp))
    (raw' : RawLoadBalance) :
    Option.Rel (fun x x' => x'.2 = x.2 ∧ Alike ⟨x.1, s.log⟩ x'.1)
      (s.route.getHost? cfg time raw modid cmdid rsp) (r'.getHost? cfg time raw' modid cmdid rsp) := by
  unfold RouteLb.getHost?
  dsimp only
  rcases h.at (packInts modid cmdid) with ⟨hs, hr⟩ | ⟨lb, lb', hs, hr, hinv, ha⟩ <;> rw [hs, hr]
  · obtain ⟨hreq, hadd⟩ := h.addModule raw raw' modid cmdid
    exact .some ⟨by simp [hreq], hadd⟩
  · dsimp only
    rw [ha.empty, ha.status]
    split_ifs with hempty hpulling
    · exact .some ⟨rfl, h⟩
    · exact .none
    · have hread : lb.ReadsAccessCnt cfg → False := fun hr => hgood ⟨lb, hs, hr⟩
      have hne : lb.empty = false := by simpa using hempty
      obtain ⟨lb₁, lb₁', rsp₁, ret, hc, hc', ha₁⟩ :=
        ha.choiceOneHost hinv hne hread rsp
      rw [hc, hc']
      obtain ⟨hmap, hhosts⟩ := LoadBalance.choiceOneHost?_hosts hc
      obtain ⟨hmap₂, hhosts₂⟩ := lb₁.pullIfExpired_hosts cfg time
      obtain ⟨hreq, ha₂⟩ := ha₁.pullIfExpired cfg time fun _ _ => hne
      refine .some ⟨by simp [hreq], ?_⟩
      refine h.set_some _ ((hinv.choiceOneHost hc).pullIfExpired time) ?_
      rwa [written_eq (hmap₂.trans hmap) (hhosts₂.trans hhosts)]

theorem Alike.getRoute (h : s.Alike r') {time : Int64} {raw : RawLoadBalance} {modid cmdid : Int32}
    {rsp : GetRouteResponse} (hgood : ¬ s.ReadsUnwritten cfg (.getRoute time raw modid cmdid rsp))
    (raw' : RawLoadBalance) :
    (r'.getRoute cfg time raw' modid cmdid rsp).2 = (s.route.getRoute cfg time raw modid cmdid rsp).2 ∧
      Alike ⟨(s.route.getRoute cfg time raw modid cmdid rsp).1, s.log⟩
        (r'.getRoute cfg time raw' modid cmdid rsp).1 := by
  unfold RouteLb.getRoute
  dsimp only
  rcases h.at (packInts modid cmdid) with ⟨hs, hr⟩ | ⟨lb, lb', hs, hr, hinv, ha⟩ <;> rw [hs, hr]
  · obtain ⟨hreq, hadd⟩ := h.addModule raw raw' modid cmdid
    exact ⟨by simp [hreq], hadd⟩
  · have hread : lb.status = .new → cfg.updateTimeout ≠ Int64.maxValue → lb.empty = false := by
      intro hnew hmax
      by_contra hempty
      exact hgood ⟨lb, hs, by simpa using hempty, hnew, hmax⟩
    obtain ⟨hreq, ha₁⟩ := ha.pullIfExpired cfg time hread
    obtain ⟨hmap, hhosts⟩ := lb.pullIfExpired_hosts cfg time
    refine ⟨by simp [hreq, ha.routeHosts], ?_⟩
    refine h.set_some _ (hinv.pullIfExpired time) ?_
    rwa [written_eq hmap hhosts]

theorem recordAt_of_some {key : UInt64} {lb : LoadBalance} (h : s.route.routeLbMap key = some lb)
    (op : LbOp) : s.recordAt cfg key op =
      Function.update s.log key ((⟨lb, s.log key⟩ : LoggedLb).record cfg op) := by
  unfold recordAt
  rw [h]

theorem recordAt_of_none {key : UInt64} (h : s.route.routeLbMap key = none) (op : LbOp) :
    s.recordAt cfg key op = s.log := by
  unfold recordAt
  rw [h]

/-- After an update, what can be relied on of a host that was there before; the new hosts have
nothing yet. -/
theorem alike_update {lb lb₁ lb' : LoadBalance} {log : Ptr → List HostEvent} {mem : Memory}
    {currentTime : Int64} {rsp : List Proto.HostInfo} (hinv : lb.Inv)
    (ha : lb.Alike (.written log lb) lb') (hu : lb.update? cfg mem currentTime rsp = some lb₁)
    (rawHost : Ptr → RawHost) :
    ∃ lb₁', lb'.update? cfg { mem with raw := rawHost } currentTime rsp = some lb₁' ∧
      lb₁.Alike (.written ((⟨lb, log⟩ : LoggedLb).record cfg (.update mem currentTime rsp)) lb₁)
        lb₁' := by
  let kept : Trust := ⟨False, lb.empty = false, fun p => lb.Holds p ∧ .setIdle ∈ log p,
    fun p => lb.Holds p ∧ (lb.hosts p).overload = true⟩
  have hkept : lb.Alike kept lb' := ha.mono id id (fun _ _ => And.right) fun _ _ => And.right
  obtain ⟨lb₁', hu', ha₁⟩ := hkept.update rawHost (fun p hp h => absurd h.1 hp)
    (fun p hp h => absurd h.1 hp) hu
  refine ⟨lb₁', hu', ha₁.mono id (fun _ => trivial) (fun p hp hidle => ?_) fun p hp hover => ?_⟩
  · change .setIdle ∈ (if p ∈ lb.pointers then log p else []) at hidle
    split_ifs at hidle with hmem
    · exact ⟨(LoadBalance.mem_pointers lb p).mp hmem, hidle⟩
    · simp at hidle
  · change (lb₁.hosts p).overload = true at hover
    rcases LoadBalance.update?_record hinv hu hp with ⟨hold, he⟩ | ⟨-, x, -, he⟩
    · exact ⟨hold, he ▸ hover⟩
    · rw [he] at hover
      cases hover

theorem Alike.updateHost (h : s.Alike r') (cfg : Config R) (mem : Memory) (currentTime : Int64)
    (modid cmdid : Int32) (rsp : GetRouteResponse) (rawHost : Ptr → RawHost) :
    Option.Rel (fun r r' => Alike ⟨r, s.record cfg (.updateHost mem currentTime modid cmdid rsp)⟩ r')
      (s.route.updateHost? cfg mem currentTime modid cmdid rsp)
      (r'.updateHost? cfg { mem with raw := rawHost } currentTime modid cmdid rsp) := by
  unfold RouteLb.updateHost? record
  dsimp only
  rcases h.at (packInts modid cmdid) with ⟨hs, hr⟩ | ⟨lb, lb', hs, hr, hinv, ha⟩
  · rw [recordAt_of_none hs, hs, hr]
    exact .some h
  · rw [recordAt_of_some hs, hs, hr]
    dsimp only
    split_ifs with hempty
    · refine .some (h.set _ (fun _ he => ?_) .none)
      cases he
    · obtain ⟨lb₁, hu⟩ : ∃ lb₁, lb.update? cfg mem currentTime rsp.host = some lb₁ :=
        ⟨_, if_neg hempty⟩
      obtain ⟨lb₁', hu', ha₁⟩ := alike_update hinv ha hu rawHost
      rw [hu, hu']
      exact .some (h.set _ (fun _ he => Option.some.inj he ▸ hinv.update mem currentTime _ hu)
        (.some ha₁))

/-- A host is overloaded after a report if it was and stayed so, or if `set_overload` ran. -/
theorem overload_reported {h : HostInfo} {currentTime time : Int64} {retcode : Int32}
    (ho : (h.reported cfg currentTime time retcode).overload = true) :
    h.overload = true ∨ .setOverload ∈ h.reportEvents cfg currentTime retcode := by
  rw [HostInfo.reported_eq_events] at ho
  rcases HostInfo.reportEvents_cases cfg currentTime retcode h with ⟨he, -⟩ | he | he <;>
    rw [he] at ho ⊢
  · exact Or.inl ((LoadBalance.countReport_overload retcode h).symm.trans ho)
  · cases ho
  · exact Or.inr (by simp)

theorem alike_report (cfg : Config R) {lb lb' : LoadBalance} {log : Ptr → List HostEvent}
    (ha : lb.Alike (.written log lb) lb') (currentTime time : Int64) (ip port retcode : Int32)
    (hgood : ∀ p, lb.hostMap.lookup (LoadBalance.reportKey ip port) = some p →
      HostInfo.ReadsIdleTs cfg retcode (lb.hosts p) → .setIdle ∈ log p) :
    (lb.report cfg currentTime time ip port retcode).Alike
      (.written ((⟨lb, log⟩ : LoggedLb).record cfg (.report currentTime time ip port retcode))
        (lb.report cfg currentTime time ip port retcode))
      (lb'.report cfg currentTime time ip port retcode) := by
  refine ha.report (fun p hp => ⟨hgood p hp, id⟩) currentTime time id ?_ (fun q hidle => ?_)
    fun q hover => ?_
  · change (LoadBalance.empty (lb.report ..)) = false → lb.empty = false
    unfold LoadBalance.empty
    rw [LoadBalance.report_hostMap]
    exact id
  · change .setIdle ∈ LoggedLb.record cfg ⟨lb, log⟩ (.report currentTime time ip port retcode) q
      at hidle
    unfold LoggedLb.record at hidle
    dsimp only at hidle
    cases hp : lb.hostMap.lookup (LoadBalance.reportKey ip port) with
    | none =>
      rw [hp] at hidle
      exact Or.inl hidle
    | some p =>
      rw [hp] at hidle
      dsimp only at hidle
      by_cases hq : q = p
      · subst q
        rw [Function.update_self, List.mem_append] at hidle
        exact hidle.imp_right fun h => ⟨rfl, h⟩
      · rw [Function.update_of_ne hq] at hidle
        exact Or.inl hidle
  · change ((lb.report cfg currentTime time ip port retcode).hosts q).overload = true at hover
    cases hp : lb.hostMap.lookup (LoadBalance.reportKey ip port) with
    | none =>
      rw [LoadBalance.report_of_lookup_none cfg currentTime time lb ip port retcode hp] at hover
      exact Or.inl hover
    | some p =>
      rw [LoadBalance.report_eq_place cfg currentTime time lb p ip port retcode hp,
        LoadBalance.place_hosts] at hover
      by_cases hq : q = p
      · subst q
        rw [Function.update_self] at hover
        exact (overload_reported hover).imp_right fun h => ⟨rfl, h⟩
      · rw [Function.update_of_ne hq] at hover
        exact Or.inl hover

theorem Alike.reportHost (h : s.Alike r') {currentTime time ts : Int64} {req : ReportRequest}
    (hgood : ¬ s.ReadsUnwritten cfg (.reportHost currentTime time ts req)) :
    (r'.reportHost cfg currentTime time ts req).2 =
        (s.route.reportHost cfg currentTime time ts req).2 ∧
      Alike ⟨(s.route.reportHost cfg currentTime time ts req).1,
        s.record cfg (.reportHost currentTime time ts req)⟩
        (r'.reportHost cfg currentTime time ts req).1 := by
  unfold RouteLb.reportHost record
  dsimp only
  rcases h.at (packInts req.modid req.cmdid) with ⟨hs, hr⟩ | ⟨lb, lb', hs, hr, hinv, ha⟩
  · rw [recordAt_of_none hs, hs, hr]
    exact ⟨rfl, h⟩
  · rw [recordAt_of_some hs, hs, hr]
    dsimp only
    have ha₁ := alike_report cfg ha currentTime time (req.host.getD { }).ip (req.host.getD { }).port
      req.retcode fun p hp hread => by_contra fun hnot => hgood ⟨lb, p, hs, hp, hread, hnot⟩
    have hinv₁ : (lb.report cfg currentTime time (req.host.getD { }).ip (req.host.getD { }).port
        req.retcode).Inv := hinv.report currentTime time _ _ req.retcode
    exact ⟨ha₁.commit hinv₁ ts, h.set _ (fun _ he => Option.some.inj he ▸ hinv₁) (.some ha₁)⟩

theorem Alike.resetLbStatus (h : s.Alike r') :
    Alike ⟨s.route.resetLbStatus, s.log⟩ r'.resetLbStatus := by
  refine ⟨fun key lb hget => ?_, fun key => ?_⟩
  · obtain ⟨lb₁, hlb₁, rfl⟩ := Option.map_eq_some_iff.mp hget
    exact (h.inv key lb₁ hlb₁).resetStatus
  · change Option.Rel _ ((s.route.routeLbMap key).map _) ((r'.routeLbMap key).map _)
    rcases h.at key with ⟨hs, hr⟩ | ⟨lb, lb', hs, hr, -, ha⟩ <;> rw [hs, hr]
    · exact .none
    · refine .some ?_
      have hreset := ha.resetStatus
      unfold LoadBalance.resetStatus at hreset ⊢
      split_ifs at hreset ⊢ <;> exact hreset

/-- A call that reads nothing unwritten shows the same in both runs and keeps them alike. -/
theorem Alike.step (h : s.Alike r') {op : RouteOp} (hgood : ¬ s.ReadsUnwritten cfg op)
    (raw : RawLoadBalance) (rawHost : Ptr → RawHost) :
    observe cfg r' (op.withMemory raw rawHost) = observe cfg s.route op ∧
      Option.Rel Alike (s.step? cfg op) (routeStep? cfg r' (op.withMemory raw rawHost)) := by
  unfold step?
  cases op with
  | getHost time raw₀ modid cmdid rsp =>
    have hrel := h.getHost hgood raw
    simp only [observe, routeStep?, RouteOp.withMemory]
    generalize s.route.getHost? cfg time raw₀ modid cmdid rsp = x at hrel
    generalize r'.getHost? cfg time raw modid cmdid rsp = x' at hrel
    cases hrel with
    | none => exact ⟨rfl, .none⟩
    | some hx =>
      obtain ⟨hout, ha⟩ := hx
      exact ⟨congrArg (fun out => Observation.host out.1 out.2.1 out.2.2) hout, .some ha⟩
  | getRoute time raw₀ modid cmdid rsp =>
    obtain ⟨hout, ha⟩ := h.getRoute hgood raw
    exact ⟨congrArg (fun out : _ × _ × _ => Observation.route out.1 out.2.1 out.2.2) hout, .some ha⟩
  | updateHost mem currentTime modid cmdid rsp =>
    have hrel := h.updateHost cfg mem currentTime modid cmdid rsp rawHost
    simp only [observe, routeStep?, RouteOp.withMemory]
    generalize s.route.updateHost? cfg mem currentTime modid cmdid rsp = x at hrel
    generalize r'.updateHost? cfg { mem with raw := rawHost } currentTime modid cmdid rsp = x' at hrel
    cases hrel with
    | none => exact ⟨rfl, .none⟩
    | some ha => exact ⟨rfl, .some ha⟩
  | reportHost currentTime time ts req =>
    obtain ⟨hout, ha⟩ := h.reportHost hgood
    exact ⟨congrArg Observation.committed hout, .some ha⟩
  | resetLbStatus => exact ⟨rfl, .some h.resetLbStatus⟩

/-- So does a whole run of such calls. -/
theorem Alike.observations_eq (h : s.Alike r') {ops ops' : List RouteOp}
    (hops : List.Forall₂ RouteOp.SameCall ops ops')
    (hgood : ∀ x ∈ attempted (step? cfg) s ops, ¬ x.1.ReadsUnwritten cfg x.2) :
    observations cfg r' ops' = observations cfg s.route ops := by
  induction hops generalizing s r' with
  | nil => rfl
  | @cons op op' ops ops' hop _ ih =>
    obtain ⟨raw, rawHost, rfl⟩ := hop
    obtain ⟨hfirst, hrest⟩ := (forall_attempted_cons s op ops).mp hgood
    obtain ⟨hout, hrel⟩ := h.step hfirst raw rawHost
    unfold observations at ih ⊢
    simp only [attempted, List.map_cons]
    rw [hout]
    congr 1
    unfold step? at hrel hrest
    generalize routeStep? cfg r' (op.withMemory raw rawHost) = x' at hrel
    cases hs : routeStep? cfg s.route op with
    | none =>
      rw [hs] at hrel
      cases hrel
      rfl
    | some r₁ =>
      rw [hs, Option.map_some] at hrel
      cases hrel with
      | some ha => exact ih ha (hrest _ (by rw [hs, Option.map_some]))

/-- The two runs log the same. -/
theorem Alike.record_eq (h : s.Alike r') {op : RouteOp} (hgood : ¬ s.ReadsUnwritten cfg op)
    (raw : RawLoadBalance) (rawHost : Ptr → RawHost) :
    (⟨r', s.log⟩ : LoggedRoute).record cfg (op.withMemory raw rawHost) = s.record cfg op := by
  cases op with
  | getHost time raw₀ modid cmdid rsp => rfl
  | getRoute time raw₀ modid cmdid rsp => rfl
  | resetLbStatus => rfl
  | updateHost mem currentTime modid cmdid rsp =>
    unfold record RouteOp.withMemory
    dsimp only
    rcases h.at (packInts modid cmdid) with ⟨hs, hr⟩ | ⟨lb, lb', hs, hr, -, ha⟩
    · rw [recordAt_of_none hs, recordAt_of_none hr]
    · rw [recordAt_of_some hs, recordAt_of_some hr]
      unfold LoggedLb.record
      dsimp only
      rw [ha.pointers]
  | reportHost currentTime time ts req =>
    unfold record RouteOp.withMemory
    dsimp only
    rcases h.at (packInts req.modid req.cmdid) with ⟨hs, hr⟩ | ⟨lb, lb', hs, hr, -, ha⟩
    · rw [recordAt_of_none hs, recordAt_of_none hr]
    · rw [recordAt_of_some hs, recordAt_of_some hr]
      unfold LoggedLb.record
      dsimp only
      rw [ha.hostMap]
      split
      · rfl
      · rename_i p hp
        rw [(ha.hosts p ⟨_, hp⟩).reportEvents (fun hread => by_contra fun hnot =>
          hgood ⟨lb, p, hs, hp, hread, hnot⟩) id]

/-- Both runs read an unwritten field, or neither does. -/
theorem Alike.readsUnwritten (h : s.Alike r') {op : RouteOp} (raw : RawLoadBalance)
    (rawHost : Ptr → RawHost)
    (hr : (⟨r', s.log⟩ : LoggedRoute).ReadsUnwritten cfg (op.withMemory raw rawHost)) :
    s.ReadsUnwritten cfg op := by
  have hat : ∀ key lb', r'.routeLbMap key = some lb' →
      ∃ lb, s.route.routeLbMap key = some lb ∧ lb.Alike (.written (s.log key) lb) lb' := by
    intro key lb' hget
    rcases h.at key with ⟨-, hnone⟩ | ⟨lb, lb'', hs, hr, -, ha⟩
    · rw [hnone] at hget
      cases hget
    · cases Option.some.inj (hr.symm.trans hget)
      exact ⟨lb, hs, ha⟩
  cases op with
  | getHost time raw₀ modid cmdid rsp =>
    obtain ⟨lb', hget, hover, hmin⟩ := hr
    obtain ⟨lb, hs, ha⟩ := hat _ lb' hget
    exact ⟨lb, hs, ha.overloadList ▸ hover, hmin⟩
  | getRoute time raw₀ modid cmdid rsp =>
    obtain ⟨lb', hget, hempty, hnew, hmax⟩ := hr
    obtain ⟨lb, hs, ha⟩ := hat _ lb' hget
    exact ⟨lb, hs, ha.empty ▸ hempty, ha.status ▸ hnew, hmax⟩
  | reportHost currentTime time ts req =>
    obtain ⟨lb', p, hget, hp, hread, hlog⟩ := hr
    obtain ⟨lb, hs, ha⟩ := hat _ lb' hget
    rw [ha.hostMap] at hp
    exact ⟨lb, p, hs, hp, ((ha.hosts p ⟨_, hp⟩).readsIdleTs req.retcode).mp hread, hlog⟩
  | updateHost mem currentTime modid cmdid rsp => exact hr
  | resetLbStatus => exact hr

end LoggedRoute

end Lrlb.Agent
