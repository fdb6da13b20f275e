import Lrlb.Agent.Update

/-! The modules of one agent thread and the operations that its mutex serialises: those of the
UDP server and those of the dns client. -/
namespace Lrlb.Agent
open Lib
open Proto (GetHostResponse GetRouteResponse GetRouteRequest ReportRequest ReportStatusReq)
open Proto.LrlbRetCode (retSucc retNoexist)

namespace LoadBalance

variable {R : Type} (cfg : Config R) (time : Int64) (lb : LoadBalance)

/-- Pull again when the routes are `NEW` and out of date. -/
def pullIfExpired : LoadBalance × Option GetRouteRequest :=
  if lb.status = .new ∧ cfg.updateTimeout < time - lb.lastUpdateTime then
    (lb.pull.1, some lb.pull.2)
  else (lb, none)

theorem pullIfExpired_hosts : (lb.pullIfExpired cfg time).1.hostMap = lb.hostMap ∧
    (lb.pullIfExpired cfg time).1.hosts = lb.hosts := by
  unfold pullIfExpired
  split_ifs <;> exact ⟨rfl, rfl⟩

theorem Inv.pullIfExpired {cfg : Config R} {lb : LoadBalance} (h : lb.Inv) (time : Int64) :
    (lb.pullIfExpired cfg time).1.Inv := by
  unfold LoadBalance.pullIfExpired
  split_ifs
  · exact ⟨h.split, h.flag, h.injective, h.keyed⟩
  · exact h

def resetStatus : LoadBalance :=
  if lb.status = .pulling then { lb with status := .new } else lb

@[simp] theorem resetStatus_empty : lb.resetStatus.empty = lb.empty := by
  unfold resetStatus; split_ifs <;> rfl

theorem resetStatus_status : lb.resetStatus.status = .new := by
  unfold resetStatus
  split_ifs with h
  · rfl
  · cases hs : lb.status with
    | pulling => exact absurd hs h
    | new => rfl

theorem Inv.resetStatus {lb : LoadBalance} (h : lb.Inv) : lb.resetStatus.Inv := by
  unfold LoadBalance.resetStatus
  split_ifs
  · exact ⟨h.split, h.flag, h.injective, h.keyed⟩
  · exact h

end LoadBalance

structure RouteLb where
  routeLbMap : UInt64 → Option LoadBalance

namespace RouteLb

def empty : RouteLb := ⟨fun _ => none⟩

def set (r : RouteLb) (key : UInt64) (lb : Option LoadBalance) : RouteLb :=
  ⟨Function.update r.routeLbMap key lb⟩

def addModule (raw : RawLoadBalance) (r : RouteLb) (modid cmdid : Int32) :
    RouteLb × GetRouteRequest :=
  let (lb, req) := (LoadBalance.create raw modid cmdid).pull
  (r.set (packInts modid cmdid) (some lb), req)

variable {R : Type}

/-- `none` is the failed assertion on a module without hosts that is not pulling. The results
are the filled response, the return value and the request put on the pull queue. -/
def getHost? (cfg : Config R) (time : Int64) (raw : RawLoadBalance) (r : RouteLb)
    (modid cmdid : Int32) (rsp : GetHostResponse) :
    Option (RouteLb × GetHostResponse × Int32 × Option GetRouteRequest) :=
  let key := packInts modid cmdid
  match r.routeLbMap key with
  | some lb =>
    if lb.empty then
      if lb.status = .pulling then
        some (r, { rsp with retcode := retNoexist.value }, retSucc.value, none)
      else none
    else do
      let (lb, rsp, ret) ← lb.choiceOneHost? cfg rsp
      let (lb, req) := lb.pullIfExpired cfg time
      some (r.set key (some lb), { rsp with retcode := ret }, ret, req)
  | none =>
    let (r, req) := r.addModule raw modid cmdid
    some (r, { rsp with retcode := retNoexist.value }, retNoexist.value, some req)

def getRoute (cfg : Config R) (time : Int64) (raw : RawLoadBalance) (r : RouteLb)
    (modid cmdid : Int32) (rsp : GetRouteResponse) :
    RouteLb × GetRouteResponse × Int32 × Option GetRouteRequest :=
  let key := packInts modid cmdid
  match r.routeLbMap key with
  | some lb =>
    let hosts := lb.getAllHosts.map fun p => ⟨(lb.hosts p).ip.toInt32, (lb.hosts p).port⟩
    let (lb, req) := lb.pullIfExpired cfg time
    (r.set key (some lb), { rsp with host := rsp.host ++ hosts }, retSucc.value, req)
  | none =>
    let (r, req) := r.addModule raw modid cmdid
    (r, rsp, retNoexist.value, some req)

def updateHost? (cfg : Config R) (mem : Memory) (currentTime : Int64) (r : RouteLb)
    (modid cmdid : Int32) (rsp : GetRouteResponse) : Option RouteLb :=
  let key := packInts modid cmdid
  match r.routeLbMap key with
  | some lb =>
    if rsp.host = [] then some (r.set key none)
    else (lb.update? cfg mem currentTime rsp.host).map fun lb => r.set key (some lb)
  | none => some r

def reportHost [RateArith R] (cfg : Config R) (currentTime time ts : Int64) (r : RouteLb)
    (req : ReportRequest) : RouteLb × Option ReportStatusReq :=
  let key := packInts req.modid req.cmdid
  let host := req.host.getD { }
  match r.routeLbMap key with
  | some lb =>
    let lb := lb.report cfg currentTime time host.ip host.port req.retcode
    (r.set key (some lb), lb.commit cfg ts)
  | none => (r, none)

def resetLbStatus (r : RouteLb) : RouteLb :=
  ⟨fun key => (r.routeLbMap key).map LoadBalance.resetStatus⟩

end RouteLb

/-- The operations under the mutex, with the clocks and the memory that each one meets. -/
inductive RouteOp where
  | getHost (time : Int64) (raw : RawLoadBalance) (modid cmdid : Int32) (rsp : GetHostResponse)
  | getRoute (time : Int64) (raw : RawLoadBalance) (modid cmdid : Int32) (rsp : GetRouteResponse)
  | updateHost (mem : Memory) (currentTime : Int64) (modid cmdid : Int32) (rsp : GetRouteResponse)
  | reportHost (currentTime time ts : Int64) (req : ReportRequest)
  | resetLbStatus

def routeStep? {R : Type} [RateArith R] (cfg : Config R) (r : RouteLb) : RouteOp → Option RouteLb
  | .getHost time raw modid cmdid rsp => (r.getHost? cfg time raw modid cmdid rsp).map Prod.fst
  | .getRoute time raw modid cmdid rsp => some (r.getRoute cfg time raw modid cmdid rsp).1
  | .updateHost mem currentTime modid cmdid rsp =>
    r.updateHost? cfg mem currentTime modid cmdid rsp
  | .reportHost currentTime time ts req => some (r.reportHost cfg currentTime time ts req).1
  | .resetLbStatus => some r.resetLbStatus

/-- Every module without hosts is still waiting for its first pull. -/
def EmptyIsPulling (r : RouteLb) : Prop :=
  ∀ key lb, r.routeLbMap key = some lb → lb.empty = true → lb.status = .pulling

namespace RouteLb

/-- A module that `get_host` can serve. -/
structure Ready (lb : LoadBalance) : Prop where
  inv : lb.Inv
  pulling : lb.empty = true → lb.status = .pulling

def AllReady (r : RouteLb) : Prop := ∀ key lb, r.routeLbMap key = some lb → Ready lb

variable {R : Type} {cfg : Config R} {r : RouteLb} {lb lb' : LoadBalance}

theorem Ready.pull_create (raw : RawLoadBalance) (modid cmdid : Int32) :
    Ready (LoadBalance.create raw modid cmdid).pull.1 :=
  have h := LoadBalance.Inv.create raw modid cmdid
  ⟨⟨h.split, h.flag, h.injective, h.keyed⟩, fun _ => rfl⟩

theorem Ready.pullIfExpired (h : Ready lb) (time : Int64) : Ready (lb.pullIfExpired cfg time).1 := by
  refine ⟨h.inv.pullIfExpired time, ?_⟩
  unfold LoadBalance.pullIfExpired
  split_ifs
  · exact fun _ => rfl
  · exact h.pulling

theorem Ready.choiceOneHost (h : Ready lb) (hne : lb.empty = false) {rsp rsp' : GetHostResponse}
    {ret : Int32} (hc : lb.choiceOneHost? cfg rsp = some (lb', rsp', ret)) : Ready lb' := by
  refine ⟨h.inv.choiceOneHost hc, fun he => ?_⟩
  rw [LoadBalance.empty, (LoadBalance.choiceOneHost?_hosts hc).1, ← LoadBalance.empty, hne] at he
  cases he

theorem Ready.update (h : Ready lb) {mem : Memory} {currentTime : Int64}
    {rsp : List Proto.HostInfo} (hu : lb.update? cfg mem currentTime rsp = some lb') :
    Ready lb' := by
  refine ⟨h.inv.update mem currentTime rsp hu, fun he => ?_⟩
  rw [LoadBalance.update?_not_empty hu] at he
  cases he

theorem Ready.report [RateArith R] (h : Ready lb) (currentTime time : Int64)
    (ip port retcode : Int32) : Ready (lb.report cfg currentTime time ip port retcode) := by
  refine ⟨h.inv.report currentTime time ip port retcode, fun he => ?_⟩
  rw [LoadBalance.report_status]
  apply h.pulling
  rw [LoadBalance.empty, LoadBalance.report_hostMap] at he
  exact he

theorem forall_modules_set {P : LoadBalance → Prop}
    (h : ∀ key lb, r.routeLbMap key = some lb → P lb) (key : UInt64)
    {v : Option LoadBalance} (hv : ∀ lb, v = some lb → P lb) :
    ∀ key' lb, (r.set key v).routeLbMap key' = some lb → P lb := by
  intro key' lb hget
  change Function.update r.routeLbMap key v key' = some lb at hget
  by_cases hk : key' = key
  · subst key'
    rw [Function.update_self] at hget
    exact hv lb hget
  · rw [Function.update_of_ne hk] at hget
    exact h key' lb hget

theorem AllReady.set (h : AllReady r) (key : UInt64) {v : Option LoadBalance}
    (hv : ∀ lb, v = some lb → Ready lb) : AllReady (r.set key v) := forall_modules_set h key hv

theorem AllReady.set_some (h : AllReady r) (key : UInt64) (hlb : Ready lb) :
    AllReady (r.set key (some lb)) := h.set key fun _ he => Option.some.inj he ▸ hlb

theorem AllReady.addModule (h : AllReady r) (raw : RawLoadBalance) (modid cmdid : Int32) :
    AllReady (r.addModule raw modid cmdid).1 := h.set_some _ (Ready.pull_create raw modid cmdid)

/-- Everything a request for a host can do: add the module, find it still waiting for its hosts,
or choose one of them. -/
theorem getHost?_cases {time : Int64} {raw : RawLoadBalance} {modid cmdid : Int32}
    {rsp rsp' : GetHostResponse} {r' : RouteLb} {ret : Int32} {req : Option GetRouteRequest}
    (h : r.getHost? cfg time raw modid cmdid rsp = some (r', rsp', ret, req)) :
    (r.routeLbMap (packInts modid cmdid) = none ∧ r' = (r.addModule raw modid cmdid).1 ∧
      rsp' = { rsp with retcode := retNoexist.value } ∧
      req = some (r.addModule raw modid cmdid).2) ∨
    (∃ lb, r.routeLbMap (packInts modid cmdid) = some lb ∧ lb.empty = true ∧ r' = r ∧
      rsp' = { rsp with retcode := retNoexist.value }) ∨
    ∃ lb lb₁ rsp₁, r.routeLbMap (packInts modid cmdid) = some lb ∧ lb.empty = false ∧
      lb.choiceOneHost? cfg rsp = some (lb₁, rsp₁, ret) ∧
      r' = r.set (packInts modid cmdid) (some (lb₁.pullIfExpired cfg time).1) ∧
      rsp' = { rsp₁ with retcode := ret } ∧ req = (lb₁.pullIfExpired cfg time).2 := by
  unfold getHost? at h
  dsimp only at h
  cases hget : r.routeLbMap (packInts modid cmdid) with
  | none =>
    rw [hget] at h
    cases h
    exact Or.inl ⟨rfl, rfl, rfl, rfl⟩
  | some lb =>
    rw [hget] at h
    dsimp only at h
    split_ifs at h with hempty hpulling
    · cases h
      exact Or.inr (Or.inl ⟨lb, rfl, hempty, rfl, rfl⟩)
    · obtain ⟨⟨lb₁, rsp₁, ret₁⟩, hc, h⟩ := Option.bind_eq_some_iff.mp h
      cases h
      exact Or.inr (Or.inr ⟨lb, lb₁, rsp₁, rfl, by simpa using hempty, hc, rfl, rfl, rfl⟩)

theorem AllReady.getHost (h : AllReady r) (time : Int64) (raw : RawLoadBalance)
    (modid cmdid : Int32) (rsp : GetHostResponse) :
    ∃ t, r.getHost? cfg time raw modid cmdid rsp = some t ∧ AllReady t.1 := by
  unfold getHost?
  dsimp only
  cases hget : r.routeLbMap (packInts modid cmdid) with
  | none => exact ⟨_, rfl, h.addModule raw modid cmdid⟩
  | some lb =>
    have hlb := h _ lb hget
    dsimp only
    split_ifs with he hs
    · exact ⟨_, rfl, h⟩
    · exact absurd (hlb.pulling he) hs
    · have hne : lb.empty = false := by simpa using he
      have hc : (lb.choiceOneHost? cfg rsp).isSome := hlb.inv.choiceOneHost_isSome hne rsp
      obtain ⟨⟨lb₁, rsp₁, ret⟩, hc⟩ := Option.isSome_iff_exists.mp hc
      rw [hc]
      exact ⟨_, rfl, h.set_some _ ((hlb.choiceOneHost hne hc).pullIfExpired time)⟩

theorem AllReady.getRoute (h : AllReady r) (time : Int64) (raw : RawLoadBalance)
    (modid cmdid : Int32) (rsp : GetRouteResponse) :
    AllReady (r.getRoute cfg time raw modid cmdid rsp).1 := by
  unfold RouteLb.getRoute
  dsimp only
  cases hget : r.routeLbMap (packInts modid cmdid) with
  | none => exact h.addModule raw modid cmdid
  | some lb => exact h.set_some _ ((h _ lb hget).pullIfExpired time)

theorem AllReady.updateHost (h : AllReady r) (mem : Memory) (currentTime : Int64)
    (modid cmdid : Int32) (rsp : GetRouteResponse) :
    ∃ t, r.updateHost? cfg mem currentTime modid cmdid rsp = some t ∧ AllReady t := by
  unfold updateHost?
  dsimp only
  cases hget : r.routeLbMap (packInts modid cmdid) with
  | none => exact ⟨r, rfl, h⟩
  | some lb =>
    dsimp only
    split_ifs with hrsp
    · exact ⟨_, rfl, h.set _ (by simp)⟩
    · obtain ⟨lb', hu⟩ : ∃ lb', lb.update? cfg mem currentTime rsp.host = some lb' :=
        ⟨_, if_neg hrsp⟩
      rw [hu]
      exact ⟨_, rfl, h.set_some _ ((h _ lb hget).update hu)⟩

variable [RateArith R]

theorem AllReady.reportHost (h : AllReady r) (currentTime time ts : Int64) (req : ReportRequest) :
    AllReady (r.reportHost cfg currentTime time ts req).1 := by
  unfold RouteLb.reportHost
  dsimp only
  cases hget : r.routeLbMap (packInts req.modid req.cmdid) with
  | none => exact h
  | some lb => exact h.set_some _ ((h _ lb hget).report currentTime time _ _ req.retcode)

theorem AllReady.resetLbStatus (h : AllReady r)
    (hne : ∀ key lb, r.routeLbMap key = some lb → lb.empty = false) :
    AllReady r.resetLbStatus := by
  intro key lb hget
  obtain ⟨lb₁, hlb₁, rfl⟩ := Option.map_eq_some_iff.mp hget
  refine ⟨(h key lb₁ hlb₁).inv.resetStatus, fun he => ?_⟩
  rw [LoadBalance.resetStatus_empty, hne key lb₁ hlb₁] at he
  cases he

/-- Resetting is the one operation that can strand a module: its pull is no longer
outstanding and it has no hosts yet. -/
def ResetFindsHosts (r : RouteLb) (op : RouteOp) : Prop :=
  op = .resetLbStatus → ∀ key lb, r.routeLbMap key = some lb → lb.empty = false

theorem AllReady.step (h : AllReady r) (op : RouteOp) (hop : ResetFindsHosts r op) :
    ∃ t, routeStep? cfg r op = some t ∧ AllReady t := by
  cases op with
  | getHost time raw modid cmdid rsp =>
    obtain ⟨t, ht, hr⟩ : ∃ t, r.getHost? cfg time raw modid cmdid rsp = some t ∧ AllReady t.1 :=
      h.getHost time raw modid cmdid rsp
    exact ⟨t.1, by simp [routeStep?, ht], hr⟩
  | getRoute time raw modid cmdid rsp => exact ⟨_, rfl, h.getRoute time raw modid cmdid rsp⟩
  | updateHost mem currentTime modid cmdid rsp =>
    exact h.updateHost mem currentTime modid cmdid rsp
  | reportHost currentTime time ts req => exact ⟨_, rfl, h.reportHost currentTime time ts req⟩
  | resetLbStatus => exact ⟨_, rfl, h.resetLbStatus (hop rfl)⟩

theorem resetFindsHosts_of_emptyIsPulling {t : RouteLb} (op : RouteOp)
    (hstep : routeStep? cfg r op = some t) (ht : EmptyIsPulling t) : ResetFindsHosts r op := by
  rintro rfl key lb hget
  cases hstep
  by_contra hne
  have he : lb.empty = true := by simpa using hne
  have hp := ht key lb.resetStatus (by simp [RouteLb.resetLbStatus, hget]) (by simpa using he)
  rw [LoadBalance.resetStatus_status] at hp
  cases hp

/-- Over a run from the empty map, every module without hosts is pulling and no assertion
fails if and only if the connection never comes up while some module has no hosts. -/
theorem empty_is_pulling_iff (cfg : Config R) (ops : List RouteOp) :
    ((∀ r ∈ visited (routeStep? cfg) empty ops, EmptyIsPulling r) ∧
        (run? (routeStep? cfg) empty ops).isSome) ↔
      ∀ x ∈ attempted (routeStep? cfg) empty ops, ResetFindsHosts x.1 x.2 := by
  constructor
  · rintro ⟨hv, hrun⟩
    exact guard_of_run (G := ResetFindsHosts)
      (fun _ op _ _ hstep ht => resetFindsHosts_of_emptyIsPulling op hstep ht) empty ops hv hrun
  · intro hops
    have hempty : AllReady empty := fun key lb hget => by cases hget
    obtain ⟨hv, hrun⟩ := guarded_run (fun _ op h hop => AllReady.step h op hop) empty ops hempty hops
    exact ⟨fun r hr key lb hget => (hv r hr key lb hget).pulling, hrun⟩

/-- The first request for a module, the connection to the dns server, the second request. -/
theorem second_request_aborts :
    ¬ ((∀ r ∈ visited (routeStep? defaultConfig) empty
          [.getHost 100 ⟨0, 0, .new⟩ 1 1 { }, .resetLbStatus, .getHost 101 ⟨0, 0, .new⟩ 1 1 { }],
          EmptyIsPulling r) ∧
        (run? (routeStep? defaultConfig) empty
          [.getHost 100 ⟨0, 0, .new⟩ 1 1 { }, .resetLbStatus,
            .getHost 101 ⟨0, 0, .new⟩ 1 1 { }]).isSome) := by
  rintro ⟨-, hrun⟩
  revert hrun
  decide +kernel

end RouteLb

end Lrlb.Agent
