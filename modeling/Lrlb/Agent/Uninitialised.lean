import Lrlb.Agent.Observations

/-! When the answers of the agent depend on memory that its constructors leave alone. -/
namespace Lrlb.Agent
open Lib
open Proto (GetHostResponse GetRouteResponse ReportRequest)

variable {R : Type} [RateArith R]

/-- Bytes for all the fields that the constructors leave alone. -/
structure Fill where
  accessCnt : Int32
  lastUpdateTime : Int64
  idleTs : Int64

def Fill.fill (f : Fill) (op : RouteOp) : RouteOp :=
  op.withMemory ⟨f.accessCnt, f.lastUpdateTime, .new⟩ fun _ => ⟨f.idleTs, 0⟩

/-- The fields that nothing has written still hold the bytes that they were created with; a host
whose `idle_ts` is among them has not been reported on. -/
structure LoadBalance.Unwritten (cfg : Config R) (f : Fill) (log : Ptr → List HostEvent)
    (lb : LoadBalance) : Prop where
  accessCnt : cfg.probeNum ≠ Int32.minValue → lb.accessCnt = f.accessCnt
  lastUpdateTime : lb.empty = true → lb.lastUpdateTime = f.lastUpdateTime
  hosts : ∀ p, lb.Holds p → (lb.hosts p).overload = false → .setIdle ∉ log p →
    (lb.hosts p).idleTs = f.idleTs ∧ (lb.hosts p).rsucc = 0 ∧ (lb.hosts p).rerr = 0

namespace LoadBalance.Unwritten

variable {cfg : Config R} {f : Fill} {log : Ptr → List HostEvent} {lb lb₁ : LoadBalance}

omit [RateArith R] in
theorem create (cfg : Config R) (f : Fill) (log : Ptr → List HostEvent) (modid cmdid : Int32) :
    Unwritten cfg f log
      (LoadBalance.create ⟨f.accessCnt, f.lastUpdateTime, .new⟩ modid cmdid).pull.1 :=
  ⟨fun _ => rfl, fun _ => rfl, nofun⟩

omit [RateArith R] in
theorem congr (h : Unwritten cfg f log lb) (hmap : lb₁.hostMap = lb.hostMap)
    (hhosts : lb₁.hosts = lb.hosts)
    (haccess : cfg.probeNum ≠ Int32.minValue → lb₁.accessCnt = lb.accessCnt)
    (hupdate : lb₁.lastUpdateTime = lb.lastUpdateTime) : Unwritten cfg f log lb₁ := by
  refine ⟨fun hc => (haccess hc).trans (h.accessCnt hc), ?_, ?_⟩
  · unfold LoadBalance.empty
    rw [hmap, hupdate]
    exact h.lastUpdateTime
  · unfold Holds
    rw [hmap, hhosts]
    exact h.hosts

omit [RateArith R] in
theorem choiceOneHost (h : Unwritten cfg f log lb) (hinv : lb.Inv) (hne : lb.empty = false)
    (hgood : ¬ lb.ReadsAccessCnt cfg) {rsp rsp₁ : GetHostResponse} {ret : Int32}
    (hc : lb.choiceOneHost? cfg rsp = some (lb₁, rsp₁, ret)) : Unwritten cfg f log lb₁ := by
  obtain ⟨hmap, hhosts⟩ := choiceOneHost?_hosts hc
  have hturn : (cfg.probeNum ≠ Int32.minValue → lb₁.accessCnt = lb.accessCnt) ∧
      lb₁.lastUpdateTime = lb.lastUpdateTime := by
    have hover : cfg.probeNum ≠ Int32.minValue → lb.overloadList = [] :=
      fun hmin => by_contra fun hover => hgood ⟨hover, hmin⟩
    rcases choiceOneHost?_cases cfg lb rsp hc with
      ⟨_, _, cnt, -, hcnt, rfl, -⟩ | ⟨_, _, hl, -, rfl, -⟩ | ⟨hl, -, rfl, -⟩
    · refine ⟨fun hmin => ?_, rfl⟩
      exact (hcnt.resolve_right fun hr => hr.1 (hover hmin)).2
    · refine ⟨fun hmin => ?_, rfl⟩
      simp [hover hmin] at hl
    · refine ⟨fun hmin => ?_, rfl⟩
      obtain ⟨p, hp⟩ := lb.holds_of_not_empty hne
      simpa [hl, hover hmin] using (hinv.split.mem_iff p).mpr hp
  exact h.congr hmap hhosts hturn.1 hturn.2

omit [RateArith R] in
theorem pullIfExpired (h : Unwritten cfg f log lb) (time : Int64) :
    Unwritten cfg f log (lb.pullIfExpired cfg time).1 := by
  obtain ⟨hmap, hhosts⟩ := lb.pullIfExpired_hosts cfg time
  refine h.congr hmap hhosts (fun _ => ?_) ?_
  · unfold LoadBalance.pullIfExpired
    split_ifs <;> rfl
  · unfold LoadBalance.pullIfExpired
    split_ifs <;> rfl

omit [RateArith R] in
theorem resetStatus (h : Unwritten cfg f log lb) : Unwritten cfg f log lb.resetStatus := by
  unfold LoadBalance.resetStatus
  split_ifs
  · exact h.congr rfl rfl (fun _ => rfl) rfl
  · exact h

theorem update (h : Unwritten cfg f log lb) (hinv : lb.Inv) {mem : Memory} {currentTime : Int64}
    {rsp : List Proto.HostInfo}
    (hu : lb.update? cfg { mem with raw := fun _ => ⟨f.idleTs, 0⟩ } currentTime rsp = some lb₁) :
    Unwritten cfg f ((⟨lb, log⟩ : LoggedLb).record cfg (.update mem currentTime rsp)) lb₁ := by
  refine ⟨fun hmin => ?_, fun hempty => ?_, fun p hp hover hlog => ?_⟩
  · exact (update?_accessCnt hu).trans (h.accessCnt hmin)
  · rw [update?_not_empty hu] at hempty
    cases hempty
  · rcases update?_record hinv hu hp with ⟨hold, he⟩ | ⟨-, x, -, he⟩
    · have hmem := (mem_pointers lb p).mpr hold
      rw [he] at hover ⊢
      refine h.hosts p hold hover ?_
      simpa [LoggedLb.record, hmem] using hlog
    · rw [he]
      exact ⟨rfl, rfl, rfl⟩

/-- An idle host that a report about it leaves idle has its `idle_ts` written. -/
theorem report (h : Unwritten cfg f log lb) {ip port retcode : Int32}
    (hgood : ∀ p, lb.hostMap.lookup (reportKey ip port) = some p →
      HostInfo.ReadsIdleTs cfg retcode (lb.hosts p) → .setIdle ∈ log p) (currentTime time : Int64) :
    Unwritten cfg f
      ((⟨lb, log⟩ : LoggedLb).record cfg (.report currentTime time ip port retcode))
      (lb.report cfg currentTime time ip port retcode) := by
  cases hp : lb.hostMap.lookup (reportKey ip port) with
  | none =>
    rw [report_of_lookup_none cfg currentTime time lb ip port retcode hp]
    unfold LoggedLb.record
    dsimp only
    rw [hp]
    exact h
  | some p =>
    rw [report_eq_place cfg currentTime time lb p ip port retcode hp]
    refine ⟨fun hmin => ?_, fun hempty => ?_, fun q hq hover hlog => ?_⟩
    · rw [place_accessCnt]
      exact h.accessCnt hmin
    · rw [empty, place_hostMap] at hempty
      rw [place_lastUpdateTime]
      exact h.lastUpdateTime hempty
    · rw [place_hosts] at hover ⊢
      rw [Holds, place_hostMap] at hq
      unfold LoggedLb.record at hlog
      dsimp only at hlog
      rw [hp] at hlog
      dsimp only at hlog
      by_cases hqp : q = p
      · subst q
        rw [Function.update_self] at hover hlog ⊢
        rw [List.mem_append, not_or] at hlog
        exfalso
        rw [HostInfo.reported_eq_events] at hover
        rcases HostInfo.reportEvents_cases cfg currentTime retcode (lb.hosts p) with
          ⟨he, hstays⟩ | he | he <;> rw [he] at hover hlog
        · have hidle : (lb.hosts p).overload = false :=
            (countReport_overload retcode (lb.hosts p)).symm.trans hover
          refine hlog.1 (hgood p hp ⟨hidle, ?_⟩)
          rintro ⟨hret, hcond⟩
          rw [hstays.idle hidle hret] at hcond
          cases hcond
        · exact hlog.2 (by simp)
        · cases hover
      · rw [Function.update_of_ne hqp] at hover hlog ⊢
        exact h.hosts q hq hover hlog

end LoadBalance.Unwritten

namespace LoggedRoute

variable {cfg : Config R} {f : Fill} {s t : LoggedRoute}

/-- The unwritten fields of all modules hold the bytes of `f`. -/
structure Filled (cfg : Config R) (f : Fill) (s : LoggedRoute) : Prop where
  inv : ∀ key lb, s.route.routeLbMap key = some lb → lb.Inv
  unwritten : ∀ key lb, s.route.routeLbMap key = some lb → lb.Unwritten cfg f (s.log key)

omit [RateArith R] in
theorem Filled.init (cfg : Config R) (f : Fill) : Filled cfg f init := ⟨nofun, nofun⟩

omit [RateArith R] in
theorem Filled.set (h : Filled cfg f s) (key : UInt64) {v : Option LoadBalance}
    {log : Ptr → List HostEvent}
    (hv : ∀ lb, v = some lb → lb.Inv ∧ lb.Unwritten cfg f log) :
    Filled cfg f ⟨s.route.set key v, Function.update s.log key log⟩ := by
  have hall : ∀ key' lb, (s.route.set key v).routeLbMap key' = some lb →
      lb.Inv ∧ lb.Unwritten cfg f (Function.update s.log key log key') := by
    intro key' lb hget
    change Function.update s.route.routeLbMap key v key' = some lb at hget
    by_cases hk : key' = key
    · subst key'
      rw [Function.update_self] at hget ⊢
      exact hv lb hget
    · rw [Function.update_of_ne hk] at hget ⊢
      exact ⟨h.inv key' lb hget, h.unwritten key' lb hget⟩
  exact ⟨fun key' lb hget => (hall key' lb hget).1, fun key' lb hget => (hall key' lb hget).2⟩

omit [RateArith R] in
theorem Filled.set_some (h : Filled cfg f s) (key : UInt64) {lb : LoadBalance} (hinv : lb.Inv)
    (hu : lb.Unwritten cfg f (s.log key)) : Filled cfg f ⟨s.route.set key (some lb), s.log⟩ := by
  have hset : Filled cfg f ⟨s.route.set key (some lb), Function.update s.log key (s.log key)⟩ :=
    h.set key fun _ he => Option.some.inj he ▸ ⟨hinv, hu⟩
  rwa [Function.update_eq_self] at hset

omit [RateArith R] in
theorem Filled.addModule (h : Filled cfg f s) (modid cmdid : Int32) :
    Filled cfg f ⟨(s.route.addModule ⟨f.accessCnt, f.lastUpdateTime, .new⟩ modid cmdid).1, s.log⟩ :=
  h.set_some _ (RouteLb.Ready.pull_create _ modid cmdid).inv (.create cfg f _ modid cmdid)

theorem Filled.step (h : Filled cfg f s) {op : RouteOp}
    (hgood : ¬ s.ReadsUnwritten cfg (f.fill op)) (hstep : s.step? cfg (f.fill op) = some t) :
    Filled cfg f t := by
  obtain ⟨r, hr, rfl⟩ := Option.map_eq_some_iff.mp hstep
  cases op with
  | getHost time raw modid cmdid rsp =>
    obtain ⟨⟨r₁, rsp₁, ret, req⟩, hg, rfl⟩ := Option.map_eq_some_iff.mp hr
    obtain ⟨-, rfl, -⟩ | ⟨lb, -, -, rfl, -⟩ | ⟨lb, lb₁, rsp₂, hget, hne, hc, rfl, -⟩ :=
      RouteLb.getHost?_cases hg
    · exact h.addModule modid cmdid
    · exact h
    · have hinv := h.inv _ lb hget
      have hu := (h.unwritten _ lb hget).choiceOneHost hinv hne (fun hr => hgood ⟨lb, hget, hr⟩) hc
      exact h.set_some _ ((hinv.choiceOneHost hc).pullIfExpired time) (hu.pullIfExpired time)
  | getRoute time raw modid cmdid rsp =>
    cases hr
    unfold RouteLb.getRoute
    dsimp only
    cases hget : s.route.routeLbMap (packInts modid cmdid) with
    | none => exact h.addModule modid cmdid
    | some lb =>
      exact h.set_some _ ((h.inv _ lb hget).pullIfExpired time)
        ((h.unwritten _ lb hget).pullIfExpired time)
  | updateHost mem currentTime modid cmdid rsp =>
    change s.route.updateHost? cfg { mem with raw := fun _ => ⟨f.idleTs, 0⟩ } currentTime modid cmdid
      rsp = some r at hr
    change Filled cfg f ⟨r, s.recordAt cfg (packInts modid cmdid) (.update _ currentTime rsp.host)⟩
    unfold RouteLb.updateHost? at hr
    dsimp only at hr
    cases hget : s.route.routeLbMap (packInts modid cmdid) with
    | none =>
      rw [hget] at hr
      cases hr
      rw [recordAt_of_none hget]
      exact h
    | some lb =>
      rw [hget] at hr
      rw [recordAt_of_some hget]
      dsimp only at hr
      split_ifs at hr with hempty
      · cases hr
        refine h.set _ fun _ he => ?_
        cases he
      · obtain ⟨lb₁, hu, rfl⟩ := Option.map_eq_some_iff.mp hr
        have hinv := h.inv _ lb hget
        refine h.set _ fun _ he => Option.some.inj he ▸ ⟨hinv.update _ currentTime _ hu, ?_⟩
        exact (h.unwritten _ lb hget).update hinv hu
  | reportHost currentTime time ts req =>
    cases hr
    change Filled cfg f ⟨(s.route.reportHost cfg currentTime time ts req).1,
      s.recordAt cfg (packInts req.modid req.cmdid) (.report currentTime time (req.host.getD { }).ip
        (req.host.getD { }).port req.retcode)⟩
    unfold RouteLb.reportHost
    dsimp only
    cases hget : s.route.routeLbMap (packInts req.modid req.cmdid) with
    | none =>
      rw [recordAt_of_none hget]
      exact h
    | some lb =>
      rw [recordAt_of_some hget]
      refine h.set _ fun _ he => Option.some.inj he ▸ ⟨(h.inv _ lb hget).report .., ?_⟩
      exact (h.unwritten _ lb hget).report (fun p hp hread => by_contra fun hnot =>
        hgood ⟨lb, p, hget, hp, hread, hnot⟩) currentTime time
  | resetLbStatus =>
    cases hr
    refine ⟨fun key lb hget => ?_, fun key lb hget => ?_⟩
    · obtain ⟨lb₁, hlb₁, rfl⟩ := Option.map_eq_some_iff.mp hget
      exact (h.inv key lb₁ hlb₁).resetStatus
    · obtain ⟨lb₁, hlb₁, rfl⟩ := Option.map_eq_some_iff.mp hget
      exact (h.unwritten key lb₁ hlb₁).resetStatus

/-- The calls before the first unwritten read go the same way in a filled run. -/
theorem Alike.run {r' : RouteLb} (h : s.Alike r') (hf : Filled cfg f ⟨r', s.log⟩)
    {ops : List RouteOp} (hgood : ∀ x ∈ attempted (step? cfg) s ops, ¬ x.1.ReadsUnwritten cfg x.2)
    (hrun : run? (step? cfg) s ops = some t) :
    ∃ r₁, run? (routeStep? cfg) r' (ops.map f.fill) = some r₁ ∧ t.Alike r₁ ∧
      Filled cfg f ⟨r₁, t.log⟩ := by
  induction ops generalizing s r' with
  | nil =>
    cases hrun
    exact ⟨r', rfl, h, hf⟩
  | cons op ops ih =>
    obtain ⟨hfirst, hrest⟩ := (forall_attempted_cons s op ops).mp hgood
    obtain ⟨s₁, hs₁, hrun⟩ := Option.bind_eq_some_iff.mp hrun
    obtain ⟨-, hrel⟩ := h.step hfirst ⟨f.accessCnt, f.lastUpdateTime, .new⟩ fun _ => ⟨f.idleTs, 0⟩
    change Option.Rel Alike (s.step? cfg op) (routeStep? cfg r' (f.fill op)) at hrel
    rw [hs₁] at hrel
    cases hr : routeStep? cfg r' (f.fill op) with
    | none =>
      rw [hr] at hrel
      cases hrel
    | some r₁ =>
      rw [hr] at hrel
      cases hrel with
      | some ha =>
        have hlog : s₁.log = (⟨r', s.log⟩ : LoggedRoute).record cfg (f.fill op) := by
          obtain ⟨r, -, rfl⟩ := Option.map_eq_some_iff.mp hs₁
          exact (h.record_eq hfirst _ _).symm
        have hf₁ : Filled cfg f ⟨r₁, s₁.log⟩ := by
          rw [hlog]
          refine hf.step (fun hread => hfirst (h.readsUnwritten _ _ hread)) ?_
          unfold step?
          rw [hr]
          rfl
        obtain ⟨r₂, hrun₂, hres⟩ := ih ha hf₁ (hrest s₁ hs₁) hrun
        refine ⟨r₂, ?_, hres⟩
        simpa [run?, hr] using hrun₂

end LoggedRoute

namespace LoadBalance

variable {cfg : Config R} {t₁ t₂ : Trust} {lb lb₁ lb₂ : LoadBalance}

omit [RateArith R] in
/-- Beside an overloaded host, a full counter probes it and an empty one does not. -/
theorem choices_differ (hinv : lb.Inv) (h₁ : lb.Alike t₁ lb₁) (h₂ : lb.Alike t₂ lb₂)
    (hmax : cfg.probeNum ≤ lb₁.accessCnt) (hmin : ¬ cfg.probeNum ≤ lb₂.accessCnt)
    (hover : lb.overloadList ≠ []) {rsp rsp₁ rsp₂ : GetHostResponse} {ret₁ ret₂ : Int32}
    {c₁ c₂ : LoadBalance} (hc₁ : lb₁.choiceOneHost? cfg rsp = some (c₁, rsp₁, ret₁))
    (hc₂ : lb₂.choiceOneHost? cfg rsp = some (c₂, rsp₂, ret₂)) (hhost : rsp₁.host = rsp₂.host) :
    ret₁ ≠ ret₂ := by
  obtain ⟨p, l, hl, hrsp₁, hret₁⟩ : ∃ p l, lb.overloadList = p :: l ∧
      rsp₁ = { rsp with host := some ⟨(lb.hosts p).ip.toInt32, (lb.hosts p).port⟩ } ∧
      ret₁ = Proto.LrlbRetCode.retSucc.value := by
    rcases choiceOneHost?_cases cfg lb₁ rsp hc₁ with
      ⟨_, _, _, -, hcnt, -⟩ | ⟨p, l, hl, -, -, hrsp, hret⟩ | ⟨-, hcnt, -⟩
    · rw [h₁.overloadList] at hcnt
      rcases hcnt with ⟨hnil, -⟩ | ⟨-, hnot, -⟩
      · exact absurd hnil hover
      · exact absurd hmax hnot
    · rw [h₁.overloadList] at hl
      have hh := h₁.hosts_of_mem hinv (p := p) (by simp [hl])
      exact ⟨p, l, hl, by rw [hrsp, hh.ip, hh.port], hret⟩
    · exact absurd hmax hcnt
  rcases choiceOneHost?_cases cfg lb₂ rsp hc₂ with
    ⟨q, li, _, hli, -, -, hrsp₂, -⟩ | ⟨_, _, -, hcnt, -⟩ | ⟨-, -, -, -, hret₂⟩
  · -- two hosts at one address
    rw [h₂.idleList] at hli
    have hp : p ∈ lb.overloadList := by simp [hl]
    have hq : q ∈ lb.idleList := by simp [hli]
    have hh := h₂.hosts_of_mem hinv (Or.inl hq)
    rw [hrsp₁, hrsp₂, hh.ip, hh.port] at hhost
    injection Option.some.inj hhost with hip hport
    have hpq : p = q := hinv.eq_of_address ((hinv.split.mem_iff p).mp (Or.inr hp))
      ((hinv.split.mem_iff q).mp (Or.inl hq)) hip hport
    subst q
    exact absurd hp (hinv.split.disjoint p hq)
  · exact absurd hcnt hmin
  · rw [hret₁, hret₂]
    decide

omit [RateArith R] in
theorem pulls_differ (hnew₁ : lb₁.status = .new) (time : Int64)
    (h₁ : cfg.updateTimeout < time - lb₁.lastUpdateTime)
    (h₂ : ¬ cfg.updateTimeout < time - lb₂.lastUpdateTime) :
    (lb₁.pullIfExpired cfg time).2 ≠ (lb₂.pullIfExpired cfg time).2 := by
  unfold pullIfExpired
  rw [if_pos ⟨hnew₁, h₁⟩, if_neg fun h => h₂ h.2]
  exact Option.some_ne_none _

end LoadBalance

namespace HostInfo

variable {cfg : Config R} {retcode : Int32} {h : HostInfo}

theorem ReadsIdleTs.reported (hread : ReadsIdleTs cfg retcode h) (currentTime time : Int64) :
    h.reported cfg currentTime time retcode =
      (LoadBalance.countReport retcode h).windowed cfg currentTime time := by
  obtain ⟨hidle, hcond⟩ := hread
  unfold HostInfo.reported
  dsimp only
  rw [LoadBalance.countReport_overload, hidle]
  split_ifs with hfail hover hsucc
  · exact absurd ⟨hfail.2, hover⟩ hcond
  · rfl
  · exact absurd hsucc.1 (by decide)
  · exact absurd hsucc.1 (by decide)
  · rfl

/-- When the window is over, a report clears the counters. -/
theorem ReadsIdleTs.reported_late (hread : ReadsIdleTs cfg retcode h) {currentTime : Int64}
    (hlate : cfg.idleTimeout.toInt64 ≤ currentTime - h.idleTs) (time : Int64) :
    (h.reported cfg currentTime time retcode).rsucc = 0 ∧
      (h.reported cfg currentTime time retcode).rerr = 0 := by
  rw [hread.reported, windowed, LoadBalance.countReport_overload, if_pos hread.1,
    LoadBalance.countReport_idleTs, if_pos hlate]
  split_ifs <;> exact ⟨rfl, rfl⟩

/-- Before that, it is counted. -/
theorem ReadsIdleTs.reported_early (hread : ReadsIdleTs cfg retcode h) {currentTime : Int64}
    (hearly : ¬ cfg.idleTimeout.toInt64 ≤ currentTime - h.idleTs) (time : Int64) :
    h.reported cfg currentTime time retcode = LoadBalance.countReport retcode h := by
  rw [hread.reported, windowed, LoadBalance.countReport_overload, if_pos hread.1,
    LoadBalance.countReport_idleTs, if_neg hearly]

theorem countReport_ne_zero (hsucc : h.rsucc = 0) (herr : h.rerr = 0)
    (hs : (LoadBalance.countReport retcode h).rsucc = 0) :
    (LoadBalance.countReport retcode h).rerr ≠ 0 := by
  have hone : (0 : UInt32) + 1 ≠ 0 := by decide
  unfold LoadBalance.countReport at hs ⊢
  split_ifs at hs ⊢
  · exact absurd (hsucc ▸ hs) hone
  · exact herr ▸ hone

end HostInfo

namespace LoadBalance

variable {cfg : Config R} {lb lb₁ lb₂ : LoadBalance}

/-- A committed report tells whether the report before it was the first or the last of its
window. -/
theorem commits_differ (hinv₁ : lb₁.Inv) (hinv₂ : lb₂.Inv) {p : Ptr} {ip port retcode : Int32}
    (hp₁ : lb₁.hostMap.lookup (reportKey ip port) = some p)
    (hp₂ : lb₂.hostMap.lookup (reportKey ip port) = some p)
    (hip : (lb₁.hosts p).ip = (lb₂.hosts p).ip) (hport : (lb₁.hosts p).port = (lb₂.hosts p).port)
    (hread₁ : HostInfo.ReadsIdleTs cfg retcode (lb₁.hosts p))
    (hread₂ : HostInfo.ReadsIdleTs cfg retcode (lb₂.hosts p)) {currentTime : Int64}
    (hlate : cfg.idleTimeout.toInt64 ≤ currentTime - (lb₁.hosts p).idleTs)
    (hearly : ¬ cfg.idleTimeout.toInt64 ≤ currentTime - (lb₂.hosts p).idleTs)
    (hsucc : (lb₂.hosts p).rsucc = 0) (herr : (lb₂.hosts p).rerr = 0) (time ts : Int64) :
    (lb₁.report cfg currentTime time ip port retcode).commit cfg ts ≠
      (lb₂.report cfg currentTime time ip port retcode).commit cfg ts := by
  have hinv₁' : (lb₁.report cfg currentTime time ip port retcode).Inv := hinv₁.report ..
  have hinv₂' : (lb₂.report cfg currentTime time ip port retcode).Inv := hinv₂.report ..
  have hhost₁ : (lb₁.report cfg currentTime time ip port retcode).hosts p =
      (lb₁.hosts p).reported cfg currentTime time retcode := by
    rw [report_eq_place cfg currentTime time lb₁ p ip port retcode hp₁, place_hosts,
      Function.update_self]
  have hhost₂ : (lb₂.report cfg currentTime time ip port retcode).hosts p =
      countReport retcode (lb₂.hosts p) := by
    rw [report_eq_place cfg currentTime time lb₂ p ip port retcode hp₂, place_hosts,
      Function.update_self, hread₂.reported_early hearly]
  have hheld₁ : (lb₁.report cfg currentTime time ip port retcode).Holds p :=
    ⟨_, (report_hostMap cfg currentTime time lb₁ ip port retcode).symm ▸ hp₁⟩
  have hheld₂ : (lb₂.report cfg currentTime time ip port retcode).Holds p :=
    ⟨_, (report_hostMap cfg currentTime time lb₂ ip port retcode).symm ▸ hp₂⟩
  generalize lb₁.report cfg currentTime time ip port retcode = c₁ at *
  generalize lb₂.report cfg currentTime time ip port retcode = c₂ at *
  obtain ⟨haddr, hpaddr⟩ := HostInfo.reported_address cfg currentTime time retcode (lb₁.hosts p)
  obtain ⟨hzero, hzero'⟩ := hread₁.reported_late hlate time
  obtain ⟨req₁, hreq₁, hperm₁⟩ := hinv₁'.commit_perm cfg ts (not_empty_of_holds hheld₁)
  obtain ⟨req₂, hreq₂, hperm₂⟩ := hinv₂'.commit_perm cfg ts (not_empty_of_holds hheld₂)
  rw [hreq₁, hreq₂]
  intro heq
  have hentry : c₂.hostResult p ∈ req₁.results := by
    rw [Option.some.inj heq, hperm₂.mem_iff]
    exact List.mem_map_of_mem ((c₂.mem_pointers p).mpr hheld₂)
  rw [hperm₁.mem_iff] at hentry
  obtain ⟨q, hq, he⟩ := List.mem_map.mp hentry
  injection he with heip heport hes hee
  -- the entry is about the host itself, whose counters are clear in one run only
  have hqp : q = p := by
    refine hinv₁'.eq_of_address ((c₁.mem_pointers q).mp hq) hheld₁ ?_ ?_
    · rw [heip, hhost₁, hhost₂, countReport_ip, haddr, hip]
    · rw [heport, hhost₁, hhost₂, countReport_port, hpaddr, hport]
  subst q
  rw [hhost₁, hhost₂, hzero] at hes
  rw [hhost₁, hhost₂, hzero'] at hee
  exact HostInfo.countReport_ne_zero hsucc herr hes.symm hee.symm

end LoadBalance

namespace LoggedRoute

variable {cfg : Config R} {s : LoggedRoute} {r' : RouteLb}

theorem observe_getHost {lb lb₁ : LoadBalance} {time : Int64} {raw : RawLoadBalance}
    {modid cmdid : Int32} {rsp rsp₁ : GetHostResponse} {ret : Int32}
    (hget : r'.routeLbMap (packInts modid cmdid) = some lb) (hne : lb.empty = false)
    (hc : lb.choiceOneHost? cfg rsp = some (lb₁, rsp₁, ret)) :
    observe cfg r' (.getHost time raw modid cmdid rsp) =
      .host { rsp₁ with retcode := ret } ret (lb₁.pullIfExpired cfg time).2 := by
  simp [observe, RouteLb.getHost?, hget, hne, hc]

theorem observe_getRoute {lb : LoadBalance} (time : Int64) (raw : RawLoadBalance)
    {modid cmdid : Int32} (rsp : GetRouteResponse)
    (hget : r'.routeLbMap (packInts modid cmdid) = some lb) :
    ∃ rsp₁ ret, observe cfg r' (.getRoute time raw modid cmdid rsp) =
      .route rsp₁ ret (lb.pullIfExpired cfg time).2 := by
  simp [observe, RouteLb.getRoute, hget]

theorem observe_reportHost {lb : LoadBalance} {currentTime time ts : Int64} {req : ReportRequest}
    (hget : r'.routeLbMap (packInts req.modid req.cmdid) = some lb) :
    observe cfg r' (.reportHost currentTime time ts req) =
      .committed ((lb.report cfg currentTime time (req.host.getD { }).ip (req.host.getD { }).port
        req.retcode).commit cfg ts) := by
  simp [observe, RouteLb.reportHost, hget]

omit [RateArith R] in
/-- The module of a filled run at a key where the reference run has one. -/
theorem Alike.get {f : Fill} {key : UInt64} {lb : LoadBalance} (h : s.Alike r')
    (hf : Filled cfg f ⟨r', s.log⟩) (hget : s.route.routeLbMap key = some lb) :
    ∃ lb', r'.routeLbMap key = some lb' ∧ lb.Alike (.written (s.log key) lb) lb' ∧ lb'.Inv ∧
      lb'.Unwritten cfg f (s.log key) := by
  rcases h.at key with ⟨hnone, -⟩ | ⟨lb₀, lb', hs, hr, -, ha⟩
  · rw [hnone] at hget
    cases hget
  · cases Option.some.inj (hs.symm.trans hget)
    exact ⟨lb', hr, ha, hf.inv key lb' hr, hf.unwritten key lb' hr⟩

/-- Bytes for which the clock differences at `now` are the largest, and bytes for which they are
the smallest. -/
def lateFill (now : Int64) : Fill := ⟨Int32.maxValue, now - Int64.maxValue, now - Int64.maxValue⟩

def earlyFill (now : Int64) : Fill := ⟨Int32.minValue, now - Int64.minValue, now - Int64.minValue⟩

theorem sub_sub_self (a b : Int64) : a - (a - b) = b := by grind

theorem minValue_lt_toInt64 (x : Int32) : ¬ x.toInt64 ≤ Int64.minValue := by
  rw [Int64.not_le, Int64.lt_iff_toInt_lt, Int32.toInt_toInt64]
  have hle := x.le_toInt
  have hmin : Int64.minValue.toInt = -9223372036854775808 := rfl
  omega

/-- An unwritten field that is read shows. -/
theorem ReadsUnwritten.differs {op : RouteOp} (hbad : s.ReadsUnwritten cfg op) :
    ∃ f₁ f₂ : Fill, ∀ r₁ r₂, s.Alike r₁ → Filled cfg f₁ ⟨r₁, s.log⟩ → s.Alike r₂ →
      Filled cfg f₂ ⟨r₂, s.log⟩ → observe cfg r₁ (f₁.fill op) ≠ observe cfg r₂ (f₂.fill op) := by
  cases op with
  | getHost time raw modid cmdid rsp =>
    obtain ⟨lb, hget, hover, hmin⟩ := hbad
    refine ⟨lateFill 0, earlyFill 0, fun r₁ r₂ h₁ hf₁ h₂ hf₂ heq => ?_⟩
    obtain ⟨lb₁, hr₁, ha₁, hinv₁, hu₁⟩ := h₁.get hf₁ hget
    obtain ⟨lb₂, hr₂, ha₂, hinv₂, hu₂⟩ := h₂.get hf₂ hget
    have hinv := h₁.inv _ lb hget
    have hne : lb.empty = false := by
      obtain ⟨p, hp⟩ := List.exists_mem_of_ne_nil _ hover
      exact LoadBalance.not_empty_of_holds ((hinv.split.mem_iff p).mp (Or.inr hp))
    have hne₁ := ha₁.empty.trans hne
    have hne₂ := ha₂.empty.trans hne
    have hsome₁ : (lb₁.choiceOneHost? cfg rsp).isSome := hinv₁.choiceOneHost_isSome hne₁ rsp
    have hsome₂ : (lb₂.choiceOneHost? cfg rsp).isSome := hinv₂.choiceOneHost_isSome hne₂ rsp
    obtain ⟨⟨c₁, rsp₁, ret₁⟩, hc₁⟩ := Option.isSome_iff_exists.mp hsome₁
    obtain ⟨⟨c₂, rsp₂, ret₂⟩, hc₂⟩ := Option.isSome_iff_exists.mp hsome₂
    change observe cfg r₁ (.getHost ..) = observe cfg r₂ (.getHost ..) at heq
    rw [observe_getHost hr₁ hne₁ hc₁, observe_getHost hr₂ hne₂ hc₂] at heq
    injection heq with hrsp hret
    refine LoadBalance.choices_differ hinv ha₁ ha₂ ?_ ?_ hover hc₁ hc₂ ?_ hret
    · rw [hu₁.accessCnt hmin]
      exact Int32.le_maxValue _
    · rw [hu₂.accessCnt hmin]
      exact fun hle => hmin (Int32.le_antisymm hle (Int32.minValue_le _))
    · injection hrsp
  | getRoute time raw modid cmdid rsp =>
    obtain ⟨lb, hget, hempty, hnew, hmax⟩ := hbad
    refine ⟨lateFill time, earlyFill time, fun r₁ r₂ h₁ hf₁ h₂ hf₂ heq => ?_⟩
    obtain ⟨lb₁, hr₁, ha₁, hinv₁, hu₁⟩ := h₁.get hf₁ hget
    obtain ⟨lb₂, hr₂, ha₂, hinv₂, hu₂⟩ := h₂.get hf₂ hget
    obtain ⟨_, _, ho₁⟩ : ∃ rsp₁ ret, observe cfg r₁ ((lateFill time).fill
        (.getRoute time raw modid cmdid rsp)) = .route rsp₁ ret (lb₁.pullIfExpired cfg time).2 :=
      observe_getRoute time _ rsp hr₁
    obtain ⟨_, _, ho₂⟩ : ∃ rsp₂ ret, observe cfg r₂ ((earlyFill time).fill
        (.getRoute time raw modid cmdid rsp)) = .route rsp₂ ret (lb₂.pullIfExpired cfg time).2 :=
      observe_getRoute time _ rsp hr₂
    rw [ho₁, ho₂] at heq
    injection heq with _ _ hpull
    refine LoadBalance.pulls_differ (ha₁.status.trans hnew) time ?_ ?_ hpull
    · rw [hu₁.lastUpdateTime (ha₁.empty.trans hempty)]
      change cfg.updateTimeout < time - (time - Int64.maxValue)
      rw [sub_sub_self]
      exact Int64.lt_of_le_of_ne (Int64.le_maxValue _) hmax
    · rw [hu₂.lastUpdateTime (ha₂.empty.trans hempty)]
      change ¬ cfg.updateTimeout < time - (time - Int64.minValue)
      rw [sub_sub_self]
      exact Int64.not_lt.mpr (Int64.minValue_le _)
  | reportHost currentTime time ts req =>
    obtain ⟨lb, p, hget, hp, hread, hlog⟩ := hbad
    refine ⟨lateFill currentTime, earlyFill currentTime, fun r₁ r₂ h₁ hf₁ h₂ hf₂ heq => ?_⟩
    obtain ⟨lb₁, hr₁, ha₁, hinv₁, hu₁⟩ := h₁.get hf₁ hget
    obtain ⟨lb₂, hr₂, ha₂, hinv₂, hu₂⟩ := h₂.get hf₂ hget
    have hh₁ := ha₁.hosts p ⟨_, hp⟩
    have hh₂ := ha₂.hosts p ⟨_, hp⟩
    have hp₁ := (congrArg (AList.lookup _) ha₁.hostMap).trans hp
    have hp₂ := (congrArg (AList.lookup _) ha₂.hostMap).trans hp
    have hread₁ := (hh₁.readsIdleTs req.retcode).mpr hread
    have hread₂ := (hh₂.readsIdleTs req.retcode).mpr hread
    obtain ⟨hts₁, -, -⟩ := hu₁.hosts p ⟨_, hp₁⟩ hread₁.1 hlog
    obtain ⟨hts₂, hsucc, herr⟩ := hu₂.hosts p ⟨_, hp₂⟩ hread₂.1 hlog
    change observe cfg r₁ (.reportHost ..) = observe cfg r₂ (.reportHost ..) at heq
    rw [observe_reportHost hr₁, observe_reportHost hr₂] at heq
    injection heq with hcommit
    refine LoadBalance.commits_differ hinv₁ hinv₂ hp₁ hp₂ (hh₁.ip.trans hh₂.ip.symm)
      (hh₁.port.trans hh₂.port.symm) hread₁ hread₂ ?_ ?_ hsucc herr time ts hcommit
    · rw [hts₁]
      change cfg.idleTimeout.toInt64 ≤ currentTime - (currentTime - Int64.maxValue)
      rw [sub_sub_self]
      exact Int64.le_maxValue _
    · rw [hts₂]
      change ¬ cfg.idleTimeout.toInt64 ≤ currentTime - (currentTime - Int64.minValue)
      rw [sub_sub_self]
      exact minValue_lt_toInt64 _
  | updateHost mem currentTime modid cmdid rsp => exact hbad.elim
  | resetLbStatus => exact hbad.elim

theorem sameCall_fill (f : Fill) (ops : List RouteOp) :
    List.Forall₂ RouteOp.SameCall ops (ops.map f.fill) := by
  rw [List.forall₂_map_right_iff]
  exact List.forall₂_same.mpr fun op _ => ⟨_, _, rfl⟩

/-- The observation at the first unwritten read, in a filled run. -/
theorem observations_fill {f : Fill} {before after : List RouteOp} {op : RouteOp} {r : RouteLb}
    (hrun : run? (routeStep? cfg) RouteLb.empty (before.map f.fill) = some r) :
    (observations cfg RouteLb.empty ((before ++ op :: after).map f.fill))[before.length]? =
      some (observe cfg r (f.fill op)) := by
  have hlen : before.length = ((attempted (routeStep? cfg) RouteLb.empty
      (before.map f.fill)).map fun x => observe cfg x.1 x.2).length := by
    rw [List.length_map, length_attempted hrun, List.length_map]
  unfold observations
  rw [List.map_append, List.map_cons, attempted_append hrun, List.map_append, hlen,
    List.getElem?_append_right le_rfl, Nat.sub_self]
  rfl

/-- What a fresh agent shows over a sequence of calls depends on the calls alone, whatever bytes
its new objects find in memory, if and only if no call reads a field that nothing has written. -/
theorem observations_independent_iff (cfg : Config R) (ops : List RouteOp) :
    (∀ ops', List.Forall₂ RouteOp.SameCall ops ops' →
        observations cfg RouteLb.empty ops' = observations cfg RouteLb.empty ops) ↔
      ∀ x ∈ attempted (step? cfg) init ops, ¬ x.1.ReadsUnwritten cfg x.2 := by
  constructor
  · intro hsame
    by_contra hbad
    obtain ⟨before, op, after, t, rfl, hrun, hgood, hread⟩ := exists_first_unguarded hbad
    obtain ⟨f₁, f₂, hdiffers⟩ := ReadsUnwritten.differs (not_not.mp hread)
    obtain ⟨r₁, hrun₁, ha₁, hf₁⟩ := Alike.init.run (.init cfg f₁) hgood hrun
    obtain ⟨r₂, hrun₂, ha₂, hf₂⟩ := Alike.init.run (.init cfg f₂) hgood hrun
    apply hdiffers r₁ r₂ ha₁ hf₁ ha₂ hf₂
    apply Option.some.inj
    rw [← observations_fill hrun₁, ← observations_fill hrun₂, hsame _ (sameCall_fill f₁ _),
      hsame _ (sameCall_fill f₂ _)]
  · intro hgood ops' hops
    exact Alike.init.observations_eq hops hgood

/-- A module gets its one host, and a call to the host is reported as successful. -/
def firstReport : List RouteOp :=
  [.getHost 100 ⟨0, 0, .new⟩ 1 1 { }, .updateHost bumpMemory 100 1 1 ⟨1, 1, [⟨2, 0⟩]⟩,
    .reportHost 101 101 101 ⟨1, 1, some ⟨2, 0⟩, 0⟩]

theorem observations_depend_on_memory :
    ¬ ∀ ops', List.Forall₂ RouteOp.SameCall firstReport ops' →
      observations defaultConfig RouteLb.empty ops' =
        observations defaultConfig RouteLb.empty firstReport := by
  intro h
  have heq := h _ (sameCall_fill (earlyFill 101) firstReport)
  revert heq
  decide +kernel

end LoggedRoute

end Lrlb.Agent
