import Lrlb.Agent.Counters
import Lrlb.Agent.GetHost
import Lrlb.Agent.HostKeys

/-! What a committed report tells of the hosts of a module, and whether it tells of the call that
it was committed for. -/
namespace Lrlb.Agent
open Lib
open Proto (ReportRequest ReportStatusReq)
open Proto.LrlbRetCode (retSucc)

namespace LoadBalance

variable {R : Type} {lb : LoadBalance}

/-- In every state of a module a committed report has one result for each host that
`get_all_hosts` returns, with the host's own counters and flag, and no other result. An empty
module commits nothing. -/
theorem commit_tells_each_host [RateArith R] {cfg : Config R} {raw : RawLoadBalance}
    {modid cmdid : Int32} (hlb : Reachable (lbStep? cfg) (create raw modid cmdid) lb)
    (time : Int64) :
    (lb.empty = true → lb.commit cfg time = none) ∧
    (lb.empty = false → lb.getAllHosts.Nodup ∧
      (∀ p, p ∈ lb.getAllHosts ↔ ∃ key, lb.hostMap.lookup key = some p) ∧
      ∃ req, lb.commit cfg time = some req ∧
        req.results.Perm (lb.getAllHosts.map lb.hostResult)) := by
  have h := Inv.of_reachable hlb
  refine ⟨fun hempty => if_pos hempty, fun hne => ⟨h.pointers_nodup, fun p => lb.mem_pointers p, ?_⟩⟩
  exact h.commit_perm cfg time hne

/-- A host of each kind. -/
theorem commit_tells_each_host_failingRun :
    ∃ lb, run? (lbStep? defaultConfig) (create ⟨0, 0, .new⟩ 1 1) failingRun = some lb ∧
      lb.empty = false ∧ lb.getAllHosts.Nodup ∧
      ∃ req, lb.commit defaultConfig 103 = some req ∧
        req.results.Perm (lb.getAllHosts.map lb.hostResult) := by
  have hrun : (run? (lbStep? defaultConfig) (create ⟨0, 0, .new⟩ 1 1) failingRun).map empty =
      some false := by decide +kernel
  obtain ⟨lb, hlb, hne⟩ := Option.map_eq_some_iff.mp hrun
  obtain ⟨hnodup, -, hreq⟩ := (commit_tells_each_host ⟨failingRun, hlb⟩ 103).2 hne
  exact ⟨lb, hlb, hne, hnodup, hreq⟩

end LoadBalance

namespace HostInfo

/-- The counter of the calls with the outcome of `retcode`. -/
def callsLike (retcode : Int32) (h : HostInfo) : UInt32 :=
  if retcode = retSucc.value then h.rsucc else h.rerr

theorem callsLike_countReport (retcode : Int32) (h : HostInfo) :
    (LoadBalance.countReport retcode h).callsLike retcode = h.callsLike retcode + 1 := by
  unfold callsLike LoadBalance.countReport
  split_ifs <;> rfl

variable {R : Type} [RateArith R]

/-- Neither a threshold nor the time resets the counters at a report. An idle host whose call has
failed stays, with this call, within the error rate and below the limit of failures in a row. An
overloaded host whose call has succeeded stays within the success rate and below the limit of
successes in a row. The window of an idle host and the timeout of an overloaded one have not run
out. -/
def KeepsCount (cfg : Config R) (currentTime : Int64) (retcode : Int32) (h : HostInfo) : Prop :=
  if h.overload = false then
    (retcode ≠ retSucc.value →
      RateArith.exceeds (h.verr + 1) (h.vsucc + (h.verr + 1)) cfg.errRate = false ∧
        h.continErr + 1 < cfg.continErrLimit.toUInt32) ∧
      currentTime - h.idleTs < cfg.idleTimeout.toInt64
  else
    (retcode = retSucc.value →
      RateArith.exceeds (h.vsucc + 1) (h.vsucc + 1 + h.verr) cfg.succRate = false ∧
        h.continSucc + 1 < cfg.continSuccLimit.toUInt32) ∧
      currentTime - h.overloadTs < cfg.overloadTimeout.toInt64

instance (cfg : Config R) (currentTime : Int64) (retcode : Int32) (h : HostInfo) :
    Decidable (h.KeepsCount cfg currentTime retcode) :=
  inferInstanceAs (Decidable (if h.overload = false then _ ∧ _ else _ ∧ _))

theorem windowEvents_eq_nil_iff (cfg : Config R) (currentTime : Int64) (h : HostInfo) :
    h.windowEvents cfg currentTime = [] ↔
      if h.overload = false then currentTime - h.idleTs < cfg.idleTimeout.toInt64
      else currentTime - h.overloadTs < cfg.overloadTimeout.toInt64 := by
  unfold windowEvents
  split_ifs <;> simp_all [Int64.not_le, Int64.not_lt]

theorem overloadCondition_countReport (cfg : Config R) {retcode : Int32} (h : HostInfo)
    (hret : retcode ≠ retSucc.value) :
    LoadBalance.overloadCondition cfg (LoadBalance.countReport retcode h) = false ↔
      RateArith.exceeds (h.verr + 1) (h.vsucc + (h.verr + 1)) cfg.errRate = false ∧
        h.continErr + 1 < cfg.continErrLimit.toUInt32 := by
  simp [LoadBalance.overloadCondition, LoadBalance.countReport, hret, UInt32.not_le]

theorem idleCondition_countReport (cfg : Config R) (h : HostInfo) :
    LoadBalance.idleCondition cfg (LoadBalance.countReport retSucc.value h) = false ↔
      RateArith.exceeds (h.vsucc + 1) (h.vsucc + 1 + h.verr) cfg.succRate = false ∧
        h.continSucc + 1 < cfg.continSuccLimit.toUInt32 := by
  simp [LoadBalance.idleCondition, LoadBalance.countReport, UInt32.not_le]

/-- A report that keeps the count does nothing else. -/
theorem reportEvents_eq_counted_iff (cfg : Config R) (currentTime : Int64) (retcode : Int32)
    (h : HostInfo) :
    h.reportEvents cfg currentTime retcode = [.counted retcode] ↔
      h.KeepsCount cfg currentTime retcode := by
  have hwindow := windowEvents_eq_nil_iff cfg currentTime (LoadBalance.countReport retcode h)
  have hts : (LoadBalance.countReport retcode h).idleTs = h.idleTs ∧
      (LoadBalance.countReport retcode h).overloadTs = h.overloadTs := by
    unfold LoadBalance.countReport
    split_ifs <;> exact ⟨rfl, rfl⟩
  rw [LoadBalance.countReport_overload, hts.1, hts.2] at hwindow
  unfold reportEvents KeepsCount
  dsimp only
  rw [List.cons_eq_cons, eq_self, true_and, LoadBalance.countReport_overload]
  cases hover : h.overload with
  | false =>
    rw [hover] at hwindow
    by_cases hret : retcode = retSucc.value
    · simpa [hret] using hwindow
    · have hcond := overloadCondition_countReport cfg h hret
      cases hc : LoadBalance.overloadCondition cfg (LoadBalance.countReport retcode h) with
      | true => simp [hret, ← hcond, hc]
      | false => simpa [hret, ← hcond, hc] using hwindow
  | true =>
    rw [hover] at hwindow
    by_cases hret : retcode = retSucc.value
    · subst hret
      have hcond := idleCondition_countReport cfg h
      cases hc : LoadBalance.idleCondition cfg (LoadBalance.countReport retSucc.value h) with
      | true => simp [← hcond, hc]
      | false => simpa [← hcond, hc] using hwindow
    · simpa [hret] using hwindow

/-- The counter of a call goes up by one at the report exactly if it does not wrap and is kept. -/
theorem callsLike_reported_iff (cfg : Config R) (currentTime time : Int64) (retcode : Int32)
    (h : HostInfo) :
    ((h.reported cfg currentTime time retcode).callsLike retcode).toNat =
        (h.callsLike retcode).toNat + 1 ↔
      (h.callsLike retcode).toNat + 1 < 2 ^ 32 ∧ h.KeepsCount cfg currentTime retcode := by
  rw [reported_eq_events, ← reportEvents_eq_counted_iff]
  rcases reportEvents_cases cfg currentTime retcode h with ⟨he, -⟩ | he | he <;> rw [he]
  · have hlt := UInt32.toNat_lt (h.callsLike retcode)
    simp only [List.foldl_cons, List.foldl_nil, apply, callsLike_countReport, UInt32.toNat_add,
      UInt32.toNat_one, and_true]
    omega
  · simp [apply, setIdle, callsLike]
  · simp [apply, setOverload, callsLike]

end HostInfo

/-- The entry of the host counts one call more with the outcome of `retcode` than `before`. -/
def ShowsCall (status : Option ReportStatusReq) (host : Proto.HostInfo) (retcode : Int32)
    (before : UInt32) : Prop :=
  ∃ req ∈ status, ∃ e ∈ req.results, e.ip = host.ip ∧ e.port = host.port ∧
    (if retcode = retSucc.value then e.succ else e.err).toNat = before.toNat + 1

namespace LoadBalance

variable {R : Type} {lb : LoadBalance} {p : Ptr} {host : Proto.HostInfo}

/-- What the entry of a host shows is what its counter holds. -/
theorem Inv.showsCall_commit_iff (h : lb.Inv) (cfg : Config R) (ts : Int64) (hp : lb.Holds p)
    (hm : Matches (lb.hosts p) host) (retcode : Int32) (before : UInt32) :
    ShowsCall (lb.commit cfg ts) host retcode before ↔
      ((lb.hosts p).callsLike retcode).toNat = before.toNat + 1 := by
  obtain ⟨req, hreq, hperm⟩ := h.commit_perm cfg ts (not_empty_of_holds hp)
  have hcalls : ∀ q, (if retcode = retSucc.value then (lb.hostResult q).succ
      else (lb.hostResult q).err) = (lb.hosts q).callsLike retcode := fun q => rfl
  unfold ShowsCall
  simp only [hreq, Option.mem_def, Option.some.injEq, exists_eq_left', hperm.mem_iff,
    List.mem_map, exists_exists_and_eq_and, hcalls]
  constructor
  · intro hshows
    obtain ⟨q, hq, hip, hport, hcount⟩ := hshows
    have hqp : q = p := by
      refine h.eq_of_address ((lb.mem_pointers q).mp hq) hp ?_ ?_
      · rw [hm.1]
        simpa [hostResult] using hip
      · rw [hm.2]
        exact hport
    exact hqp ▸ hcount
  · intro hcount
    refine ⟨p, (lb.mem_pointers p).mpr hp, ?_, hm.2, hcount⟩
    simp [hostResult, hm.1]

/-- A host with a port is not found by a report about it. -/
theorem Inv.lookup_reportKey_iff (h : lb.Inv) (hp : lb.Holds p) (hm : Matches (lb.hosts p) host) :
    lb.hostMap.lookup (reportKey host.ip host.port) = some p ↔ host.port = 0 := by
  obtain ⟨key, hkey⟩ := hp
  have hk := h.key_of_matches hkey hm
  rw [← updateKey_eq_reportKey_iff host.ip]
  constructor
  · intro hlook
    exact hk ▸ h.injective _ _ p hkey hlook
  · intro he
    rw [← he, ← hk, hkey]

variable [RateArith R]

/-- What a report about a host does to its record. -/
theorem Inv.report_hosts_of_matches (h : lb.Inv) (cfg : Config R) (currentTime time : Int64)
    (retcode : Int32) (hp : lb.Holds p) (hm : Matches (lb.hosts p) host) :
    (lb.report cfg currentTime time host.ip host.port retcode).hosts p =
      if host.port = 0 then (lb.hosts p).reported cfg currentTime time retcode else lb.hosts p := by
  have hfound := h.lookup_reportKey_iff hp hm
  split_ifs with hport
  · rw [report_eq_place cfg currentTime time lb p host.ip host.port retcode (hfound.mpr hport),
      place_hosts, Function.update_self]
  · refine (report_leavesOthers cfg currentTime time lb host.ip host.port retcode).record p ?_
    exact fun hlook => hport (hfound.mp hlook.symm)

end LoadBalance

namespace RouteLb

variable {R : Type} [RateArith R] {cfg : Config R} {r : RouteLb}

/-- In every state of the agent, the report about a call counts the call exactly if the host has
port 0, its counter does not wrap, and no threshold, window or timeout resets the counter. A host
with another port is not found, and its entry shows only what was counted before. -/
theorem report_shows_call_iff (hr : Reachable (routeStep? cfg) empty r) (req : ReportRequest)
    {lb : LoadBalance} (hget : r.routeLbMap (packInts req.modid req.cmdid) = some lb) {p : Ptr}
    (hp : p ∈ lb.pointers) (hm : LoadBalance.Matches (lb.hosts p) (req.host.getD { }))
    (currentTime time ts : Int64) :
    ShowsCall (r.reportHost cfg currentTime time ts req).2 (req.host.getD { }) req.retcode
        ((lb.hosts p).callsLike req.retcode) ↔
      (req.host.getD { }).port = 0 ∧ ((lb.hosts p).callsLike req.retcode).toNat + 1 < 2 ^ 32 ∧
        (lb.hosts p).KeepsCount cfg currentTime req.retcode := by
  have hinv := inv_of_reachable hr hget
  have hheld := (lb.mem_pointers p).mp hp
  unfold reportHost
  simp only [hget]
  generalize req.host.getD { } = host at hm ⊢
  have hhosts := hinv.report_hosts_of_matches cfg currentTime time req.retcode hheld hm
  have hinv' : (lb.report cfg currentTime time host.ip host.port req.retcode).Inv := hinv.report ..
  have hheld' : (lb.report cfg currentTime time host.ip host.port req.retcode).Holds p := by
    obtain ⟨key, hkey⟩ := hheld
    exact ⟨key, by rw [LoadBalance.report_hostMap, hkey]⟩
  obtain ⟨hip, hport⟩ := HostInfo.reported_address cfg currentTime time req.retcode (lb.hosts p)
  rw [hinv'.showsCall_commit_iff cfg ts hheld' ?_ req.retcode, hhosts]
  · split_ifs with hzero
    · rw [HostInfo.callsLike_reported_iff, eq_true hzero, true_and]
    · exact iff_of_false (by omega) fun h => hzero h.1
  · rw [hhosts]
    split_ifs
    · exact ⟨hip.trans hm.1, hport.trans hm.2⟩
    · exact hm

/-- A module with one host that was never reported on. -/
def oneHost : List RouteOp :=
  [.getHost 99 ⟨0, 0, .new⟩ 1 1 { }, .updateHost bumpMemory 100 1 1 ⟨1, 1, [⟨7, 0⟩]⟩]

/-- The second of two successful calls is counted. -/
theorem report_shows_call_second :
    ∃ r lb, run? (routeStep? defaultConfig) empty
        (oneHost ++ [.reportHost 101 101 101 ⟨1, 1, some ⟨7, 0⟩, 0⟩]) = some r ∧
      r.routeLbMap (packInts 1 1) = some lb ∧
      ShowsCall (r.reportHost defaultConfig 102 102 102 ⟨1, 1, some ⟨7, 0⟩, 0⟩).2 ⟨7, 0⟩ 0
        (lb.hosts 1).rsucc := by
  obtain ⟨r, hrun⟩ : ∃ r, run? (routeStep? defaultConfig) empty
      (oneHost ++ [.reportHost 101 101 101 ⟨1, 1, some ⟨7, 0⟩, 0⟩]) = some r := ⟨_, rfl⟩
  have hfacts : ((run? (routeStep? defaultConfig) empty
      (oneHost ++ [.reportHost 101 101 101 ⟨1, 1, some ⟨7, 0⟩, 0⟩])).bind fun r =>
        (r.routeLbMap (packInts 1 1)).map fun lb => (decide (1 ∈ lb.pointers),
          decide (LoadBalance.Matches (lb.hosts 1) ⟨7, 0⟩),
          decide (((lb.hosts 1).callsLike 0).toNat + 1 < 2 ^ 32),
          decide ((lb.hosts 1).KeepsCount defaultConfig 102 0))) =
      some (true, true, true, true) := by
    decide +kernel
  rw [hrun, Option.bind_some] at hfacts
  obtain ⟨lb, hget, he⟩ := Option.map_eq_some_iff.mp hfacts
  simp only [Prod.mk.injEq, decide_eq_true_eq] at he
  obtain ⟨hp, hm, hcalls, hkeeps⟩ := he
  refine ⟨r, lb, hrun, hget, ?_⟩
  exact (report_shows_call_iff ⟨_, hrun⟩ ⟨1, 1, some ⟨7, 0⟩, 0⟩ hget hp hm 102 102 102).mpr
    ⟨rfl, hcalls, hkeeps⟩

/-- The first failing call of a host closes a window that never began: the entry of the host counts
nothing. -/
theorem first_failure_not_shown :
    ∃ r, run? (routeStep? defaultConfig) empty oneHost = some r ∧
      (∃ lb, r.routeLbMap (packInts 1 1) = some lb ∧ ∃ p ∈ lb.pointers,
        LoadBalance.Matches (lb.hosts p) ⟨7, 0⟩) ∧
      (r.reportHost defaultConfig 101 101 101 ⟨1, 1, some ⟨7, 0⟩, 1⟩).2.map ReportStatusReq.results =
        some [⟨7, 0, 0, 0, true⟩] := by
  refine ⟨_, rfl, ⟨_, rfl, ?_⟩, ?_⟩ <;> decide +kernel

end RouteLb

end Lrlb.Agent
