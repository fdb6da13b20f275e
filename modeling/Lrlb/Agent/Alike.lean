import Lrlb.Agent.Counters
import Lrlb.Agent.RouteLb

/-! Modules that agree except in fields that their constructors leave alone, and what each
operation makes of two such modules. -/
namespace Lrlb.Agent
open Lib
open Proto (GetHostResponse)

/-- Where two modules are known to agree, of what the constructors leave alone. -/
structure Trust where
  accessCnt : Prop
  lastUpdateTime : Prop
  idleTs : Ptr → Prop
  overloadTs : Ptr → Prop

namespace HostInfo

variable {R : Type} {cfg : Config R} {h h' : HostInfo} {i o : Prop}

/-- Equal up to the two time stamps, each of which is equal if it is trusted. -/
structure Alike (i o : Prop) (h h' : HostInfo) : Prop where
  rest : h' = { h with idleTs := h'.idleTs, overloadTs := h'.overloadTs }
  idleTs : i → h'.idleTs = h.idleTs
  overloadTs : o → h'.overloadTs = h.overloadTs

namespace Alike

theorem refl (i o : Prop) (h : HostInfo) : Alike i o h h := ⟨rfl, fun _ => rfl, fun _ => rfl⟩

theorem mono {i' o' : Prop} (ha : Alike i o h h') (hi : i' → i) (ho : o' → o) : Alike i' o' h h' :=
  ⟨ha.rest, fun h => ha.idleTs (hi h), fun h => ha.overloadTs (ho h)⟩

theorem ip (ha : Alike i o h h') : h'.ip = h.ip := by rw [ha.rest]

theorem port (ha : Alike i o h h') : h'.port = h.port := by rw [ha.rest]

theorem rsucc (ha : Alike i o h h') : h'.rsucc = h.rsucc := by rw [ha.rest]

theorem rerr (ha : Alike i o h h') : h'.rerr = h.rerr := by rw [ha.rest]

theorem overload (ha : Alike i o h h') : h'.overload = h.overload := by rw [ha.rest]

theorem counted (ha : Alike i o h h') (retcode : Int32) :
    Alike i o (LoadBalance.countReport retcode h) (LoadBalance.countReport retcode h') := by
  obtain ⟨hrest, hi, ho⟩ := ha
  generalize h'.idleTs = a, h'.overloadTs = b at hrest hi ho
  subst hrest
  unfold LoadBalance.countReport
  split_ifs <;> exact ⟨rfl, hi, ho⟩

theorem setIdle (ha : Alike i o h h') (time : Int64) :
    Alike True o (h.setIdle cfg time) (h'.setIdle cfg time) := by
  obtain ⟨hrest, -, ho⟩ := ha
  refine ⟨?_, fun _ => rfl, ho⟩
  rw [hrest]
  rfl

theorem setOverload (ha : Alike i o h h') (time : Int64) :
    Alike i True (h.setOverload cfg time) (h'.setOverload cfg time) := by
  obtain ⟨hrest, hi, -⟩ := ha
  refine ⟨?_, hi, fun _ => rfl⟩
  rw [hrest]
  rfl

end Alike

variable [RateArith R]

/-- A report about an idle host that does not overload it at once looks at `idle_ts`. -/
def ReadsIdleTs (cfg : Config R) (retcode : Int32) (h : HostInfo) : Prop :=
  h.overload = false ∧ ¬ (retcode ≠ Proto.LrlbRetCode.retSucc.value ∧
    LoadBalance.overloadCondition cfg (LoadBalance.countReport retcode h) = true)

theorem Alike.overloadCondition (ha : Alike i o h h') (retcode : Int32) :
    LoadBalance.overloadCondition cfg (LoadBalance.countReport retcode h') =
      LoadBalance.overloadCondition cfg (LoadBalance.countReport retcode h) := by
  rw [(ha.counted retcode).rest]
  rfl

theorem Alike.readsIdleTs (ha : Alike i o h h') (retcode : Int32) :
    ReadsIdleTs cfg retcode h' ↔ ReadsIdleTs cfg retcode h := by
  unfold ReadsIdleTs
  rw [ha.overload, ha.overloadCondition]

theorem Alike.windowEvents (ha : Alike i o h h') (hi : h.overload = false → i)
    (ho : h.overload = true → o) (currentTime : Int64) :
    h'.windowEvents cfg currentTime = h.windowEvents cfg currentTime := by
  have hw : h'.checkWindow cfg = h.checkWindow cfg := by
    rw [ha.rest]
    rfl
  unfold HostInfo.windowEvents
  rw [ha.overload, hw]
  cases hover : h.overload with
  | false => simp [ha.idleTs (hi hover)]
  | true => simp [ha.overloadTs (ho hover)]

/-- Reports that look at trusted time stamps only do the same to both hosts. -/
theorem Alike.reportEvents (ha : Alike i o h h') {retcode : Int32}
    (hi : ReadsIdleTs cfg retcode h → i) (ho : h.overload = true → o) (currentTime : Int64) :
    h'.reportEvents cfg currentTime retcode = h.reportEvents cfg currentTime retcode := by
  have hc := ha.counted retcode
  have hover := LoadBalance.countReport_overload retcode h
  have hi' : LoadBalance.idleCondition cfg (LoadBalance.countReport retcode h') =
      LoadBalance.idleCondition cfg (LoadBalance.countReport retcode h) := by
    rw [hc.rest]
    rfl
  unfold HostInfo.reportEvents
  dsimp only
  rw [ha.overloadCondition, hi', hc.overload]
  have hwindow (hread : h.overload = false → ReadsIdleTs cfg retcode h) :
      (LoadBalance.countReport retcode h').windowEvents cfg currentTime =
        (LoadBalance.countReport retcode h).windowEvents cfg currentTime :=
    hc.windowEvents (fun hf => hi (hread (hover ▸ hf))) (fun hf => ho (hover ▸ hf)) currentTime
  split_ifs with hfail hcond hsucc hcond
  · rfl
  · rw [hwindow fun hf => ⟨hf, fun hr => hcond hr.2⟩]
  · rfl
  · rw [hwindow fun hf => ⟨hf, fun hr => hr.1 hsucc.2⟩]
  · rw [hwindow fun hf => ⟨hf, fun hr => hfail ⟨hover.trans hf, hr.1⟩⟩]

theorem Alike.reported (ha : Alike i o h h') {retcode : Int32}
    (hi : ReadsIdleTs cfg retcode h → i) (ho : h.overload = true → o) (currentTime time : Int64) :
    Alike (i ∨ .setIdle ∈ h.reportEvents cfg currentTime retcode)
      (o ∨ .setOverload ∈ h.reportEvents cfg currentTime retcode)
      (h.reported cfg currentTime time retcode) (h'.reported cfg currentTime time retcode) := by
  rw [reported_eq_events, reported_eq_events, ha.reportEvents hi ho]
  rcases reportEvents_cases cfg currentTime retcode h with ⟨he, -⟩ | he | he <;> rw [he]
  · exact (ha.counted retcode).mono (by simp) (by simp)
  · exact ((ha.counted retcode).setIdle time).mono (by simp) (by simp)
  · exact ((ha.counted retcode).setOverload time).mono (by simp) (by simp)

end HostInfo

namespace LoadBalance

variable {R : Type} {cfg : Config R} {t : Trust} {lb lb' lb₁ : LoadBalance}

/-- Equal up to the fields that the constructors leave alone, which are equal if trusted. -/
structure Alike (t : Trust) (lb lb' : LoadBalance) : Prop where
  rest : lb' = { lb with
    accessCnt := lb'.accessCnt, lastUpdateTime := lb'.lastUpdateTime, hosts := lb'.hosts }
  accessCnt : t.accessCnt → lb'.accessCnt = lb.accessCnt
  lastUpdateTime : t.lastUpdateTime → lb'.lastUpdateTime = lb.lastUpdateTime
  hosts : ∀ p, lb.Holds p → (lb.hosts p).Alike (t.idleTs p) (t.overloadTs p) (lb'.hosts p)

namespace Alike

theorem hostMap (ha : Alike t lb lb') : lb'.hostMap = lb.hostMap := by rw [ha.rest]

theorem idleList (ha : Alike t lb lb') : lb'.idleList = lb.idleList := by rw [ha.rest]

theorem overloadList (ha : Alike t lb lb') : lb'.overloadList = lb.overloadList := by rw [ha.rest]

theorem status (ha : Alike t lb lb') : lb'.status = lb.status := by rw [ha.rest]

theorem modid (ha : Alike t lb lb') : lb'.modid = lb.modid := by rw [ha.rest]

theorem cmdid (ha : Alike t lb lb') : lb'.cmdid = lb.cmdid := by rw [ha.rest]

theorem pointers (ha : Alike t lb lb') : lb'.pointers = lb.pointers := by
  unfold LoadBalance.pointers
  rw [ha.hostMap]

theorem empty (ha : Alike t lb lb') : lb'.empty = lb.empty := by
  unfold LoadBalance.empty
  rw [ha.hostMap]

/-- What both sides do alike keeps them alike. -/
theorem of_fields {lb₁' : LoadBalance} (hmodid : lb₁'.modid = lb₁.modid)
    (hcmdid : lb₁'.cmdid = lb₁.cmdid) (hstatus : lb₁'.status = lb₁.status)
    (hmap : lb₁'.hostMap = lb₁.hostMap) (hidle : lb₁'.idleList = lb₁.idleList)
    (hover : lb₁'.overloadList = lb₁.overloadList)
    (haccess : t.accessCnt → lb₁'.accessCnt = lb₁.accessCnt)
    (hupdate : t.lastUpdateTime → lb₁'.lastUpdateTime = lb₁.lastUpdateTime)
    (hhosts : ∀ p, lb₁.Holds p →
      (lb₁.hosts p).Alike (t.idleTs p) (t.overloadTs p) (lb₁'.hosts p)) : Alike t lb₁ lb₁' := by
  refine ⟨?_, haccess, hupdate, hhosts⟩
  cases lb₁'
  simp_all

theorem mono {t' : Trust} (ha : Alike t lb lb') (haccess : t'.accessCnt → t.accessCnt)
    (hupdate : t'.lastUpdateTime → t.lastUpdateTime)
    (hidle : ∀ p, lb.Holds p → t'.idleTs p → t.idleTs p)
    (hover : ∀ p, lb.Holds p → t'.overloadTs p → t.overloadTs p) : Alike t' lb lb' :=
  ⟨ha.rest, fun h => ha.accessCnt (haccess h), fun h => ha.lastUpdateTime (hupdate h),
    fun p hp => (ha.hosts p hp).mono (hidle p hp) (hover p hp)⟩

/-- Every pointer in the lists is one of the map. -/
theorem hosts_of_mem (ha : Alike t lb lb') (hi : lb.Inv) {p : Ptr}
    (hp : p ∈ lb.idleList ∨ p ∈ lb.overloadList) :
    (lb.hosts p).Alike (t.idleTs p) (t.overloadTs p) (lb'.hosts p) :=
  ha.hosts p ((hi.split.mem_iff p).mp hp)

theorem getHostFromList {hosts hosts' : Ptr → HostInfo} {l : List Ptr}
    (hl : ∀ p ∈ l, (hosts' p).ip = (hosts p).ip ∧ (hosts' p).port = (hosts p).port)
    (rsp : GetHostResponse) :
    getHostFromList? hosts' rsp l = getHostFromList? hosts rsp l := by
  cases l with
  | nil => rfl
  | cons p l =>
    obtain ⟨hip, hport⟩ := hl p List.mem_cons_self
    simp only [getHostFromList?, hip, hport]

end Alike

/-- The one use of `_access_cnt`: is it the turn of an overloaded host? -/
def ReadsAccessCnt (cfg : Config R) (lb : LoadBalance) : Prop :=
  lb.overloadList ≠ [] ∧ cfg.probeNum ≠ Int32.minValue

namespace Alike

theorem probes_iff (ha : Alike t lb lb') (hread : ReadsAccessCnt cfg lb → t.accessCnt)
    (hover : lb.overloadList ≠ []) :
    cfg.probeNum ≤ lb'.accessCnt ↔ cfg.probeNum ≤ lb.accessCnt := by
  by_cases hmin : cfg.probeNum = Int32.minValue
  · rw [hmin]
    exact iff_of_true (Int32.minValue_le _) (Int32.minValue_le _)
  · rw [ha.accessCnt (hread ⟨hover, hmin⟩)]

/-- The lists may be turned and the counter set, on both sides alike. -/
theorem turn (ha : Alike t lb lb') {cnt cnt' : Int32} (hcnt : t.accessCnt → cnt' = cnt)
    (idle overloaded : List Ptr) :
    Alike t { lb with accessCnt := cnt, idleList := idle, overloadList := overloaded }
      { lb' with accessCnt := cnt', idleList := idle, overloadList := overloaded } :=
  of_fields ha.modid ha.cmdid ha.status ha.hostMap rfl rfl hcnt ha.lastUpdateTime ha.hosts

theorem choiceOneHost (ha : Alike t lb lb') (hi : lb.Inv) (hne : lb.empty = false)
    (hread : ReadsAccessCnt cfg lb → t.accessCnt) (rsp : GetHostResponse) :
    ∃ lb₁ lb₁' rsp₁ ret, lb.choiceOneHost? cfg rsp = some (lb₁, rsp₁, ret) ∧
      lb'.choiceOneHost? cfg rsp = some (lb₁', rsp₁, ret) ∧ Alike t lb₁ lb₁' := by
  have hidle := getHostFromList (l := lb.idleList)
    (fun p hp => ⟨(ha.hosts_of_mem hi (Or.inl hp)).ip, (ha.hosts_of_mem hi (Or.inl hp)).port⟩) rsp
  have hover := getHostFromList (l := lb.overloadList)
    (fun p hp => ⟨(ha.hosts_of_mem hi (Or.inr hp)).ip, (ha.hosts_of_mem hi (Or.inr hp)).port⟩) rsp
  have hinc : t.accessCnt → lb'.accessCnt + 1 = lb.accessCnt + 1 := fun h => by rw [ha.accessCnt h]
  unfold choiceOneHost?
  rw [ha.idleList, ha.overloadList, hidle, hover]
  cases hL : lb.idleList with
  | nil =>
    cases hO : lb.overloadList with
    | nil =>
      obtain ⟨p, hp⟩ := lb.holds_of_not_empty hne
      simpa [hL, hO] using (hi.split.mem_iff p).mpr hp
    | cons q l =>
      have hprobe := ha.probes_iff hread (by simp [hO])
      simp only [List.isEmpty_nil, if_true, getHostFromList?, Option.bind_eq_bind,
        Option.bind_some]
      by_cases hc : cfg.probeNum ≤ lb.accessCnt
      · rw [if_pos hc, if_pos (hprobe.mpr hc)]
        exact ⟨_, _, _, _, rfl, rfl, ha.turn (fun _ => rfl) _ _⟩
      · rw [if_neg hc, if_neg (mt hprobe.mp hc)]
        exact ⟨_, _, _, _, rfl, rfl, ha.turn hinc _ _⟩
  | cons p li =>
    cases hO : lb.overloadList with
    | nil =>
      simp only [List.isEmpty_cons, List.isEmpty_nil, if_true, getHostFromList?,
        Option.bind_eq_bind, Option.bind_some]
      exact ⟨_, _, _, _, rfl, rfl, ha.turn ha.accessCnt _ _⟩
    | cons q lo =>
      have hprobe := ha.probes_iff hread (by simp [hO])
      simp only [List.isEmpty_cons, Bool.false_eq_true, if_false, getHostFromList?,
        Option.bind_eq_bind, Option.bind_some]
      by_cases hc : cfg.probeNum ≤ lb.accessCnt
      · rw [if_pos hc, if_pos (hprobe.mpr hc)]
        exact ⟨_, _, _, _, rfl, rfl, ha.turn (fun _ => rfl) _ _⟩
      · rw [if_neg hc, if_neg (mt hprobe.mp hc)]
        exact ⟨_, _, _, _, rfl, rfl, ha.turn hinc _ _⟩

/-- The one use of `last_update_time`. -/
theorem pullIfExpired (ha : Alike t lb lb') (cfg : Config R) (time : Int64)
    (hread : lb.status = .new → cfg.updateTimeout ≠ Int64.maxValue → t.lastUpdateTime) :
    (lb'.pullIfExpired cfg time).2 = (lb.pullIfExpired cfg time).2 ∧
      Alike t (lb.pullIfExpired cfg time).1 (lb'.pullIfExpired cfg time).1 := by
  have hiff : (lb'.status = .new ∧ cfg.updateTimeout < time - lb'.lastUpdateTime) ↔
      (lb.status = .new ∧ cfg.updateTimeout < time - lb.lastUpdateTime) := by
    rw [ha.status]
    refine and_congr_right fun hs => ?_
    by_cases hmax : cfg.updateTimeout = Int64.maxValue
    · rw [hmax]
      exact iff_of_false (Int64.not_lt.mpr (Int64.le_maxValue _)) (Int64.not_lt.mpr (Int64.le_maxValue _))
    · rw [ha.lastUpdateTime (hread hs hmax)]
  unfold LoadBalance.pullIfExpired
  by_cases hc : lb.status = .new ∧ cfg.updateTimeout < time - lb.lastUpdateTime
  · rw [if_pos hc, if_pos (hiff.mpr hc)]
    refine ⟨by simp [pull, ha.modid, ha.cmdid], ?_⟩
    exact of_fields ha.modid ha.cmdid rfl ha.hostMap ha.idleList ha.overloadList ha.accessCnt
      ha.lastUpdateTime ha.hosts
  · rw [if_neg hc, if_neg (mt hiff.mp hc)]
    exact ⟨rfl, ha⟩

theorem resetStatus (ha : Alike t lb lb') : Alike t lb.resetStatus lb'.resetStatus := by
  unfold LoadBalance.resetStatus
  rw [ha.status]
  split_ifs
  · exact of_fields ha.modid ha.cmdid rfl ha.hostMap ha.idleList ha.overloadList ha.accessCnt
      ha.lastUpdateTime ha.hosts
  · exact ha

theorem insertHost (ha : Alike t lb lb') (mem : Memory) (raw' : Ptr → RawHost)
    (hidle : ∀ p, ¬ lb.Holds p → t.idleTs p → (raw' p).idleTs = (mem.raw p).idleTs)
    (hover : ∀ p, ¬ lb.Holds p → t.overloadTs p → (raw' p).overloadTs = (mem.raw p).overloadTs)
    (x : Proto.HostInfo) :
    Alike t (lb.insertHost cfg mem x) (lb'.insertHost cfg { mem with raw := raw' } x) := by
  unfold LoadBalance.insertHost
  dsimp only
  rw [ha.hostMap, ha.pointers]
  split_ifs with hkey
  · exact ha
  · set hi := mem.new lb.pointers with hhi
    have hfresh : ¬ lb.Holds hi := fun hh => mem.fresh _ ((mem_pointers lb hi).mpr hh)
    refine of_fields ha.modid ha.cmdid ha.status rfl (by rw [ha.idleList]) ha.overloadList
      ha.accessCnt ha.lastUpdateTime ?_
    rintro p ⟨k, hk⟩
    dsimp only
    by_cases hp : p = hi
    · subst p
      rw [Function.update_self, Function.update_self]
      exact ⟨rfl, hidle hi hfresh, hover hi hfresh⟩
    · rw [Function.update_of_ne hp, Function.update_of_ne hp]
      refine ha.hosts p ⟨k, ?_⟩
      rcases (lookup_insert_eq_some_iff hkey).mp hk with ⟨-, he⟩ | hk
      · exact absurd he hp
      · exact hk

theorem insertHosts (ha : Alike t lb lb') (cfg : Config R) (mem : Memory) (raw' : Ptr → RawHost)
    (hidle : ∀ p, ¬ lb.Holds p → t.idleTs p → (raw' p).idleTs = (mem.raw p).idleTs)
    (hover : ∀ p, ¬ lb.Holds p → t.overloadTs p → (raw' p).overloadTs = (mem.raw p).overloadTs)
    (rsp : List Proto.HostInfo) :
    Alike t (rsp.foldl (LoadBalance.insertHost cfg mem) lb)
      (rsp.foldl (LoadBalance.insertHost cfg { mem with raw := raw' }) lb') := by
  induction rsp generalizing lb lb' with
  | nil => exact ha
  | cons x rsp ih =>
    have hold : ∀ p, ¬ (lb.insertHost cfg mem x).Holds p → ¬ lb.Holds p := by
      rintro p hp ⟨k, hk⟩
      exact hp ⟨k, (insertHost_old cfg mem lb x hk).1⟩
    exact ih (ha.insertHost mem raw' hidle hover x) (fun p hp => hidle p (hold p hp))
      fun p hp => hover p (hold p hp)

theorem deleteHost (ha : Alike t lb lb') (key : UInt64) :
    Alike t (lb.deleteHost key) (lb'.deleteHost key) := by
  unfold LoadBalance.deleteHost
  rw [ha.hostMap]
  cases hkey : lb.hostMap.lookup key with
  | none => exact ha
  | some hi =>
    have hkeep : ∀ p, (∃ k, (lb.hostMap.erase key).lookup k = some p) → lb.Holds p := by
      rintro p ⟨k, hk⟩
      exact ⟨k, (lookup_erase_eq_some_iff.mp hk).2⟩
    dsimp only
    rw [(ha.hosts hi ⟨key, hkey⟩).overload, ha.idleList, ha.overloadList]
    split_ifs
    · exact of_fields ha.modid ha.cmdid ha.status rfl rfl rfl ha.accessCnt ha.lastUpdateTime
        fun p hp => ha.hosts p (hkeep p hp)
    · exact of_fields ha.modid ha.cmdid ha.status rfl rfl rfl ha.accessCnt ha.lastUpdateTime
        fun p hp => ha.hosts p (hkeep p hp)

theorem deleteHosts (ha : Alike t lb lb') (keys : List UInt64) :
    Alike t (keys.foldl LoadBalance.deleteHost lb) (keys.foldl LoadBalance.deleteHost lb') := by
  induction keys generalizing lb lb' with
  | nil => exact ha
  | cons key keys ih => exact ih (ha.deleteHost key)

theorem update (ha : Alike t lb lb') {mem : Memory} (raw' : Ptr → RawHost)
    (hidle : ∀ p, ¬ lb.Holds p → t.idleTs p → (raw' p).idleTs = (mem.raw p).idleTs)
    (hover : ∀ p, ¬ lb.Holds p → t.overloadTs p → (raw' p).overloadTs = (mem.raw p).overloadTs)
    {currentTime : Int64} {rsp : List Proto.HostInfo}
    (hu : lb.update? cfg mem currentTime rsp = some lb₁) :
    ∃ lb₁', lb'.update? cfg { mem with raw := raw' } currentTime rsp = some lb₁' ∧
      Alike { t with lastUpdateTime := True } lb₁ lb₁' := by
  unfold LoadBalance.update? at hu ⊢
  split_ifs at hu ⊢ with hrsp
  cases hu
  have hins := ha.insertHosts cfg mem raw' hidle hover rsp
  have hneed : ∀ remote : List UInt64,
      needDelete remote (rsp.foldl (LoadBalance.insertHost cfg { mem with raw := raw' }) lb') =
        needDelete remote (rsp.foldl (LoadBalance.insertHost cfg mem) lb) := by
    intro remote
    unfold needDelete
    rw [hins.hostMap]
  refine ⟨_, rfl, ?_⟩
  rw [hneed]
  have hdel := hins.deleteHosts (needDelete (rsp.map fun h => updateKey h.ip h.port)
    (rsp.foldl (LoadBalance.insertHost cfg mem) lb))
  exact of_fields hdel.modid hdel.cmdid rfl hdel.hostMap hdel.idleList hdel.overloadList
    hdel.accessCnt (fun _ => rfl) hdel.hosts

theorem place (ha : Alike t lb lb') {p : Ptr} (hp : lb.Holds p) {h h' : HostInfo} {t' : Trust}
    (haccess : t'.accessCnt → t.accessCnt) (hupdate : t'.lastUpdateTime → t.lastUpdateTime)
    (hh : h.Alike (t'.idleTs p) (t'.overloadTs p) h')
    (hothers : ∀ q, q ≠ p → (t'.idleTs q → t.idleTs q) ∧ (t'.overloadTs q → t.overloadTs q)) :
    Alike t' (lb.place p h) (lb'.place p h') := by
  have hhosts : ∀ q, (lb.place p h).Holds q →
      ((lb.place p h).hosts q).Alike (t'.idleTs q) (t'.overloadTs q) ((lb'.place p h').hosts q) := by
    rintro q ⟨k, hk⟩
    rw [place_hostMap] at hk
    rw [place_hosts, place_hosts]
    by_cases hq : q = p
    · subst q
      rw [Function.update_self, Function.update_self]
      exact hh
    · rw [Function.update_of_ne hq, Function.update_of_ne hq]
      exact (ha.hosts q ⟨k, hk⟩).mono (hothers q hq).1 (hothers q hq).2
  have hmove : (lb'.place p h').idleList = (lb.place p h).idleList ∧
      (lb'.place p h').overloadList = (lb.place p h).overloadList ∧
      (lb'.place p h').modid = (lb.place p h).modid ∧ (lb'.place p h').cmdid = (lb.place p h).cmdid ∧
      (t.accessCnt → (lb'.place p h').accessCnt = (lb.place p h).accessCnt) ∧
      (t.lastUpdateTime → (lb'.place p h').lastUpdateTime = (lb.place p h).lastUpdateTime) := by
    unfold LoadBalance.place
    rw [(ha.hosts p hp).overload, hh.overload, ha.idleList, ha.overloadList]
    split
    · exact ⟨rfl, rfl, ha.modid, ha.cmdid, ha.accessCnt, ha.lastUpdateTime⟩
    · exact ⟨rfl, rfl, ha.modid, ha.cmdid, ha.accessCnt, ha.lastUpdateTime⟩
    · exact ⟨ha.idleList, ha.overloadList, ha.modid, ha.cmdid, ha.accessCnt, ha.lastUpdateTime⟩
  obtain ⟨hidle, hover, hmodid, hcmdid, hcnt, hlast⟩ := hmove
  refine of_fields hmodid hcmdid ?_ ?_ hidle hover (fun h => hcnt (haccess h))
    (fun h => hlast (hupdate h)) hhosts
  · rw [place_status, place_status, ha.status]
  · rw [place_hostMap, place_hostMap, ha.hostMap]

theorem callResult (ha : Alike t lb lb') (hi : lb.Inv) (overload : Bool) {p : Ptr}
    (hp : p ∈ lb.idleList ∨ p ∈ lb.overloadList) :
    lb'.callResult overload p = lb.callResult overload p := by
  have hh := ha.hosts_of_mem hi hp
  unfold LoadBalance.callResult
  rw [hh.ip, hh.port, hh.rsucc, hh.rerr]

theorem commit (ha : Alike t lb lb') (hi : lb.Inv) (time : Int64) :
    lb'.commit cfg time = lb.commit cfg time := by
  have hidle : lb.idleList.map (lb'.callResult false) = lb.idleList.map (lb.callResult false) :=
    List.map_congr_left fun p hp => ha.callResult hi false (Or.inl hp)
  have hover : lb.overloadList.map (lb'.callResult true) =
      lb.overloadList.map (lb.callResult true) :=
    List.map_congr_left fun p hp => ha.callResult hi true (Or.inr hp)
  unfold LoadBalance.commit
  rw [ha.empty, ha.modid, ha.cmdid, ha.idleList, ha.overloadList, hidle, hover]

theorem routeHosts (ha : Alike t lb lb') :
    (lb'.getAllHosts.map fun p => (⟨(lb'.hosts p).ip.toInt32, (lb'.hosts p).port⟩ : Proto.HostInfo)) =
      lb.getAllHosts.map fun p => ⟨(lb.hosts p).ip.toInt32, (lb.hosts p).port⟩ := by
  unfold LoadBalance.getAllHosts
  rw [ha.pointers]
  refine List.map_congr_left fun p hp => ?_
  have hh := ha.hosts p ((mem_pointers lb p).mp hp)
  rw [hh.ip, hh.port]

variable [RateArith R]

/-- The report is about a trusted time stamp, if it looks at one. -/
def ReportTrusted (cfg : Config R) (t : Trust) (lb : LoadBalance) (ip port retcode : Int32) : Prop :=
  ∀ p, lb.hostMap.lookup (reportKey ip port) = some p →
    (HostInfo.ReadsIdleTs cfg retcode (lb.hosts p) → t.idleTs p) ∧
      ((lb.hosts p).overload = true → t.overloadTs p)

theorem report (ha : Alike t lb lb') {ip port retcode : Int32}
    (htrust : ReportTrusted cfg t lb ip port retcode) (currentTime time : Int64) {t' : Trust}
    (haccess : t'.accessCnt → t.accessCnt) (hupdate : t'.lastUpdateTime → t.lastUpdateTime)
    (hidle : ∀ q, t'.idleTs q → t.idleTs q ∨ lb.hostMap.lookup (reportKey ip port) = some q ∧
      .setIdle ∈ (lb.hosts q).reportEvents cfg currentTime retcode)
    (hover : ∀ q, t'.overloadTs q → t.overloadTs q ∨
      lb.hostMap.lookup (reportKey ip port) = some q ∧
        .setOverload ∈ (lb.hosts q).reportEvents cfg currentTime retcode) :
    Alike t' (lb.report cfg currentTime time ip port retcode)
      (lb'.report cfg currentTime time ip port retcode) := by
  cases hp : lb.hostMap.lookup (reportKey ip port) with
  | none =>
    rw [report_of_lookup_none cfg currentTime time lb ip port retcode hp,
      report_of_lookup_none cfg currentTime time lb' ip port retcode (by rw [ha.hostMap, hp])]
    refine ha.mono haccess hupdate (fun q _ h => ?_) fun q _ h => ?_
    · exact (hidle q h).resolve_right fun hr => by simp [hp] at hr
    · exact (hover q h).resolve_right fun hr => by simp [hp] at hr
  | some p =>
    rw [report_eq_place cfg currentTime time lb p ip port retcode hp,
      report_eq_place cfg currentTime time lb' p ip port retcode (by rw [ha.hostMap, hp])]
    obtain ⟨hi, ho⟩ := htrust p hp
    have hh := (ha.hosts p ⟨_, hp⟩).reported hi ho currentTime time
    refine ha.place ⟨_, hp⟩ haccess hupdate (hh.mono (fun h => ?_) fun h => ?_) fun q hq => ⟨?_, ?_⟩
    · exact (hidle p h).imp_right And.right
    · exact (hover p h).imp_right And.right
    · exact fun h => (hidle q h).resolve_right fun hr => hq (Option.some.inj (hr.1.symm.trans hp))
    · exact fun h => (hover q h).resolve_right fun hr => hq (Option.some.inj (hr.1.symm.trans hp))

end Alike

end LoadBalance

end Lrlb.Agent
