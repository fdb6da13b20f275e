import Lrlb.Agent.Update

/-! What the counters of a host count: the reports about it since it was last reset. -/
namespace Lrlb.Agent
open Lib
open Proto.LrlbRetCode (retSucc)

/-- What `report` does with the record that it finds. -/
inductive HostEvent where
  | counted (retcode : Int32)
  | setIdle
  | setOverload
deriving DecidableEq, Repr

/-- The outcomes that were counted since the last reset, oldest first. -/
def sinceReset (log : List HostEvent) : List Bool :=
  log.foldl (fun outcomes e => match e with
    | .counted retcode => outcomes ++ [decide (retcode = retSucc.value)]
    | .setIdle | .setOverload => []) []

/-- The length of the run of `b` that a list ends with. -/
def trailing (b : Bool) (outcomes : List Bool) : ℕ := (outcomes.reverse.takeWhile (· = b)).length

theorem trailing_concat (b c : Bool) (outcomes : List Bool) :
    trailing b (outcomes ++ [c]) = if c = b then trailing b outcomes + 1 else 0 := by
  unfold trailing
  rw [List.reverse_append, List.reverse_singleton, List.singleton_append, List.takeWhile_cons]
  by_cases h : c = b <;> simp [h]

namespace HostInfo

variable {R : Type}

def apply (cfg : Config R) (time : Int64) (h : HostInfo) : HostEvent → HostInfo
  | .counted retcode => LoadBalance.countReport retcode h
  | .setIdle => h.setIdle cfg time
  | .setOverload => h.setOverload cfg time

variable [RateArith R]

/-- The resets of the window and timeout check. -/
def windowEvents (cfg : Config R) (currentTime : Int64) (h : HostInfo) : List HostEvent :=
  if h.overload = false then
    if cfg.idleTimeout.toInt64 ≤ currentTime - h.idleTs then
      if h.checkWindow cfg then [.setOverload] else [.setIdle]
    else []
  else if cfg.overloadTimeout.toInt64 ≤ currentTime - h.overloadTs then [.setIdle]
  else []

/-- The count of a report and the resets that follow it. -/
def reportEvents (cfg : Config R) (currentTime : Int64) (retcode : Int32) (h : HostInfo) :
    List HostEvent :=
  let h := LoadBalance.countReport retcode h
  .counted retcode ::
    if h.overload = false ∧ retcode ≠ retSucc.value then
      if LoadBalance.overloadCondition cfg h then [.setOverload] else h.windowEvents cfg currentTime
    else if h.overload = true ∧ retcode = retSucc.value then
      if LoadBalance.idleCondition cfg h then [.setIdle] else h.windowEvents cfg currentTime
    else h.windowEvents cfg currentTime

theorem windowed_eq_events (cfg : Config R) (currentTime time : Int64) (h : HostInfo) :
    h.windowed cfg currentTime time = (h.windowEvents cfg currentTime).foldl (apply cfg time) h := by
  unfold windowed windowEvents
  split_ifs <;> rfl

/-- A report does what its events say. -/
theorem reported_eq_events (cfg : Config R) (currentTime time : Int64) (retcode : Int32)
    (h : HostInfo) :
    h.reported cfg currentTime time retcode =
      (h.reportEvents cfg currentTime retcode).foldl (apply cfg time) h := by
  unfold reported reportEvents
  dsimp only
  rw [List.foldl_cons]
  split_ifs
  · rfl
  · exact windowed_eq_events ..
  · rfl
  · exact windowed_eq_events ..
  · exact windowed_eq_events ..

theorem windowEvents_cases (cfg : Config R) (currentTime : Int64) (h : HostInfo) :
    h.windowEvents cfg currentTime = [] ∨ h.windowEvents cfg currentTime = [.setIdle] ∨
      h.windowEvents cfg currentTime = [.setOverload] := by
  unfold windowEvents
  split_ifs <;> simp

/-- A report that is counted and resets nothing has failed the tests of its branch. -/
structure StaysCounted (cfg : Config R) (retcode : Int32) (h : HostInfo) : Prop where
  idle : h.overload = false → retcode ≠ retSucc.value →
    LoadBalance.overloadCondition cfg (LoadBalance.countReport retcode h) = false
  overload : h.overload = true → retcode = retSucc.value →
    LoadBalance.idleCondition cfg (LoadBalance.countReport retcode h) = false

theorem reportEvents_cases (cfg : Config R) (currentTime : Int64) (retcode : Int32)
    (h : HostInfo) :
    (h.reportEvents cfg currentTime retcode = [.counted retcode] ∧ StaysCounted cfg retcode h) ∨
      h.reportEvents cfg currentTime retcode = [.counted retcode, .setIdle] ∨
      h.reportEvents cfg currentTime retcode = [.counted retcode, .setOverload] := by
  have hw := windowEvents_cases cfg currentTime (LoadBalance.countReport retcode h)
  have ho := LoadBalance.countReport_overload retcode h
  unfold reportEvents
  dsimp only
  split_ifs with hfail hover hsucc hidle
  · exact Or.inr (Or.inr rfl)
  · rcases hw with hw | hw | hw <;> rw [hw]
    · refine Or.inl ⟨rfl, fun _ _ => by simpa using hover, fun _ hr => absurd hr hfail.2⟩
    · exact Or.inr (Or.inl rfl)
    · exact Or.inr (Or.inr rfl)
  · exact Or.inr (Or.inl rfl)
  · rcases hw with hw | hw | hw <;> rw [hw]
    · refine Or.inl ⟨rfl, fun _ hr => absurd hsucc.2 hr, fun _ _ => by simpa using hidle⟩
    · exact Or.inr (Or.inl rfl)
    · exact Or.inr (Or.inr rfl)
  · rcases hw with hw | hw | hw <;> rw [hw]
    · rw [ho] at hfail hsucc
      exact Or.inl ⟨rfl, fun h1 h2 => absurd ⟨h1, h2⟩ hfail, fun h1 h2 => absurd ⟨h1, h2⟩ hsucc⟩
    · exact Or.inr (Or.inl rfl)
    · exact Or.inr (Or.inr rfl)

theorem reported_address (cfg : Config R) (currentTime time : Int64) (retcode : Int32)
    (h : HostInfo) : (h.reported cfg currentTime time retcode).ip = h.ip ∧
      (h.reported cfg currentTime time retcode).port = h.port := by
  rw [reported_eq_events]
  rcases reportEvents_cases cfg currentTime retcode h with ⟨he, -⟩ | he | he <;>
    simp [he, apply]

end HostInfo

/-- Configuration values of the kind the agent is meant to run with. -/
structure Config.NonNegative (cfg : Config ℚ) : Prop where
  initSuccCnt : 0 ≤ cfg.initSuccCnt.toInt
  initErrCnt : 0 ≤ cfg.initErrCnt.toInt
  errRate : 0 ≤ cfg.errRate
  succRate : 0 ≤ cfg.succRate
  continErrLimit : 1 ≤ cfg.continErrLimit.toInt
  continSuccLimit : 1 ≤ cfg.continSuccLimit.toInt

namespace HostInfo

/-- Counting the report wraps no counter. -/
def CountFits (retcode : Int32) (h : HostInfo) : Prop :=
  if retcode = retSucc.value then
    h.vsucc.toNat + 1 < 2 ^ 32 ∧ h.rsucc.toNat + 1 < 2 ^ 32 ∧ h.continSucc.toNat + 1 < 2 ^ 32
  else h.verr.toNat + 1 < 2 ^ 32 ∧ h.rerr.toNat + 1 < 2 ^ 32 ∧ h.continErr.toNat + 1 < 2 ^ 32

instance (retcode : Int32) (h : HostInfo) : Decidable (h.CountFits retcode) :=
  inferInstanceAs (Decidable (ite _ _ _))

/-- The counters after the given outcomes since the last reset. -/
structure Counts (cfg : Config ℚ) (outcomes : List Bool) (h : HostInfo) : Prop where
  rsucc : h.rsucc.toNat = outcomes.count true
  rerr : h.rerr.toNat = outcomes.count false
  continSucc : h.continSucc.toNat = trailing true outcomes
  continErr : h.continErr.toNat = trailing false outcomes
  idle : h.overload = false →
    (h.vsucc.toNat : ℤ) = cfg.initSuccCnt.toInt + outcomes.count true ∧
      h.verr.toNat = outcomes.count false
  overload : h.overload = true →
    h.vsucc.toNat = outcomes.count true ∧
      (h.verr.toNat : ℤ) = cfg.initErrCnt.toInt + outcomes.count false

/-- A host is in the state that its counters call for. -/
structure WithinLimits (cfg : Config ℚ) (h : HostInfo) : Prop where
  idle : h.overload = false →
    (h.verr.toNat : ℚ) ≤ cfg.errRate * (h.vsucc.toNat + h.verr.toNat) ∧
      (h.continErr.toNat : ℤ) < cfg.continErrLimit.toInt
  overload : h.overload = true →
    (h.vsucc.toNat : ℚ) ≤ cfg.succRate * (h.vsucc.toNat + h.verr.toNat) ∧
      (h.continSucc.toNat : ℤ) < cfg.continSuccLimit.toInt

/-- A ratio that was not found too large is not, even if the sum below it has wrapped. -/
theorem le_of_not_exceeds {n a b : UInt32} {r : ℚ} (hr : 0 ≤ r)
    (h : RateArith.exceeds n (a + b) r = false) : (n.toNat : ℚ) ≤ r * (a.toNat + b.toNat) := by
  have hsum : 0 ≤ r * ((a.toNat : ℚ) + b.toNat) := mul_nonneg hr (by positivity)
  change (if a + b = 0 then decide (n ≠ 0) else decide (r * (a + b).toNat < n.toNat)) = false at h
  split_ifs at h with hzero
  · have hn : n = 0 := by simpa using h
    simpa [hn] using hsum
  · have hle : ((a + b).toNat : ℚ) ≤ a.toNat + b.toNat := by
      rw [UInt32.toNat_add]
      exact_mod_cast Nat.mod_le ..
    have hn : (n.toNat : ℚ) ≤ r * (a + b).toNat := not_lt.mp (of_decide_eq_false h)
    exact hn.trans (mul_le_mul_of_nonneg_left hle hr)

/-- A streak that has not reached its limit is below it. -/
theorem lt_limit {limit : Int32} {n : UInt32} (hl : 0 ≤ limit.toInt)
    (h : decide (limit.toUInt32 ≤ n) = false) : (n.toNat : ℤ) < limit.toInt := by
  have hlt : n.toNat < limit.toUInt32.toNat :=
    UInt32.lt_iff_toNat_lt.mp (UInt32.not_le.mp (of_decide_eq_false h))
  rw [toNat_toUInt32 hl] at hlt
  omega

variable {cfg : Config ℚ} {h : HostInfo} {outcomes : List Bool} {retcode : Int32}

theorem Counts.new (hpos : 0 ≤ cfg.initSuccCnt.toInt) (raw : RawHost) (ip : UInt32) (port : Int32) :
    Counts cfg [] (HostInfo.new raw ip port cfg.initSuccCnt.toUInt32) := by
  have hinit := toNat_toUInt32 hpos
  refine ⟨rfl, rfl, rfl, rfl, fun _ => ⟨?_, rfl⟩, nofun⟩
  change (cfg.initSuccCnt.toUInt32.toNat : ℤ) = _
  rw [List.count_nil]
  omega

theorem Counts.setIdle (hcfg : cfg.NonNegative) (time : Int64) (h : HostInfo) :
    Counts cfg [] (h.setIdle cfg time) := by
  have hnew := Counts.new hcfg.initSuccCnt default h.ip h.port
  exact ⟨rfl, rfl, rfl, rfl, fun _ => hnew.idle rfl, nofun⟩

theorem Counts.setOverload (hcfg : cfg.NonNegative) (time : Int64) (h : HostInfo) :
    Counts cfg [] (h.setOverload cfg time) := by
  have hinit := toNat_toUInt32 hcfg.initErrCnt
  have hpos := hcfg.initErrCnt
  refine ⟨rfl, rfl, rfl, rfl, nofun, fun _ => ⟨rfl, ?_⟩⟩
  change (cfg.initErrCnt.toUInt32.toNat : ℤ) = _
  rw [List.count_nil]
  omega

theorem toNat_add_one {n : UInt32} (h : n.toNat + 1 < 2 ^ 32) : (n + 1).toNat = n.toNat + 1 := by
  rw [UInt32.toNat_add]
  exact Nat.mod_eq_of_lt h

theorem Counts.counted (hc : Counts cfg outcomes h) (hfits : h.CountFits retcode) :
    Counts cfg (outcomes ++ [decide (retcode = retSucc.value)])
      (LoadBalance.countReport retcode h) := by
  unfold CountFits at hfits
  unfold LoadBalance.countReport
  split_ifs at hfits ⊢ with hret
  · obtain ⟨hv, hr, hs⟩ := hfits
    rw [decide_eq_true hret]
    refine ⟨?_, ?_, ?_, ?_, fun ho => ?_, fun ho => ?_⟩
    · simp [toNat_add_one hr, hc.rsucc]
    · simp [hc.rerr]
    · simp [toNat_add_one hs, trailing_concat, hc.continSucc]
    · simp [trailing_concat]
    · obtain ⟨hvs, hve⟩ := hc.idle ho
      simp [toNat_add_one hv, hvs, hve, add_assoc]
    · obtain ⟨hvs, hve⟩ := hc.overload ho
      simp [toNat_add_one hv, hvs, hve]
  · obtain ⟨hv, hr, hs⟩ := hfits
    rw [decide_eq_false hret]
    refine ⟨?_, ?_, ?_, ?_, fun ho => ?_, fun ho => ?_⟩
    · simp [hc.rsucc]
    · simp [toNat_add_one hr, hc.rerr]
    · simp [trailing_concat]
    · simp [toNat_add_one hs, trailing_concat, hc.continErr]
    · obtain ⟨hvs, hve⟩ := hc.idle ho
      simp [toNat_add_one hv, hvs, hve]
    · obtain ⟨hvs, hve⟩ := hc.overload ho
      simp [toNat_add_one hv, hvs, hve, add_assoc]

theorem WithinLimits.new (hcfg : cfg.NonNegative) (raw : RawHost) (ip : UInt32) (port : Int32)
    (vsucc : UInt32) : WithinLimits cfg (HostInfo.new raw ip port vsucc) := by
  have hrate := hcfg.errRate
  have hlimit := hcfg.continErrLimit
  refine ⟨fun _ => ⟨?_, ?_⟩, nofun⟩
  · simp only [HostInfo.new, UInt32.toNat_zero, Nat.cast_zero]
    positivity
  · simp only [HostInfo.new, UInt32.toNat_zero, Nat.cast_zero]
    omega

theorem WithinLimits.setIdle (hcfg : cfg.NonNegative) (time : Int64) (h : HostInfo) :
    WithinLimits cfg (h.setIdle cfg time) :=
  have hnew := WithinLimits.new hcfg default h.ip h.port cfg.initSuccCnt.toUInt32
  ⟨fun _ => hnew.idle rfl, nofun⟩

theorem WithinLimits.setOverload (hcfg : cfg.NonNegative) (time : Int64) (h : HostInfo) :
    WithinLimits cfg (h.setOverload cfg time) := by
  have hrate := hcfg.succRate
  have hlimit := hcfg.continSuccLimit
  refine ⟨nofun, fun _ => ⟨?_, ?_⟩⟩
  · simp only [HostInfo.setOverload, UInt32.toNat_zero, Nat.cast_zero]
    positivity
  · simp only [HostInfo.setOverload, UInt32.toNat_zero, Nat.cast_zero]
    omega

/-- A success takes an idle host further from its limits, a failure an overloaded one. -/
theorem WithinLimits.counted (hcfg : cfg.NonNegative) (hl : WithinLimits cfg h)
    (hfits : h.CountFits retcode) (hs : StaysCounted cfg retcode h) :
    WithinLimits cfg (LoadBalance.countReport retcode h) := by
  have ho := LoadBalance.countReport_overload retcode h
  have herr := hcfg.continErrLimit
  have hsucc := hcfg.continSuccLimit
  refine ⟨fun hidle => ?_, fun hover => ?_⟩
  · rw [ho] at hidle
    by_cases hret : retcode = retSucc.value
    · obtain ⟨hle, -⟩ := hl.idle hidle
      unfold CountFits at hfits
      rw [if_pos hret] at hfits
      unfold LoadBalance.countReport
      rw [if_pos hret]
      refine ⟨?_, by simp only [UInt32.toNat_zero, Nat.cast_zero]; omega⟩
      rw [toNat_add_one hfits.1]
      have hmono : (h.vsucc.toNat : ℚ) + h.verr.toNat ≤ (h.vsucc.toNat + 1 : ℕ) + h.verr.toNat := by
        push_cast
        linarith
      exact hle.trans (mul_le_mul_of_nonneg_left hmono hcfg.errRate)
    · obtain ⟨hrate, hstreak⟩ := Bool.or_eq_false_iff.mp (hs.idle hidle hret)
      exact ⟨le_of_not_exceeds hcfg.errRate hrate, lt_limit (by omega) hstreak⟩
  · rw [ho] at hover
    by_cases hret : retcode = retSucc.value
    · obtain ⟨hrate, hstreak⟩ := Bool.or_eq_false_iff.mp (hs.overload hover hret)
      exact ⟨le_of_not_exceeds hcfg.succRate hrate, lt_limit (by omega) hstreak⟩
    · obtain ⟨hle, -⟩ := hl.overload hover
      unfold CountFits at hfits
      rw [if_neg hret] at hfits
      unfold LoadBalance.countReport
      rw [if_neg hret]
      refine ⟨?_, by simp only [UInt32.toNat_zero, Nat.cast_zero]; omega⟩
      rw [toNat_add_one hfits.1]
      have hmono : (h.vsucc.toNat : ℚ) + h.verr.toNat ≤ h.vsucc.toNat + (h.verr.toNat + 1 : ℕ) := by
        push_cast
        linarith
      exact hle.trans (mul_le_mul_of_nonneg_left hmono hcfg.succRate)

end HostInfo

namespace LoadBalance

variable {R : Type} [RateArith R]

/-- A change that is about one host at most. -/
structure LeavesOthers (lb lb' : LoadBalance) (host : Option Ptr) : Prop where
  record : ∀ q, some q ≠ host → lb'.hosts q = lb.hosts q
  idleOrder : lb'.idleList.filter (fun q => some q ≠ host) =
    lb.idleList.filter fun q => some q ≠ host
  overloadOrder : lb'.overloadList.filter (fun q => some q ≠ host) =
    lb.overloadList.filter fun q => some q ≠ host

theorem filter_remove (p : Ptr) (l : List Ptr) :
    (remove p l).filter (fun q => some q ≠ some p) = l.filter fun q => some q ≠ some p := by
  rw [remove, List.filter_filter]
  refine List.filter_congr fun q _ => ?_
  simp

theorem filter_concat (p : Ptr) (l : List Ptr) :
    (l ++ [p]).filter (fun q => some q ≠ some p) = l.filter fun q => some q ≠ some p := by
  simp

theorem place_leavesOthers (lb : LoadBalance) (p : Ptr) (h : HostInfo) :
    LeavesOthers lb (lb.place p h) (some p) := by
  refine ⟨fun q hq => ?_, ?_, ?_⟩
  · rw [place_hosts]
    exact Function.update_of_ne (fun he => hq (congrArg some he)) ..
  · unfold place
    split
    · exact filter_remove ..
    · exact filter_concat ..
    · rfl
  · unfold place
    split
    · exact filter_concat ..
    · exact filter_remove ..
    · rfl

theorem report_leavesOthers (cfg : Config R) (currentTime time : Int64) (lb : LoadBalance)
    (ip port retcode : Int32) :
    LeavesOthers lb (lb.report cfg currentTime time ip port retcode)
      (lb.hostMap.lookup (reportKey ip port)) := by
  cases hp : lb.hostMap.lookup (reportKey ip port) with
  | none =>
    rw [report_of_lookup_none cfg currentTime time lb ip port retcode hp]
    exact ⟨fun _ _ => rfl, rfl, rfl⟩
  | some p =>
    rw [report_eq_place cfg currentTime time lb p ip port retcode hp]
    exact place_leavesOthers ..

end LoadBalance

/-- A module with what happened to the record at each address since its host was inserted. -/
structure LoggedLb where
  lb : LoadBalance
  log : Ptr → List HostEvent

namespace LoggedLb

def create (raw : RawLoadBalance) (modid cmdid : Int32) : LoggedLb :=
  ⟨LoadBalance.create raw modid cmdid, fun _ => []⟩

variable {R : Type} [RateArith R]

def record (cfg : Config R) (s : LoggedLb) : LbOp → Ptr → List HostEvent
  | .update _ _ _ => fun p => if p ∈ s.lb.pointers then s.log p else []
  | .report currentTime _ ip port retcode =>
    match s.lb.hostMap.lookup (LoadBalance.reportKey ip port) with
    | none => s.log
    | some p => Function.update s.log p
        (s.log p ++ (s.lb.hosts p).reportEvents cfg currentTime retcode)
  | .choiceOneHost _ | .pull | .commit _ | .getAllHosts => s.log

def step? (cfg : Config R) (s : LoggedLb) (op : LbOp) : Option LoggedLb :=
  (lbStep? cfg s.lb op).map fun lb => ⟨lb, s.record cfg op⟩

section Step

variable {cfg : Config R} {s t : LoggedLb} {p : Ptr}

theorem inv_of_reachable {raw : RawLoadBalance} {modid cmdid : Int32}
    (hs : Reachable (step? cfg) (create raw modid cmdid) s) : s.lb.Inv := by
  refine Reachable.invariant (P := fun s : LoggedLb => s.lb.Inv) ?_ (.create raw modid cmdid) hs
  intro s op t h hstep
  obtain ⟨lb, hop, rfl⟩ := Option.map_eq_some_iff.mp hstep
  exact h.step op hop

theorem report_found {currentTime time : Int64} {ip port retcode : Int32}
    (hp : s.lb.hostMap.lookup (LoadBalance.reportKey ip port) = some p) :
    (s.lb.report cfg currentTime time ip port retcode).hosts p =
        (s.lb.hosts p).reported cfg currentTime time retcode ∧
      s.record cfg (.report currentTime time ip port retcode) p =
        s.log p ++ (s.lb.hosts p).reportEvents cfg currentTime retcode := by
  constructor
  · rw [LoadBalance.report_eq_place cfg currentTime time s.lb p ip port retcode hp,
      LoadBalance.place_hosts, Function.update_self]
  · simp [record, hp]

/-- Everything an operation other than `update` can do to one host and its log. -/
theorem step?_cases {op : LbOp} (p : Ptr) (hop : ∀ mem time rsp, op ≠ .update mem time rsp)
    (hstep : s.step? cfg op = some t) :
    t.lb.hostMap = s.lb.hostMap ∧
      (t.lb.hosts p = s.lb.hosts p ∧ t.log p = s.log p ∨
        ∃ currentTime time ip port retcode, op = .report currentTime time ip port retcode ∧
          s.lb.hostMap.lookup (LoadBalance.reportKey ip port) = some p ∧
          t.lb.hosts p = (s.lb.hosts p).reported cfg currentTime time retcode ∧
          t.log p = s.log p ++ (s.lb.hosts p).reportEvents cfg currentTime retcode) := by
  obtain ⟨lb, hlb, rfl⟩ := Option.map_eq_some_iff.mp hstep
  cases op with
  | update mem time rsp => exact absurd rfl (hop mem time rsp)
  | choiceOneHost rsp =>
    obtain ⟨⟨lb₁, rsp', ret⟩, hc, rfl⟩ := Option.map_eq_some_iff.mp hlb
    obtain ⟨hmap, hhosts⟩ := LoadBalance.choiceOneHost?_hosts hc
    exact ⟨hmap, Or.inl ⟨congrFun hhosts p, rfl⟩⟩
  | report currentTime time ip port retcode =>
    cases hlb
    refine ⟨LoadBalance.report_hostMap .., ?_⟩
    have hothers := LoadBalance.report_leavesOthers cfg currentTime time s.lb ip port retcode
    by_cases hp : s.lb.hostMap.lookup (LoadBalance.reportKey ip port) = some p
    · exact Or.inr ⟨currentTime, time, ip, port, retcode, rfl, hp, report_found hp⟩
    · refine Or.inl ⟨hothers.record p (Ne.symm hp), ?_⟩
      unfold record
      dsimp only
      cases hq : s.lb.hostMap.lookup (LoadBalance.reportKey ip port) with
      | none => rfl
      | some q =>
        have hpq : p ≠ q := fun he => hp (he ▸ hq)
        exact Function.update_of_ne hpq ..
  | pull => cases hlb; exact ⟨rfl, Or.inl ⟨rfl, rfl⟩⟩
  | commit time => cases hlb; exact ⟨rfl, Or.inl ⟨rfl, rfl⟩⟩
  | getAllHosts => cases hlb; exact ⟨rfl, Or.inl ⟨rfl, rfl⟩⟩

end Step

/-- No report wraps a counter of the host that it finds. -/
def CountsFit (lb : LoadBalance) : LbOp → Prop
  | .report _ _ ip port retcode =>
    ∀ p ∈ lb.hostMap.lookup (LoadBalance.reportKey ip port), (lb.hosts p).CountFits retcode
  | _ => True

instance (lb : LoadBalance) (op : LbOp) : Decidable (CountsFit lb op) :=
  match op with
  | .report _ _ ip port retcode => Option.decidableForallMem
      (p := fun p => (lb.hosts p).CountFits retcode)
      (lb.hostMap.lookup (LoadBalance.reportKey ip port))
  | .update .. | .choiceOneHost _ | .pull | .commit _ | .getAllHosts => .isTrue trivial

/-- The log tells the counters of every host, and no host is past its limits. -/
structure Tells (cfg : Config ℚ) (s : LoggedLb) : Prop where
  inv : s.lb.Inv
  counts : ∀ p ∈ s.lb.pointers, (s.lb.hosts p).Counts cfg (sinceReset (s.log p))
  limits : ∀ p ∈ s.lb.pointers, (s.lb.hosts p).WithinLimits cfg

theorem sinceReset_counted (log : List HostEvent) (retcode : Int32) :
    sinceReset (log ++ [.counted retcode]) =
      sinceReset log ++ [decide (retcode = retSucc.value)] := by
  simp [sinceReset]

theorem sinceReset_setIdle (log : List HostEvent) : sinceReset (log ++ [.setIdle]) = [] := by
  simp [sinceReset]

theorem sinceReset_setOverload (log : List HostEvent) :
    sinceReset (log ++ [.setOverload]) = [] := by
  simp [sinceReset]

variable {cfg : Config ℚ} {s t : LoggedLb}

/-- One report keeps the account of the host that it finds. -/
theorem reported_tells (hcfg : cfg.NonNegative) {h : HostInfo} {log : List HostEvent}
    {retcode : Int32} (hc : h.Counts cfg (sinceReset log)) (hl : h.WithinLimits cfg)
    (hfits : h.CountFits retcode) (currentTime time : Int64) :
    (h.reported cfg currentTime time retcode).Counts cfg
        (sinceReset (log ++ h.reportEvents cfg currentTime retcode)) ∧
      (h.reported cfg currentTime time retcode).WithinLimits cfg := by
  rw [HostInfo.reported_eq_events]
  rcases HostInfo.reportEvents_cases cfg currentTime retcode h with ⟨he, hs⟩ | he | he <;> rw [he]
  · rw [sinceReset_counted]
    exact ⟨hc.counted hfits, hl.counted hcfg hfits hs⟩
  · rw [List.append_cons, sinceReset_setIdle]
    exact ⟨.setIdle hcfg time _, .setIdle hcfg time _⟩
  · rw [List.append_cons, sinceReset_setOverload]
    exact ⟨.setOverload hcfg time _, .setOverload hcfg time _⟩

theorem Tells.create (cfg : Config ℚ) (raw : RawLoadBalance) (modid cmdid : Int32) :
    Tells cfg (LoggedLb.create raw modid cmdid) :=
  ⟨.create raw modid cmdid, nofun, nofun⟩

theorem Tells.update (hcfg : cfg.NonNegative) (h : Tells cfg s) {mem : Memory} {currentTime : Int64}
    {rsp : List Proto.HostInfo} {lb' : LoadBalance}
    (hu : s.lb.update? cfg mem currentTime rsp = some lb') :
    Tells cfg ⟨lb', s.record cfg (.update mem currentTime rsp)⟩ := by
  have hall : ∀ p ∈ lb'.pointers, (lb'.hosts p).Counts cfg
      (sinceReset (s.record cfg (.update mem currentTime rsp) p)) ∧
        (lb'.hosts p).WithinLimits cfg := by
    intro p hp
    rcases LoadBalance.update?_record h.inv hu ((LoadBalance.mem_pointers lb' p).mp hp) with
      ⟨hold, he⟩ | ⟨hnew, x, -, he⟩
    · have hmem := (LoadBalance.mem_pointers s.lb p).mpr hold
      simp only [he, record, if_pos hmem]
      exact ⟨h.counts p hmem, h.limits p hmem⟩
    · have hmem : p ∉ s.lb.pointers := fun hm => hnew ((LoadBalance.mem_pointers s.lb p).mp hm)
      simp only [he, record, if_neg hmem]
      exact ⟨.new hcfg.initSuccCnt .., .new hcfg ..⟩
  exact ⟨h.inv.update mem currentTime rsp hu, fun p hp => (hall p hp).1, fun p hp => (hall p hp).2⟩

theorem Tells.step (hcfg : cfg.NonNegative) (h : Tells cfg s) {op : LbOp}
    (hfit : CountsFit s.lb op) (hstep : s.step? cfg op = some t) : Tells cfg t := by
  by_cases hop : ∀ mem time rsp, op ≠ .update mem time rsp
  · have hinv : t.lb.Inv := by
      obtain ⟨lb, hlb, rfl⟩ := Option.map_eq_some_iff.mp hstep
      exact h.inv.step op hlb
    have hall : ∀ p ∈ t.lb.pointers, (t.lb.hosts p).Counts cfg (sinceReset (t.log p)) ∧
        (t.lb.hosts p).WithinLimits cfg := by
      intro p hp
      obtain ⟨hmap, hcases⟩ := step?_cases p hop hstep
      have hheld : p ∈ s.lb.pointers := by
        rw [LoadBalance.pointers, ← hmap]
        exact hp
      rcases hcases with ⟨hhost, hlog⟩ | ⟨currentTime, time, ip, port, retcode, rfl, hfound, hhost, hlog⟩
      · rw [hhost, hlog]
        exact ⟨h.counts p hheld, h.limits p hheld⟩
      · rw [hhost, hlog]
        exact reported_tells hcfg (h.counts p hheld) (h.limits p hheld) (hfit p hfound)
          currentTime time
    exact ⟨hinv, fun p hp => (hall p hp).1, fun p hp => (hall p hp).2⟩
  · push Not at hop
    obtain ⟨mem, time, rsp, rfl⟩ := hop
    obtain ⟨lb, hlb, rfl⟩ := Option.map_eq_some_iff.mp hstep
    exact h.update hcfg hlb

/-- In every state of a run whose reports wrap no counter, the counters of a host are those of the
reports since its last reset and a host is in the state that they call for. A report does to its
host what the log says and leaves the others alone. -/
theorem counters_count_reports (cfg : Config ℚ) (hcfg : cfg.NonNegative) (raw : RawLoadBalance)
    (modid cmdid : Int32) (ops : List LbOp)
    (hops : ∀ x ∈ attempted (step? cfg) (create raw modid cmdid) ops, CountsFit x.1.lb x.2) :
    (∀ s ∈ visited (step? cfg) (create raw modid cmdid) ops, ∀ p ∈ s.lb.pointers,
      (s.lb.hosts p).Counts cfg (sinceReset (s.log p)) ∧ (s.lb.hosts p).WithinLimits cfg) ∧
    ∀ s ∈ visited (step? cfg) (create raw modid cmdid) ops,
      ∀ currentTime time ip port retcode,
        (∀ p ∈ s.lb.hostMap.lookup (LoadBalance.reportKey ip port),
          (s.lb.report cfg currentTime time ip port retcode).hosts p =
            ((s.lb.hosts p).reportEvents cfg currentTime retcode).foldl (HostInfo.apply cfg time)
              (s.lb.hosts p)) ∧
        LoadBalance.LeavesOthers s.lb (s.lb.report cfg currentTime time ip port retcode)
          (s.lb.hostMap.lookup (LoadBalance.reportKey ip port)) := by
  have hall : ∀ s ∈ visited (step? cfg) (create raw modid cmdid) ops, Tells cfg s :=
    forall_visited (G := fun s op => CountsFit s.lb op)
      (fun _ _ _ h hfit hstep => h.step hcfg hfit hstep) _ ops (.create cfg raw modid cmdid) hops
  refine ⟨fun s hs p hp => ?_, ?_⟩
  · exact ⟨(hall s hs).counts p hp, (hall s hs).limits p hp⟩
  · intro s hs currentTime time ip port retcode
    refine ⟨fun p hp => ?_, LoadBalance.report_leavesOthers ..⟩
    rw [LoadBalance.report_eq_place cfg currentTime time s.lb p ip port retcode hp,
      LoadBalance.place_hosts, Function.update_self, HostInfo.reported_eq_events]

/-- The first report closes the window, the next three are counted. -/
def mixedRun : List LbOp :=
  [.update bumpMemory 100 [⟨1, 0⟩, ⟨2, 0⟩], .report 101 101 2 0 0, .report 102 102 2 0 0,
    .report 103 103 2 0 1, .report 104 104 2 0 5, .choiceOneHost { }]

theorem defaultConfig_nonNegative : defaultConfig.NonNegative := by
  constructor <;> decide +kernel

theorem counters_count_reports_mixedRun :
    ∃ s, run? (step? defaultConfig) (create ⟨0, 0, .new⟩ 1 1) mixedRun = some s ∧
      2 ∈ s.lb.pointers ∧ sinceReset (s.log 2) = [true, false, false] ∧
      (s.lb.hosts 2).Counts defaultConfig (sinceReset (s.log 2)) ∧
      (s.lb.hosts 2).WithinLimits defaultConfig := by
  have hrun : (run? (step? defaultConfig) (create ⟨0, 0, .new⟩ 1 1) mixedRun).map
      (fun s => (s.lb.pointers, sinceReset (s.log 2))) = some ([2, 1], [true, false, false]) := by
    decide +kernel
  obtain ⟨s, hs, he⟩ := Option.map_eq_some_iff.mp hrun
  have hp : s.lb.pointers = [2, 1] := congrArg Prod.fst he
  have hmem : 2 ∈ s.lb.pointers := by rw [hp]; decide
  refine ⟨s, hs, hmem, congrArg Prod.snd he, ?_⟩
  refine (counters_count_reports defaultConfig defaultConfig_nonNegative ⟨0, 0, .new⟩ 1 1 mixedRun
    (by decide +kernel)).1 s (mem_visited_of_run? hs) 2 hmem

end LoggedLb

end Lrlb.Agent
