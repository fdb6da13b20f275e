import Mathlib.Algebra.BigOperators.Fin
import Lrlb.Agent.Choice
import Lrlb.Agent.Counters

/-! How long a module stays overloaded once its hosts answer again. Each probe that succeeds
brings an overloaded host nearer to the idle list, and a success makes no host overloaded twice. -/
namespace Lrlb.Agent
open Lib
open Proto (GetHostResponse)
open Proto.LrlbRetCode (retSucc)

variable {R : Type}

/-- The successes in a row that an overloaded host needs at most. -/
def Config.limit (cfg : Config R) : ℕ := cfg.continSuccLimit.toUInt32.toNat

/-- A host that has not failed in its window passes the window check. -/
structure Config.Forgiving [RateArith R] (cfg : Config R) : Prop where
  limit : 0 < cfg.limit
  window : ∀ n, n ≠ 0 → RateArith.reaches 0 n cfg.windowErrRate = false

namespace HostInfo

/-- How many successful probes a host may still take. A failure in the window of an idle host can
make it overloaded later on. -/
def burden (cfg : Config R) (h : HostInfo) : ℕ :=
  if h.overload then cfg.limit - h.continSucc.toNat else if h.rerr = 0 then 0 else cfg.limit

/-- An overloaded host is still below the limit. -/
def Probed (cfg : Config R) (h : HostInfo) : Prop :=
  h.overload = true → h.continSucc.toNat < cfg.limit

variable {cfg : Config R} {h : HostInfo}

theorem burden_setIdle (cfg : Config R) (time : Int64) (h : HostInfo) :
    (h.setIdle cfg time).burden cfg = 0 := rfl

theorem burden_le_limit (cfg : Config R) (h : HostInfo) : h.burden cfg ≤ cfg.limit := by
  unfold burden
  split_ifs <;> omega

theorem Probed.burden_pos (hp : h.Probed cfg) (hover : h.overload = true) :
    0 < h.burden cfg := by
  have hlt := hp hover
  rw [burden, if_pos hover]
  omega

variable [RateArith R]

theorem checkWindow_of_rerr (hcfg : cfg.Forgiving) (hr : h.rerr = 0) :
    h.checkWindow cfg = false := by
  unfold checkWindow
  rw [hr]
  split_ifs with hzero
  · rfl
  · exact hcfg.window _ hzero

theorem Probed.windowed (hcfg : cfg.Forgiving) (hp : h.Probed cfg) (currentTime time : Int64) :
    (h.windowed cfg currentTime time).Probed cfg := by
  unfold HostInfo.windowed
  split_ifs
  · exact fun _ => hcfg.limit
  · intro hover
    cases hover
  · exact hp
  · intro hover
    cases hover
  · exact hp

theorem burden_windowed (hcfg : cfg.Forgiving) (currentTime time : Int64) :
    (h.windowed cfg currentTime time).burden cfg ≤ h.burden cfg := by
  unfold windowed
  split_ifs with hidle htime hwindow
  · -- an idle host becomes overloaded only if its window has a failure
    have hr : h.rerr ≠ 0 := by
      intro hr
      rw [checkWindow_of_rerr hcfg hr] at hwindow
      cases hwindow
    have hfailed : h.burden cfg = cfg.limit := by
      rw [burden, hidle, if_neg Bool.false_ne_true, if_neg hr]
    rw [hfailed]
    exact burden_le_limit cfg _
  · exact Nat.zero_le _
  · exact Nat.le_refl _
  · exact Nat.zero_le _
  · exact Nat.le_refl _

theorem probed_countReport_failure (hcfg : cfg.Forgiving) {retcode : Int32}
    (hret : retcode ≠ retSucc.value) : (LoadBalance.countReport retcode h).Probed cfg := by
  intro _
  rw [LoadBalance.countReport, if_neg hret]
  exact hcfg.limit

/-- A success that leaves the host overloaded has not reached the limit. -/
theorem continSucc_of_idleCondition (hp : h.Probed cfg) (hover : h.overload = true)
    (hcond : LoadBalance.idleCondition cfg (LoadBalance.countReport retSucc.value h) = false) :
    (LoadBalance.countReport retSucc.value h).continSucc.toNat = h.continSucc.toNat + 1 ∧
      h.continSucc.toNat + 1 < cfg.limit := by
  have hlt := hp hover
  have hbound : cfg.limit < 2 ^ 32 := cfg.continSuccLimit.toUInt32.toNat_lt
  have hnext : (LoadBalance.countReport retSucc.value h).continSucc.toNat =
      h.continSucc.toNat + 1 := toNat_add_one (by omega)
  have hbelow := (Bool.or_eq_false_iff.mp hcond).2
  have hlimit : ¬ cfg.limit ≤ (LoadBalance.countReport retSucc.value h).continSucc.toNat :=
    fun hle => of_decide_eq_false hbelow (UInt32.le_iff_toNat_le.mpr hle)
  exact ⟨hnext, by omega⟩

theorem Probed.reported (hcfg : cfg.Forgiving) (hp : h.Probed cfg) (currentTime time : Int64)
    (retcode : Int32) : (h.reported cfg currentTime time retcode).Probed cfg := by
  unfold HostInfo.reported
  dsimp only
  split_ifs with hfail hcond hsucc hidle
  · exact fun _ => hcfg.limit
  · exact (probed_countReport_failure hcfg hfail.2).windowed hcfg currentTime time
  · intro hover
    cases hover
  · obtain ⟨hover, rfl⟩ := hsucc
    rw [LoadBalance.countReport_overload] at hover
    obtain ⟨hnext, hlt⟩ := continSucc_of_idleCondition hp hover (by simpa using hidle)
    have hprobed : (LoadBalance.countReport retSucc.value h).Probed cfg := by
      intro _
      rw [hnext]
      exact hlt
    exact hprobed.windowed hcfg currentTime time
  · by_cases hret : retcode = retSucc.value
    · -- a success of an idle host
      have hprobed : (LoadBalance.countReport retcode h).Probed cfg :=
        fun hover => absurd ⟨hover, hret⟩ hsucc
      exact hprobed.windowed hcfg currentTime time
    · exact (probed_countReport_failure hcfg hret).windowed hcfg currentTime time

/-- A success never adds to the burden of a host, and takes from that of an overloaded one. -/
theorem burden_reported_success (hcfg : cfg.Forgiving) (hp : h.Probed cfg)
    (currentTime time : Int64) :
    (h.reported cfg currentTime time retSucc.value).burden cfg + h.overload.toNat ≤
      h.burden cfg := by
  unfold reported
  dsimp only
  rw [if_neg fun hfail => hfail.2 rfl, LoadBalance.countReport_overload]
  cases hover : h.overload with
  | false =>
    have hcount : (LoadBalance.countReport retSucc.value h).burden cfg = h.burden cfg := by
      rw [burden, burden, LoadBalance.countReport_overload, hover]
      rfl
    rw [if_neg fun hboth => Bool.false_ne_true hboth.1, ← hcount]
    exact burden_windowed hcfg currentTime time
  | true =>
    have hpos := hp.burden_pos hover
    rw [if_pos ⟨rfl, rfl⟩, Bool.toNat_true]
    split_ifs with hidle
    · rw [burden_setIdle]
      exact hpos
    · obtain ⟨hnext, hlt⟩ := continSucc_of_idleCondition hp hover (by simpa using hidle)
      have hwindow := burden_windowed (h := LoadBalance.countReport retSucc.value h) hcfg
        currentTime time
      have hcount : (LoadBalance.countReport retSucc.value h).burden cfg + 1 ≤ h.burden cfg := by
        rw [burden, burden, LoadBalance.countReport_overload, hover, if_pos rfl, if_pos rfl, hnext]
        omega
      omega

end HostInfo

/-- What happens to a module whose hosts all answer: a host is asked for, called and reported, a
success is reported late, or the dns server sends hosts. -/
inductive HealthyOp where
  | call (rsp : GetHostResponse) (currentTime time : Int64)
  | report (currentTime time : Int64) (ip port : Int32)
  | update (mem : Memory) (currentTime : Int64) (rsp : List Proto.HostInfo)

/-- The hosts of an update are ones that reports find: both keys agree. -/
def HealthyOp.Findable : HealthyOp → Prop
  | .update _ _ rsp =>
    ∀ x ∈ rsp, LoadBalance.updateKey x.ip x.port = LoadBalance.reportKey x.ip x.port
  | _ => True

/-- A call in a module with an overloaded host. -/
def HealthyOp.meetsOverload : LoadBalance × HealthyOp → Bool
  | (lb, .call ..) => !lb.overloadList.isEmpty
  | _ => false

namespace LoadBalance

section Load

variable (cfg : Config R) (lb : LoadBalance)

/-- The successful probes that the hosts of a module may still take, all together. -/
def load : ℕ := ∑ p ∈ lb.pointers.toFinset, (lb.hosts p).burden cfg

theorem load_turned (k : Pick) : (lb.turned k).load cfg = lb.load cfg := by
  cases k <;> rfl

/-- A new record changes the load by the difference of the two burdens. -/
theorem load_place {p : Ptr} (hp : lb.Holds p) (h : HostInfo) :
    (lb.place p h).load cfg + (lb.hosts p).burden cfg = lb.load cfg + h.burden cfg := by
  have hmem : p ∈ lb.pointers.toFinset := List.mem_toFinset.mpr ((mem_pointers lb p).mpr hp)
  have hpointers : (lb.place p h).pointers = lb.pointers := by rw [pointers, place_hostMap, pointers]
  have hothers : ∑ q ∈ lb.pointers.toFinset.erase p, ((lb.place p h).hosts q).burden cfg =
      ∑ q ∈ lb.pointers.toFinset.erase p, (lb.hosts q).burden cfg := by
    apply Finset.sum_congr rfl
    intro q hq
    rw [place_hosts, Function.update_of_ne (Finset.ne_of_mem_erase hq)]
  have hnew := Finset.add_sum_erase _ (fun q => ((lb.place p h).hosts q).burden cfg) hmem
  have hold := Finset.add_sum_erase _ (fun q => (lb.hosts q).burden cfg) hmem
  rw [hothers, place_hosts, Function.update_self] at hnew
  rw [load, hpointers, load, place_hosts]
  omega

end Load

def healthyStep? [RateArith R] (cfg : Config R) (lb : LoadBalance) : HealthyOp → Option LoadBalance
  | .call rsp currentTime time => do
    let (lb, rsp, ret) ← lb.choiceOneHost? cfg rsp
    if ret = retSucc.value then
      let host := rsp.host.getD { }
      some (lb.report cfg currentTime time host.ip host.port retSucc.value)
    else some lb
  | .report currentTime time ip port =>
    some (lb.report cfg currentTime time ip port retSucc.value)
  | .update mem currentTime rsp => lb.update? cfg mem currentTime rsp

def AllProbed (cfg : Config R) (lb : LoadBalance) : Prop :=
  ∀ p, lb.Holds p → (lb.hosts p).Probed cfg

namespace AllProbed

variable {cfg : Config R} {lb lb' : LoadBalance}

theorem update (h : AllProbed cfg lb) (hinv : lb.Inv) {mem : Memory} {currentTime : Int64}
    {rsp : List Proto.HostInfo} (hu : lb.update? cfg mem currentTime rsp = some lb') :
    AllProbed cfg lb' := by
  intro p hp
  obtain ⟨hold, heq⟩ | ⟨-, x, -, heq⟩ := update?_record hinv hu hp
  · rw [heq]
    exact h p hold
  · rw [heq]
    intro hover
    cases hover

theorem report [RateArith R] (hcfg : cfg.Forgiving) (h : AllProbed cfg lb)
    (currentTime time : Int64) (ip port retcode : Int32) :
    AllProbed cfg (lb.report cfg currentTime time ip port retcode) := by
  intro q hq
  cases hp : lb.hostMap.lookup (reportKey ip port) with
  | none =>
    rw [report_of_lookup_none cfg currentTime time lb ip port retcode hp] at hq ⊢
    exact h q hq
  | some p =>
    rw [Holds, report_hostMap] at hq
    rw [report_eq_place cfg currentTime time lb p ip port retcode hp, place_hosts]
    by_cases hqp : q = p
    · subst hqp
      rw [Function.update_self]
      exact (h q hq).reported hcfg currentTime time retcode
    · rw [Function.update_of_ne hqp]
      exact h q hq

theorem step [RateArith R] (hcfg : cfg.Forgiving) (h : AllProbed cfg lb) (hinv : lb.Inv)
    {op : LbOp} (hstep : lbStep? cfg lb op = some lb') : AllProbed cfg lb' := by
  cases op with
  | update mem currentTime rsp => exact h.update hinv hstep
  | choiceOneHost rsp =>
    obtain ⟨⟨lb₁, rsp', ret⟩, hc, rfl⟩ := Option.map_eq_some_iff.mp hstep
    obtain ⟨hmap, hhosts⟩ := choiceOneHost?_hosts hc
    intro p hp
    rw [Holds, hmap] at hp
    rw [hhosts]
    exact h p hp
  | report currentTime time ip port retcode =>
    cases hstep
    exact h.report hcfg currentTime time ip port retcode
  | pull => cases hstep; exact h
  | commit time => cases hstep; exact h
  | getAllHosts => cases hstep; exact h

theorem of_reachable [RateArith R] (hcfg : cfg.Forgiving) {raw : RawLoadBalance}
    {modid cmdid : Int32} (hlb : Reachable (lbStep? cfg) (create raw modid cmdid) lb) :
    AllProbed cfg lb := by
  have hboth : lb.Inv ∧ AllProbed cfg lb := by
    refine hlb.invariant (P := fun lb => lb.Inv ∧ AllProbed cfg lb) ?_ ⟨Inv.create .., ?_⟩
    · intro lb op lb' h hstep
      exact ⟨h.1.step op hstep, h.2.step hcfg h.1 hstep⟩
    · intro p hp
      obtain ⟨key, hkey⟩ := hp
      simp [create] at hkey
  exact hboth.2

end AllProbed

/-- What the operations keep. A host's two keys agree only if its port is 0. -/
structure Steady (cfg : Config R) (lb : LoadBalance) : Prop where
  inv : lb.Inv
  range : InRange cfg lb
  probed : AllProbed cfg lb
  keys : ∀ p, lb.Holds p → updateKey (lb.hosts p).ip.toInt32 (lb.hosts p).port =
    reportKey (lb.hosts p).ip.toInt32 (lb.hosts p).port

namespace Steady

variable {cfg : Config R} {lb lb' : LoadBalance} {p : Ptr}

theorem found (h : Steady cfg lb) (hp : lb.Holds p) :
    lb.hostMap.lookup (reportKey (lb.hosts p).ip.toInt32 (lb.hosts p).port) = some p := by
  have hkeys := h.keys p hp
  obtain ⟨k, hk⟩ := hp
  rw [← hkeys, ← h.inv.keyed k p hk, hk]

theorem turned (h : Steady cfg lb) {k : Pick} (hk : lb.pick? cfg = some k) :
    Steady cfg (lb.turned k) := by
  have hchoice : lb.choiceOneHost? cfg { } = some (lb.turned k, lb.answer { } k) :=
    (Answered.of_pick hk { }).result
  obtain ⟨hmap, hhosts⟩ := choiceOneHost?_hosts hchoice
  have hholds : ∀ q, (lb.turned k).Holds q → lb.Holds q := by
    intro q hq
    rwa [Holds, hmap] at hq
  refine ⟨h.inv.choiceOneHost hchoice, h.range.turned hk, ?_, ?_⟩
  · intro q hq
    rw [hhosts]
    exact h.probed q (hholds q hq)
  · intro q hq
    rw [hhosts]
    exact h.keys q (hholds q hq)

theorem update (h : Steady cfg lb) {mem : Memory} {currentTime : Int64}
    {rsp : List Proto.HostInfo}
    (hrsp : ∀ x ∈ rsp, updateKey x.ip x.port = reportKey x.ip x.port)
    (hu : lb.update? cfg mem currentTime rsp = some lb') :
    Steady cfg lb' ∧ lb'.load cfg ≤ lb.load cfg := by
  have hcnt := update?_accessCnt hu
  have hrecord := fun {p} hp => update?_record (p := p) h.inv hu hp
  refine ⟨⟨h.inv.update mem currentTime rsp hu, ⟨hcnt ▸ h.range.nonneg, hcnt ▸ h.range.le⟩,
    h.probed.update h.inv hu, ?_⟩, ?_⟩
  · intro p hp
    obtain ⟨hold, heq⟩ | ⟨-, x, hx, heq⟩ := hrecord hp
    · rw [heq]
      exact h.keys p hold
    · rw [heq]
      simpa [HostInfo.new] using hrsp x hx
  · -- only hosts that were there before have a burden
    have hkept : ∀ p ∈ lb'.pointers.toFinset, (lb'.hosts p).burden cfg ≠ 0 →
        p ∈ lb.pointers.toFinset := by
      intro p hp hne
      rw [List.mem_toFinset, mem_pointers] at hp ⊢
      obtain ⟨hold, -⟩ | ⟨-, x, -, heq⟩ := hrecord hp
      · exact hold
      · rw [heq] at hne
        exact absurd rfl hne
    calc lb'.load cfg
        = ∑ p ∈ lb'.pointers.toFinset with p ∈ lb.pointers.toFinset, (lb'.hosts p).burden cfg :=
          (Finset.sum_filter_of_ne hkept).symm
      _ = ∑ p ∈ lb'.pointers.toFinset with p ∈ lb.pointers.toFinset, (lb.hosts p).burden cfg := by
          apply Finset.sum_congr rfl
          intro p hp
          obtain ⟨hnew, hold⟩ := Finset.mem_filter.mp hp
          rw [List.mem_toFinset, mem_pointers] at hnew hold
          obtain ⟨-, heq⟩ | ⟨hnot, -⟩ := hrecord hnew
          · rw [heq]
          · exact absurd hold hnot
      _ ≤ lb.load cfg :=
          Finset.sum_le_sum_of_subset fun p hp => (Finset.mem_filter.mp hp).2

theorem load_pos (h : Steady cfg lb) (hp : lb.Holds p) (hover : (lb.hosts p).overload = true) :
    0 < lb.load cfg := by
  have hmem : p ∈ lb.pointers.toFinset := List.mem_toFinset.mpr ((mem_pointers lb p).mpr hp)
  calc 0 < (lb.hosts p).burden cfg := (h.probed p hp).burden_pos hover
    _ ≤ lb.load cfg :=
      Finset.single_le_sum (f := fun q => (lb.hosts q).burden cfg) (fun q _ => Nat.zero_le _) hmem

theorem overloaded (h : Steady cfg lb) (hp : p ∈ lb.overloadList) :
    lb.Holds p ∧ (lb.hosts p).overload = true := by
  have hheld : lb.Holds p := (h.inv.split.mem_iff p).mp (Or.inr hp)
  exact ⟨hheld, (h.inv.flag p hheld).mpr hp⟩

variable [RateArith R]

/-- A success adds nothing to the load, and takes from it where it finds an overloaded host. -/
theorem report (hcfg : cfg.Forgiving) (h : Steady cfg lb) (currentTime time : Int64)
    (ip port : Int32) :
    Steady cfg (lb.report cfg currentTime time ip port retSucc.value) ∧
      (lb.report cfg currentTime time ip port retSucc.value).load cfg ≤ lb.load cfg ∧
      ∀ p, lb.hostMap.lookup (reportKey ip port) = some p → (lb.hosts p).overload = true →
        (lb.report cfg currentTime time ip port retSucc.value).load cfg < lb.load cfg := by
  have hinv : (lb.report cfg currentTime time ip port retSucc.value).Inv :=
    h.inv.report currentTime time ip port retSucc.value
  have hprobed := h.probed.report hcfg currentTime time ip port retSucc.value
  cases hp : lb.hostMap.lookup (reportKey ip port) with
  | none =>
    rw [report_of_lookup_none cfg currentTime time lb ip port _ hp]
    exact ⟨h, Nat.le_refl _, by simp⟩
  | some p =>
    have hheld : lb.Holds p := ⟨_, hp⟩
    rw [report_eq_place cfg currentTime time lb p ip port _ hp] at hinv hprobed ⊢
    have hburden := HostInfo.burden_reported_success hcfg (h.probed p hheld) currentTime time
    have hload := load_place cfg lb hheld
      ((lb.hosts p).reported cfg currentTime time retSucc.value)
    obtain ⟨hip, hport⟩ :=
      HostInfo.reported_address cfg currentTime time retSucc.value (lb.hosts p)
    refine ⟨⟨hinv, ⟨?_, ?_⟩, hprobed, ?_⟩, by omega, ?_⟩
    · rw [place_accessCnt]
      exact h.range.nonneg
    · rw [place_accessCnt]
      exact h.range.le
    · intro q hq
      rw [Holds, place_hostMap] at hq
      rw [place_hosts]
      by_cases hqp : q = p
      · subst hqp
        rw [Function.update_self, hip, hport]
        exact h.keys q hq
      · rw [Function.update_of_ne hqp]
        exact h.keys q hq
    · intro q hq hover
      cases hq
      rw [hover, Bool.toNat_true] at hburden
      omega

end Steady

/-- The calls that may still meet an overloaded host: a round of the probe counter for each unit of
the load. -/
def pending (cfg : Config R) (lb : LoadBalance) : ℕ := round cfg * lb.load cfg - lb.phase

theorem Steady.pending_pos {cfg : Config R} {lb : LoadBalance} (h : Steady cfg lb) (hover : lb.overloadList ≠ []) :
    0 < lb.pending cfg := by
  obtain ⟨q, hq⟩ := List.exists_mem_of_ne_nil _ hover
  obtain ⟨hheld, hflag⟩ := h.overloaded hq
  have hload := h.load_pos hheld hflag
  have hphase := h.range.phase_lt
  have hround : round cfg ≤ round cfg * lb.load cfg := Nat.le_mul_of_pos_right _ hload
  unfold pending
  omega

/-- A call settles on a host and reports a success of it, or is refused. -/
theorem healthyStep?_call [RateArith R] (cfg : Config R) (lb : LoadBalance) (rsp : GetHostResponse)
    (currentTime time : Int64) :
    healthyStep? cfg lb (.call rsp currentTime time) = (lb.pick? cfg).map fun k =>
      match k with
      | .idle p | .overload p => (lb.turned k).report cfg currentTime time
          (lb.hosts p).ip.toInt32 (lb.hosts p).port retSucc.value
      | .refused => lb.turned k := by
  rw [healthyStep?, choiceOneHost?_eq_pick]
  cases lb.pick? cfg with
  | none => rfl
  | some k => cases k <;> rfl

variable [RateArith R] {cfg : Config R} {lb lb' : LoadBalance}

theorem phase_report (currentTime time : Int64) (ip port retcode : Int32) :
    (lb.report cfg currentTime time ip port retcode).phase = lb.phase := by
  have hstep : lbStep? cfg lb (.report currentTime time ip port retcode) =
    some (lb.report cfg currentTime time ip port retcode) := rfl
  rw [phase, accessCnt_of_step rfl hstep]

/-- What a call does to the load and the counter: with an overloaded host in the module it takes
from the load at the limit of the counter and counts below it. -/
theorem Steady.call (hcfg : cfg.Forgiving) (h : Steady cfg lb) {rsp : GetHostResponse}
    {currentTime time : Int64}
    (hstep : healthyStep? cfg lb (.call rsp currentTime time) = some lb') :
    Steady cfg lb' ∧ lb'.load cfg ≤ lb.load cfg ∧ ∃ k, lb.pick? cfg = some k ∧
      lb'.phase = (lb.turned k).phase ∧
      ∀ p, k = .overload p → lb'.load cfg < lb.load cfg := by
  rw [healthyStep?_call] at hstep
  obtain ⟨k, hk, rfl⟩ := Option.map_eq_some_iff.mp hstep
  have hturned := h.turned hk
  have hload := load_turned cfg lb k
  cases k with
  | refused => exact ⟨hturned, hload.le, _, hk, rfl, by simp⟩
  | idle p =>
    obtain ⟨hs, hle, -⟩ := hturned.report hcfg currentTime time (lb.hosts p).ip.toInt32
      (lb.hosts p).port
    rw [hload] at hle
    exact ⟨hs, hle, _, hk, phase_report .., by simp⟩
  | overload p =>
    obtain ⟨hs, hle, hlt⟩ := hturned.report hcfg currentTime time (lb.hosts p).ip.toInt32
      (lb.hosts p).port
    rw [hload] at hle hlt
    refine ⟨hs, hle, _, hk, phase_report .., ?_⟩
    intro q hq
    cases hq
    have hhead := (Answered.of_pick hk { }).overload p rfl
    obtain ⟨hheld, hover⟩ := h.overloaded (List.mem_of_head? hhead)
    exact hlt p (h.found hheld) hover

/-- A call in a module with an overloaded host uses up one of the pending calls. -/
theorem Steady.pending_call (hcfg : cfg.Forgiving) (h : Steady cfg lb) {rsp : GetHostResponse}
    {currentTime time : Int64}
    (hstep : healthyStep? cfg lb (.call rsp currentTime time) = some lb') :
    lb'.pending cfg + (!lb.overloadList.isEmpty).toNat ≤ lb.pending cfg := by
  obtain ⟨-, hle, k, hk, hphase, hprobe⟩ := h.call hcfg hstep
  have hmul : round cfg * lb'.load cfg ≤ round cfg * lb.load cfg := Nat.mul_le_mul_left _ hle
  by_cases hover : lb.overloadList = []
  · have hnone : (!lb.overloadList.isEmpty) = false := by simp [hover]
    rw [hnone, Bool.toNat_false, Nat.add_zero]
    unfold pending
    cases k with
    | idle p =>
      have hsame : (lb.turned (.idle p)).phase = lb.phase := by
        simp [phase, LoadBalance.turned, hover]
      omega
    | overload p =>
      have hhead := (Answered.of_pick hk { }).overload p rfl
      simp [hover] at hhead
    | refused =>
      -- without hosts there is no load
      have hidle := (Answered.of_pick hk { }).refused rfl
      have hperm := h.inv.lists_perm
      rw [hidle, hover, List.append_nil] at hperm
      have hzero : lb.load cfg = 0 := by
        rw [load, hperm.symm.eq_nil]
        rfl
      rw [hzero, Nat.le_zero] at hle
      rw [hle, Nat.mul_zero, Nat.zero_sub]
      exact Nat.zero_le _
  · obtain ⟨-, hnext, hiff⟩ := turned_phase h.range hover hk
    have hpos := h.pending_pos hover
    have hlt := h.range.phase_lt
    have hsome : (!lb.overloadList.isEmpty) = true := by simpa using hover
    rw [hsome, Bool.toNat_true]
    rw [hnext] at hphase
    unfold pending at hpos ⊢
    by_cases hlast : lb.phase = round cfg - 1
    · -- the probe
      obtain ⟨p, rfl⟩ := hiff.mpr hlast
      have hless : round cfg * (lb'.load cfg + 1) ≤ round cfg * lb.load cfg :=
        Nat.mul_le_mul_left _ (hprobe p rfl)
      rw [Nat.mul_add, Nat.mul_one] at hless
      omega
    · rw [Nat.mod_eq_of_lt (by omega)] at hphase
      omega

/-- No operation adds to the pending calls, and each one that meets an overloaded host is taken
from them. -/
theorem Steady.step (hcfg : cfg.Forgiving) (h : Steady cfg lb) {op : HealthyOp}
    (hop : op.Findable) (hstep : healthyStep? cfg lb op = some lb') :
    Steady cfg lb' ∧
      lb'.pending cfg + (HealthyOp.meetsOverload (lb, op)).toNat ≤ lb.pending cfg := by
  cases op with
  | call rsp currentTime time => exact ⟨(h.call hcfg hstep).1, h.pending_call hcfg hstep⟩
  | report currentTime time ip port =>
    cases hstep
    obtain ⟨hs, hle, -⟩ := h.report hcfg currentTime time ip port
    refine ⟨hs, ?_⟩
    rw [pending, phase_report]
    exact Nat.sub_le_sub_right (Nat.mul_le_mul_left _ hle) _
  | update mem currentTime rsp =>
    obtain ⟨hs, hle⟩ := h.update hop hstep
    refine ⟨hs, ?_⟩
    rw [pending, phase, update?_accessCnt hstep]
    exact Nat.sub_le_sub_right (Nat.mul_le_mul_left _ hle) _

end LoadBalance

end Lrlb.Agent
