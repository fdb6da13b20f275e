import Mathlib.Data.Bool.Count
import Lrlb.Agent.Counters

/-! The first reports about a new host: what `init_succ_cnt` protects it from, and what an
`idle_ts` that the constructor leaves unwritten lets through. -/
namespace Lrlb.Agent
open Lib
open Proto.LrlbRetCode (retSucc retOverload)

/-- The outcomes of all reports that were counted, oldest first. -/
def outcomes (log : List HostEvent) : List Bool :=
  log.filterMap fun
    | .counted retcode => some (decide (retcode = retSucc.value))
    | .setIdle | .setOverload => none

theorem outcomes_append (log log' : List HostEvent) :
    outcomes (log ++ log') = outcomes log ++ outcomes log' := List.filterMap_append ..

def NeverReset (log : List HostEvent) : Prop := .setIdle ∉ log ∧ .setOverload ∉ log

instance (log : List HostEvent) : Decidable (NeverReset log) := inferInstanceAs (Decidable (_ ∧ _))

theorem NeverReset.of_append {log log' : List HostEvent} (h : NeverReset (log ++ log')) :
    NeverReset log ∧ NeverReset log' := by
  simp only [NeverReset, List.mem_append, not_or] at h ⊢
  exact ⟨⟨h.1.1, h.2.1⟩, ⟨h.1.2, h.2.2⟩⟩

/-- The counts of a new host and its initial successes stay below the size of a counter. -/
def Fits (cfg : Config ℚ) (outcomes : List Bool) : Prop :=
  0 ≤ cfg.initSuccCnt.toInt ∧ cfg.initSuccCnt.toInt + outcomes.length < 2 ^ 32

instance (cfg : Config ℚ) (outcomes : List Bool) : Decidable (Fits cfg outcomes) :=
  inferInstanceAs (Decidable (_ ∧ _))

theorem Fits.of_append {cfg : Config ℚ} {o o' : List Bool} (h : Fits cfg (o ++ o')) :
    Fits cfg o := by
  obtain ⟨hinit, hlen⟩ := h
  rw [List.length_append] at hlen
  exact ⟨hinit, by omega⟩

/-- The report that ends these outcomes failed and made the failures too many, or too many in a
row. -/
def Deserved (cfg : Config ℚ) (outcomes : List Bool) : Prop :=
  outcomes.getLast? = some false ∧
    (cfg.errRate < outcomes.count false /
        (cfg.initSuccCnt.toInt + outcomes.count true + outcomes.count false) ∨
      cfg.continErrLimit.toInt ≤ trailing false outcomes)

theorem trailing_le_length (b : Bool) (o : List Bool) : trailing b o ≤ o.length := by
  unfold trailing
  exact (List.takeWhile_prefix _).length_le.trans_eq List.length_reverse

namespace HostInfo

variable {cfg : Config ℚ} {h : HostInfo} {o : List Bool} {retcode : Int32}

theorem Counts.countFits (hc : h.Counts cfg o) (hidle : h.overload = false) {b : Bool}
    (hfits : Fits cfg (o ++ [b])) : h.CountFits retcode := by
  obtain ⟨hinit, hlen⟩ := hfits
  rw [List.length_append, List.length_singleton] at hlen
  obtain ⟨hvs, hve⟩ := hc.idle hidle
  have hs := hc.rsucc
  have he := hc.rerr
  have hcs := hc.continSucc
  have hce := hc.continErr
  have := o.count_le_length (a := true)
  have := o.count_le_length (a := false)
  have := trailing_le_length true o
  have := trailing_le_length false o
  unfold CountFits
  split_ifs <;> exact ⟨by omega, by omega, by omega⟩

/-- A ratio that was found too large is, if the sum below it has not wrapped. -/
theorem lt_div_of_exceeds {n a b : UInt32} {r : ℚ} (hfits : a.toNat + b.toNat < 2 ^ 32)
    (hpos : 0 < a.toNat + b.toNat) (h : RateArith.exceeds n (a + b) r = true) :
    r < n.toNat / (a.toNat + b.toNat) := by
  have hsum : (a + b).toNat = a.toNat + b.toNat := by
    rw [UInt32.toNat_add]
    exact Nat.mod_eq_of_lt hfits
  change (if a + b = 0 then decide (n ≠ 0) else decide (r * (a + b).toNat < n.toNat)) = true at h
  split_ifs at h with hzero
  · rw [hzero, UInt32.toNat_zero] at hsum
    omega
  · rw [hsum] at h
    have hden : (0 : ℚ) < a.toNat + b.toNat := by exact_mod_cast hpos
    rw [lt_div_iff₀ hden]
    exact_mod_cast of_decide_eq_true h

/-- What the code compares is what the outcomes since the insertion call for. -/
theorem Counts.deserved (hc : h.Counts cfg (o ++ [false])) (hidle : h.overload = false)
    (hfits : Fits cfg (o ++ [false])) (hover : LoadBalance.overloadCondition cfg h = true) :
    Deserved cfg (o ++ [false]) := by
  refine ⟨List.getLast?_concat, ?_⟩
  obtain ⟨hvs, hve⟩ := hc.idle hidle
  have hce := hc.continErr
  have hpos : 0 < (o ++ [false]).count false := by simp
  obtain ⟨hinit, hlen⟩ := hfits
  generalize o ++ [false] = o' at *
  have hcount := List.count_true_add_count_false o'
  rcases Bool.or_eq_true_iff.mp hover with hrate | hstreak
  · left
    have hlt := lt_div_of_exceeds (by omega) (by omega) hrate
    have hvs' : (h.vsucc.toNat : ℚ) = cfg.initSuccCnt.toInt + o'.count true := by exact_mod_cast hvs
    rwa [hvs', hve] at hlt
  · right
    have hle := UInt32.le_iff_toNat_le.mp (of_decide_eq_true hstreak)
    by_cases hl : 0 ≤ cfg.continErrLimit.toInt
    · rw [toNat_toUInt32 hl] at hle
      omega
    · omega

/-- Each report adds one outcome, whatever it resets. -/
theorem outcomes_reportEvents (cfg : Config ℚ) (currentTime : Int64) (retcode : Int32)
    (h : HostInfo) :
    outcomes (h.reportEvents cfg currentTime retcode) = [decide (retcode = retSucc.value)] := by
  rcases reportEvents_cases cfg currentTime retcode h with ⟨he, -⟩ | he | he <;> rw [he] <;> rfl

/-- Before its window is over, an idle host is overloaded only by a failing report that its
counters call for. -/
theorem overloadCondition_of_reported {currentTime time : Int64} (hidle : h.overload = false)
    (hearly : ¬ cfg.idleTimeout.toInt64 ≤ currentTime - h.idleTs)
    (hover : (h.reported cfg currentTime time retcode).overload = true) :
    retcode ≠ retSucc.value ∧
      LoadBalance.overloadCondition cfg (LoadBalance.countReport retcode h) = true := by
  have hwindow : ((LoadBalance.countReport retcode h).windowed cfg currentTime time).overload =
      false := by
    rw [windowed, LoadBalance.countReport_overload, if_pos hidle, LoadBalance.countReport_idleTs,
      if_neg hearly, LoadBalance.countReport_overload, hidle]
  unfold reported at hover
  dsimp only at hover
  split_ifs at hover with hfail hcond hsucc hback
  · exact ⟨hfail.2, hcond⟩
  all_goals simp_all

/-- Once its window is over, a failing report overloads an idle host if enough of the calls of the
window failed. -/
theorem reported_overload_of_window {currentTime : Int64} (hidle : h.overload = false)
    (hlate : cfg.idleTimeout.toInt64 ≤ currentTime - h.idleTs) (hret : retcode ≠ retSucc.value)
    (hwindow : (LoadBalance.countReport retcode h).checkWindow cfg = true) (time : Int64) :
    (h.reported cfg currentTime time retcode).overload = true := by
  unfold reported windowed
  simp only [LoadBalance.countReport_overload, LoadBalance.countReport_idleTs, hidle, hlate, hret,
    hwindow, if_true, ne_eq, not_false_eq_true, and_self]
  split_ifs <;> rfl

end HostInfo

namespace LoggedLb

variable {cfg : Config ℚ} {s t : LoggedLb} {p : Ptr}

/-- A host that `update` inserted: until its first reset its record is that of its reports, and
its `idle_ts` what the memory held. -/
structure OnProbation (cfg : Config ℚ) (idleTs : Int64) (s : LoggedLb) (p : Ptr) : Prop where
  inv : s.lb.Inv
  held : s.lb.Holds p
  idle : NeverReset (s.log p) → (s.lb.hosts p).overload = false
  idleTs : NeverReset (s.log p) → (s.lb.hosts p).idleTs = idleTs
  counts : NeverReset (s.log p) → Fits cfg (outcomes (s.log p)) →
    (s.lb.hosts p).Counts cfg (outcomes (s.log p))

theorem OnProbation.inserted (hinv : s.lb.Inv) {mem : Memory} {t₀ : Int64}
    {rsp : List Proto.HostInfo} (hupdate : s.step? cfg (.update mem t₀ rsp) = some t)
    (hnew : p ∉ s.lb.pointers) (hp : p ∈ t.lb.pointers) :
    t.log p = [] ∧ OnProbation cfg (mem.raw p).idleTs t p := by
  obtain ⟨lb, hlb, rfl⟩ := Option.map_eq_some_iff.mp hupdate
  have hlog : s.record cfg (.update mem t₀ rsp) p = [] := if_neg hnew
  have hheld := (LoadBalance.mem_pointers lb p).mp hp
  rcases LoadBalance.update?_record hinv hlb hheld with ⟨hold, -⟩ | ⟨-, x, -, he⟩
  · exact absurd ((LoadBalance.mem_pointers s.lb p).mpr hold) hnew
  · refine ⟨hlog, hinv.update mem t₀ rsp hlb, hheld, fun _ => ?_, fun _ => ?_, fun _ hfits => ?_⟩
    · rw [he]; rfl
    · rw [he]; rfl
    · simp only [hlog, he]
      exact .new hfits.1 ..

theorem OnProbation.step {idleTs : Int64} (h : OnProbation cfg idleTs s p) {op : LbOp}
    (hop : ∀ mem time rsp, op ≠ .update mem time rsp) (hstep : s.step? cfg op = some t) :
    OnProbation cfg idleTs t p := by
  have hinv : t.lb.Inv := by
    obtain ⟨lb, hlb, rfl⟩ := Option.map_eq_some_iff.mp hstep
    exact h.inv.step op hlb
  obtain ⟨hmap, hcases⟩ := step?_cases p hop hstep
  have hheld : t.lb.Holds p := by
    unfold LoadBalance.Holds
    rw [hmap]
    exact h.held
  rcases hcases with ⟨hhost, hlog⟩ | ⟨currentTime, time, ip, port, retcode, -, -, hhost, hlog⟩
  · refine ⟨hinv, hheld, ?_, ?_, ?_⟩ <;> rw [hhost, hlog]
    · exact h.idle
    · exact h.idleTs
    · exact h.counts
  · -- a report that resets nothing only counts
    have hcounted : NeverReset (t.log p) → NeverReset (s.log p) ∧
        outcomes (t.log p) = outcomes (s.log p) ++ [decide (retcode = retSucc.value)] ∧
        t.lb.hosts p = LoadBalance.countReport retcode (s.lb.hosts p) := by
      intro hnever
      rw [hlog] at hnever ⊢
      obtain ⟨hlog', hevents⟩ := hnever.of_append
      refine ⟨hlog', by rw [outcomes_append, HostInfo.outcomes_reportEvents], ?_⟩
      rw [hhost, HostInfo.reported_eq_events]
      rcases HostInfo.reportEvents_cases cfg currentTime retcode (s.lb.hosts p) with
        ⟨he, -⟩ | he | he <;> rw [he] at hevents ⊢
      · rfl
      · exact absurd hevents (by simp [NeverReset])
      · exact absurd hevents (by simp [NeverReset])
    refine ⟨hinv, hheld, fun hn => ?_, fun hn => ?_, fun hn hfits => ?_⟩ <;>
      obtain ⟨hnever, hout, hrecord⟩ := hcounted hn <;> rw [hrecord]
    · rw [LoadBalance.countReport_overload, h.idle hnever]
    · rw [LoadBalance.countReport_idleTs, h.idleTs hnever]
    · rw [hout] at hfits ⊢
      have hc := h.counts hnever hfits.of_append
      exact hc.counted (hc.countFits (h.idle hnever) hfits)

/-- The times of the first window of a host that was inserted at `t₀`. -/
def Early (cfg : Config ℚ) (t₀ t : Int64) : Prop :=
  t₀.toInt ≤ t.toInt ∧ t.toInt < t₀.toInt + cfg.idleTimeout.toInt

instance (cfg : Config ℚ) (t₀ t : Int64) : Decidable (Early cfg t₀ t) :=
  inferInstanceAs (Decidable (_ ∧ _))

/-- Reports of the first window, about any host, and operations that change no record. -/
def EarlyOp (cfg : Config ℚ) (t₀ : Int64) : LbOp → Prop
  | .report currentTime _ _ _ _ => Early cfg t₀ currentTime
  | .update _ _ _ => False
  | .choiceOneHost _ | .pull | .commit _ | .getAllHosts => True

instance (cfg : Config ℚ) (t₀ : Int64) (op : LbOp) : Decidable (EarlyOp cfg t₀ op) :=
  match op with
  | .report currentTime _ _ _ _ => inferInstanceAs (Decidable (Early cfg t₀ currentTime))
  | .update _ _ _ => .isFalse id
  | .choiceOneHost _ | .pull | .commit _ | .getAllHosts => .isTrue trivial

/-- An `idle_ts` that lets no window end before `t₀ + idle_timeout`. -/
def Unexpired (cfg : Config ℚ) (t₀ idleTs : Int64) : Prop :=
  ∀ t, Early cfg t₀ t → ¬ cfg.idleTimeout.toInt64 ≤ t - idleTs

/-- The host leaves the idle list only at a report that gives reason to. -/
def LeavesDeservedly (cfg : Config ℚ) (s : LoggedLb) (p : Ptr) (ops : List LbOp) : Prop :=
  ∀ x ∈ attempted (step? cfg) s ops, ∀ t, step? cfg x.1 x.2 = some t →
    p ∈ x.1.lb.idleList → p ∉ t.lb.idleList → Deserved cfg (outcomes (t.log p))

/-- A report about the idle host comes before its first reset, so that its counters count since the
insertion, and wraps none of them. -/
def FirstStay (cfg : Config ℚ) (p : Ptr) (s : LoggedLb) : LbOp → Prop
  | .report _ _ ip port retcode =>
    s.lb.hostMap.lookup (LoadBalance.reportKey ip port) = some p →
      (s.lb.hosts p).overload = false →
        NeverReset (s.log p) ∧ Fits cfg (outcomes (s.log p ++ [.counted retcode]))
  | _ => True

instance (cfg : Config ℚ) (p : Ptr) (s : LoggedLb) (op : LbOp) :
    Decidable (FirstStay cfg p s op) :=
  match op with
  | .report .. => inferInstanceAs (Decidable (_ → _ → _ ∧ _))
  | .update .. | .choiceOneHost _ | .pull | .commit _ | .getAllHosts => .isTrue trivial

theorem OnProbation.leaves {idleTs : Int64} (h : OnProbation cfg idleTs s p) {t₀ : Int64}
    (hidleTs : Unexpired cfg t₀ idleTs) {op : LbOp} (hearly : EarlyOp cfg t₀ op)
    (hfirst : FirstStay cfg p s op) (hstep : s.step? cfg op = some t)
    (hin : p ∈ s.lb.idleList) (hout : p ∉ t.lb.idleList) : Deserved cfg (outcomes (t.log p)) := by
  have hop : ∀ mem time rsp, op ≠ .update mem time rsp := by
    rintro mem time rsp rfl
    exact hearly
  have h' := h.step hop hstep
  have hover : (t.lb.hosts p).overload = true := by
    by_contra hidle
    exact hout (h'.inv.mem_idle h'.held (by simpa using hidle))
  have hidle : (s.lb.hosts p).overload = false :=
    (h.inv.listsPartition.idle_iff p ((LoadBalance.mem_pointers s.lb p).mpr h.held)).mpr hin
  obtain ⟨-, ⟨hhost, -⟩ | ⟨currentTime, time, ip, port, retcode, rfl, hp, hhost, hlog⟩⟩ :=
    step?_cases p hop hstep
  · rw [hhost, hidle] at hover
    cases hover
  · obtain ⟨hnever, hfits⟩ := hfirst hp hidle
    have hunexpired := hidleTs currentTime hearly
    rw [← h.idleTs hnever] at hunexpired
    rw [hhost] at hover
    obtain ⟨hret, hcond⟩ := HostInfo.overloadCondition_of_reported hidle hunexpired hover
    rw [outcomes_append, show outcomes [.counted retcode] = [false] by simp [outcomes, hret]] at hfits
    have hc := h.counts hnever hfits.of_append
    have hfit : (s.lb.hosts p).CountFits retcode := hc.countFits hidle hfits
    have hcounted := hc.counted hfit
    rw [decide_eq_false hret] at hcounted
    rw [hlog, outcomes_append, HostInfo.outcomes_reportEvents, decide_eq_false hret]
    exact hcounted.deserved (by simpa using hidle) hfits hcond

/-- A configuration that forgives one failure of a new host, but not a window of failures. -/
structure Protective (cfg : Config ℚ) : Prop where
  initSuccCnt : 0 ≤ cfg.initSuccCnt.toInt
  errRate : 1 / (cfg.initSuccCnt.toInt + 1) ≤ cfg.errRate
  continErrLimit : 1 < cfg.continErrLimit.toInt
  windowErrRate : cfg.windowErrRate ≤ 1

theorem Protective.not_deserved (hcfg : Protective cfg) : ¬ Deserved cfg [false] := by
  rintro ⟨-, hrate | hstreak⟩
  · have hle := hcfg.errRate
    simp at hrate hle
    exact absurd hrate (not_lt.mpr hle)
  · exact absurd hstreak (not_le.mpr hcfg.continErrLimit)

/-- One failing report at a time that `idle_ts` puts after the window takes a new host off the
idle list. -/
theorem OnProbation.expired {idleTs : Int64} (h : OnProbation cfg idleTs s p)
    (hlog : s.log p = []) (hcfg : Protective cfg) {currentTime : Int64}
    (hlate : cfg.idleTimeout.toInt64 ≤ currentTime - idleTs) :
    ∃ ip port, ¬ LeavesDeservedly cfg s p
      [.report currentTime currentTime ip port retOverload.value] := by
  have hret : retOverload.value ≠ retSucc.value := by decide
  have hnever : NeverReset (s.log p) := by rw [hlog]; decide
  have hidle := h.idle hnever
  have hfits : Fits cfg (outcomes (s.log p)) := by
    have := cfg.initSuccCnt.toInt_lt
    rw [hlog]
    exact ⟨hcfg.initSuccCnt, by simp [outcomes]; omega⟩
  have hc := h.counts hnever hfits
  have hrsucc : (s.lb.hosts p).rsucc = 0 :=
    UInt32.toNat_inj.mp (by rw [hc.rsucc, hlog]; rfl)
  have hrerr : (s.lb.hosts p).rerr = 0 := UInt32.toNat_inj.mp (by rw [hc.rerr, hlog]; rfl)
  have hwindow : (LoadBalance.countReport retOverload.value (s.lb.hosts p)).checkWindow cfg =
      true := by
    have hrate : RateArith.reaches 1 1 cfg.windowErrRate = true :=
      decide_eq_true (by simpa using hcfg.windowErrRate)
    simp [HostInfo.checkWindow, LoadBalance.countReport, hret, hrsucc, hrerr, hrate]
  obtain ⟨key, hkey⟩ := h.held
  obtain ⟨ip, port, rfl⟩ := exists_packInts_eq key
  refine ⟨ip, port, fun hleaves => hcfg.not_deserved ?_⟩
  set op := LbOp.report currentTime currentTime ip port retOverload.value with hop
  have hstep : s.step? cfg op =
      some ⟨s.lb.report cfg currentTime currentTime ip port retOverload.value, s.record cfg op⟩ := rfl
  have h' := h.step (by simp [hop]) hstep
  obtain ⟨hhost, hlog'⟩ : _ ∧ s.record cfg op p = _ := report_found hkey
  have hover : ((s.lb.report cfg currentTime currentTime ip port retOverload.value).hosts
      p).overload = true := by
    rw [hhost]
    refine HostInfo.reported_overload_of_window hidle ?_ hret hwindow currentTime
    rwa [h.idleTs hnever]
  have hdeserved := hleaves (s, op) List.mem_cons_self _ hstep (h.inv.mem_idle h.held hidle)
    fun hin => h'.inv.split.disjoint p hin (h'.inv.mem_overload h'.held hover)
  simp only [hlog', hlog, outcomes_append, HostInfo.outcomes_reportEvents] at hdeserved
  exact hdeserved

/-- What `init_succ_cnt` is for: no early operation takes the host off the idle list without a
reason, up to its first reset. -/
def Protected (cfg : Config ℚ) (t₀ : Int64) (s : LoggedLb) (p : Ptr) : Prop :=
  ∀ ops, (∀ op ∈ ops, EarlyOp cfg t₀ op) →
    (∀ x ∈ attempted (step? cfg) s ops, FirstStay cfg p x.1 x.2) → LeavesDeservedly cfg s p ops

theorem OnProbation.protected {idleTs t₀ : Int64} (h : OnProbation cfg idleTs s p)
    (hidleTs : Unexpired cfg t₀ idleTs) : Protected cfg t₀ s p := by
  intro ops hearly hfirst x hx t hstep hin hout
  have hop : ∀ x ∈ attempted (step? cfg) s ops, EarlyOp cfg t₀ x.2 := fun x hx =>
    hearly x.2 (mem_of_mem_attempted hx)
  have hall : ∀ t ∈ visited (step? cfg) s ops, OnProbation cfg idleTs t p := by
    refine forall_visited (G := fun _ op => EarlyOp cfg t₀ op) ?_ s ops h hop
    intro s op t h hop hstep
    refine h.step ?_ hstep
    rintro mem time rsp rfl
    exact hop
  exact (hall x.1 (mem_visited_of_mem_attempted hx)).leaves hidleTs (hop x hx) (hfirst x hx) hstep
    hin hout

/-- A new host is protected if the bytes its `idle_ts` happens to hold do not put the end of the
window before `t₀ + idle_timeout`. Where one failure is to be forgiven, it is protected only then. -/
theorem new_host_protected {raw : RawLoadBalance} {modid cmdid : Int32} {s₀ s₁ : LoggedLb}
    (hs₀ : Reachable (step? cfg) (create raw modid cmdid) s₀) {mem : Memory} {t₀ : Int64}
    {rsp : List Proto.HostInfo} (hupdate : s₀.step? cfg (.update mem t₀ rsp) = some s₁)
    (hnew : p ∉ s₀.lb.pointers) (hp : p ∈ s₁.lb.pointers) :
    (Unexpired cfg t₀ (mem.raw p).idleTs → Protected cfg t₀ s₁ p) ∧
      (Protective cfg → Protected cfg t₀ s₁ p → Unexpired cfg t₀ (mem.raw p).idleTs) := by
  obtain ⟨hlog, h⟩ := OnProbation.inserted (inv_of_reachable hs₀) hupdate hnew hp
  refine ⟨h.protected, fun hcfg hprotected t ht hlate => ?_⟩
  obtain ⟨ip, port, hnot⟩ := h.expired hlog hcfg hlate
  refine hnot (hprotected _ ?_ ?_)
  · simpa [EarlyOp] using ht
  · rw [forall_attempted_cons]
    refine ⟨fun _ _ => ⟨by rw [hlog]; decide, hcfg.initSuccCnt, ?_⟩, by simp [attempted]⟩
    have := cfg.initSuccCnt.toInt_lt
    rw [hlog]
    simp [outcomes]
    omega

/-- An `idle_ts` that the constructor would set to the time of the insertion. -/
theorem unexpired_self (cfg : Config ℚ) (t₀ : Int64) : Unexpired cfg t₀ t₀ := by
  rintro t ⟨hle, hlt⟩ hlate
  have := cfg.idleTimeout.toInt_lt
  have hsub : (t - t₀).toInt = t.toInt - t₀.toInt := by
    rw [Int64.toInt_sub]
    exact Int.bmod_eq_of_le (by omega) (by omega)
  rw [Int64.le_iff_toInt_le, Int32.toInt_toInt64, hsub] at hlate
  omega

/-- A module with one host, inserted at time 100. -/
def oneHost? (mem : Memory) : Option LoggedLb :=
  (create ⟨0, 0, .new⟩ 1 1).step? defaultConfig (.update mem 100 [⟨7, 0⟩])

def failures (n : ℕ) : List LbOp := List.replicate n (.report 101 101 7 0 1)

/-- The tenth failure in a row is a reason. -/
theorem new_host_protected_ten_failures :
    ∃ s₁, oneHost? { bumpMemory with raw := fun _ => ⟨100, 0⟩ } = some s₁ ∧
      LeavesDeservedly defaultConfig s₁ 1 (failures 10) ∧
      (run? (step? defaultConfig) s₁ (failures 10)).map (fun t => (s₁.lb.idleList, t.lb.idleList)) =
        some ([1], []) := by
  obtain ⟨s₁, hs₁⟩ : ∃ s₁, oneHost? { bumpMemory with raw := fun _ => ⟨100, 0⟩ } = some s₁ :=
    ⟨_, rfl⟩
  have hfacts : (oneHost? { bumpMemory with raw := fun _ => ⟨100, 0⟩ }).map (fun s =>
      (decide (1 ∈ s.lb.pointers),
        decide (∀ x ∈ attempted (step? defaultConfig) s (failures 10),
          FirstStay defaultConfig 1 x.1 x.2),
        (run? (step? defaultConfig) s (failures 10)).map fun t => (s.lb.idleList, t.lb.idleList))) =
      some (true, true, some ([1], [])) := by
    decide +kernel
  rw [hs₁] at hfacts
  simp only [Option.map_some, Option.some.injEq, Prod.mk.injEq, decide_eq_true_eq] at hfacts
  obtain ⟨hp, hfirst, hrun⟩ := hfacts
  refine ⟨s₁, hs₁, ?_, hrun⟩
  exact (new_host_protected (.refl _) hs₁ (by decide) hp).1 (unexpired_self defaultConfig 100)
    (failures 10) (by decide) hfirst

theorem defaultConfig_protective : Protective defaultConfig := by
  constructor <;> decide +kernel

/-- One failure out of one call, a second after the insertion into cleared memory. -/
theorem first_failure_overloads :
    ∃ s₁, oneHost? bumpMemory = some s₁ ∧ (∀ op ∈ failures 1, EarlyOp defaultConfig 100 op) ∧
      ¬ LeavesDeservedly defaultConfig s₁ 1 (failures 1) := by
  obtain ⟨s₁, hs₁⟩ : ∃ s₁, oneHost? bumpMemory = some s₁ := ⟨_, rfl⟩
  have hfacts : ((oneHost? bumpMemory).bind fun s =>
      (s.step? defaultConfig (.report 101 101 7 0 1)).map fun t =>
        (decide (1 ∈ s.lb.idleList), decide (1 ∉ t.lb.idleList), outcomes (t.log 1))) =
      some (true, true, [false]) := by
    decide +kernel
  rw [hs₁, Option.bind_some] at hfacts
  obtain ⟨t, hstep, he⟩ := Option.map_eq_some_iff.mp hfacts
  simp only [Prod.mk.injEq, decide_eq_true_eq] at he
  obtain ⟨hin, hout, houtcomes⟩ := he
  refine ⟨s₁, hs₁, by decide, fun hleaves => ?_⟩
  have hdeserved := hleaves _ List.mem_cons_self t hstep hin hout
  rw [houtcomes] at hdeserved
  exact defaultConfig_protective.not_deserved hdeserved

end LoggedLb

end Lrlb.Agent
