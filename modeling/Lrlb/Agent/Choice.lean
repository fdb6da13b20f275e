import Lrlb.Lib.Rotation
import Lrlb.Agent.Update

/-! Which host `choice_one_host` takes, over whole runs: one call in `probe_num + 1` probes an
overloaded host, and the hosts of a list take turns. -/
namespace Lrlb.Agent
open Lib
open Proto (GetHostResponse)
open Proto.LrlbRetCode (retSucc retOverload)

/-- What a call of `choice_one_host` settles on. -/
inductive Pick where
  | idle (p : Ptr)
  | overload (p : Ptr)
  | refused
deriving DecidableEq, Repr

def Pick.fromIdle? : Pick → Option Ptr
  | .idle p => some p
  | .overload _ | .refused => none

def Pick.fromOverload? : Pick → Option Ptr
  | .overload p => some p
  | .idle _ | .refused => none

namespace LoadBalance

variable {R : Type}

/-- The choice by the tests that the code makes. `none` is `front()` of an empty list. -/
def pick? (cfg : Config R) (lb : LoadBalance) : Option Pick :=
  if lb.idleList.isEmpty then
    if cfg.probeNum ≤ lb.accessCnt then lb.overloadList.head?.map .overload else some .refused
  else if lb.overloadList.isEmpty then lb.idleList.head?.map .idle
  else if cfg.probeNum ≤ lb.accessCnt then lb.overloadList.head?.map .overload
  else lb.idleList.head?.map .idle

/-- The response and the return value of a choice. -/
def answer (lb : LoadBalance) (rsp : GetHostResponse) : Pick → GetHostResponse × Int32
  | .idle p | .overload p =>
    ({ rsp with host := some ⟨(lb.hosts p).ip.toInt32, (lb.hosts p).port⟩ }, retSucc.value)
  | .refused => (rsp, retOverload.value)

/-- The module after a choice: the list it took from has turned. -/
def turned (lb : LoadBalance) : Pick → LoadBalance
  | .idle _ => { lb with
      accessCnt := if lb.overloadList.isEmpty then lb.accessCnt else lb.accessCnt + 1
      idleList := lb.idleList.rotate 1 }
  | .overload _ => { lb with accessCnt := 0, overloadList := lb.overloadList.rotate 1 }
  | .refused => { lb with accessCnt := lb.accessCnt + 1 }

theorem choiceOneHost?_eq_pick (cfg : Config R) (lb : LoadBalance) (rsp : GetHostResponse) :
    lb.choiceOneHost? cfg rsp = (lb.pick? cfg).map fun k => (lb.turned k, lb.answer rsp k) := by
  unfold choiceOneHost? pick?
  cases hi : lb.idleList with
  | nil =>
    cases ho : lb.overloadList with
    | nil => by_cases hc : cfg.probeNum ≤ lb.accessCnt <;>
        simp [hc, hi, ho, getHostFromList?, turned, answer]
    | cons q l => by_cases hc : cfg.probeNum ≤ lb.accessCnt <;>
        simp [hc, hi, ho, getHostFromList?, turned, answer]
  | cons p li =>
    cases ho : lb.overloadList with
    | nil => simp [hi, ho, getHostFromList?, turned, answer]
    | cons q lo => by_cases hc : cfg.probeNum ≤ lb.accessCnt <;>
        simp [hc, hi, ho, getHostFromList?, turned, answer]

/-- The call whose answer is `k`: the response, the return value and the list that has turned. -/
structure Answered (cfg : Config R) (lb : LoadBalance) (rsp : GetHostResponse) (k : Pick) : Prop where
  pick : lb.pick? cfg = some k
  result : lb.choiceOneHost? cfg rsp = some (lb.turned k, lb.answer rsp k)
  idle : ∀ p, k = .idle p → lb.idleList.head? = some p
  overload : ∀ p, k = .overload p → lb.overloadList.head? = some p
  refused : k = .refused → lb.idleList = []

theorem Answered.of_pick {cfg : Config R} {lb : LoadBalance} {k : Pick} (h : lb.pick? cfg = some k)
    (rsp : GetHostResponse) : Answered cfg lb rsp k := by
  refine ⟨h, by rw [choiceOneHost?_eq_pick, h]; rfl, ?_, ?_, ?_⟩ <;> unfold pick? at h <;>
    cases hi : lb.idleList <;> cases ho : lb.overloadList <;>
    by_cases hc : cfg.probeNum ≤ lb.accessCnt <;> simp [hi, ho, hc] at h ⊢ <;> simp [← h]

/-- The probe counter is in its range. -/
structure InRange (cfg : Config R) (lb : LoadBalance) : Prop where
  nonneg : 0 ≤ lb.accessCnt.toInt
  le : lb.accessCnt.toInt ≤ cfg.probeNum.toInt

abbrev phase (lb : LoadBalance) : ℕ := lb.accessCnt.toInt.toNat

/-- How many calls it takes the counter to come round. -/
abbrev round (cfg : Config R) : ℕ := cfg.probeNum.toInt.toNat + 1

namespace InRange

variable {cfg : Config R} {lb lb' : LoadBalance} {k : Pick}

theorem phase_lt (h : InRange cfg lb) : lb.phase < round cfg := by
  have := h.nonneg; have := h.le
  simp only [phase, round]
  omega

theorem toInt_succ (h : InRange cfg lb) (hc : ¬ cfg.probeNum ≤ lb.accessCnt) :
    (lb.accessCnt + 1).toInt = lb.accessCnt.toInt + 1 := by
  rw [Int32.le_iff_toInt_le] at hc
  have := cfg.probeNum.toInt_lt; have := h.nonneg
  exact toInt_add_of_range (by simp; omega) (by simp; omega)

/-- A counter that is counted on is below its limit before. -/
theorem counted (h : InRange cfg lb) (hc : ¬ cfg.probeNum ≤ lb.accessCnt)
    (hcnt : lb'.accessCnt = lb.accessCnt + 1) :
    InRange cfg lb' ∧ lb'.phase = (lb.phase + 1) % round cfg ∧ lb.phase ≠ round cfg - 1 := by
  have hsucc := h.toInt_succ hc
  rw [Int32.le_iff_toInt_le] at hc
  have := h.nonneg
  have hphase : lb'.phase = lb.phase + 1 := by
    simp only [phase, hcnt]
    omega
  refine ⟨⟨by rw [hcnt]; omega, by rw [hcnt]; omega⟩, ?_, ?_⟩
  · rw [hphase, Nat.mod_eq_of_lt]
    simp only [phase, round]
    omega
  · simp only [phase, round]
    omega

/-- At its limit it starts again. -/
theorem restarted (h : InRange cfg lb) (hc : cfg.probeNum ≤ lb.accessCnt)
    (hcnt : lb'.accessCnt = 0) :
    InRange cfg lb' ∧ lb'.phase = (lb.phase + 1) % round cfg ∧ lb.phase = round cfg - 1 := by
  rw [Int32.le_iff_toInt_le] at hc
  have := h.nonneg; have := h.le
  have hlast : lb.phase + 1 = round cfg := by
    simp only [phase, round]
    omega
  refine ⟨⟨by rw [hcnt]; simp, by rw [hcnt]; simp; omega⟩, ?_, by omega⟩
  rw [hlast, Nat.mod_self]
  simp [phase, hcnt]

end InRange

variable {cfg : Config R} {lb lb' : LoadBalance} {k : Pick}

/-- Beside overloaded hosts every choice counts, and the one at the limit is the probe. -/
theorem turned_phase (h : InRange cfg lb) (hover : lb.overloadList ≠ [])
    (hk : lb.pick? cfg = some k) :
    InRange cfg (lb.turned k) ∧ (lb.turned k).phase = (lb.phase + 1) % round cfg ∧
      ((∃ p, k = .overload p) ↔ lb.phase = round cfg - 1) := by
  obtain ⟨q, l, ho⟩ := List.exists_cons_of_ne_nil hover
  by_cases hc : cfg.probeNum ≤ lb.accessCnt
  · have hpick : k = .overload q := by
      unfold pick? at hk
      cases hi : lb.idleList <;> simpa [hi, ho, hc, eq_comm] using hk
    subst hpick
    have hcnt : (lb.turned (.overload q)).accessCnt = 0 := rfl
    obtain ⟨hr, hphase, hlast⟩ := h.restarted hc hcnt
    exact ⟨hr, hphase, iff_of_true ⟨q, rfl⟩ hlast⟩
  · have hcnt : (lb.turned k).accessCnt = lb.accessCnt + 1 ∧ ¬ ∃ p, k = .overload p := by
      unfold pick? at hk
      cases hi : lb.idleList <;> simp [hi, ho, hc] at hk <;> simp [← hk, turned, ho]
    obtain ⟨hr, hphase, hlast⟩ := h.counted hc hcnt.1
    exact ⟨hr, hphase, iff_of_false hcnt.2 hlast⟩

/-- Without them the counter stands still, or runs up to its limit once the module is empty. -/
theorem InRange.turned (h : InRange cfg lb) (hk : lb.pick? cfg = some k) :
    InRange cfg (lb.turned k) := by
  by_cases hover : lb.overloadList = []
  · unfold pick? at hk
    cases hi : lb.idleList with
    | nil =>
      by_cases hc : cfg.probeNum ≤ lb.accessCnt
      · simp [hi, hover, hc] at hk
      · simp only [hi, List.isEmpty_nil, if_true, hc, if_false, Option.some_inj] at hk
        subst hk
        exact (h.counted hc rfl).1
    | cons p l =>
      simp only [hi, hover, List.isEmpty_cons, List.isEmpty_nil, Bool.false_eq_true, if_false, if_true,
        List.head?_cons, Option.map_some, Option.some_inj] at hk
      subst hk
      have hcnt : (lb.turned (.idle p)).accessCnt = lb.accessCnt := by
        simp [LoadBalance.turned, hover]
      exact ⟨hcnt ▸ h.nonneg, hcnt ▸ h.le⟩
  · exact (turned_phase h hover hk).1

theorem pick?_isSome (cfg : Config R) (hover : lb.overloadList ≠ []) : ∃ k, lb.pick? cfg = some k := by
  obtain ⟨q, l, ho⟩ := List.exists_cons_of_ne_nil hover
  unfold pick?
  cases hi : lb.idleList <;> by_cases hc : cfg.probeNum ≤ lb.accessCnt <;> simp [ho, hc]

/-- The lists and the picks of a choice, one turn at a time. -/
theorem turned_inTurn (hk : lb.pick? cfg = some k) {ks : List Pick}
    (hidle : InTurn (lb.turned k).idleList (ks.filterMap Pick.fromIdle?))
    (hover : InTurn (lb.turned k).overloadList (ks.filterMap Pick.fromOverload?)) :
    InTurn lb.idleList ((k :: ks).filterMap Pick.fromIdle?) ∧
      InTurn lb.overloadList ((k :: ks).filterMap Pick.fromOverload?) := by
  have ha := Answered.of_pick hk { }
  cases k with
  | idle p =>
    obtain ⟨l, hl⟩ := List.head?_eq_some_iff.mp (ha.idle p rfl)
    rw [turned, hl] at hidle
    rw [hl]
    refine ⟨InTurn.cons (by simpa using hidle), hover⟩
  | overload p =>
    obtain ⟨l, hl⟩ := List.head?_eq_some_iff.mp (ha.overload p rfl)
    rw [turned, hl] at hover
    rw [hl]
    refine ⟨hidle, InTurn.cons (by simpa using hover)⟩
  | refused => exact ⟨hidle, hover⟩

variable [RateArith R]

theorem lbStep?_choiceOneHost (cfg : Config R) (lb : LoadBalance) (rsp : GetHostResponse) :
    lbStep? cfg lb (.choiceOneHost rsp) = (lb.pick? cfg).map lb.turned := by
  rw [lbStep?, choiceOneHost?_eq_pick, Option.map_map]
  rfl

/-- The call of `choice_one_host` that an attempted operation makes, if any. -/
def call? : LoadBalance × LbOp → Option (LoadBalance × GetHostResponse)
  | (lb, .choiceOneHost rsp) => some (lb, rsp)
  | _ => none

/-- Only a choice moves the probe counter. -/
theorem accessCnt_of_step {op : LbOp} (hcall : call? (lb, op) = none)
    (hstep : lbStep? cfg lb op = some lb') : lb'.accessCnt = lb.accessCnt := by
  cases op with
  | update mem currentTime rsp => exact update?_accessCnt hstep
  | choiceOneHost rsp => cases hcall
  | report currentTime time ip port retcode =>
    cases hstep
    cases hp : lb.hostMap.lookup (reportKey ip port) with
    | none => rw [report_of_lookup_none cfg currentTime time lb ip port retcode hp]
    | some p => rw [report_eq_place cfg currentTime time lb p ip port retcode hp, place_accessCnt]
  | pull => cases hstep; rfl
  | commit time => cases hstep; rfl
  | getAllHosts => cases hstep; rfl

theorem InRange.step (h : InRange cfg lb) {op : LbOp} (hstep : lbStep? cfg lb op = some lb') :
    InRange cfg lb' := by
  cases hcall : call? (lb, op) with
  | none =>
    have hcnt := accessCnt_of_step hcall hstep
    exact ⟨hcnt ▸ h.nonneg, hcnt ▸ h.le⟩
  | some c =>
    cases op with
    | choiceOneHost rsp =>
      rw [lbStep?_choiceOneHost] at hstep
      obtain ⟨k, hk, rfl⟩ := Option.map_eq_some_iff.mp hstep
      exact h.turned hk
    | update mem currentTime rsp => cases hcall
    | report currentTime time ip port retcode => cases hcall
    | pull => cases hcall
    | commit time => cases hcall
    | getAllHosts => cases hcall

/-- The calls of `choice_one_host` in a run, each with the module it finds. -/
def choices (cfg : Config R) (lb : LoadBalance) (ops : List LbOp) :
    List (LoadBalance × GetHostResponse) :=
  (attempted (lbStep? cfg) lb ops).filterMap call?

theorem choices_of_call?_none {op : LbOp} (hcall : call? (lb, op) = none)
    (hstep : lbStep? cfg lb op = some lb') (ops : List LbOp) :
    choices cfg lb (op :: ops) = choices cfg lb' ops := by
  simp only [choices, attempted, hstep, List.filterMap_cons, hcall]

theorem choices_choiceOneHost (hk : lb.pick? cfg = some k) (rsp : GetHostResponse)
    (ops : List LbOp) :
    choices cfg lb (.choiceOneHost rsp :: ops) = (lb, rsp) :: choices cfg (lb.turned k) ops := by
  simp only [choices, attempted, lbStep?_choiceOneHost, hk, Option.map_some, List.filterMap_cons,
    call?]

/-- A run in which each choice finds an overloaded host counts them all: the call at which the
counter reaches its limit is the probe. -/
theorem choices_phase (h : InRange cfg lb) (ops : List LbOp)
    (hover : ∀ c ∈ choices cfg lb ops, c.1.overloadList ≠ []) {j : ℕ}
    {c : LoadBalance × GetHostResponse} (hc : (choices cfg lb ops)[j]? = some c) :
    ∃ k, c.1.pick? cfg = some k ∧
      ((∃ p, k = .overload p) ↔ (lb.phase + j) % round cfg = round cfg - 1) := by
  induction ops generalizing lb j with
  | nil => simp [choices, attempted] at hc
  | cons op ops ih =>
    cases hcall : call? (lb, op) with
    | none =>
      cases hstep : lbStep? cfg lb op with
      | none => simp [choices, attempted, hstep, hcall] at hc
      | some lb' =>
        have hphase : lb'.phase = lb.phase := by rw [phase, accessCnt_of_step hcall hstep]
        rw [choices_of_call?_none hcall hstep] at hc hover
        rw [← hphase]
        exact ih (h.step hstep) hover hc
    | some c₀ =>
      cases op with
      | choiceOneHost rsp =>
        have hfirst : lb.overloadList ≠ [] := hover (lb, rsp) (by simp [choices, attempted, call?])
        obtain ⟨k, hk⟩ := pick?_isSome cfg hfirst
        obtain ⟨hr, hnext, hprobe⟩ := turned_phase h hfirst hk
        rw [choices_choiceOneHost hk] at hc hover
        cases j with
        | zero =>
          cases hc
          refine ⟨k, hk, hprobe.trans ?_⟩
          rw [add_zero, Nat.mod_eq_of_lt h.phase_lt]
        | succ j =>
          have hrest := ih hr (fun c hm => hover c (List.mem_cons_of_mem _ hm)) hc
          rwa [hnext, Nat.mod_add_mod, add_assoc, add_comm 1 j] at hrest
      | update mem currentTime rsp => cases hcall
      | report currentTime time ip port retcode => cases hcall
      | pull => cases hcall
      | commit time => cases hcall
      | getAllHosts => cases hcall

/-- What the choices of a run settle on. -/
def picks (cfg : Config R) (lb : LoadBalance) (ops : List LbOp) : List Pick :=
  (choices cfg lb ops).filterMap fun c => c.1.pick? cfg

theorem picks_choiceOneHost (hk : lb.pick? cfg = some k) (rsp : GetHostResponse) (ops : List LbOp) :
    picks cfg lb (.choiceOneHost rsp :: ops) = k :: picks cfg (lb.turned k) ops := by
  rw [picks, choices_choiceOneHost hk, List.filterMap_cons, hk]
  rfl

end LoadBalance

/-- Neither an update nor a report. -/
def LbOp.KeepsLists : LbOp → Prop
  | .update .. | .report .. => False
  | .choiceOneHost _ | .pull | .commit _ | .getAllHosts => True

instance (op : LbOp) : Decidable op.KeepsLists :=
  match op with
  | .update .. | .report .. => .isFalse id
  | .choiceOneHost _ | .pull | .commit _ | .getAllHosts => .isTrue trivial

namespace LoadBalance

variable {R : Type} [RateArith R]

/-- Over a run that leaves the lists to the choices, each list is served in turn. -/
theorem picks_inTurn (cfg : Config R) (lb : LoadBalance) (ops : List LbOp)
    (hops : ∀ op ∈ ops, op.KeepsLists) :
    InTurn lb.idleList ((picks cfg lb ops).filterMap Pick.fromIdle?) ∧
      InTurn lb.overloadList ((picks cfg lb ops).filterMap Pick.fromOverload?) := by
  induction ops generalizing lb with
  | nil => exact ⟨.nil _, .nil _⟩
  | cons op ops ih =>
    have hrest := fun lb => ih lb fun op hop => hops op (List.mem_cons_of_mem _ hop)
    have hop := hops op List.mem_cons_self
    cases op with
    | choiceOneHost rsp =>
      cases hk : lb.pick? cfg with
      | none =>
        have hpicks : picks cfg lb (.choiceOneHost rsp :: ops) = [] := by
          simp [picks, choices, attempted, lbStep?_choiceOneHost, hk, call?]
        rw [hpicks]
        exact ⟨.nil _, .nil _⟩
      | some k =>
        obtain ⟨hidle, hover⟩ := hrest (lb.turned k)
        rw [picks_choiceOneHost hk]
        exact turned_inTurn hk hidle hover
    | pull => exact hrest _
    | commit time => exact hrest lb
    | getAllHosts => exact hrest lb
    | update mem currentTime rsp => exact hop.elim
    | report currentTime time ip port retcode => exact hop.elim

/-- The counter stays in its range. In a run in which each choice finds an overloaded host, of any
`probe_num + 1` calls in a row exactly one takes an overloaded host and the others take an idle one
or are refused for want of one. While nothing else touches the lists, the hosts of a list are
taken in turn, and a module of the program has no host twice in a list. -/
theorem choices_take_turns (cfg : Config R) (lb : LoadBalance) (hr : InRange cfg lb) :
    (∀ op lb', lbStep? cfg lb op = some lb' → InRange cfg lb') ∧
    (∀ ops, (∀ c ∈ choices cfg lb ops, c.1.overloadList ≠ []) →
      (∀ c ∈ choices cfg lb ops, ∃ k, Answered cfg c.1 c.2 k) ∧
      ∀ i, i + round cfg ≤ (choices cfg lb ops).length →
        ∃! j, (i ≤ j ∧ j < i + round cfg) ∧
          ∃ c p, (choices cfg lb ops)[j]? = some c ∧ Answered cfg c.1 c.2 (.overload p)) ∧
    (∀ ops, (∀ op ∈ ops, op.KeepsLists) →
      InTurn lb.idleList ((picks cfg lb ops).filterMap Pick.fromIdle?) ∧
      InTurn lb.overloadList ((picks cfg lb ops).filterMap Pick.fromOverload?) ∧
      (lb.idleList.Nodup → ∀ p ∈ lb.idleList, ∀ q ∈ lb.idleList,
        ((picks cfg lb ops).filterMap Pick.fromIdle?).count p ≤
          ((picks cfg lb ops).filterMap Pick.fromIdle?).count q + 1) ∧
      (lb.overloadList.Nodup → ∀ p ∈ lb.overloadList, ∀ q ∈ lb.overloadList,
        ((picks cfg lb ops).filterMap Pick.fromOverload?).count p ≤
          ((picks cfg lb ops).filterMap Pick.fromOverload?).count q + 1)) ∧
    (∀ raw modid cmdid, Reachable (lbStep? cfg) (create raw modid cmdid) lb →
      lb.idleList.Nodup ∧ lb.overloadList.Nodup) := by
  refine ⟨fun op lb' hstep => hr.step hstep, fun ops hover => ⟨?_, ?_⟩, fun ops hops => ?_,
    fun raw modid cmdid hlb => ?_⟩
  · intro c hc
    obtain ⟨k, hk⟩ := pick?_isSome cfg (hover c hc)
    exact ⟨k, .of_pick hk c.2⟩
  · intro i hi
    -- the calls that probe are those at which the counter is at its limit
    have hprobe : ∀ j, j < i + round cfg →
        ((∃ c p, (choices cfg lb ops)[j]? = some c ∧ Answered cfg c.1 c.2 (.overload p)) ↔
          (lb.phase + j) % round cfg = round cfg - 1) := by
      intro j hj
      have hlt : j < (choices cfg lb ops).length := by omega
      have hc := List.getElem?_eq_getElem hlt
      obtain ⟨k, hk, hiff⟩ := choices_phase hr ops hover hc
      rw [← hiff]
      constructor
      · rintro ⟨c, p, hc', ha⟩
        cases Option.some.inj (hc.symm.trans hc')
        exact ⟨p, Option.some.inj (hk.symm.trans ha.pick)⟩
      · rintro ⟨p, rfl⟩
        exact ⟨_, p, hc, .of_pick hk _⟩
    obtain ⟨j, ⟨hwindow, hj⟩, hunique⟩ :=
      existsUnique_mod_eq (show round cfg - 1 < round cfg by simp) lb.phase i
    refine ⟨j, ⟨hwindow, (hprobe j hwindow.2).mpr hj⟩, ?_⟩
    rintro j' ⟨hwindow', hj'⟩
    exact hunique j' ⟨hwindow', (hprobe j' hwindow'.2).mp hj'⟩
  · obtain ⟨hidle, hover⟩ := picks_inTurn cfg lb ops hops
    exact ⟨hidle, hover, fun hn p hp q hq => hidle.count_le hn hp hq,
      fun hn p hp q hq => hover.count_le hn hp hq⟩
  · have hsplit := (Inv.of_reachable hlb).split
    exact ⟨hsplit.left_nodup, hsplit.right_nodup⟩

/-- Two idle hosts and two overloaded ones, with a probe at every third call. -/
def halfOverloaded : LoadBalance :=
  { create ⟨0, 0, .new⟩ 1 1 with idleList := [1, 2], overloadList := [3, 4] }

theorem choices_take_turns_halfOverloaded :
    picks { defaultConfig with probeNum := 2 } halfOverloaded
        (List.replicate 6 (.choiceOneHost { })) =
      [.idle 1, .idle 2, .overload 3, .idle 1, .idle 2, .overload 4] ∧
    ∃! j, (1 ≤ j ∧ j < 1 + 3) ∧
      ∃ c p, (choices { defaultConfig with probeNum := 2 } halfOverloaded
          (List.replicate 6 (.choiceOneHost { })))[j]? = some c ∧
        Answered { defaultConfig with probeNum := 2 } c.1 c.2 (.overload p) := by
  refine ⟨by decide +kernel, ?_⟩
  exact ((choices_take_turns { defaultConfig with probeNum := 2 } halfOverloaded
    ⟨by decide, by decide⟩).2.1 (List.replicate 6 (.choiceOneHost { })) (by decide +kernel)).2 1
      (by decide +kernel)

end LoadBalance

end Lrlb.Agent
