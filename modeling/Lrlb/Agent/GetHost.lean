import Lrlb.Agent.RouteLb

/-! What a request for a host is answered, in every state of the agent. -/
namespace Lrlb.Agent
open Lib
open Proto (GetHostResponse GetRouteRequest)
open Proto.LrlbRetCode (retSucc retOverload retNoexist)

namespace RouteLb

variable {R : Type} [RateArith R] {cfg : Config R} {r r' : RouteLb}

section Modules

variable {P : LoadBalance → Prop}

/-- What the operations of a module preserve holds of every module of the agent: the agent's
operations are made of them. -/
theorem forall_modules_step (hcreate : ∀ raw modid cmdid, P (LoadBalance.create raw modid cmdid).pull.1)
    (hop : ∀ lb op lb', P lb → lbStep? cfg lb op = some lb' → P lb')
    (hreset : ∀ lb, P lb → P lb.resetStatus) (h : ∀ key lb, r.routeLbMap key = some lb → P lb)
    {op : RouteOp} (hstep : routeStep? cfg r op = some r') :
    ∀ key lb, r'.routeLbMap key = some lb → P lb := by
  have hset : ∀ key lb, P lb → ∀ key' lb', (r.set key (some lb)).routeLbMap key' = some lb' → P lb' :=
    fun key lb hlb => forall_modules_set h key fun _ he => Option.some.inj he ▸ hlb
  have hexpired : ∀ lb time, P lb → P (lb.pullIfExpired cfg time).1 := by
    intro lb time hlb
    unfold LoadBalance.pullIfExpired
    split_ifs
    · exact hop lb .pull _ hlb rfl
    · exact hlb
  cases op with
  | getHost time raw modid cmdid rsp =>
    obtain ⟨⟨r₁, rsp₁, ret, req⟩, hg, rfl⟩ := Option.map_eq_some_iff.mp hstep
    obtain ⟨-, rfl, -⟩ | ⟨lb, -, -, rfl, -⟩ | ⟨lb, lb₁, rsp₂, hget, -, hc, rfl, -⟩ :=
      getHost?_cases hg
    · exact hset _ _ (hcreate raw modid cmdid)
    · exact h
    · have hchosen : P lb₁ := hop lb (.choiceOneHost rsp) lb₁ (h _ lb hget) (by rw [lbStep?, hc]; rfl)
      exact hset _ _ (hexpired lb₁ time hchosen)
  | getRoute time raw modid cmdid rsp =>
    cases hstep
    unfold RouteLb.getRoute
    dsimp only
    cases hget : r.routeLbMap (packInts modid cmdid) with
    | none => exact hset _ _ (hcreate raw modid cmdid)
    | some lb => exact hset _ _ (hexpired lb time (h _ lb hget))
  | updateHost mem currentTime modid cmdid rsp =>
    unfold routeStep? updateHost? at hstep
    dsimp only at hstep
    cases hget : r.routeLbMap (packInts modid cmdid) with
    | none =>
      rw [hget] at hstep
      cases hstep
      exact h
    | some lb =>
      rw [hget] at hstep
      dsimp only at hstep
      split_ifs at hstep with hempty
      · cases hstep
        exact forall_modules_set h _ (by simp)
      · obtain ⟨lb', hu, rfl⟩ := Option.map_eq_some_iff.mp hstep
        exact hset _ _ (hop lb (.update mem currentTime rsp.host) lb' (h _ lb hget) hu)
  | reportHost currentTime time ts req =>
    cases hstep
    unfold RouteLb.reportHost
    dsimp only
    cases hget : r.routeLbMap (packInts req.modid req.cmdid) with
    | none => exact h
    | some lb => exact hset _ _ (hop lb (.report currentTime time _ _ _) _ (h _ lb hget) rfl)
  | resetLbStatus =>
    cases hstep
    intro key lb hget
    obtain ⟨lb₁, hlb₁, rfl⟩ := Option.map_eq_some_iff.mp hget
    exact hreset lb₁ (h key lb₁ hlb₁)

end Modules

/-- Every module of the agent has the invariant of a module, whatever its connection did. -/
theorem inv_of_reachable (hr : Reachable (routeStep? cfg) empty r) {key : UInt64} {lb : LoadBalance}
    (hget : r.routeLbMap key = some lb) : lb.Inv := by
  refine Reachable.invariant (P := fun r => ∀ key lb, r.routeLbMap key = some lb → lb.Inv)
    ?_ ?_ hr key lb hget
  · intro r op r' h hstep
    exact forall_modules_step (fun raw modid cmdid => (Ready.pull_create raw modid cmdid).inv)
      (fun _ op _ hlb hop => hlb.step op hop) (fun _ hlb => hlb.resetStatus) h hstep
  · intro key lb hget
    cases hget

/-- What a request for a host is answered and what it leaves behind. The response had no host
before, or keeps it unless one is chosen. -/
structure Answers (r : RouteLb) (modid cmdid : Int32) (rsp : GetHostResponse) (r' : RouteLb)
    (rsp' : GetHostResponse) (req : Option GetRouteRequest) : Prop where
  succ_iff : rsp.host = none → (rsp'.retcode = retSucc.value ↔
    ∃ lb p, r.routeLbMap (packInts modid cmdid) = some lb ∧ p ∈ lb.pointers ∧
      rsp'.host = some ⟨(lb.hosts p).ip.toInt32, (lb.hosts p).port⟩)
  unset : rsp'.retcode ≠ retSucc.value → rsp'.host = rsp.host
  overload : rsp'.retcode = retOverload.value →
    ∃ lb, r.routeLbMap (packInts modid cmdid) = some lb ∧ lb.empty = false ∧ lb.idleList = [] ∧
      ∀ p ∈ lb.pointers, (lb.hosts p).overload = true
  noexist_iff : rsp'.retcode = retNoexist.value ↔
    ∀ lb, r.routeLbMap (packInts modid cmdid) = some lb → lb.empty = true
  added : r.routeLbMap (packInts modid cmdid) = none →
    (∃ lb, r'.routeLbMap (packInts modid cmdid) = some lb ∧ lb.modid = modid ∧ lb.cmdid = cmdid ∧
      lb.status = .pulling) ∧ req = some ⟨modid, cmdid⟩

section Answer

variable {modid cmdid : Int32} {rsp : GetHostResponse} {lb : LoadBalance}

/-- A module that is new, or has no hosts yet. -/
theorem Answers.of_noexist {req : Option GetRouteRequest}
    (hempty : ∀ lb, r.routeLbMap (packInts modid cmdid) = some lb → lb.empty = true)
    (hadded : r.routeLbMap (packInts modid cmdid) = none →
      (∃ lb, r'.routeLbMap (packInts modid cmdid) = some lb ∧ lb.modid = modid ∧
        lb.cmdid = cmdid ∧ lb.status = .pulling) ∧ req = some ⟨modid, cmdid⟩) :
    Answers r modid cmdid rsp r' { rsp with retcode := retNoexist.value } req := by
  refine ⟨fun hnone => ?_, fun _ => rfl, nofun, iff_of_true rfl hempty, hadded⟩
  refine iff_of_false (show ¬ retNoexist.value = retSucc.value by decide) ?_
  rintro ⟨lb, p, -, -, hhost⟩
  exact nomatch hnone.symm.trans hhost

/-- A host that was chosen from one of the lists. -/
theorem Answers.of_succ (hget : r.routeLbMap (packInts modid cmdid) = some lb)
    (hne : lb.empty = false) {p : Ptr} (hp : lb.Holds p) (req : Option GetRouteRequest) :
    Answers r modid cmdid rsp r' { rsp with
      host := some ⟨(lb.hosts p).ip.toInt32, (lb.hosts p).port⟩, retcode := retSucc.value } req := by
  refine ⟨fun _ => iff_of_true rfl ⟨lb, p, hget, (lb.mem_pointers p).mpr hp, rfl⟩,
    fun h => absurd rfl h, nofun, ?_, fun hnone => nomatch hnone.symm.trans hget⟩
  refine iff_of_false (show ¬ retSucc.value = retNoexist.value by decide) fun hall => ?_
  exact nomatch hne.symm.trans (hall lb hget)

/-- A refusal: all hosts are overloaded. -/
theorem Answers.of_overload (hinv : lb.Inv) (hget : r.routeLbMap (packInts modid cmdid) = some lb)
    (hne : lb.empty = false) (hidle : lb.idleList = []) (req : Option GetRouteRequest) :
    Answers r modid cmdid rsp r' { rsp with retcode := retOverload.value } req := by
  have hall : ∀ p ∈ lb.pointers, (lb.hosts p).overload = true := by
    intro p hp
    have hh := (lb.mem_pointers p).mp hp
    by_contra hflag
    have hm := hinv.mem_idle hh (by simpa using hflag)
    simp [hidle] at hm
  refine ⟨fun hnone => ?_, fun _ => rfl, fun _ => ⟨lb, hget, hne, hidle, hall⟩, ?_,
    fun hnone => nomatch hnone.symm.trans hget⟩
  · refine iff_of_false (show ¬ retOverload.value = retSucc.value by decide) ?_
    rintro ⟨_, p, -, -, hhost⟩
    exact nomatch hnone.symm.trans hhost
  · refine iff_of_false (show ¬ retOverload.value = retNoexist.value by decide) fun hempty => ?_
    exact nomatch hne.symm.trans (hempty lb hget)

end Answer

/-- In every state of the agent only the assertion on a module without hosts stops `get_host`: no
choice is made from an empty list. The answer is a host of the module, or tells why there is none. -/
theorem get_host_answers (hr : Reachable (routeStep? cfg) empty r) (time : Int64)
    (raw : RawLoadBalance) (modid cmdid : Int32) (rsp : GetHostResponse) :
    (r.getHost? cfg time raw modid cmdid rsp = none →
      ∃ lb, r.routeLbMap (packInts modid cmdid) = some lb ∧ lb.empty = true ∧
        lb.status ≠ .pulling) ∧
    ∀ r' rsp' ret req, r.getHost? cfg time raw modid cmdid rsp = some (r', rsp', ret, req) →
      Answers r modid cmdid rsp r' rsp' req := by
  constructor
  · intro hnone
    unfold getHost? at hnone
    dsimp only at hnone
    cases hget : r.routeLbMap (packInts modid cmdid) with
    | none =>
      rw [hget] at hnone
      cases hnone
    | some lb =>
      rw [hget] at hnone
      dsimp only at hnone
      split_ifs at hnone with hempty hpulling
      · exact ⟨lb, rfl, hempty, hpulling⟩
      · have hne : lb.empty = false := by simpa using hempty
        have hc : (lb.choiceOneHost? cfg rsp).isSome :=
          (inv_of_reachable hr hget).choiceOneHost_isSome hne rsp
        obtain ⟨out, hout⟩ := Option.isSome_iff_exists.mp hc
        rw [hout] at hnone
        cases hnone
  · intro r' rsp' ret req hg
    obtain ⟨hget, rfl, rfl, rfl⟩ | ⟨lb, hget, hempty, rfl, rfl⟩ |
      ⟨lb, lb₁, rsp₁, hget, hne, hc, -, rfl, -⟩ := getHost?_cases hg
    · refine .of_noexist (fun lb hlb => nomatch hget.symm.trans hlb) fun _ => ⟨?_, rfl⟩
      exact ⟨_, Function.update_self .., rfl, rfl, rfl⟩
    · refine .of_noexist (fun lb' hlb => ?_) fun hnone => nomatch hnone.symm.trans hget
      cases Option.some.inj (hget.symm.trans hlb)
      exact hempty
    · have hinv := inv_of_reachable hr hget
      obtain ⟨p, l, cnt, hl, -, -, rfl, rfl⟩ | ⟨p, l, hl, -, -, rfl, rfl⟩ | ⟨hidle, -, -, rfl, rfl⟩ :=
        LoadBalance.choiceOneHost?_cases cfg lb rsp hc
      · exact .of_succ hget hne ((hinv.split.mem_iff p).mp (Or.inl (by simp [hl]))) req
      · exact .of_succ hget hne ((hinv.split.mem_iff p).mp (Or.inr (by simp [hl]))) req
      · exact .of_overload hinv hget hne hidle req

/-- Module (1, 1) has been asked for, and two hosts have been pulled for it. -/
def twoHosts : List RouteOp :=
  [.getHost 99 ⟨0, 0, .new⟩ 1 1 { }, .updateHost bumpMemory 100 1 1 ⟨1, 1, [⟨7, 80⟩, ⟨8, 80⟩]⟩]

-- A request for a module that is not known yet, and one for a module that has hosts.
theorem get_host_answers_twoHosts :
    (∃ r' rsp' ret req, empty.getHost? defaultConfig 100 ⟨0, 0, .new⟩ 1 1 { } =
        some (r', rsp', ret, req) ∧ Answers empty 1 1 { } r' rsp' req) ∧
    ∃ r, run? (routeStep? defaultConfig) empty twoHosts = some r ∧
      ∃ r' rsp' ret req, r.getHost? defaultConfig 100 ⟨0, 0, .new⟩ 1 1 { } =
          some (r', rsp', ret, req) ∧ rsp'.host = some ⟨7, 80⟩ ∧ Answers r 1 1 { } r' rsp' req := by
  constructor
  · obtain ⟨x, hx⟩ : ∃ x, empty.getHost? defaultConfig 100 ⟨0, 0, .new⟩ 1 1 { } = some x := ⟨_, rfl⟩
    exact ⟨x.1, x.2.1, x.2.2.1, x.2.2.2, hx,
      (get_host_answers (.refl empty) 100 ⟨0, 0, .new⟩ 1 1 { }).2 _ _ _ _ hx⟩
  · have heval : ((run? (routeStep? defaultConfig) empty twoHosts).bind fun r =>
        r.getHost? defaultConfig 100 ⟨0, 0, .new⟩ 1 1 { }).map (fun x => x.2.1.host) =
        some (some ⟨7, 80⟩) := by decide +kernel
    obtain ⟨x, hx, hhost⟩ := Option.map_eq_some_iff.mp heval
    obtain ⟨r, hr, hget⟩ := Option.bind_eq_some_iff.mp hx
    exact ⟨r, hr, x.1, x.2.1, x.2.2.1, x.2.2.2, hget, hhost,
      (get_host_answers ⟨twoHosts, hr⟩ 100 ⟨0, 0, .new⟩ 1 1 { }).2 _ _ _ _ hget⟩

end RouteLb

end Lrlb.Agent
