import Lrlb.Lib.Run
import Lrlb.Agent.LoadBalance

/-! The two lists of a module split its hosts by their overload flag, over whole runs. -/
namespace Lrlb.Agent
open Lib
open Proto.LrlbRetCode (retSucc retOverload)

namespace HostInfo

variable {R : Type} (cfg : Config R) (time : Int64) (h : HostInfo)

@[simp] theorem setIdle_ip : (h.setIdle cfg time).ip = h.ip := rfl

@[simp] theorem setIdle_port : (h.setIdle cfg time).port = h.port := rfl

@[simp] theorem setIdle_overload : (h.setIdle cfg time).overload = false := rfl

@[simp] theorem setOverload_ip : (h.setOverload cfg time).ip = h.ip := rfl

@[simp] theorem setOverload_port : (h.setOverload cfg time).port = h.port := rfl

@[simp] theorem setOverload_overload : (h.setOverload cfg time).overload = true := rfl

end HostInfo

section Map

variable {κ ν : Type} [DecidableEq κ] {m : AList fun _ : κ => ν} {k key : κ} {x y : ν}

theorem lookup_insert_eq_some_iff (hkey : key ∉ m) :
    (m.insert key y).lookup k = some x ↔ (k = key ∧ x = y) ∨ m.lookup k = some x := by
  by_cases hk : k = key
  · subst k
    rw [AList.lookup_insert, AList.lookup_eq_none.mpr hkey]
    simp [eq_comm]
  · rw [AList.lookup_insert_ne hk]
    simp [hk]

theorem lookup_erase_eq_some_iff :
    (m.erase key).lookup k = some x ↔ k ≠ key ∧ m.lookup k = some x := by
  by_cases hk : k = key
  · subst k
    rw [AList.lookup_erase]
    simp
  · rw [AList.lookup_erase_ne hk]
    simp [hk]

end Map

namespace LoadBalance

def Holds (lb : LoadBalance) (p : Ptr) : Prop := ∃ key, lb.hostMap.lookup key = some p

theorem mem_pointers (lb : LoadBalance) (p : Ptr) : p ∈ lb.pointers ↔ lb.Holds p := by
  simp only [pointers, List.mem_map, Holds]
  constructor
  · rintro ⟨⟨key, q⟩, hq, rfl⟩
    exact ⟨key, AList.mem_lookup_iff.mpr hq⟩
  · rintro ⟨key, hkey⟩
    exact ⟨⟨key, p⟩, AList.mem_lookup_iff.mp hkey, rfl⟩

theorem holds_of_not_empty (lb : LoadBalance) (h : lb.empty = false) : ∃ p, lb.Holds p := by
  cases he : lb.hostMap.entries with
  | nil => simp [empty, he] at h
  | cons e es =>
    exact ⟨e.2, (mem_pointers lb e.2).mp (by simp [pointers, he])⟩

theorem not_empty_of_holds {lb : LoadBalance} {p : Ptr} (hp : lb.Holds p) : lb.empty = false := by
  have hmem := (mem_pointers lb p).mpr hp
  by_contra he
  have hnil : lb.hostMap.entries = [] := by simpa [empty] using he
  simp [pointers, hnil] at hmem

@[simp] theorem countReport_ip (retcode : Int32) (h : HostInfo) :
    (countReport retcode h).ip = h.ip := by
  unfold countReport; split_ifs <;> rfl

@[simp] theorem countReport_port (retcode : Int32) (h : HostInfo) :
    (countReport retcode h).port = h.port := by
  unfold countReport; split_ifs <;> rfl

@[simp] theorem countReport_overload (retcode : Int32) (h : HostInfo) :
    (countReport retcode h).overload = h.overload := by
  unfold countReport; split_ifs <;> rfl

@[simp] theorem countReport_idleTs (retcode : Int32) (h : HostInfo) :
    (countReport retcode h).idleTs = h.idleTs := by
  unfold countReport; split_ifs <;> rfl

theorem commit_of_holds {R : Type} (cfg : Config R) {lb : LoadBalance} {p : Ptr} (hp : lb.Holds p) (ts : Int64) :
    ∃ req, lb.commit cfg ts = some req ∧
      req.results = lb.idleList.map (lb.callResult false) ++
        lb.overloadList.map (lb.callResult true) := by
  have hne : ¬ lb.empty = true := by simp [not_empty_of_holds hp]
  exact ⟨_, if_neg hne, rfl⟩

/-- Everything a choice can do: rotate the idle list, probe the overload list once the counter
has reached `probe_num`, or refuse because the whole module is overloaded. -/
theorem choiceOneHost?_cases {R : Type} (cfg : Config R) (lb : LoadBalance)
    (rsp : Proto.GetHostResponse) {lb' : LoadBalance} {rsp' : Proto.GetHostResponse} {ret : Int32}
    (h : lb.choiceOneHost? cfg rsp = some (lb', rsp', ret)) :
    (∃ p l cnt, lb.idleList = p :: l ∧
      (lb.overloadList = [] ∧ cnt = lb.accessCnt ∨
        lb.overloadList ≠ [] ∧ ¬ cfg.probeNum ≤ lb.accessCnt ∧ cnt = lb.accessCnt + 1) ∧
      lb' = { lb with accessCnt := cnt, idleList := l ++ [p] } ∧
      rsp' = { rsp with host := some ⟨(lb.hosts p).ip.toInt32, (lb.hosts p).port⟩ } ∧
      ret = retSucc.value) ∨
    (∃ p l, lb.overloadList = p :: l ∧ cfg.probeNum ≤ lb.accessCnt ∧
      lb' = { lb with accessCnt := 0, overloadList := l ++ [p] } ∧
      rsp' = { rsp with host := some ⟨(lb.hosts p).ip.toInt32, (lb.hosts p).port⟩ } ∧
      ret = retSucc.value) ∨
    (lb.idleList = [] ∧ ¬ cfg.probeNum ≤ lb.accessCnt ∧
      lb' = { lb with accessCnt := lb.accessCnt + 1 } ∧ rsp' = rsp ∧ ret = retOverload.value) := by
  unfold choiceOneHost? at h
  cases hi : lb.idleList with
  | nil =>
    cases ho : lb.overloadList with
    | nil =>
      simp only [hi, ho, List.isEmpty_nil, if_true, getHostFromList?, Option.bind_eq_bind,
        Option.bind_none] at h
      split_ifs at h with hc
      cases h
      exact Or.inr (Or.inr ⟨rfl, hc, rfl, rfl, rfl⟩)
    | cons q l =>
      simp only [hi, ho, List.isEmpty_nil, if_true, getHostFromList?, Option.bind_eq_bind,
        Option.bind_some] at h
      split_ifs at h with hc
      · cases h
        exact Or.inr (Or.inl ⟨q, l, rfl, hc, rfl, rfl, rfl⟩)
      · cases h
        exact Or.inr (Or.inr ⟨rfl, hc, rfl, rfl, rfl⟩)
  | cons p li =>
    cases ho : lb.overloadList with
    | nil =>
      simp only [hi, ho, List.isEmpty_cons, List.isEmpty_nil, if_true, getHostFromList?,
        Option.bind_eq_bind, Option.bind_some] at h
      cases h
      exact Or.inl ⟨p, li, lb.accessCnt, rfl, Or.inl ⟨rfl, rfl⟩, rfl, rfl, rfl⟩
    | cons q lo =>
      simp only [hi, ho, List.isEmpty_cons, Bool.false_eq_true, if_false, getHostFromList?,
        Option.bind_eq_bind, Option.bind_some] at h
      split_ifs at h with hc
      · cases h
        exact Or.inr (Or.inl ⟨q, lo, rfl, hc, rfl, rfl, rfl⟩)
      · cases h
        exact Or.inl ⟨p, li, lb.accessCnt + 1, rfl, Or.inr ⟨by simp, hc, rfl⟩, rfl, rfl, rfl⟩

/-- A choice leaves the hosts alone. -/
theorem choiceOneHost?_hosts {R : Type} {cfg : Config R} {lb lb' : LoadBalance}
    {rsp rsp' : Proto.GetHostResponse} {ret : Int32}
    (h : lb.choiceOneHost? cfg rsp = some (lb', rsp', ret)) :
    lb'.hostMap = lb.hostMap ∧ lb'.hosts = lb.hosts := by
  rcases choiceOneHost?_cases cfg lb rsp h with
    ⟨_, _, _, -, -, rfl, -⟩ | ⟨_, _, -, -, rfl, -⟩ | ⟨-, -, rfl, -⟩ <;> exact ⟨rfl, rfl⟩

theorem choiceOneHost?_isSome {R : Type} (cfg : Config R) (lb : LoadBalance)
    (rsp : Proto.GetHostResponse) (h : lb.idleList ≠ [] ∨ lb.overloadList ≠ []) :
    (lb.choiceOneHost? cfg rsp).isSome := by
  unfold choiceOneHost?
  cases hi : lb.idleList with
  | nil =>
    cases ho : lb.overloadList with
    | nil => simp [hi, ho] at h
    | cons q l => by_cases hc : cfg.probeNum ≤ lb.accessCnt <;> simp [hc, getHostFromList?]
  | cons p li =>
    cases ho : lb.overloadList with
    | nil => simp [getHostFromList?]
    | cons q lo => by_cases hc : cfg.probeNum ≤ lb.accessCnt <;> simp [hc, getHostFromList?]

/-- What every operation keeps. No two keys share a host, and each host is stored under the
key that its own address and port give. -/
structure Inv (lb : LoadBalance) : Prop where
  split : Split lb.idleList lb.overloadList lb.Holds
  flag : ∀ p, lb.Holds p → ((lb.hosts p).overload = true ↔ p ∈ lb.overloadList)
  injective : ∀ k k' p, lb.hostMap.lookup k = some p → lb.hostMap.lookup k' = some p → k = k'
  keyed : ∀ k p, lb.hostMap.lookup k = some p →
    k = updateKey (lb.hosts p).ip.toInt32 (lb.hosts p).port

namespace Inv

variable {lb : LoadBalance} {R : Type} {cfg : Config R} {p : Ptr}

theorem create (raw : RawLoadBalance) (modid cmdid : Int32) :
    Inv (LoadBalance.create raw modid cmdid) := by
  refine ⟨Split.empty.congr fun p => ?_, ?_, ?_, ?_⟩ <;> simp [LoadBalance.create, Holds]

theorem mem_idle (h : Inv lb) (hp : lb.Holds p) (hf : (lb.hosts p).overload = false) :
    p ∈ lb.idleList := by
  rcases (h.split.mem_iff p).mpr hp with hi | ho
  · exact hi
  · have := (h.flag p hp).mpr ho
    simp [hf] at this

theorem mem_overload (h : Inv lb) (hp : lb.Holds p) (hf : (lb.hosts p).overload = true) :
    p ∈ lb.overloadList := (h.flag p hp).mp hf

/-- Different hosts of a module have different addresses or ports. -/
theorem eq_of_address (h : Inv lb) {q : Ptr} (hp : lb.Holds p) (hq : lb.Holds q)
    (hip : (lb.hosts p).ip.toInt32 = (lb.hosts q).ip.toInt32)
    (hport : (lb.hosts p).port = (lb.hosts q).port) : p = q := by
  obtain ⟨k, hk⟩ := hp
  obtain ⟨k', hk'⟩ := hq
  have hkey : k = k' := by rw [h.keyed k p hk, h.keyed k' q hk', hip, hport]
  subst k'
  exact Option.some.inj (hk.symm.trans hk')

theorem keyed_update (h : Inv lb) (hi : HostInfo) (hip : hi.ip = (lb.hosts p).ip)
    (hport : hi.port = (lb.hosts p).port) (k : UInt64) (q : Ptr)
    (hk : lb.hostMap.lookup k = some q) :
    k = updateKey (Function.update lb.hosts p hi q).ip.toInt32
      (Function.update lb.hosts p hi q).port := by
  rw [h.keyed k q hk]
  by_cases hqp : q = p
  · subst q; simp [hip, hport]
  · simp [hqp]

/-- Rewriting a host's counters keeps the invariant. -/
theorem setHost (h : Inv lb) (hi : HostInfo) (hip : hi.ip = (lb.hosts p).ip)
    (hport : hi.port = (lb.hosts p).port) (hover : hi.overload = (lb.hosts p).overload) :
    Inv (lb.setHost p hi) := by
  refine ⟨h.split, ?_, h.injective, h.keyed_update hi hip hport⟩
  intro q hq
  change (Function.update lb.hosts p hi q).overload = true ↔ q ∈ lb.overloadList
  rw [← h.flag q hq]
  by_cases hqp : q = p
  · subst q; simp [hover]
  · simp [hqp]

theorem changeOverload (h : Inv lb) (time : Int64) (hp : lb.Holds p)
    (hf : (lb.hosts p).overload = false) : Inv (lb.changeOverload cfg time p) := by
  have hidle := h.mem_idle hp hf
  refine ⟨h.split.move_right hidle, ?_, h.injective, h.keyed_update _ (by simp) (by simp)⟩
  intro q hq
  change (Function.update lb.hosts p _ q).overload = true ↔ q ∈ lb.overloadList ++ [p]
  by_cases hqp : q = p
  · subst q; simp
  · simpa [hqp] using h.flag q hq

theorem changeIdle (h : Inv lb) (time : Int64) (hp : lb.Holds p)
    (hf : (lb.hosts p).overload = true) : Inv (lb.changeIdle cfg time p) := by
  have hover := h.mem_overload hp hf
  refine ⟨h.split.move_left hover, ?_, h.injective, h.keyed_update _ (by simp) (by simp)⟩
  intro q hq
  change (Function.update lb.hosts p _ q).overload = true ↔ q ∈ Lib.remove p lb.overloadList
  by_cases hqp : q = p
  · subst q; simp
  · simpa [hqp] using h.flag q hq

theorem windowCheck [RateArith R] (h : Inv lb) (currentTime time : Int64) (hp : lb.Holds p) :
    Inv (lb.windowCheck cfg currentTime time p) := by
  unfold LoadBalance.windowCheck
  dsimp only
  split_ifs with hf ht hw ho
  · exact h.changeOverload time hp hf
  · exact h.setHost _ rfl rfl hf.symm
  · exact h
  · exact h.changeIdle time hp (by simpa using hf)
  · exact h

theorem report [RateArith R] (h : Inv lb) (currentTime time : Int64) (ip port retcode : Int32) :
    Inv (lb.report cfg currentTime time ip port retcode) := by
  unfold LoadBalance.report
  cases hk : lb.hostMap.lookup (reportKey ip port) with
  | none => exact h
  | some p =>
    dsimp only
    have hp : lb.Holds p := ⟨_, hk⟩
    have hc : Inv (lb.setHost p (countReport retcode (lb.hosts p))) :=
      h.setHost _ (by simp) (by simp) (by simp)
    have hhost : (lb.setHost p (countReport retcode (lb.hosts p))).hosts p =
        countReport retcode (lb.hosts p) := Function.update_self ..
    split_ifs with hfail _ hsucc
    · exact hc.changeOverload time hp (by rw [hhost]; exact hfail.1)
    · exact hc.windowCheck currentTime time hp
    · exact hc.changeIdle time hp (by rw [hhost]; exact hsucc.1)
    · exact hc.windowCheck currentTime time hp
    · exact hc.windowCheck currentTime time hp

theorem insertHost (h : Inv lb) (mem : Memory) (host : Proto.HostInfo) :
    Inv (lb.insertHost cfg mem host) := by
  unfold LoadBalance.insertHost
  dsimp only
  split_ifs with hkey
  · exact h
  · set key := updateKey host.ip host.port with hkdef
    set hi := mem.new lb.pointers with hhi
    have hfresh : ¬ lb.Holds hi := fun hh => mem.fresh _ ((mem_pointers lb hi).mpr hh)
    have hne : ∀ k q, lb.hostMap.lookup k = some q → q ≠ hi := by
      rintro k q hk rfl
      exact hfresh ⟨k, hk⟩
    have hlook : ∀ k q, (lb.hostMap.insert key hi).lookup k = some q ↔
        (k = key ∧ q = hi) ∨ lb.hostMap.lookup k = some q :=
      fun _ _ => lookup_insert_eq_some_iff hkey
    have hholds : ∀ q, lb.Holds q ∨ q = hi ↔ ∃ k, (lb.hostMap.insert key hi).lookup k = some q := by
      intro q
      simp only [hlook, exists_or, exists_and_right, exists_eq, true_and]
      exact Or.comm
    refine ⟨(h.split.push_left hfresh).congr hholds, ?_, ?_, ?_⟩
    · intro q hq
      rcases (hholds q).mpr hq with ⟨k, hk⟩ | rfl
      · simpa [hne k q hk] using h.flag q ⟨k, hk⟩
      · have : hi ∉ lb.overloadList := fun hm => hfresh ((h.split.mem_iff hi).mp (Or.inr hm))
        simpa [HostInfo.new] using this
    · intro k k' q hk hk'
      rcases (hlook k q).mp hk with ⟨rfl, hq⟩ | hk <;>
        rcases (hlook k' q).mp hk' with ⟨rfl, hq'⟩ | hk'
      · rfl
      · exact absurd hq (hne k' q hk')
      · exact absurd hq' (hne k q hk)
      · exact h.injective k k' q hk hk'
    · intro k q hk
      rcases (hlook k q).mp hk with ⟨rfl, rfl⟩ | hk
      · simp [HostInfo.new, hkdef]
      · simpa [hne k q hk] using h.keyed k q hk

theorem deleteHost (h : Inv lb) (key : UInt64) : Inv (lb.deleteHost key) := by
  unfold LoadBalance.deleteHost
  cases hkey : lb.hostMap.lookup key with
  | none => exact h
  | some p =>
    have hp : lb.Holds p := ⟨key, hkey⟩
    have hold : ∀ k q, (lb.hostMap.erase key).lookup k = some q → lb.hostMap.lookup k = some q :=
      fun k q hk => (lookup_erase_eq_some_iff.mp hk).2
    have hholds : ∀ q, (lb.Holds q ∧ q ≠ p) ↔ ∃ k, (lb.hostMap.erase key).lookup k = some q := by
      intro q
      simp only [lookup_erase_eq_some_iff]
      constructor
      · rintro ⟨⟨k, hk⟩, hne⟩
        refine ⟨k, ?_, hk⟩
        rintro rfl
        exact hne (Option.some.inj (hk.symm.trans hkey))
      · rintro ⟨k, hkk, hk⟩
        refine ⟨⟨k, hk⟩, ?_⟩
        rintro rfl
        exact hkk (h.injective k key q hk hkey)
    have hinj : ∀ k k' q, (lb.hostMap.erase key).lookup k = some q →
        (lb.hostMap.erase key).lookup k' = some q → k = k' :=
      fun k k' q hk hk' => h.injective k k' q (hold k q hk) (hold k' q hk')
    dsimp only
    split_ifs with hover
    · refine ⟨(h.split.remove_right (h.mem_overload hp hover)).congr hholds, ?_, hinj, ?_⟩
      · intro q hq
        obtain ⟨hq, hne⟩ := (hholds q).mpr hq
        simpa [hne] using h.flag q hq
      · exact fun k q hk => h.keyed k q (hold k q hk)
    · refine ⟨(h.split.remove_left (h.mem_idle hp (by simpa using hover))).congr hholds, ?_, hinj, ?_⟩
      · intro q hq
        exact h.flag q ((hholds q).mpr hq).1
      · exact fun k q hk => h.keyed k q (hold k q hk)

theorem insertHosts (h : Inv lb) (mem : Memory) (rsp : List Proto.HostInfo) :
    Inv (rsp.foldl (LoadBalance.insertHost cfg mem) lb) := by
  induction rsp generalizing lb with
  | nil => exact h
  | cons host rsp ih => exact ih (h.insertHost mem host)

theorem deleteHosts (h : Inv lb) (keys : List UInt64) :
    Inv (keys.foldl LoadBalance.deleteHost lb) := by
  induction keys generalizing lb with
  | nil => exact h
  | cons key keys ih => exact ih (h.deleteHost key)

theorem update (h : Inv lb) (mem : Memory) (currentTime : Int64) (rsp : List Proto.HostInfo)
    {lb' : LoadBalance} (hu : lb.update? cfg mem currentTime rsp = some lb') : Inv lb' := by
  unfold update? at hu
  split_ifs at hu
  cases hu
  have hins : Inv (rsp.foldl (LoadBalance.insertHost cfg mem) lb) := h.insertHosts mem rsp
  have hi := hins.deleteHosts (needDelete (rsp.map fun x => updateKey x.ip x.port)
    (rsp.foldl (LoadBalance.insertHost cfg mem) lb))
  exact ⟨hi.split, hi.flag, hi.injective, hi.keyed⟩

theorem rotate_idle (h : Inv lb) {l : List Ptr} (hl : lb.idleList = p :: l) (cnt : Int32) :
    Inv { lb with accessCnt := cnt, idleList := l ++ [p] } := by
  have hs := h.split
  rw [hl] at hs
  exact ⟨hs.rotate_left, h.flag, h.injective, h.keyed⟩

theorem rotate_overload (h : Inv lb) {l : List Ptr} (hl : lb.overloadList = p :: l) (cnt : Int32) :
    Inv { lb with accessCnt := cnt, overloadList := l ++ [p] } := by
  have hs := h.split
  rw [hl] at hs
  refine ⟨hs.rotate_right, ?_, h.injective, h.keyed⟩
  intro q hq
  have hf := h.flag q hq
  rw [hl] at hf
  simpa [or_comm] using hf

theorem choiceOneHost (h : Inv lb) {lb' : LoadBalance} {rsp rsp' : Proto.GetHostResponse}
    {ret : Int32} (hc : lb.choiceOneHost? cfg rsp = some (lb', rsp', ret)) : Inv lb' := by
  rcases choiceOneHost?_cases cfg lb rsp hc with ⟨q, l, cnt, hl, -, rfl, -⟩ | ⟨q, l, hl, -, rfl, -⟩ |
    ⟨-, -, rfl, -⟩
  · exact h.rotate_idle hl cnt
  · exact h.rotate_overload hl 0
  · exact ⟨h.split, h.flag, h.injective, h.keyed⟩

/-- A module with a host always has a front element to choose. -/
theorem choiceOneHost_isSome (h : Inv lb) (hne : lb.empty = false) (rsp : Proto.GetHostResponse) :
    (lb.choiceOneHost? cfg rsp).isSome := by
  obtain ⟨p, hp⟩ := lb.holds_of_not_empty hne
  apply choiceOneHost?_isSome
  rcases (h.split.mem_iff p).mpr hp with hi | ho
  · exact Or.inl (List.ne_nil_of_mem hi)
  · exact Or.inr (List.ne_nil_of_mem ho)

end Inv

end LoadBalance

/-- The public operations of a module, with the clock and memory that each one meets. -/
inductive LbOp where
  | update (mem : Memory) (currentTime : Int64) (rsp : List Proto.HostInfo)
  | choiceOneHost (rsp : Proto.GetHostResponse)
  | report (currentTime time : Int64) (ip port retcode : Int32)
  | pull
  | commit (time : Int64)
  | getAllHosts

/-- What the callers promise: a host to install, or a host to choose from. -/
def LbOp.Allowed (lb : LoadBalance) : LbOp → Prop
  | .update _ _ rsp => rsp ≠ []
  | .choiceOneHost _ => lb.empty = false
  | _ => True

instance (lb : LoadBalance) (op : LbOp) : Decidable (op.Allowed lb) :=
  match op with
  | .update _ _ rsp => inferInstanceAs (Decidable (rsp ≠ []))
  | .choiceOneHost _ => inferInstanceAs (Decidable (lb.empty = false))
  | .report .. | .pull | .commit _ | .getAllHosts => inferInstanceAs (Decidable True)

def lbStep? {R : Type} [RateArith R] (cfg : Config R) (lb : LoadBalance) : LbOp → Option LoadBalance
  | .update mem currentTime rsp => lb.update? cfg mem currentTime rsp
  | .choiceOneHost rsp => (lb.choiceOneHost? cfg rsp).map Prod.fst
  | .report currentTime time ip port retcode =>
    some (lb.report cfg currentTime time ip port retcode)
  | .pull => some lb.pull.1
  | .commit _ => some lb
  | .getAllHosts => some lb

namespace LoadBalance

variable {R : Type} [RateArith R] {cfg : Config R} {lb lb' : LoadBalance}

theorem Inv.step (h : Inv lb) (op : LbOp) (hop : lbStep? cfg lb op = some lb') : Inv lb' := by
  cases op with
  | update mem currentTime rsp => exact h.update mem currentTime rsp hop
  | choiceOneHost rsp =>
    obtain ⟨⟨lb₁, rsp', ret⟩, hc, rfl⟩ := Option.map_eq_some_iff.mp hop
    exact h.choiceOneHost hc
  | report currentTime time ip port retcode =>
    cases hop
    exact h.report currentTime time ip port retcode
  | pull => cases hop; exact ⟨h.split, h.flag, h.injective, h.keyed⟩
  | commit time => cases hop; exact h
  | getAllHosts => cases hop; exact h

theorem Inv.allowed (h : Inv lb) (op : LbOp) (hop : op.Allowed lb) :
    ∃ lb', lbStep? cfg lb op = some lb' := by
  cases op with
  | update mem currentTime rsp => exact ⟨_, if_neg hop⟩
  | choiceOneHost rsp =>
    have hc : (lb.choiceOneHost? cfg rsp).isSome := h.choiceOneHost_isSome hop rsp
    obtain ⟨r, hr⟩ := Option.isSome_iff_exists.mp hc
    exact ⟨r.1, by simp [lbStep?, hr]⟩
  | report currentTime time ip port retcode => exact ⟨_, rfl⟩
  | pull => exact ⟨_, rfl⟩
  | commit time => exact ⟨_, rfl⟩
  | getAllHosts => exact ⟨_, rfl⟩

theorem Inv.of_reachable {raw : RawLoadBalance} {modid cmdid : Int32}
    (h : Reachable (lbStep? cfg) (LoadBalance.create raw modid cmdid) lb) : Inv lb :=
  h.invariant (fun _ op _ hi ht => hi.step op ht) (Inv.create raw modid cmdid)

/-- The lists are duplicate-free and disjoint, together they are the hosts of `_host_map`, and
a host's flag says which of them it is in. -/
structure ListsPartition (lb : LoadBalance) : Prop where
  idle_nodup : lb.idleList.Nodup
  overload_nodup : lb.overloadList.Nodup
  disjoint : ∀ p ∈ lb.idleList, p ∉ lb.overloadList
  union : ∀ p, p ∈ lb.idleList ∨ p ∈ lb.overloadList ↔ p ∈ lb.pointers
  overload_iff : ∀ p ∈ lb.pointers, ((lb.hosts p).overload = true ↔ p ∈ lb.overloadList)
  idle_iff : ∀ p ∈ lb.pointers, ((lb.hosts p).overload = false ↔ p ∈ lb.idleList)

theorem Inv.listsPartition (h : Inv lb) : ListsPartition lb := by
  refine ⟨h.split.left_nodup, h.split.right_nodup, h.split.disjoint, ?_, ?_, ?_⟩
  · exact fun p => (h.split.mem_iff p).trans (mem_pointers lb p).symm
  · exact fun p hp => h.flag p ((mem_pointers lb p).mp hp)
  · intro p hp
    have hh := (mem_pointers lb p).mp hp
    refine ⟨h.mem_idle hh, fun hidle => ?_⟩
    have hn : ¬ (lb.hosts p).overload = true :=
      fun ho => h.split.disjoint p hidle ((h.flag p hh).mp ho)
    simpa using hn

/-- In every run from a new module, each operation that its caller may make succeeds, and the
lists partition the hosts after it. -/
theorem lists_partition_hosts (cfg : Config R) (raw : RawLoadBalance) (modid cmdid : Int32)
    (ops : List LbOp)
    (hops : ∀ x ∈ attempted (lbStep? cfg) (create raw modid cmdid) ops, x.2.Allowed x.1) :
    (∀ lb ∈ visited (lbStep? cfg) (create raw modid cmdid) ops, ListsPartition lb) ∧
      (run? (lbStep? cfg) (create raw modid cmdid) ops).isSome := by
  obtain ⟨hv, hr⟩ := guarded_run (P := Inv) (G := fun lb op => op.Allowed lb)
    (fun lb op h hop => (h.allowed op hop).imp fun _ ht => ⟨ht, h.step op ht⟩)
    (create raw modid cmdid) ops (Inv.create ..) hops
  exact ⟨fun lb hlb => (hv lb hlb).listsPartition, hr⟩

/-- A host that fails and is then chosen again. -/
def failingRun : List LbOp :=
  [.update bumpMemory 100 [⟨1, 80⟩, ⟨2, 0⟩], .report 101 101 2 0 1, .choiceOneHost { }]

theorem lists_partition_hosts_failingRun :
    (∀ lb ∈ visited (lbStep? defaultConfig) (create ⟨0, 0, .new⟩ 1 1) failingRun,
      ListsPartition lb) ∧
      (run? (lbStep? defaultConfig) (create ⟨0, 0, .new⟩ 1 1) failingRun).isSome := by
  apply lists_partition_hosts
  decide +kernel

end LoadBalance

namespace LoadBalance

/-- What there is to tell of a host. -/
def hostResult (lb : LoadBalance) (p : Ptr) : Proto.HostCallResult :=
  ⟨(lb.hosts p).ip.toInt32, (lb.hosts p).port, (lb.hosts p).rsucc, (lb.hosts p).rerr,
    (lb.hosts p).overload⟩

variable {R : Type} {lb : LoadBalance}

/-- No two entries of the map point to one host. -/
theorem Inv.pointers_nodup (h : lb.Inv) : lb.pointers.Nodup := by
  refine List.Nodup.map_on ?_ lb.hostMap.nodupKeys.nodup
  rintro ⟨k, p⟩ hk ⟨k', p'⟩ hk' hp
  cases hp
  cases h.injective k k' p (AList.mem_lookup_iff.mpr hk) (AList.mem_lookup_iff.mpr hk')
  rfl

/-- The two lists are the hosts of the map in another order. -/
theorem Inv.lists_perm (h : lb.Inv) : (lb.idleList ++ lb.overloadList).Perm lb.pointers := by
  have hnodup : (lb.idleList ++ lb.overloadList).Nodup :=
    List.nodup_append'.mpr ⟨h.split.left_nodup, h.split.right_nodup,
      fun p hl hr => h.split.disjoint p hl hr⟩
  refine (List.perm_ext_iff_of_nodup hnodup h.pointers_nodup).mpr fun p => ?_
  rw [List.mem_append, h.split.mem_iff, mem_pointers]

/-- The list that a host is reported from tells its flag. -/
theorem Inv.callResults_eq (h : lb.Inv) :
    lb.idleList.map (lb.callResult false) ++ lb.overloadList.map (lb.callResult true) =
      (lb.idleList ++ lb.overloadList).map lb.hostResult := by
  have hflag := h.listsPartition
  rw [List.map_append]
  congr 1
  · refine List.map_congr_left fun p hp => ?_
    have hheld := (hflag.union p).mp (Or.inl hp)
    rw [callResult, hostResult, (hflag.idle_iff p hheld).mpr hp]
  · refine List.map_congr_left fun p hp => ?_
    have hheld := (hflag.union p).mp (Or.inr hp)
    rw [callResult, hostResult, (hflag.overload_iff p hheld).mpr hp]

/-- A report committed for a module with hosts tells of each of them once. -/
theorem Inv.commit_perm (h : lb.Inv) (cfg : Config R) (time : Int64) (hne : lb.empty = false) :
    ∃ req, lb.commit cfg time = some req ∧
      req.results.Perm (lb.getAllHosts.map lb.hostResult) := by
  obtain ⟨p, hp⟩ := lb.holds_of_not_empty hne
  obtain ⟨req, hreq, hresults⟩ := commit_of_holds cfg hp time
  refine ⟨req, hreq, ?_⟩
  rw [hresults, h.callResults_eq]
  exact h.lists_perm.map _

end LoadBalance

end Lrlb.Agent
