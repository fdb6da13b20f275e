import Lrlb.Agent.Update

/-! What `update` does to the lists: who stays, who goes and who is new, with hosts told apart by
the key that `update` computes. -/
namespace Lrlb.Agent
open Lib

namespace LoadBalance

def responseKeys (rsp : List Proto.HostInfo) : List UInt64 := rsp.map fun x => updateKey x.ip x.port

/-- The listed keys that the module does not have, in the order in which they first occur. -/
def newKeys (lb : LoadBalance) (rsp : List Proto.HostInfo) : List UInt64 :=
  ((responseKeys rsp).filter (· ∉ lb.hostMap)).eraseDups

/-- The host at `p` is listed. -/
def Survives (lb : LoadBalance) (rsp : List Proto.HostInfo) (p : Ptr) : Prop :=
  ∃ k ∈ responseKeys rsp, lb.hostMap.lookup k = some p

instance (lb : LoadBalance) (rsp : List Proto.HostInfo) (p : Ptr) : Decidable (Survives lb rsp p) :=
  inferInstanceAs (Decidable (∃ k ∈ responseKeys rsp, _))

variable {R : Type} (cfg : Config R) (mem : Memory)

theorem newKeys_cons_old {lb : LoadBalance} {x : Proto.HostInfo}
    (hx : updateKey x.ip x.port ∈ lb.hostMap) (rsp : List Proto.HostInfo) :
    newKeys lb (x :: rsp) = newKeys lb rsp := by
  simp [newKeys, responseKeys, hx]

theorem newKeys_cons_new {lb : LoadBalance} {x : Proto.HostInfo}
    (hx : updateKey x.ip x.port ∉ lb.hostMap) (rsp : List Proto.HostInfo) :
    newKeys lb (x :: rsp) = updateKey x.ip x.port :: newKeys (lb.insertHost cfg mem x) rsp := by
  have hfilter : ((responseKeys rsp).filter (· ∉ lb.hostMap)).filter
      (fun k => !k == updateKey x.ip x.port) =
        (responseKeys rsp).filter (· ∉ (lb.insertHost cfg mem x).hostMap) := by
    rw [List.filter_filter]
    refine List.filter_congr fun k _ => ?_
    by_cases hk : k = updateKey x.ip x.port <;> simp [insertHost_mem, hk]
  rw [newKeys, responseKeys, List.map_cons, List.filter_cons_of_pos (by simpa using hx),
    List.eraseDups_cons]
  exact congrArg (fun l => _ :: List.eraseDups l) hfilter

/-- The first loop of `update` appends the new hosts to the idle list. -/
theorem insertHosts_lists (lb : LoadBalance) (rsp : List Proto.HostInfo) :
    ∃ new, (rsp.foldl (insertHost cfg mem) lb).idleList = lb.idleList ++ new ∧
      (rsp.foldl (insertHost cfg mem) lb).overloadList = lb.overloadList ∧
      new.map some =
        (newKeys lb rsp).map (rsp.foldl (insertHost cfg mem) lb).hostMap.lookup := by
  induction rsp generalizing lb with
  | nil => exact ⟨[], by simp, rfl, rfl⟩
  | cons x rsp ih =>
    rw [List.foldl_cons]
    obtain ⟨new, hidle, hover, hlook⟩ := ih (lb.insertHost cfg mem x)
    by_cases hx : updateKey x.ip x.port ∈ lb.hostMap
    · have hsame : lb.insertHost cfg mem x = lb := if_pos hx
      rw [hsame] at hidle hover hlook ⊢
      exact ⟨new, hidle, hover, by rw [newKeys_cons_old hx, hlook]⟩
    · have hmake : lb.insertHost cfg mem x = _ := if_neg hx
      have hlist : (lb.insertHost cfg mem x).idleList = lb.idleList ++ [mem.new lb.pointers] := by
        rw [hmake]
      have hfirst : (lb.insertHost cfg mem x).hostMap.lookup (updateKey x.ip x.port) =
          some (mem.new lb.pointers) := by
        rw [hmake]
        exact AList.lookup_insert _
      refine ⟨mem.new lb.pointers :: new, ?_, ?_, ?_⟩
      · rw [hidle, hlist, List.append_assoc, List.singleton_append]
      · rw [hover, hmake]
      · rw [newKeys_cons_new cfg mem hx, List.map_cons, List.map_cons, hlook,
          (insertHosts_old cfg mem (lb.insertHost cfg mem x) rsp hfirst).1]

/-- Deleting a key takes its host out of the list that its flag names, and it is in no other. -/
theorem deleteHost_lists {lb : LoadBalance} (h : lb.Inv) (key : UInt64) :
    (lb.deleteHost key).idleList =
        lb.idleList.filter (fun p => lb.hostMap.lookup key ≠ some p) ∧
      (lb.deleteHost key).overloadList =
        lb.overloadList.filter fun p => lb.hostMap.lookup key ≠ some p := by
  unfold deleteHost
  cases hkey : lb.hostMap.lookup key with
  | none => simp
  | some q =>
    have hq : lb.Holds q := ⟨key, hkey⟩
    have hremove : ∀ l : List Ptr, l.filter (fun p => some q ≠ some p) = remove q l := by
      intro l
      exact List.filter_congr fun p _ => by simp [eq_comm]
    have hkeep : ∀ l : List Ptr, q ∉ l → remove q l = l := by
      intro l hl
      refine List.filter_eq_self.mpr fun p hp => ?_
      simpa using ne_of_mem_of_not_mem hp hl
    rw [hremove, hremove]
    dsimp only
    split_ifs with hover
    · have hidle : q ∉ lb.idleList := fun hm => h.split.disjoint q hm (h.mem_overload hq hover)
      exact ⟨(hkeep _ hidle).symm, rfl⟩
    · have hlist : q ∉ lb.overloadList :=
        h.split.disjoint q (h.mem_idle hq (by simpa using hover))
      exact ⟨rfl, (hkeep _ hlist).symm⟩

theorem deleteHosts_lists {lb : LoadBalance} (h : lb.Inv) (keys : List UInt64) :
    (keys.foldl deleteHost lb).idleList =
        lb.idleList.filter (fun p => some p ∉ keys.map lb.hostMap.lookup) ∧
      (keys.foldl deleteHost lb).overloadList =
        lb.overloadList.filter fun p => some p ∉ keys.map lb.hostMap.lookup := by
  induction keys generalizing lb with
  | nil => simp
  | cons key keys ih =>
    obtain ⟨hidle, hover⟩ := ih (h.deleteHost key)
    obtain ⟨hidle₁, hover₁⟩ := deleteHost_lists h key
    have hboth : ∀ p, (decide (some p ∉ keys.map (lb.deleteHost key).hostMap.lookup) &&
        decide (lb.hostMap.lookup key ≠ some p)) =
          decide (some p ∉ (key :: keys).map lb.hostMap.lookup) := by
      intro p
      rw [← Bool.decide_and, decide_eq_decide]
      simp only [List.mem_map, not_exists, not_and]
      rw [List.forall_mem_cons, and_comm]
      refine and_congr_right fun hfirst => forall₂_congr fun k _ => ?_
      rw [deleteHost_lookup]
      split_ifs with hk
      · subst k
        simp [hfirst]
      · rfl
    rw [List.foldl_cons, hidle, hover, hidle₁, hover₁, List.filter_filter, List.filter_filter]
    exact ⟨List.filter_congr fun p _ => hboth p, List.filter_congr fun p _ => hboth p⟩

/-- The second loop of `update` leaves the listed hosts in the lists, in their order. -/
theorem deleteHosts_needDelete_lists {lb : LoadBalance} (h : lb.Inv) (rsp : List Proto.HostInfo) :
    ((needDelete (responseKeys rsp) lb).foldl deleteHost lb).idleList =
        lb.idleList.filter (fun p => Survives lb rsp p) ∧
      ((needDelete (responseKeys rsp) lb).foldl deleteHost lb).overloadList =
        lb.overloadList.filter fun p => Survives lb rsp p := by
  have hkept : ∀ p, lb.Holds p →
      (some p ∉ (needDelete (responseKeys rsp) lb).map lb.hostMap.lookup ↔
        Survives lb rsp p) := by
    rintro p ⟨k, hk⟩
    have hm : k ∈ lb.hostMap := AList.lookup_isSome.mp (by simp [hk])
    simp only [List.mem_map, not_exists, not_and]
    constructor
    · intro hall
      refine ⟨k, ?_, hk⟩
      by_contra hn
      exact hall k ((mem_needDelete _ lb k).mpr ⟨hm, hn⟩) hk
    · rintro ⟨k₁, hk₁, hp⟩ k₂ hk₂ hp₂
      cases h.injective k₁ k₂ p hp hp₂
      exact ((mem_needDelete _ lb k₁).mp hk₂).2 hk₁
  obtain ⟨hidle, hover⟩ := deleteHosts_lists h (needDelete (responseKeys rsp) lb)
  rw [hidle, hover]
  refine ⟨List.filter_congr fun p hp => ?_, List.filter_congr fun p hp => ?_⟩
  · exact decide_eq_decide.mpr (hkept p ((h.split.mem_iff p).mp (Or.inl hp)))
  · exact decide_eq_decide.mpr (hkept p ((h.split.mem_iff p).mp (Or.inr hp)))

theorem insertHosts_of_mem {lb : LoadBalance} {rsp : List Proto.HostInfo}
    (h : ∀ k ∈ responseKeys rsp, k ∈ lb.hostMap) : rsp.foldl (insertHost cfg mem) lb = lb := by
  induction rsp with
  | nil => rfl
  | cons x rsp ih =>
    obtain ⟨hx, hrsp⟩ := List.forall_mem_cons.mp h
    rw [List.foldl_cons, show lb.insertHost cfg mem x = lb from if_pos hx]
    exact ih hrsp

/-- An update that finds nothing to do sets the time of the update and the status. -/
theorem update?_of_keys {lb : LoadBalance} {rsp : List Proto.HostInfo} (hrsp : rsp ≠ [])
    (hkeys : ∀ k, k ∈ lb.hostMap ↔ k ∈ responseKeys rsp) (currentTime : Int64) :
    lb.update? cfg mem currentTime rsp =
      some { lb with lastUpdateTime := currentTime, status := .new } := by
  have hdelete : needDelete (responseKeys rsp) lb = [] := by
    refine List.eq_nil_iff_forall_not_mem.mpr fun k hk => ?_
    obtain ⟨hm, hn⟩ := (mem_needDelete _ lb k).mp hk
    exact hn ((hkeys k).mp hm)
  unfold update?
  rw [if_neg hrsp, insertHosts_of_mem cfg mem fun k hk => (hkeys k).mpr hk]
  change some { (needDelete (responseKeys rsp) lb).foldl deleteHost lb with
    lastUpdateTime := currentTime, status := .new } = _
  rw [hdelete]
  rfl

/-- The module after an update, compared with the module before it. -/
structure Merged (cfg : Config R) (mem : Memory) (lb : LoadBalance) (rsp : List Proto.HostInfo)
    (lb' : LoadBalance) : Prop where
  keys : ∀ k, k ∈ lb'.hostMap ↔ k ∈ responseKeys rsp
  kept : ∀ k p, lb.hostMap.lookup k = some p → k ∈ responseKeys rsp →
    lb'.hostMap.lookup k = some p ∧ lb'.hosts p = lb.hosts p
  idleList : ∃ new, lb'.idleList = lb.idleList.filter (fun p => Survives lb rsp p) ++ new ∧
    new.map some = (newKeys lb rsp).map lb'.hostMap.lookup
  overloadList : lb'.overloadList = lb.overloadList.filter fun p => Survives lb rsp p
  fresh : ∀ k p, k ∉ lb.hostMap → lb'.hostMap.lookup k = some p →
    ∃ x, rsp.find? (fun y => updateKey y.ip y.port = k) = some x ∧
      lb'.hosts p = HostInfo.new (mem.raw p) x.ip.toUInt32 x.port cfg.initSuccCnt.toUInt32
  gone : ∀ k p, lb.hostMap.lookup k = some p → k ∉ responseKeys rsp →
    k ∉ lb'.hostMap ∧ p ∉ lb'.idleList ∧ p ∉ lb'.overloadList
  again : ∀ mem' currentTime, lb'.update? cfg mem' currentTime rsp =
    some { lb' with lastUpdateTime := currentTime }

variable {cfg mem} {lb lb' : LoadBalance} {rsp : List Proto.HostInfo} {currentTime : Int64}

theorem mem_newKeys {k : UInt64} :
    k ∈ newKeys lb rsp ↔ k ∈ responseKeys rsp ∧ k ∉ lb.hostMap := by
  simp [newKeys, List.mem_eraseDups]

/-- A host that the module had before survives the whole update if it is listed. -/
theorem survives_insertHosts (h : lb.Inv) {p : Ptr} (hp : lb.Holds p) :
    Survives (rsp.foldl (insertHost cfg mem) lb) rsp p ↔ Survives lb rsp p := by
  have hinv : (rsp.foldl (insertHost cfg mem) lb).Inv := h.insertHosts mem rsp
  obtain ⟨k, hk⟩ := hp
  have hk' := (insertHosts_old cfg mem lb rsp hk).1
  constructor
  · rintro ⟨k₁, hlisted, hk₁⟩
    cases hinv.injective k k₁ p hk' hk₁
    exact ⟨k, hlisted, hk⟩
  · rintro ⟨k₁, hlisted, hk₁⟩
    exact ⟨k₁, hlisted, (insertHosts_old cfg mem lb rsp hk₁).1⟩

/-- The lists after an update. -/
theorem update?_lists (h : lb.Inv) (hu : lb.update? cfg mem currentTime rsp = some lb') :
    (∃ new, lb'.idleList = lb.idleList.filter (fun p => Survives lb rsp p) ++ new ∧
      new.map some = (newKeys lb rsp).map lb'.hostMap.lookup ∧ ∀ p ∈ new, ¬ lb.Holds p) ∧
      lb'.overloadList = lb.overloadList.filter fun p => Survives lb rsp p := by
  unfold update? at hu
  split_ifs at hu with hrsp
  obtain rfl := Option.some.inj hu
  have hinv : (rsp.foldl (insertHost cfg mem) lb).Inv := h.insertHosts mem rsp
  obtain ⟨new, hidle, hover, hlook⟩ := insertHosts_lists cfg mem lb rsp
  obtain ⟨hidle', hover'⟩ := deleteHosts_needDelete_lists hinv rsp
  have hlookup := deleteHosts_needDelete_lookup (responseKeys rsp)
    (rsp.foldl (insertHost cfg mem) lb)
  have hnew : ∀ p ∈ new, ∃ k ∈ newKeys lb rsp,
      (rsp.foldl (insertHost cfg mem) lb).hostMap.lookup k = some p := by
    intro p hp
    have hp' : some p ∈ new.map some := List.mem_map_of_mem hp
    rwa [hlook, List.mem_map] at hp'
  refine ⟨⟨new, ?_, ?_, ?_⟩, ?_⟩
  · refine hidle'.trans ?_
    rw [hidle, List.filter_append]
    congr 1
    · refine List.filter_congr fun p hp => decide_eq_decide.mpr ?_
      exact survives_insertHosts h ((h.split.mem_iff p).mp (Or.inl hp))
    · refine List.filter_eq_self.mpr fun p hp => decide_eq_true ?_
      obtain ⟨k, hk, hkp⟩ := hnew p hp
      exact ⟨k, (mem_newKeys.mp hk).1, hkp⟩
  · rw [hlook]
    refine List.map_congr_left fun k hk => ?_
    exact ((hlookup k).trans (if_pos (mem_newKeys.mp hk).1)).symm
  · rintro p hp ⟨k₁, hk₁⟩
    obtain ⟨k, hk, hkp⟩ := hnew p hp
    cases hinv.injective k k₁ p hkp (insertHosts_old cfg mem lb rsp hk₁).1
    exact (mem_newKeys.mp hk).2 (AList.lookup_isSome.mp (by simp [hk₁]))
  · refine hover'.trans ?_
    rw [hover]
    refine List.filter_congr fun p hp => decide_eq_decide.mpr ?_
    exact survives_insertHosts h ((h.split.mem_iff p).mp (Or.inr hp))

/-- In every state of a module, an update keeps the listed hosts as they are and in their order,
appends the new ones to the idle list, drops the others, and has nothing left to do for the same
response. -/
theorem update_merges [RateArith R] {raw : RawLoadBalance} {modid cmdid : Int32}
    (hlb : Reachable (lbStep? cfg) (create raw modid cmdid) lb) (mem : Memory)
    (currentTime : Int64) (hrsp : rsp ≠ []) :
    ∃ lb', lb.update? cfg mem currentTime rsp = some lb' ∧ Merged cfg mem lb rsp lb' := by
  obtain ⟨lb', hu⟩ : ∃ lb', lb.update? cfg mem currentTime rsp = some lb' := ⟨_, if_neg hrsp⟩
  have hi := Inv.of_reachable hlb
  have hspec := update?_spec hu
  obtain ⟨⟨new, hidle, hnew, hfresh⟩, hover⟩ := update?_lists hi hu
  refine ⟨lb', hu, hspec.mem_iff, hspec.old, ⟨new, hidle, hnew⟩, hover, ?_, ?_, ?_⟩
  · exact fun k p hk hp => update?_new hu hp hk
  · intro k p hk hn
    have hdrop : ¬ Survives lb rsp p := by
      rintro ⟨k₁, hlisted, hk₁⟩
      cases hi.injective k k₁ p hk hk₁
      exact hn hlisted
    refine ⟨fun hm => hn ((hspec.mem_iff k).mp hm), fun hm => ?_, fun hm => ?_⟩
    · rw [hidle, List.mem_append, List.mem_filter] at hm
      obtain ⟨-, hs⟩ | hm := hm
      · exact hdrop (of_decide_eq_true hs)
      · exact hfresh p hm ⟨k, hk⟩
    · rw [hover, List.mem_filter] at hm
      exact hdrop (of_decide_eq_true hm.2)
  · intro mem' t
    rw [update?_of_keys cfg mem' hrsp hspec.mem_iff t, ← hspec.status]

/-- A response that lists one old host, leaves out the other and brings a new one twice. -/
theorem update_merges_three_hosts :
    ∃ lb lb', (create ⟨0, 0, .new⟩ 1 1).update? defaultConfig bumpMemory 100 [⟨1, 0⟩, ⟨2, 0⟩] =
        some lb ∧
      lb.update? defaultConfig bumpMemory 200 [⟨3, 0⟩, ⟨2, 0⟩, ⟨3, 0⟩] = some lb' ∧
      Merged defaultConfig bumpMemory lb [⟨3, 0⟩, ⟨2, 0⟩, ⟨3, 0⟩] lb' := by
  obtain ⟨lb, hlb⟩ : ∃ lb, (create ⟨0, 0, .new⟩ 1 1).update? defaultConfig bumpMemory 100
    [⟨1, 0⟩, ⟨2, 0⟩] = some lb := ⟨_, rfl⟩
  have hreach : Reachable (lbStep? defaultConfig) (create ⟨0, 0, .new⟩ 1 1) lb :=
    (Reachable.refl _).tail (a := .update bumpMemory 100 [⟨1, 0⟩, ⟨2, 0⟩]) hlb
  obtain ⟨lb', hu, hm⟩ := update_merges hreach bumpMemory 200
    (List.cons_ne_nil (⟨3, 0⟩ : Proto.HostInfo) [⟨2, 0⟩, ⟨3, 0⟩])
  exact ⟨lb, lb', hlb, hu, hm⟩

end LoadBalance

end Lrlb.Agent
