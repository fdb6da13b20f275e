import Lrlb.Agent.Report

/-! What `update` leaves in the host map, and the two keys a host goes by. -/
namespace Lrlb.Agent
open Lib

namespace LoadBalance

variable {R : Type} (cfg : Config R) (mem : Memory)

theorem insertHost_mem (lb : LoadBalance) (x : Proto.HostInfo) (k : UInt64) :
    k ∈ (lb.insertHost cfg mem x).hostMap ↔ k = updateKey x.ip x.port ∨ k ∈ lb.hostMap := by
  unfold insertHost
  dsimp only
  split_ifs with hkey
  · refine ⟨Or.inr, ?_⟩
    rintro (rfl | h)
    · exact hkey
    · exact h
  · exact AList.mem_insert _

/-- Inserting never disturbs a host that is already there. -/
theorem insertHost_old (lb : LoadBalance) (x : Proto.HostInfo) {k : UInt64} {q : Ptr}
    (hq : lb.hostMap.lookup k = some q) :
    (lb.insertHost cfg mem x).hostMap.lookup k = some q ∧
      (lb.insertHost cfg mem x).hosts q = lb.hosts q := by
  unfold insertHost
  dsimp only
  split_ifs with hkey
  · exact ⟨hq, rfl⟩
  · have hne : k ≠ updateKey x.ip x.port := by
      rintro rfl
      exact hkey (AList.lookup_isSome.mp (by simp [hq]))
    have hfresh : q ≠ mem.new lb.pointers := by
      rintro rfl
      exact mem.fresh _ ((mem_pointers lb _).mpr ⟨k, hq⟩)
    exact ⟨by rw [AList.lookup_insert_ne hne]; exact hq, Function.update_of_ne hfresh ..⟩

theorem insertHost_new (lb : LoadBalance) (x : Proto.HostInfo) {k : UInt64} {p : Ptr}
    (hp : (lb.insertHost cfg mem x).hostMap.lookup k = some p) (hk : k ∉ lb.hostMap) :
    k = updateKey x.ip x.port ∧ (lb.insertHost cfg mem x).hosts p =
      HostInfo.new (mem.raw p) x.ip.toUInt32 x.port cfg.initSuccCnt.toUInt32 := by
  have hkx : k = updateKey x.ip x.port := by
    rcases (insertHost_mem cfg mem lb x k).mp (AList.lookup_isSome.mp (by simp [hp])) with h | h
    · exact h
    · exact absurd h hk
  subst hkx
  refine ⟨rfl, ?_⟩
  unfold insertHost at hp ⊢
  dsimp only at hp ⊢
  rw [if_neg hk] at hp ⊢
  rw [AList.lookup_insert] at hp
  cases Option.some.inj hp
  exact Function.update_self ..

theorem insertHosts_mem (lb : LoadBalance) (rsp : List Proto.HostInfo) (k : UInt64) :
    k ∈ (rsp.foldl (insertHost cfg mem) lb).hostMap ↔
      k ∈ rsp.map (fun x => updateKey x.ip x.port) ∨ k ∈ lb.hostMap := by
  induction rsp generalizing lb with
  | nil => simp
  | cons x rsp ih =>
    rw [List.foldl_cons, ih, insertHost_mem, List.map_cons, List.mem_cons]
    tauto

theorem insertHosts_old (lb : LoadBalance) (rsp : List Proto.HostInfo) {k : UInt64} {q : Ptr}
    (hq : lb.hostMap.lookup k = some q) :
    (rsp.foldl (insertHost cfg mem) lb).hostMap.lookup k = some q ∧
      (rsp.foldl (insertHost cfg mem) lb).hosts q = lb.hosts q := by
  induction rsp generalizing lb with
  | nil => exact ⟨hq, rfl⟩
  | cons x rsp ih =>
    obtain ⟨hl, hh⟩ := insertHost_old cfg mem lb x hq
    obtain ⟨hl', hh'⟩ := ih (lb.insertHost cfg mem x) hl
    exact ⟨hl', hh'.trans hh⟩

/-- A new record is made from the first listed host with its key. -/
theorem insertHosts_new (lb : LoadBalance) (rsp : List Proto.HostInfo) {k : UInt64} {p : Ptr}
    (hp : (rsp.foldl (insertHost cfg mem) lb).hostMap.lookup k = some p) (hk : k ∉ lb.hostMap) :
    ∃ x, rsp.find? (fun y => updateKey y.ip y.port = k) = some x ∧
      (rsp.foldl (insertHost cfg mem) lb).hosts p =
        HostInfo.new (mem.raw p) x.ip.toUInt32 x.port cfg.initSuccCnt.toUInt32 := by
  induction rsp generalizing lb with
  | nil => exact absurd (AList.lookup_isSome.mp (by simpa using congrArg Option.isSome hp)) hk
  | cons x rsp ih =>
    rw [List.foldl_cons] at hp ⊢
    by_cases hkx : k ∈ (lb.insertHost cfg mem x).hostMap
    · obtain ⟨q, hq⟩ := Option.isSome_iff_exists.mp (AList.lookup_isSome.mpr hkx)
      obtain ⟨hl, hh⟩ := insertHosts_old cfg mem (lb.insertHost cfg mem x) rsp hq
      obtain ⟨hkey, hnew⟩ := insertHost_new cfg mem lb x hq hk
      cases Option.some.inj (hp.symm.trans hl)
      exact ⟨x, List.find?_cons_of_pos (by simpa using hkey.symm), hh.trans hnew⟩
    · obtain ⟨y, hy, hnew⟩ := ih (lb.insertHost cfg mem x) hp hkx
      have hne : updateKey x.ip x.port ≠ k := fun he =>
        hkx ((insertHost_mem cfg mem lb x k).mpr (Or.inl he.symm))
      exact ⟨y, (List.find?_cons_of_neg (by simpa using hne)).trans hy, hnew⟩

@[simp] theorem deleteHost_hosts (lb : LoadBalance) (key : UInt64) :
    (lb.deleteHost key).hosts = lb.hosts := by
  unfold deleteHost
  split
  · rfl
  · split_ifs <;> rfl

theorem deleteHost_lookup (lb : LoadBalance) (key k : UInt64) :
    (lb.deleteHost key).hostMap.lookup k = if k = key then none else lb.hostMap.lookup k := by
  have he : (lb.deleteHost key).hostMap.lookup k = (lb.hostMap.erase key).lookup k := by
    unfold deleteHost
    split
    · rename_i hnone
      by_cases hk : k = key
      · subst k; rw [hnone, AList.lookup_erase]
      · rw [AList.lookup_erase_ne hk]
    · split_ifs <;> rfl
  rw [he]
  split_ifs with hk
  · subst k; exact AList.lookup_erase _ _
  · exact AList.lookup_erase_ne hk

@[simp] theorem deleteHosts_hosts (lb : LoadBalance) (keys : List UInt64) :
    (keys.foldl deleteHost lb).hosts = lb.hosts := by
  induction keys generalizing lb with
  | nil => rfl
  | cons key keys ih => rw [List.foldl_cons, ih, deleteHost_hosts]

theorem deleteHosts_lookup (lb : LoadBalance) (keys : List UInt64) (k : UInt64) :
    (keys.foldl deleteHost lb).hostMap.lookup k =
      if k ∈ keys then none else lb.hostMap.lookup k := by
  induction keys generalizing lb with
  | nil => simp
  | cons key keys ih =>
    rw [List.foldl_cons, ih, deleteHost_lookup]
    by_cases hk : k = key <;> by_cases hm : k ∈ keys <;> simp [hk, hm]

theorem mem_needDelete (remote : List UInt64) (lb : LoadBalance) (k : UInt64) :
    k ∈ needDelete remote lb ↔ k ∈ lb.hostMap ∧ k ∉ remote := by
  unfold needDelete
  rw [List.mem_insertionSort, List.mem_filter, AList.mem_keys]
  simp

/-- The second loop of `update` leaves the entries of the response's keys. -/
theorem deleteHosts_needDelete_lookup (remote : List UInt64) (lb : LoadBalance) (k : UInt64) :
    ((needDelete remote lb).foldl deleteHost lb).hostMap.lookup k =
      if k ∈ remote then lb.hostMap.lookup k else none := by
  have hn := mem_needDelete remote lb k
  rw [deleteHosts_lookup]
  by_cases hr : k ∈ remote
  · rw [if_neg (fun hk => (hn.mp hk).2 hr), if_pos hr]
  · rw [if_neg hr]
    split_ifs with hk
    · rfl
    · exact AList.lookup_eq_none.mpr fun hm => hk (hn.mpr ⟨hm, hr⟩)

variable {cfg mem} {lb lb' : LoadBalance} {rsp : List Proto.HostInfo} {currentTime : Int64}

/-- After `update` an entry is one of the response's keys: an old entry with its record
untouched, or a new record made from a listed host. -/
structure Updated (cfg : Config R) (mem : Memory) (lb : LoadBalance) (rsp : List Proto.HostInfo)
    (lb' : LoadBalance) : Prop where
  mem_iff : ∀ k, k ∈ lb'.hostMap ↔ k ∈ rsp.map fun x => updateKey x.ip x.port
  old : ∀ k q, lb.hostMap.lookup k = some q → k ∈ rsp.map (fun x => updateKey x.ip x.port) →
    lb'.hostMap.lookup k = some q ∧ lb'.hosts q = lb.hosts q
  new : ∀ k p, lb'.hostMap.lookup k = some p → k ∉ lb.hostMap →
    ∃ x ∈ rsp, k = updateKey x.ip x.port ∧
      lb'.hosts p = HostInfo.new (mem.raw p) x.ip.toUInt32 x.port cfg.initSuccCnt.toUInt32
  status : lb'.status = .new

/-- What is left of the hosts inserted: those that the response lists, with their records. -/
theorem update?_maps (h : lb.update? cfg mem currentTime rsp = some lb') :
    (∀ k, lb'.hostMap.lookup k = if k ∈ rsp.map (fun x => updateKey x.ip x.port) then
        (rsp.foldl (insertHost cfg mem) lb).hostMap.lookup k else none) ∧
      lb'.hosts = (rsp.foldl (insertHost cfg mem) lb).hosts ∧ lb'.status = .new := by
  unfold update? at h
  split_ifs at h with hrsp
  obtain rfl := Option.some.inj h
  exact ⟨deleteHosts_needDelete_lookup _ _, deleteHosts_hosts _ _, rfl⟩

theorem update?_new (h : lb.update? cfg mem currentTime rsp = some lb') {k : UInt64} {p : Ptr}
    (hp : lb'.hostMap.lookup k = some p) (hk : k ∉ lb.hostMap) :
    ∃ x, rsp.find? (fun y => updateKey y.ip y.port = k) = some x ∧
      lb'.hosts p = HostInfo.new (mem.raw p) x.ip.toUInt32 x.port cfg.initSuccCnt.toUInt32 := by
  obtain ⟨hlook, hhosts, -⟩ := update?_maps h
  rw [hlook] at hp
  split_ifs at hp with hr
  obtain ⟨x, hx, hnew⟩ := insertHosts_new cfg mem lb rsp hp hk
  exact ⟨x, hx, (congrFun hhosts p).trans hnew⟩

theorem update?_spec (h : lb.update? cfg mem currentTime rsp = some lb') :
    Updated cfg mem lb rsp lb' := by
  obtain ⟨hlook, hhosts, hstatus⟩ := update?_maps h
  refine ⟨?_, ?_, ?_, hstatus⟩
  · intro k
    rw [← AList.lookup_isSome, hlook]
    split_ifs with hr
    · rw [AList.lookup_isSome, insertHosts_mem cfg mem lb rsp k]
      exact ⟨fun _ => hr, Or.inl⟩
    · exact ⟨fun h => absurd h (by simp), fun h => absurd h hr⟩
  · intro k q hq hr
    obtain ⟨hl, hh⟩ := insertHosts_old cfg mem lb rsp hq
    exact ⟨((hlook k).trans (if_pos hr)).trans hl, (congrFun hhosts q).trans hh⟩
  · intro k p hp hk
    obtain ⟨x, hx, hnew⟩ := update?_new h hp hk
    have hkx : updateKey x.ip x.port = k := by simpa using List.find?_some hx
    exact ⟨x, List.mem_of_find?_eq_some hx, hkx.symm, hnew⟩

theorem update?_not_empty (h : lb.update? cfg mem currentTime rsp = some lb') :
    lb'.empty = false := by
  cases rsp with
  | nil => simp [update?] at h
  | cons x rsp =>
    have hm := ((update?_spec h).mem_iff (updateKey x.ip x.port)).mpr (by simp)
    by_contra he
    have hnil : lb'.hostMap.entries = [] := by simpa [empty] using he
    simp [AList.mem_keys, AList.keys, hnil] at hm

theorem insertHosts_accessCnt (lb : LoadBalance) (rsp : List Proto.HostInfo) :
    (rsp.foldl (insertHost cfg mem) lb).accessCnt = lb.accessCnt := by
  induction rsp generalizing lb with
  | nil => rfl
  | cons x rsp ih =>
    rw [List.foldl_cons, ih]
    unfold insertHost
    dsimp only
    split_ifs <;> rfl

theorem deleteHosts_accessCnt (lb : LoadBalance) (keys : List UInt64) :
    (keys.foldl deleteHost lb).accessCnt = lb.accessCnt := by
  induction keys generalizing lb with
  | nil => rfl
  | cons key keys ih =>
    rw [List.foldl_cons, ih]
    unfold deleteHost
    split
    · rfl
    · split_ifs <;> rfl

theorem update?_accessCnt (h : lb.update? cfg mem currentTime rsp = some lb') :
    lb'.accessCnt = lb.accessCnt := by
  unfold update? at h
  split_ifs at h
  cases h
  exact (deleteHosts_accessCnt _ _).trans (insertHosts_accessCnt _ _)

/-- The records that `update` leaves: old ones untouched, and new ones at addresses that held no
host before. -/
theorem update?_record (hi : lb.Inv) (h : lb.update? cfg mem currentTime rsp = some lb') {p : Ptr}
    (hp : lb'.Holds p) :
    (lb.Holds p ∧ lb'.hosts p = lb.hosts p) ∨ (¬ lb.Holds p ∧
      ∃ x ∈ rsp, lb'.hosts p =
        HostInfo.new (mem.raw p) x.ip.toUInt32 x.port cfg.initSuccCnt.toUInt32) := by
  obtain ⟨k, hk⟩ := hp
  obtain ⟨hlook, hhosts, -⟩ := update?_maps h
  have hinv : (rsp.foldl (insertHost cfg mem) lb).Inv := hi.insertHosts mem rsp
  have hk' := (hlook k).symm.trans hk
  split_ifs at hk' with hr
  by_cases hold : k ∈ lb.hostMap
  · obtain ⟨q, hq⟩ := Option.isSome_iff_exists.mp (AList.lookup_isSome.mpr hold)
    obtain ⟨hl, hh⟩ := insertHosts_old cfg mem lb rsp hq
    cases Option.some.inj (hk'.symm.trans hl)
    exact Or.inl ⟨⟨k, hq⟩, (congrFun hhosts p).trans hh⟩
  · obtain ⟨x, hx, hnew⟩ := insertHosts_new cfg mem lb rsp hk' hold
    refine Or.inr ⟨?_, x, List.mem_of_find?_eq_some hx, (congrFun hhosts p).trans hnew⟩
    rintro ⟨k₁, hk₁⟩
    -- an old host at the same address would be stored under the same key
    cases hinv.injective k k₁ p hk' (insertHosts_old cfg mem lb rsp hk₁).1
    exact hold (AList.lookup_isSome.mp (by simp [hk₁]))

end LoadBalance

end Lrlb.Agent
