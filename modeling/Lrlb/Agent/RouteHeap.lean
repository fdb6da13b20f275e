import Lrlb.Agent.Alike

/-! The modules of one agent thread with their objects at addresses: `_route_lb_map` holds pointers
to `load_balance` objects, whose hosts are objects of one common memory. -/
namespace Lrlb.Agent
open Lib
open Proto (GetHostResponse GetRouteResponse GetRouteRequest ReportRequest ReportStatusReq)
open Proto.LrlbRetCode (retSucc retNoexist)

/-- An allocator that also keeps clear of `others`. -/
def Memory.beside (mem : Memory) (others : List Ptr) : Memory where
  new live := mem.new (live ++ others)
  fresh _ h := mem.fresh _ (List.mem_append_left others h)
  raw := mem.raw

theorem Memory.beside_new (mem : Memory) (others live : List Ptr) :
    (mem.beside others).new live ∉ others :=
  fun h => mem.fresh _ (List.mem_append_right live h)

/-- `hosts` has the `host_info` objects of all modules; the one of a `load_balance` is not used. -/
structure RouteHeap where
  routeLbMap : AList fun _ : UInt64 => Ptr
  lbs : Ptr → LoadBalance
  hosts : Ptr → HostInfo

namespace RouteHeap

def empty : RouteHeap := ⟨∅, fun _ => .create ⟨0, 0, .new⟩ 0 0, fun _ => default⟩

/-- The addresses of the `load_balance` objects. -/
def lbPointers (s : RouteHeap) : List Ptr := s.routeLbMap.entries.map Sigma.snd

/-- The addresses of the `host_info` objects of all modules. -/
def hostPointers (s : RouteHeap) : List Ptr := s.lbPointers.flatMap fun q => (s.lbs q).pointers

def load (s : RouteHeap) (q : Ptr) : LoadBalance := { s.lbs q with hosts := s.hosts }

def store (s : RouteHeap) (q : Ptr) (lb : LoadBalance) : RouteHeap :=
  { s with lbs := Function.update s.lbs q lb, hosts := lb.hosts }

def addModule (alloc : Memory) (raw : RawLoadBalance) (s : RouteHeap) (modid cmdid : Int32) :
    RouteHeap × GetRouteRequest :=
  let q := alloc.new s.lbPointers
  let (lb, req) := (LoadBalance.create raw modid cmdid).pull
  ({ s with
      routeLbMap := s.routeLbMap.insert (packInts modid cmdid) q
      lbs := Function.update s.lbs q lb }, req)

variable {R : Type}

def getHost? (cfg : Config R) (time : Int64) (alloc : Memory) (raw : RawLoadBalance) (s : RouteHeap)
    (modid cmdid : Int32) (rsp : GetHostResponse) :
    Option (RouteHeap × GetHostResponse × Int32 × Option GetRouteRequest) :=
  match s.routeLbMap.lookup (packInts modid cmdid) with
  | some q =>
    if (s.load q).empty then
      if (s.load q).status = .pulling then
        some (s, { rsp with retcode := retNoexist.value }, retSucc.value, none)
      else none
    else do
      let (lb, rsp, ret) ← (s.load q).choiceOneHost? cfg rsp
      let (lb, req) := lb.pullIfExpired cfg time
      some (s.store q lb, { rsp with retcode := ret }, ret, req)
  | none =>
    let (s, req) := s.addModule alloc raw modid cmdid
    some (s, { rsp with retcode := retNoexist.value }, retNoexist.value, some req)

def getRoute (cfg : Config R) (time : Int64) (alloc : Memory) (raw : RawLoadBalance) (s : RouteHeap)
    (modid cmdid : Int32) (rsp : GetRouteResponse) :
    RouteHeap × GetRouteResponse × Int32 × Option GetRouteRequest :=
  match s.routeLbMap.lookup (packInts modid cmdid) with
  | some q =>
    let lb := s.load q
    let hosts := lb.getAllHosts.map fun p => ⟨(lb.hosts p).ip.toInt32, (lb.hosts p).port⟩
    let (lb, req) := lb.pullIfExpired cfg time
    (s.store q lb, { rsp with host := rsp.host ++ hosts }, retSucc.value, req)
  | none =>
    let (s, req) := s.addModule alloc raw modid cmdid
    (s, rsp, retNoexist.value, some req)

/-- The destructor of `load_balance` leaves its hosts allocated. -/
def updateHost? (cfg : Config R) (mem : Memory) (currentTime : Int64) (s : RouteHeap)
    (modid cmdid : Int32) (rsp : GetRouteResponse) : Option RouteHeap :=
  match s.routeLbMap.lookup (packInts modid cmdid) with
  | some q =>
    if rsp.host = [] then
      some { s with routeLbMap := s.routeLbMap.erase (packInts modid cmdid) }
    else ((s.load q).update? cfg (mem.beside s.hostPointers) currentTime rsp.host).map (s.store q)
  | none => some s

def reportHost [RateArith R] (cfg : Config R) (currentTime time ts : Int64) (s : RouteHeap)
    (req : ReportRequest) : RouteHeap × Option ReportStatusReq :=
  let host := req.host.getD { }
  match s.routeLbMap.lookup (packInts req.modid req.cmdid) with
  | some q =>
    let lb := (s.load q).report cfg currentTime time host.ip host.port req.retcode
    (s.store q lb, lb.commit cfg ts)
  | none => (s, none)

def resetLbStatus (s : RouteHeap) : RouteHeap :=
  { s with lbs := fun q => if q ∈ s.lbPointers then (s.lbs q).resetStatus else s.lbs q }

/-- An operation with the allocator that it meets for a new `load_balance`. -/
def step? [RateArith R] (cfg : Config R) (s : RouteHeap) : Memory × RouteOp → Option RouteHeap
  | (alloc, .getHost time raw modid cmdid rsp) =>
    (s.getHost? cfg time alloc raw modid cmdid rsp).map Prod.fst
  | (alloc, .getRoute time raw modid cmdid rsp) =>
    some (s.getRoute cfg time alloc raw modid cmdid rsp).1
  | (_, .updateHost mem currentTime modid cmdid rsp) =>
    s.updateHost? cfg mem currentTime modid cmdid rsp
  | (_, .reportHost currentTime time ts req) => some (s.reportHost cfg currentTime time ts req).1
  | (_, .resetLbStatus) => some s.resetLbStatus

/-- The objects of different modules are different objects. -/
structure Separate (s : RouteHeap) : Prop where
  injective : ∀ k k' q, s.routeLbMap.lookup k = some q → s.routeLbMap.lookup k' = some q → k = k'
  disjoint : ∀ k k' q q' p, s.routeLbMap.lookup k = some q → s.routeLbMap.lookup k' = some q' →
    k ≠ k' → (s.lbs q).Holds p → ¬ (s.lbs q').Holds p

/-- The module at a key is the same object with the same contents. -/
structure Unchanged (s s' : RouteHeap) (key : UInt64) : Prop where
  pointer : s'.routeLbMap.lookup key = s.routeLbMap.lookup key
  object : ∀ q, s.routeLbMap.lookup key = some q → s'.lbs q = s.lbs q
  hosts : ∀ q p, s.routeLbMap.lookup key = some q → (s.lbs q).Holds p → s'.hosts p = s.hosts p

end RouteHeap

namespace LoadBalance

variable {R : Type} {others : List Ptr} {lb lb₁ lb₂ : LoadBalance}

/-- An operation of a module stays clear of the hosts of others: it writes none of their records
and takes none of their addresses. -/
structure Local (others : List Ptr) (lb lb' : LoadBalance) : Prop where
  hosts : ∀ p ∈ others, ¬ lb.Holds p → lb'.hosts p = lb.hosts p
  holds : ∀ p, lb'.Holds p → lb.Holds p ∨ p ∉ others

namespace Local

theorem of_same (others : List Ptr) (hmap : lb₁.hostMap = lb.hostMap)
    (hhosts : lb₁.hosts = lb.hosts) : Local others lb lb₁ := by
  refine ⟨fun p _ _ => by rw [hhosts], fun p hp => Or.inl ?_⟩
  rwa [Holds, hmap] at hp

theorem trans (h₁ : Local others lb lb₁) (h₂ : Local others lb₁ lb₂) : Local others lb lb₂ := by
  have hold : ∀ p ∈ others, ¬ lb.Holds p → ¬ lb₁.Holds p := fun p hp hn h =>
    (h₁.holds p h).elim hn fun ho => ho hp
  refine ⟨fun p hp hn => ?_, fun p hp => ?_⟩
  · rw [h₂.hosts p hp (hold p hp hn), h₁.hosts p hp hn]
  · exact (h₂.holds p hp).elim (h₁.holds p) Or.inr

theorem insertHost (cfg : Config R) (mem : Memory) (lb : LoadBalance) (x : Proto.HostInfo) :
    Local others lb (lb.insertHost cfg (mem.beside others) x) := by
  unfold LoadBalance.insertHost
  dsimp only
  split_ifs with hkey
  · exact of_same others rfl rfl
  · have hnew := mem.beside_new others lb.pointers
    refine ⟨fun p hp _ => ?_, fun p hp => ?_⟩
    · have hne : p ≠ (mem.beside others).new lb.pointers := fun he => hnew (he ▸ hp)
      exact Function.update_of_ne hne ..
    · obtain ⟨k, hk⟩ := hp
      rcases (lookup_insert_eq_some_iff hkey).mp hk with ⟨-, rfl⟩ | hk
      · exact Or.inr hnew
      · exact Or.inl ⟨k, hk⟩

theorem deleteHost (others : List Ptr) (lb : LoadBalance) (key : UInt64) :
    Local others lb (lb.deleteHost key) := by
  refine ⟨fun p _ _ => by rw [deleteHost_hosts], fun p hp => Or.inl ?_⟩
  obtain ⟨k, hk⟩ := hp
  rw [deleteHost_lookup] at hk
  split_ifs at hk
  exact ⟨k, hk⟩

theorem foldl {α : Type} {f : LoadBalance → α → LoadBalance} (hf : ∀ lb a, Local others lb (f lb a))
    (as : List α) (lb : LoadBalance) : Local others lb (as.foldl f lb) := by
  induction as generalizing lb with
  | nil => exact of_same others rfl rfl
  | cons a as ih => exact (hf lb a).trans (ih (f lb a))

theorem update {cfg : Config R} {mem : Memory} {currentTime : Int64} {rsp : List Proto.HostInfo}
    (hu : lb.update? cfg (mem.beside others) currentTime rsp = some lb₁) : Local others lb lb₁ := by
  unfold update? at hu
  split_ifs at hu
  cases hu
  exact ((foldl (insertHost cfg mem) rsp lb).trans (foldl (deleteHost others) _ _)).trans
    (of_same others rfl rfl)

theorem report [RateArith R] (others : List Ptr) (cfg : Config R) (currentTime time : Int64)
    (lb : LoadBalance) (ip port retcode : Int32) :
    Local others lb (lb.report cfg currentTime time ip port retcode) := by
  refine ⟨fun q _ hq => ?_, fun p hp => Or.inl ?_⟩
  · refine (report_leavesOthers cfg currentTime time lb ip port retcode).record q fun he => ?_
    exact hq ⟨_, he.symm⟩
  · rwa [Holds, report_hostMap] at hp

end Local

theorem resetStatus_with_hosts (lb : LoadBalance) (hosts : Ptr → HostInfo) :
    { lb with hosts := hosts }.resetStatus = { lb.resetStatus with hosts := hosts } := by
  obtain ⟨_, _, _, _, status⟩ := lb
  cases status <;> rfl

end LoadBalance

namespace RouteHeap

variable {R : Type} {s : RouteHeap} {key : UInt64} {q : Ptr} {lb : LoadBalance}

theorem mem_lbPointers (s : RouteHeap) (q : Ptr) :
    q ∈ s.lbPointers ↔ ∃ key, s.routeLbMap.lookup key = some q := by
  simp only [lbPointers, List.mem_map]
  constructor
  · rintro ⟨⟨key, q⟩, hq, rfl⟩
    exact ⟨key, AList.mem_lookup_iff.mpr hq⟩
  · rintro ⟨key, hkey⟩
    exact ⟨⟨key, q⟩, AList.mem_lookup_iff.mp hkey, rfl⟩

theorem mem_hostPointers (hq : s.routeLbMap.lookup key = some q) {p : Ptr} (hp : (s.lbs q).Holds p) :
    p ∈ s.hostPointers :=
  List.mem_flatMap.mpr ⟨q, (s.mem_lbPointers q).mpr ⟨key, hq⟩, (LoadBalance.mem_pointers _ p).mpr hp⟩

theorem Separate.ne (h : Separate s) (hq : s.routeLbMap.lookup key = some q) {key' : UInt64}
    {q' : Ptr} (hne : key' ≠ key) (hq' : s.routeLbMap.lookup key' = some q') : q' ≠ q := by
  rintro rfl
  exact hne (h.injective key' key q' hq' hq)

/-- Writing back what a local operation made of a module touches that module only. -/
theorem Separate.store_unchanged (h : Separate s) (hq : s.routeLbMap.lookup key = some q)
    (hl : LoadBalance.Local s.hostPointers (s.load q) lb) {key' : UInt64} (hne : key' ≠ key) :
    Unchanged s (s.store q lb) key' := by
  refine ⟨rfl, fun q' hq' => ?_, fun q' p hq' hp => ?_⟩
  · exact Function.update_of_ne (h.ne hq hne hq') ..
  · exact hl.hosts p (mem_hostPointers hq' hp) (h.disjoint key' key q' q p hq' hq hne hp)

theorem Separate.store (h : Separate s) (hq : s.routeLbMap.lookup key = some q)
    (hl : LoadBalance.Local s.hostPointers (s.load q) lb) : Separate (s.store q lb) := by
  refine ⟨h.injective, fun k k' q₁ q₂ p h₁ h₂ hne hp₁ hp₂ => ?_⟩
  change (Function.update s.lbs q lb q₁).Holds p at hp₁
  change (Function.update s.lbs q lb q₂).Holds p at hp₂
  by_cases hk : k = key
  · subst k
    cases Option.some.inj (h₁.symm.trans hq)
    rw [Function.update_self] at hp₁
    rw [Function.update_of_ne (h.ne hq hne.symm h₂)] at hp₂
    rcases hl.holds p hp₁ with hold | hout
    · exact h.disjoint key k' q q₂ p hq h₂ hne hold hp₂
    · exact hout (mem_hostPointers (s := s) h₂ hp₂)
  · rw [Function.update_of_ne (h.ne hq hk h₁)] at hp₁
    by_cases hk' : k' = key
    · subst k'
      cases Option.some.inj (h₂.symm.trans hq)
      rw [Function.update_self] at hp₂
      rcases hl.holds p hp₂ with hold | hout
      · exact h.disjoint k key q₁ q p h₁ hq hne hp₁ hold
      · exact hout (mem_hostPointers (s := s) h₁ hp₁)
    · rw [Function.update_of_ne (h.ne hq hk' h₂)] at hp₂
      exact h.disjoint k k' q₁ q₂ p h₁ h₂ hne hp₁ hp₂

theorem Unchanged.refl (s : RouteHeap) (key : UInt64) : Unchanged s s key :=
  ⟨rfl, fun _ _ => rfl, fun _ _ _ _ => rfl⟩

/-- What an operation on the module at `key` does: the modules stay apart and the others stay as
they are. -/
structure Confined (s s' : RouteHeap) (key : UInt64) : Prop where
  separate : Separate s'
  others : ∀ key', key' ≠ key → Unchanged s s' key'

theorem Confined.refl (h : Separate s) (key : UInt64) : Confined s s key :=
  ⟨h, fun key' _ => Unchanged.refl s key'⟩

theorem Confined.store (h : Separate s) (hq : s.routeLbMap.lookup key = some q)
    (hl : LoadBalance.Local s.hostPointers (s.load q) lb) : Confined s (s.store q lb) key :=
  ⟨h.store hq hl, fun _ hne => h.store_unchanged hq hl hne⟩

/-- The new object is at an address of its own and has no hosts. -/
theorem Confined.addModule (h : Separate s) (alloc : Memory) (raw : RawLoadBalance)
    (modid cmdid : Int32) :
    Confined s (s.addModule alloc raw modid cmdid).1 (packInts modid cmdid) := by
  set q := alloc.new s.lbPointers with hq
  set lb := (LoadBalance.create raw modid cmdid).pull.1 with hlb
  have hnew : ∀ k, s.routeLbMap.lookup k ≠ some q := fun k hk =>
    alloc.fresh _ ((s.mem_lbPointers q).mpr ⟨k, hk⟩)
  have hempty : ∀ p, ¬ lb.Holds p := by
    rintro p ⟨k, hk⟩
    cases hk
  have hget : ∀ k q', (s.addModule alloc raw modid cmdid).1.routeLbMap.lookup k = some q' →
      (k = packInts modid cmdid ∧ q' = q) ∨ (k ≠ packInts modid cmdid ∧ q' ≠ q ∧
        s.routeLbMap.lookup k = some q') := by
    intro k q' hk
    change (s.routeLbMap.insert (packInts modid cmdid) q).lookup k = some q' at hk
    by_cases hkey : k = packInts modid cmdid
    · subst k
      rw [AList.lookup_insert] at hk
      exact Or.inl ⟨rfl, (Option.some.inj hk).symm⟩
    · rw [AList.lookup_insert_ne hkey] at hk
      exact Or.inr ⟨hkey, fun he => hnew k (he ▸ hk), hk⟩
  refine ⟨⟨fun k k' q₁ h₁ h₂ => ?_, fun k k' q₁ q₂ p h₁ h₂ hne hp₁ hp₂ => ?_⟩,
    fun key' hne => ⟨AList.lookup_insert_ne hne, fun q' hq' => ?_, fun q' p hq' hp => rfl⟩⟩
  · rcases hget k q₁ h₁ with ⟨rfl, rfl⟩ | ⟨-, hq₁, hold₁⟩
    · rcases hget k' _ h₂ with ⟨rfl, -⟩ | ⟨-, hself, -⟩
      · rfl
      · exact absurd rfl hself
    · rcases hget k' q₁ h₂ with ⟨-, rfl⟩ | ⟨-, -, hold₂⟩
      · exact absurd rfl hq₁
      · exact h.injective k k' q₁ hold₁ hold₂
  · change (Function.update s.lbs q lb q₁).Holds p at hp₁
    change (Function.update s.lbs q lb q₂).Holds p at hp₂
    rcases hget k q₁ h₁ with ⟨-, rfl⟩ | ⟨-, hq₁, hold₁⟩
    · rw [Function.update_self] at hp₁
      exact hempty p hp₁
    · rcases hget k' q₂ h₂ with ⟨-, rfl⟩ | ⟨-, hq₂, hold₂⟩
      · rw [Function.update_self] at hp₂
        exact hempty p hp₂
      · rw [Function.update_of_ne hq₁] at hp₁
        rw [Function.update_of_ne hq₂] at hp₂
        exact h.disjoint k k' q₁ q₂ p hold₁ hold₂ hne hp₁ hp₂
  · have hold : q' ≠ q := fun he => hnew key' (he ▸ hq')
    exact Function.update_of_ne hold ..

theorem Confined.erase (h : Separate s) (key : UInt64) :
    Confined s { s with routeLbMap := s.routeLbMap.erase key } key := by
  have hget : ∀ k q, (s.routeLbMap.erase key).lookup k = some q → s.routeLbMap.lookup k = some q :=
    fun k q hk => (lookup_erase_eq_some_iff.mp hk).2
  refine ⟨⟨fun k k' q h₁ h₂ => h.injective k k' q (hget k q h₁) (hget k' q h₂),
    fun k k' q q' p h₁ h₂ => h.disjoint k k' q q' p (hget k q h₁) (hget k' q' h₂)⟩,
    fun key' hne => ⟨AList.lookup_erase_ne hne, fun _ _ => rfl, fun _ _ _ _ => rfl⟩⟩

theorem Separate.resetLbStatus (h : Separate s) : Separate s.resetLbStatus := by
  have hholds : ∀ q p, (s.resetLbStatus.lbs q).Holds p → (s.lbs q).Holds p := by
    intro q p hp
    change (if q ∈ s.lbPointers then (s.lbs q).resetStatus else s.lbs q).Holds p at hp
    unfold LoadBalance.resetStatus at hp
    split_ifs at hp <;> exact hp
  exact ⟨h.injective, fun k k' q q' p h₁ h₂ hne hp hp' =>
    h.disjoint k k' q q' p h₁ h₂ hne (hholds q p hp) (hholds q' p hp')⟩

theorem Confined.getHost {cfg : Config R} (h : Separate s) {time : Int64} {alloc : Memory}
    {raw : RawLoadBalance} {modid cmdid : Int32} {rsp : GetHostResponse}
    {out : RouteHeap × GetHostResponse × Int32 × Option GetRouteRequest}
    (hs : s.getHost? cfg time alloc raw modid cmdid rsp = some out) :
    Confined s out.1 (packInts modid cmdid) := by
  unfold getHost? at hs
  cases hq : s.routeLbMap.lookup (packInts modid cmdid) with
  | none =>
    rw [hq] at hs
    cases hs
    exact .addModule h alloc raw modid cmdid
  | some q =>
    rw [hq] at hs
    dsimp only at hs
    split_ifs at hs with hempty hpulling
    · cases hs
      exact .refl h _
    · obtain ⟨⟨lb, rsp₁, ret⟩, hc, hs⟩ := Option.bind_eq_some_iff.mp hs
      cases hs
      obtain ⟨hmap, hhosts⟩ := LoadBalance.choiceOneHost?_hosts hc
      obtain ⟨hmap₁, hhosts₁⟩ := lb.pullIfExpired_hosts cfg time
      exact .store h hq (.of_same _ (hmap₁.trans hmap) (hhosts₁.trans hhosts))

theorem Confined.getRoute (h : Separate s) (cfg : Config R) (time : Int64) (alloc : Memory)
    (raw : RawLoadBalance) (modid cmdid : Int32) (rsp : GetRouteResponse) :
    Confined s (s.getRoute cfg time alloc raw modid cmdid rsp).1 (packInts modid cmdid) := by
  unfold RouteHeap.getRoute
  cases hq : s.routeLbMap.lookup (packInts modid cmdid) with
  | none => exact .addModule h alloc raw modid cmdid
  | some q =>
    obtain ⟨hmap, hhosts⟩ := (s.load q).pullIfExpired_hosts cfg time
    exact .store h hq (.of_same _ hmap hhosts)

theorem Confined.updateHost {cfg : Config R} (h : Separate s) {mem : Memory} {currentTime : Int64}
    {modid cmdid : Int32} {rsp : GetRouteResponse} {s' : RouteHeap}
    (hs : s.updateHost? cfg mem currentTime modid cmdid rsp = some s') :
    Confined s s' (packInts modid cmdid) := by
  unfold updateHost? at hs
  cases hq : s.routeLbMap.lookup (packInts modid cmdid) with
  | none =>
    rw [hq] at hs
    cases hs
    exact .refl h _
  | some q =>
    rw [hq] at hs
    dsimp only at hs
    split_ifs at hs with hrsp
    · cases hs
      exact .erase h _
    · obtain ⟨lb, hu, rfl⟩ := Option.map_eq_some_iff.mp hs
      exact .store h hq (LoadBalance.Local.update hu)

variable [RateArith R]

theorem Confined.reportHost (h : Separate s) (cfg : Config R) (currentTime time ts : Int64)
    (req : ReportRequest) :
    Confined s (s.reportHost cfg currentTime time ts req).1 (packInts req.modid req.cmdid) := by
  unfold RouteHeap.reportHost
  dsimp only
  cases hq : s.routeLbMap.lookup (packInts req.modid req.cmdid) with
  | none => exact .refl h _
  | some q => exact .store h hq (.report _ cfg currentTime time _ _ _ req.retcode)

end RouteHeap

/-- The ids that an operation is about. -/
def RouteOp.module? : RouteOp → Option (Int32 × Int32)
  | .getHost _ _ modid cmdid _ => some (modid, cmdid)
  | .getRoute _ _ modid cmdid _ => some (modid, cmdid)
  | .updateHost _ _ modid cmdid _ => some (modid, cmdid)
  | .reportHost _ _ _ req => some (req.modid, req.cmdid)
  | .resetLbStatus => none

namespace RouteHeap

variable {R : Type} [RateArith R] {cfg : Config R} {s s' : RouteHeap}

theorem Confined.step (h : Separate s) {alloc : Memory} {op : RouteOp} {modid cmdid : Int32}
    (hm : op.module? = some (modid, cmdid)) (hs : s.step? cfg (alloc, op) = some s') :
    Confined s s' (packInts modid cmdid) := by
  cases op with
  | getHost time raw m c rsp =>
    cases hm
    obtain ⟨out, hout, rfl⟩ := Option.map_eq_some_iff.mp hs
    exact .getHost h hout
  | getRoute time raw m c rsp =>
    cases hm
    cases hs
    exact .getRoute h cfg time alloc raw modid cmdid rsp
  | updateHost mem currentTime m c rsp =>
    cases hm
    exact .updateHost h hs
  | reportHost currentTime time ts req =>
    cases hm
    cases hs
    exact .reportHost h cfg currentTime time ts req
  | resetLbStatus => cases hm

theorem Separate.step (h : Separate s) {x : Memory × RouteOp} (hs : s.step? cfg x = some s') :
    Separate s' := by
  obtain ⟨alloc, op⟩ := x
  cases hm : op.module? with
  | some m => exact (Confined.step h hm hs).separate
  | none =>
    cases op with
    | resetLbStatus =>
      cases hs
      exact h.resetLbStatus
    | _ => cases hm

theorem separate_empty : Separate empty := by
  have hnone : ∀ k q, empty.routeLbMap.lookup k ≠ some q := fun k q hk => by
    simp [empty] at hk
  exact ⟨fun k _ q hk _ => absurd hk (hnone k q), fun k _ q _ _ hk _ => absurd hk (hnone k q)⟩

/-- An operation on one pair of ids leaves the module of every other pair as it is, hosts
included, and no two pairs share a module or a host. -/
theorem modules_stay_apart (cfg : Config R) (s : RouteHeap)
    (hs : Reachable (step? cfg) empty s) :
    (∀ alloc op s' modid cmdid, op.module? = some (modid, cmdid) →
      s.step? cfg (alloc, op) = some s' → ∀ modid' cmdid', (modid', cmdid') ≠ (modid, cmdid) →
        Unchanged s s' (packInts modid' cmdid')) ∧
    ∀ modid cmdid modid' cmdid' q q', (modid, cmdid) ≠ (modid', cmdid') →
      s.routeLbMap.lookup (packInts modid cmdid) = some q →
      s.routeLbMap.lookup (packInts modid' cmdid') = some q' →
        q ≠ q' ∧ ∀ p, (s.lbs q).Holds p → ¬ (s.lbs q').Holds p := by
  have hsep : Separate s := hs.invariant (fun _ _ _ h ht => h.step ht) separate_empty
  have hkeys : ∀ {m c m' c' : Int32}, (m, c) ≠ (m', c') → packInts m c ≠ packInts m' c' := by
    intro m c m' c' hne he
    obtain ⟨hm, hc⟩ := packInts_injective he
    exact hne (Prod.ext hm hc)
  refine ⟨fun alloc op s' modid cmdid hm hstep modid' cmdid' hne => ?_,
    fun m c m' c' q q' hne hq hq' => ⟨?_, ?_⟩⟩
  · exact (Confined.step hsep hm hstep).others _ (hkeys hne)
  · exact hsep.ne hq' (hkeys hne) hq
  · exact fun p => hsep.disjoint _ _ q q' p hq hq' (hkeys hne)

/-- Two modules whose keys differ by a borrow, one of them with hosts. -/
def twoModules : List (Memory × RouteOp) :=
  [(bumpMemory, .getHost 100 ⟨0, 0, .new⟩ 1 (-1) { }),
    (bumpMemory, .getHost 100 ⟨0, 0, .new⟩ 0 (-1) { }),
    (bumpMemory, .updateHost bumpMemory 101 1 (-1) { host := [⟨1, 0⟩, ⟨2, 0⟩] })]

theorem modules_stay_apart_twoModules :
    ∃ s s', run? (step? defaultConfig) empty twoModules = some s ∧ s.hostPointers = [2, 1] ∧
      s.step? defaultConfig
        (bumpMemory, .updateHost bumpMemory 102 0 (-1) { host := [⟨1, 0⟩] }) = some s' ∧
      s'.hostPointers.length = 3 ∧ Unchanged s s' (packInts 1 (-1)) := by
  have hrun : ((run? (step? defaultConfig) empty twoModules).bind fun s =>
      (s.step? defaultConfig (bumpMemory, .updateHost bumpMemory 102 0 (-1)
        { host := [⟨1, 0⟩] })).map fun s' => (s.hostPointers, s'.hostPointers.length)) =
      some ([2, 1], 3) := by
    decide +kernel
  obtain ⟨s, hs, hstep⟩ := Option.bind_eq_some_iff.mp hrun
  obtain ⟨s', hs', he⟩ := Option.map_eq_some_iff.mp hstep
  refine ⟨s, s', hs, congrArg Prod.fst he, hs', congrArg Prod.snd he, ?_⟩
  exact (modules_stay_apart defaultConfig s ⟨twoModules, hs⟩).1 _ _ s' 0 (-1) rfl hs' 1 (-1)
    (by decide)

end RouteHeap

/-- Two modules agree in everything. -/
def Trust.all : Trust := ⟨True, True, fun _ => True, fun _ => True⟩

/-- The operation as one module meets it: the hosts of the others take up memory. -/
def RouteOp.beside (others : List Ptr) : RouteOp → RouteOp
  | .updateHost mem currentTime modid cmdid rsp =>
    .updateHost (mem.beside others) currentTime modid cmdid rsp
  | op => op

namespace RouteHeap

variable {R : Type} {cfg : Config R} {s s' : RouteHeap} {r : RouteLb} {key : UInt64}

/-- The map of pointers stands for a map of modules, each of which has only its own hosts. -/
structure Represents (s : RouteHeap) (r : RouteLb) : Prop where
  inv : ∀ key lb, r.routeLbMap key = some lb → lb.Inv
  modules : ∀ key, Option.Rel (fun lb q => lb.Alike .all (s.load q)) (r.routeLbMap key)
    (s.routeLbMap.lookup key)

theorem Represents.at (h : Represents s r) (key : UInt64) :
    (r.routeLbMap key = none ∧ s.routeLbMap.lookup key = none) ∨
      ∃ lb q, r.routeLbMap key = some lb ∧ s.routeLbMap.lookup key = some q ∧ lb.Inv ∧
        lb.Alike .all (s.load q) := by
  have hrel := h.modules key
  cases hget : r.routeLbMap key with
  | none =>
    rw [hget] at hrel
    generalize s.routeLbMap.lookup key = v at hrel
    cases hrel
    exact Or.inl ⟨rfl, rfl⟩
  | some lb =>
    rw [hget] at hrel
    generalize s.routeLbMap.lookup key = v at hrel
    cases hrel with
    | some ha => exact Or.inr ⟨lb, _, rfl, rfl, h.inv key lb hget, ha⟩

/-- A module that is left as it is still stands for the same one. -/
theorem Unchanged.represents (hu : Unchanged s s' key) {v : Option LoadBalance}
    (hv : Option.Rel (fun lb q => lb.Alike .all (s.load q)) v (s.routeLbMap.lookup key)) :
    Option.Rel (fun lb q => lb.Alike .all (s'.load q)) v (s'.routeLbMap.lookup key) := by
  rw [hu.pointer]
  cases hq : s.routeLbMap.lookup key with
  | none =>
    rw [hq] at hv
    cases hv
    exact .none
  | some q =>
    rw [hq] at hv
    cases hv with
    | some ha =>
      have hobj := hu.object q hq
      have hload : s'.load q = { s.load q with hosts := s'.hosts } := by
        unfold load
        rw [hobj]
      refine .some ?_
      rw [hload]
      refine .of_fields ha.modid ha.cmdid ha.status ha.hostMap ha.idleList ha.overloadList
        ha.accessCnt ha.lastUpdateTime fun p hp => ?_
      have hheld : (s.lbs q).Holds p := by
        have hmap : (s.lbs q).hostMap = _ := ha.hostMap
        rwa [LoadBalance.Holds, hmap]
      dsimp only
      rw [hu.hosts q p hq hheld]
      exact ha.hosts p hp

theorem Represents.confined (h : Represents s r) (hc : Confined s s' key) {v : Option LoadBalance}
    (hinv : ∀ lb, v = some lb → lb.Inv)
    (hv : Option.Rel (fun lb q => lb.Alike .all (s'.load q)) v (s'.routeLbMap.lookup key)) :
    Represents s' (r.set key v) := by
  refine ⟨fun key' lb hget => ?_, fun key' => ?_⟩
  · change Function.update r.routeLbMap key v key' = some lb at hget
    by_cases hk : key' = key
    · subst key'
      rw [Function.update_self] at hget
      exact hinv lb hget
    · rw [Function.update_of_ne hk] at hget
      exact h.inv key' lb hget
  · change Option.Rel _ (Function.update r.routeLbMap key v key') _
    by_cases hk : key' = key
    · subst key'
      rwa [Function.update_self]
    · rw [Function.update_of_ne hk]
      exact (hc.others key' hk).represents (h.modules key')

theorem Represents.store (h : Represents s r) {q : Ptr} {lb lb' : LoadBalance}
    (hq : s.routeLbMap.lookup key = some q) (hc : Confined s (s.store q lb') key) (hinv : lb.Inv)
    (ha : lb.Alike .all lb') : Represents (s.store q lb') (r.set key (some lb)) := by
  refine h.confined hc (fun _ he => Option.some.inj he ▸ hinv) ?_
  have hlook : (s.store q lb').routeLbMap.lookup key = some q := hq
  have hload : (s.store q lb').load q = lb' := by
    simp [load, RouteHeap.store]
  rw [hlook]
  refine .some ?_
  rwa [hload]

theorem Represents.addModule (h : Represents s r) (hsep : Separate s) (alloc : Memory)
    (raw : RawLoadBalance) (modid cmdid : Int32) :
    (s.addModule alloc raw modid cmdid).2 = (r.addModule raw modid cmdid).2 ∧
      Represents (s.addModule alloc raw modid cmdid).1 (r.addModule raw modid cmdid).1 := by
  refine ⟨rfl, h.confined (.addModule hsep alloc raw modid cmdid) (fun _ he => ?_) ?_⟩
  · exact Option.some.inj he ▸ (RouteLb.Ready.pull_create raw modid cmdid).inv
  · have hlook : (s.addModule alloc raw modid cmdid).1.routeLbMap.lookup (packInts modid cmdid) =
        some (alloc.new s.lbPointers) := AList.lookup_insert _
    have hload : (s.addModule alloc raw modid cmdid).1.load (alloc.new s.lbPointers) =
        { (LoadBalance.create raw modid cmdid).pull.1 with hosts := s.hosts } := by
      simp [load, RouteHeap.addModule]
    rw [hlook]
    refine .some (hload ▸ ?_)
    refine .of_fields rfl rfl rfl rfl rfl rfl (fun _ => rfl) (fun _ => rfl) ?_
    rintro p ⟨k, hk⟩
    cases hk

theorem Represents.getHost (h : Represents s r) (hsep : Separate s) (cfg : Config R) (time : Int64)
    (alloc : Memory) (raw : RawLoadBalance) (modid cmdid : Int32) (rsp : GetHostResponse) :
    Option.Rel (fun x y => x.2 = y.2 ∧ Represents x.1 y.1)
      (s.getHost? cfg time alloc raw modid cmdid rsp) (r.getHost? cfg time raw modid cmdid rsp) := by
  have hconf : ∀ {out}, s.getHost? cfg time alloc raw modid cmdid rsp = some out →
      Confined s out.1 (packInts modid cmdid) := fun hout => .getHost hsep hout
  unfold getHost? at hconf ⊢
  unfold RouteLb.getHost?
  dsimp only
  rcases h.at (packInts modid cmdid) with ⟨hr, hs⟩ | ⟨lb, q, hr, hs, hinv, ha⟩
  · rw [hs, hr]
    obtain ⟨hreq, hadd⟩ := h.addModule hsep alloc raw modid cmdid
    exact .some ⟨by simp [hreq], hadd⟩
  · rw [hs] at hconf ⊢
    rw [hr]
    dsimp only at hconf ⊢
    rw [ha.empty, ha.status] at hconf ⊢
    split_ifs at hconf ⊢ with hempty hpulling
    · exact .some ⟨rfl, h⟩
    · exact .none
    · have hne : lb.empty = false := by simpa using hempty
      obtain ⟨lb₁, lb₁', rsp₁, ret, hc, hc', ha₁⟩ := ha.choiceOneHost hinv hne (fun _ => trivial) rsp
      rw [hc'] at hconf ⊢
      rw [hc]
      obtain ⟨hreq, ha₂⟩ := ha₁.pullIfExpired cfg time fun _ _ => trivial
      refine .some ⟨by simp [hreq], ?_⟩
      exact h.store hs (hconf rfl) ((hinv.choiceOneHost hc).pullIfExpired time) ha₂

theorem Represents.getRoute (h : Represents s r) (hsep : Separate s) (time : Int64) (alloc : Memory)
    (raw : RawLoadBalance) (modid cmdid : Int32) (rsp : GetRouteResponse) :
    (s.getRoute cfg time alloc raw modid cmdid rsp).2 = (r.getRoute cfg time raw modid cmdid rsp).2 ∧
      Represents (s.getRoute cfg time alloc raw modid cmdid rsp).1
        (r.getRoute cfg time raw modid cmdid rsp).1 := by
  have hconf := Confined.getRoute hsep cfg time alloc raw modid cmdid rsp
  unfold RouteHeap.getRoute at hconf ⊢
  unfold RouteLb.getRoute
  dsimp only
  rcases h.at (packInts modid cmdid) with ⟨hr, hs⟩ | ⟨lb, q, hr, hs, hinv, ha⟩
  · rw [hs, hr]
    obtain ⟨hreq, hadd⟩ := h.addModule hsep alloc raw modid cmdid
    exact ⟨by simp [hreq], hadd⟩
  · rw [hs] at hconf ⊢
    rw [hr]
    obtain ⟨hreq, ha₁⟩ := ha.pullIfExpired cfg time fun _ _ => trivial
    refine ⟨by simp [hreq, ha.routeHosts], ?_⟩
    exact h.store hs hconf (hinv.pullIfExpired time) ha₁

theorem Represents.updateHost (h : Represents s r) (hsep : Separate s) (mem : Memory)
    (currentTime : Int64) (modid cmdid : Int32) (rsp : GetRouteResponse) :
    Option.Rel Represents (s.updateHost? cfg mem currentTime modid cmdid rsp)
      (r.updateHost? cfg (mem.beside s.hostPointers) currentTime modid cmdid rsp) := by
  unfold updateHost? RouteLb.updateHost?
  dsimp only
  rcases h.at (packInts modid cmdid) with ⟨hr, hs⟩ | ⟨lb, q, hr, hs, hinv, ha⟩ <;> rw [hs, hr]
  · exact .some h
  · dsimp only
    split_ifs with hrsp
    · refine .some (h.confined (.erase hsep _) nofun ?_)
      have hlook : (s.routeLbMap.erase (packInts modid cmdid)).lookup (packInts modid cmdid) = none :=
        AList.lookup_erase _ _
      rw [hlook]
      exact .none
    · obtain ⟨lb₁, hu⟩ : ∃ lb₁, lb.update? cfg (mem.beside s.hostPointers) currentTime rsp.host =
          some lb₁ := ⟨_, if_neg hrsp⟩
      obtain ⟨lb₁', hu', ha₁⟩ := ha.update (mem.beside s.hostPointers).raw (fun _ _ _ => rfl)
        (fun _ _ _ => rfl) hu
      rw [hu, hu']
      exact .some (h.store hs (.store hsep hs (LoadBalance.Local.update hu'))
        (hinv.update _ currentTime rsp.host hu) ha₁)

theorem Represents.resetLbStatus (h : Represents s r) :
    Represents s.resetLbStatus r.resetLbStatus := by
  refine ⟨fun key lb hget => ?_, fun key => ?_⟩
  · obtain ⟨lb₁, hlb₁, rfl⟩ := Option.map_eq_some_iff.mp hget
    exact (h.inv key lb₁ hlb₁).resetStatus
  · change Option.Rel _ ((r.routeLbMap key).map _) (s.routeLbMap.lookup key)
    rcases h.at key with ⟨hr, hs⟩ | ⟨lb, q, hr, hs, -, ha⟩ <;> rw [hs, hr]
    · exact .none
    · have hload : s.resetLbStatus.load q = (s.load q).resetStatus := by
        have hmem : q ∈ s.lbPointers := (s.mem_lbPointers q).mpr ⟨key, hs⟩
        have hlb : s.resetLbStatus.lbs q = (s.lbs q).resetStatus := if_pos hmem
        rw [load, hlb]
        exact (LoadBalance.resetStatus_with_hosts (s.lbs q) s.hosts).symm
      exact .some (hload ▸ ha.resetStatus)

variable [RateArith R]

theorem Represents.reportHost (h : Represents s r) (hsep : Separate s)
    (currentTime time ts : Int64) (req : ReportRequest) :
    (s.reportHost cfg currentTime time ts req).2 = (r.reportHost cfg currentTime time ts req).2 ∧
      Represents (s.reportHost cfg currentTime time ts req).1
        (r.reportHost cfg currentTime time ts req).1 := by
  have hconf := Confined.reportHost hsep cfg currentTime time ts req
  unfold RouteHeap.reportHost at hconf ⊢
  unfold RouteLb.reportHost
  dsimp only at hconf ⊢
  rcases h.at (packInts req.modid req.cmdid) with ⟨hr, hs⟩ | ⟨lb, q, hr, hs, hinv, ha⟩
  · rw [hs, hr]
    exact ⟨rfl, h⟩
  · rw [hs] at hconf ⊢
    rw [hr]
    have htrust : LoadBalance.Alike.ReportTrusted cfg .all lb (req.host.getD { }).ip
        (req.host.getD { }).port req.retcode := fun _ _ => ⟨fun _ => trivial, fun _ => trivial⟩
    have ha₁ : LoadBalance.Alike .all (lb.report cfg currentTime time _ _ _)
        ((s.load q).report cfg currentTime time _ _ _) :=
      ha.report htrust currentTime time id id (fun _ _ => Or.inl trivial) fun _ _ => Or.inl trivial
    have hinv₁ : (lb.report cfg currentTime time _ _ _).Inv :=
      hinv.report currentTime time (req.host.getD { }).ip (req.host.getD { }).port req.retcode
    exact ⟨ha₁.commit hinv₁ ts, h.store hs hconf hinv₁ ha₁⟩

/-- Every step on the objects is a step of the modules taken one by one, which the other results
are about. -/
theorem Represents.step (h : Represents s r) (hsep : Separate s) (cfg : Config R) (alloc : Memory)
    (op : RouteOp) :
    Option.Rel Represents (s.step? cfg (alloc, op)) (routeStep? cfg r (op.beside s.hostPointers)) := by
  cases op with
  | getHost time raw modid cmdid rsp =>
    have hrel := h.getHost hsep cfg time alloc raw modid cmdid rsp
    simp only [step?, routeStep?, RouteOp.beside]
    generalize s.getHost? cfg time alloc raw modid cmdid rsp = x,
      r.getHost? cfg time raw modid cmdid rsp = y at hrel
    cases hrel with
    | none => exact .none
    | some hxy => exact .some hxy.2
  | getRoute time raw modid cmdid rsp =>
    exact .some (h.getRoute hsep time alloc raw modid cmdid rsp).2
  | updateHost mem currentTime modid cmdid rsp =>
    exact h.updateHost hsep mem currentTime modid cmdid rsp
  | reportHost currentTime time ts req => exact .some (h.reportHost hsep currentTime time ts req).2
  | resetLbStatus => exact .some h.resetLbStatus

theorem Represents.reachable (h : Reachable (step? cfg) empty s) :
    ∃ r, Reachable (routeStep? cfg) RouteLb.empty r ∧ Represents s r := by
  have hall : Separate s ∧ ∃ r, Reachable (routeStep? cfg) RouteLb.empty r ∧ Represents s r := by
    refine h.invariant (P := fun s => Separate s ∧
      ∃ r, Reachable (routeStep? cfg) RouteLb.empty r ∧ Represents s r) ?_
      ⟨separate_empty, RouteLb.empty, .refl _, nofun, fun _ => .none⟩
    rintro s ⟨alloc, op⟩ s' ⟨hsep, r, hr, hrep⟩ hs
    have hrel := hrep.step hsep cfg alloc op
    rw [hs] at hrel
    cases hstep : routeStep? cfg r (op.beside s.hostPointers) with
    | none =>
      rw [hstep] at hrel
      cases hrel
    | some r' =>
      rw [hstep] at hrel
      cases hrel with
      | some hrep' => exact ⟨hsep.step hs, r', hr.tail hstep, hrep'⟩
  exact hall.2

end RouteHeap

end Lrlb.Agent
