import Lrlb.Dns.Route
import Lrlb.Proto.Messages

/-! `SubscribeList`: who subscribes to which module, and which modules are still to be pushed
to whom. Each operation runs under its locks, so it is one step of the program. -/
namespace Lrlb.Dns
open Lib
open Proto (GetRouteRequest GetRouteResponse)

/-- A file descriptor. -/
abbrev Fd := ℕ

structure SubscribeList where
  bookList : SetMap UInt64 Fd
  pushList : SetMap Fd UInt64
deriving DecidableEq

namespace SubscribeList

def empty : SubscribeList := ⟨∅, ∅⟩

def subscribe (l : SubscribeList) (mod : UInt64) (fd : Fd) : SubscribeList :=
  { l with bookList := l.bookList.insertAt mod fd }

def unsubscribe (l : SubscribeList) (mod : UInt64) (fd : Fd) : SubscribeList :=
  { l with bookList := l.bookList.eraseAt mod fd }

/-- Takes the entries of the online descriptors out of the push list. -/
def makePublishMap (l : SubscribeList) (onlineFds : Fd → Bool) : SetMap Fd UInt64 × SubscribeList :=
  let (needPublish, rest) := l.pushList.extract onlineFds
  (needPublish, { l with pushList := rest })

/-- The part of `publish` under the locks; what follows it is the broadcast of the push task. -/
def publish (l : SubscribeList) (changeMods : List UInt64) : SubscribeList :=
  { l with
    pushList := changeMods.foldl (fun push mod =>
      (l.bookList.find mod).elems.foldl (fun push fd => push.insertAt fd mod) push) l.pushList }

variable {l : SubscribeList} {mod m : UInt64} {fd f : Fd}

theorem mem_subscribe : f ∈ (l.subscribe mod fd).bookList.find m ↔
    (m = mod ∧ f = fd) ∨ f ∈ l.bookList.find m := SetMap.mem_find_insertAt ..

theorem mem_unsubscribe : f ∈ (l.unsubscribe mod fd).bookList.find m ↔
    f ∈ l.bookList.find m ∧ ¬ (m = mod ∧ f = fd) := by
  rw [unsubscribe, SetMap.find_eraseAt]
  split_ifs with h
  · subst m
    simp [and_comm]
  · simp [h]

theorem mem_makePublishMap (online : Fd → Bool) :
    (fd, mod) ∈ (l.makePublishMap online).1.pairs ↔ online fd = true ∧ mod ∈ l.pushList.find fd := by
  rw [SetMap.mem_pairs]
  change mod ∈ (l.pushList.extract online).1.find fd ↔ _
  rw [(SetMap.find_extract l.pushList online fd).1]
  split_ifs with h <;> simp [h]

theorem makePublishMap_find {online : Fd → Bool} (h : online fd = false) :
    (l.makePublishMap online).2.pushList.find fd = l.pushList.find fd := by
  change (l.pushList.extract online).2.find fd = _
  rw [(SetMap.find_extract l.pushList online fd).2, h]
  rfl

theorem mem_foldl_insertAt (fds : List Fd) (push : SetMap Fd UInt64) :
    m ∈ (fds.foldl (fun push fd => push.insertAt fd mod) push).find f ↔
      (m = mod ∧ f ∈ fds) ∨ m ∈ push.find f := by
  induction fds generalizing push with
  | nil => simp
  | cons fd fds ih =>
    rw [List.foldl_cons, ih, SetMap.mem_find_insertAt, List.mem_cons]
    tauto

/-- Publishing queues every listed module for each of its subscribers and drops nothing. -/
theorem mem_publish (changeMods : List UInt64) : m ∈ (l.publish changeMods).pushList.find f ↔
    (m ∈ changeMods ∧ f ∈ l.bookList.find m) ∨ m ∈ l.pushList.find f := by
  suffices h : ∀ push : SetMap Fd UInt64,
      m ∈ (changeMods.foldl (fun push mod => (l.bookList.find mod).elems.foldl
        (fun push fd => push.insertAt fd mod) push) push).find f ↔
      (m ∈ changeMods ∧ f ∈ l.bookList.find m) ∨ m ∈ push.find f from h l.pushList
  intro push
  induction changeMods generalizing push with
  | nil => simp
  | cons mod mods ih =>
    rw [List.foldl_cons, ih, mem_foldl_insertAt, List.mem_cons]
    constructor
    · rintro (⟨hm, hf⟩ | ⟨rfl, hf⟩ | h)
      · exact Or.inl ⟨Or.inr hm, hf⟩
      · exact Or.inl ⟨Or.inl rfl, hf⟩
      · exact Or.inr h
    · rintro (⟨rfl | hm, hf⟩ | h)
      · exact Or.inr (Or.inl ⟨rfl, hf⟩)
      · exact Or.inl ⟨hm, hf⟩
      · exact Or.inr (Or.inr h)

end SubscribeList

/-- The host that a packed value of the table stands for. -/
def hostInfo (ipPort : UInt64) : Proto.HostInfo := { ip := highInt ipPort, port := lowInt ipPort }

/-- The response that `get_route` and `push_change_task` both build. -/
def routeResponse (route : Route) (modid cmdid : Int32) : GetRouteResponse :=
  { modid := modid, cmdid := cmdid, host := (route.getHosts modid cmdid).elems.map hostInfo }

/-- A response that lists exactly the hosts of its module in the current table. -/
def Current (route : Route) (rsp : GetRouteResponse) : Prop :=
  rsp.host.Perm ((route.getHosts rsp.modid rsp.cmdid).elems.map hostInfo)

instance (route : Route) (rsp : GetRouteResponse) : Decidable (Current route rsp) :=
  inferInstanceAs (Decidable (List.Perm _ _))

theorem current_routeResponse (route : Route) (modid cmdid : Int32) :
    Current route (routeResponse route modid cmdid) := List.Perm.refl _

theorem Current.of_same {r r' : Route} {rsp : GetRouteResponse} (h : Current r rsp)
    (hs : (r.getHosts rsp.modid rsp.cmdid).Same (r'.getHosts rsp.modid rsp.cmdid)) :
    Current r' rsp := h.trans (hs.map hostInfo)

/-- The module key of a request. -/
def requestKey (req : GetRouteRequest) : UInt64 := packInts req.modid req.cmdid

/-- The last response for a module among those handed to `send_message`. -/
def lastAnswer? (req : GetRouteRequest) (sent : List GetRouteResponse) : Option GetRouteResponse :=
  (sent.filter fun rsp => rsp.modid = req.modid ∧ rsp.cmdid = req.cmdid).getLast?

theorem lastAnswer?_append_of_eq {req : GetRouteRequest} {rsp : GetRouteResponse}
    (h : rsp.modid = req.modid ∧ rsp.cmdid = req.cmdid) (sent : List GetRouteResponse) :
    lastAnswer? req (sent ++ [rsp]) = some rsp := by
  simp [lastAnswer?, h]

theorem lastAnswer?_append_of_ne {req : GetRouteRequest} {rsp : GetRouteResponse}
    (h : ¬ (rsp.modid = req.modid ∧ rsp.cmdid = req.cmdid)) (sent : List GetRouteResponse) :
    lastAnswer? req (sent ++ [rsp]) = lastAnswer? req sent := by
  simp [lastAnswer?, h]

theorem lastAnswer?_names {req : GetRouteRequest} {sent : List GetRouteResponse}
    {rsp : GetRouteResponse} (h : lastAnswer? req sent = some rsp) :
    rsp.modid = req.modid ∧ rsp.cmdid = req.cmdid := by
  simpa using (List.mem_filter.mp (List.mem_of_getLast? h)).2

end Lrlb.Dns
