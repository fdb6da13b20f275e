import Mathlib.Data.List.AList
import Lrlb.Lib.Split
import Lrlb.Lib.Word
import Lrlb.Proto.Messages
import Lrlb.Agent.HostInfo

/-! The load-balancing module of one (modid, cmdid) pair. `host_info` objects live at the
addresses that `new` returned, and the map and the two lists hold addresses. -/
namespace Lrlb.Agent
open Lib (signExtend packInts remove)
open Proto (GetHostResponse GetRouteRequest ReportStatusReq HostCallResult)
open Proto.LrlbRetCode (retSucc retOverload retNoexist)

abbrev Ptr := ℕ

/-- The allocator at one moment: `new` returns an address that is not in use, and the object
there still holds old bytes wherever its constructor writes nothing. -/
structure Memory where
  new : List Ptr → Ptr
  fresh : ∀ live, new live ∉ live
  raw : Ptr → RawHost

/-- An allocator that never reuses an address and hands out cleared memory. -/
def bumpMemory : Memory where
  new live := live.foldr max 0 + 1
  fresh live h := by
    have hle : ∀ (l : List ℕ), ∀ x ∈ l, x ≤ l.foldr max 0 := by
      intro l
      induction l with
      | nil => simp
      | cons y l ih =>
        intro x hx
        rcases List.mem_cons.mp hx with rfl | hx
        · exact le_max_left _ _
        · exact (ih x hx).trans (le_max_right _ _)
    have := hle live _ h
    omega
  raw _ := default

inductive Status where
  | pulling | new
deriving DecidableEq, Repr

/-- What the memory of a new `load_balance` held. -/
structure RawLoadBalance where
  accessCnt : Int32
  lastUpdateTime : Int64
  status : Status

structure LoadBalance where
  modid : Int32
  cmdid : Int32
  accessCnt : Int32
  lastUpdateTime : Int64
  status : Status
  hostMap : AList fun _ : UInt64 => Ptr
  idleList : List Ptr
  overloadList : List Ptr
  hosts : Ptr → HostInfo

namespace LoadBalance

def create (raw : RawLoadBalance) (modid cmdid : Int32) : LoadBalance where
  modid := modid
  cmdid := cmdid
  accessCnt := raw.accessCnt
  lastUpdateTime := raw.lastUpdateTime
  status := raw.status
  hostMap := ∅
  idleList := []
  overloadList := []
  hosts := fun _ => default

def empty (lb : LoadBalance) : Bool := lb.hostMap.entries.isEmpty

/-- The addresses in `_host_map`, in its iteration order. -/
def pointers (lb : LoadBalance) : List Ptr := lb.hostMap.entries.map Sigma.snd

def setHost (lb : LoadBalance) (p : Ptr) (h : HostInfo) : LoadBalance :=
  { lb with hosts := Function.update lb.hosts p h }

/-- `none` is `front()` of an empty list. -/
def getHostFromList? (hosts : Ptr → HostInfo) (rsp : GetHostResponse) :
    List Ptr → Option (GetHostResponse × List Ptr)
  | [] => none
  | host :: l =>
    some ({ rsp with host := some ⟨(hosts host).ip.toInt32, (hosts host).port⟩ }, l ++ [host])

variable {R : Type}

def choiceOneHost? (cfg : Config R) (lb : LoadBalance) (rsp : GetHostResponse) :
    Option (LoadBalance × GetHostResponse × Int32) :=
  if lb.idleList.isEmpty then
    if cfg.probeNum ≤ lb.accessCnt then do
      let (rsp, l) ← getHostFromList? lb.hosts rsp lb.overloadList
      some ({ lb with accessCnt := 0, overloadList := l }, rsp, retSucc.value)
    else some ({ lb with accessCnt := lb.accessCnt + 1 }, rsp, retOverload.value)
  else if lb.overloadList.isEmpty then do
    let (rsp, l) ← getHostFromList? lb.hosts rsp lb.idleList
    some ({ lb with idleList := l }, rsp, retSucc.value)
  else if cfg.probeNum ≤ lb.accessCnt then do
    let (rsp, l) ← getHostFromList? lb.hosts rsp lb.overloadList
    some ({ lb with accessCnt := 0, overloadList := l }, rsp, retSucc.value)
  else do
    let (rsp, l) ← getHostFromList? lb.hosts rsp lb.idleList
    some ({ lb with accessCnt := lb.accessCnt + 1, idleList := l }, rsp, retSucc.value)

def pull (lb : LoadBalance) : LoadBalance × GetRouteRequest :=
  ({ lb with status := .pulling }, ⟨lb.modid, lb.cmdid⟩)

/-- The key `update` stores a host under. `+` binds tighter than `<<`, so the port is part of
the shift count, of which the machine uses the low six bits. -/
def updateKey (ip port : Int32) : UInt64 := signExtend ip <<< signExtend (32 + port)

/-- The key `report` looks a host up by. -/
def reportKey (ip port : Int32) : UInt64 := packInts ip port

def insertHost (cfg : Config R) (mem : Memory) (lb : LoadBalance) (h : Proto.HostInfo) :
    LoadBalance :=
  let key := updateKey h.ip h.port
  if key ∈ lb.hostMap then lb
  else
    let hi := mem.new lb.pointers
    { lb with
      hosts := Function.update lb.hosts hi
        (HostInfo.new (mem.raw hi) h.ip.toUInt32 h.port cfg.initSuccCnt.toUInt32),
      hostMap := lb.hostMap.insert key hi,
      idleList := lb.idleList ++ [hi] }

/-- The keys of `_host_map` that the response does not list; `std::set` sorts them. -/
def needDelete (remoteHosts : List UInt64) (lb : LoadBalance) : List UInt64 :=
  (lb.hostMap.keys.filter (· ∉ remoteHosts)).insertionSort (· ≤ ·)

def deleteHost (lb : LoadBalance) (key : UInt64) : LoadBalance :=
  match lb.hostMap.lookup key with
  | none => lb
  | some hi =>
    if (lb.hosts hi).overload then
      { lb with overloadList := remove hi lb.overloadList, hostMap := lb.hostMap.erase key }
    else { lb with idleList := remove hi lb.idleList, hostMap := lb.hostMap.erase key }

/-- `none` is the failed assertion on an empty host list. -/
def update? (cfg : Config R) (mem : Memory) (currentTime : Int64) (lb : LoadBalance)
    (rsp : List Proto.HostInfo) : Option LoadBalance :=
  if rsp = [] then none
  else
    let remoteHosts := rsp.map fun h => updateKey h.ip h.port
    let inserted := rsp.foldl (insertHost cfg mem) lb
    let kept := (needDelete remoteHosts inserted).foldl deleteHost inserted
    some { kept with lastUpdateTime := currentTime, status := .new }

def countReport (retcode : Int32) (hi : HostInfo) : HostInfo :=
  if retcode = retSucc.value then
    { hi with vsucc := hi.vsucc + 1, rsucc := hi.rsucc + 1, continSucc := hi.continSucc + 1,
              continErr := 0 }
  else
    { hi with verr := hi.verr + 1, rerr := hi.rerr + 1, continErr := hi.continErr + 1,
              continSucc := 0 }

def changeOverload (cfg : Config R) (time : Int64) (lb : LoadBalance) (hi : Ptr) : LoadBalance :=
  { lb.setHost hi ((lb.hosts hi).setOverload cfg time) with
    idleList := remove hi lb.idleList
    overloadList := lb.overloadList ++ [hi] }

def changeIdle (cfg : Config R) (time : Int64) (lb : LoadBalance) (hi : Ptr) : LoadBalance :=
  { lb.setHost hi ((lb.hosts hi).setIdle cfg time) with
    overloadList := remove hi lb.overloadList
    idleList := lb.idleList ++ [hi] }

variable [RateArith R]

def overloadCondition (cfg : Config R) (hi : HostInfo) : Bool :=
  RateArith.exceeds hi.verr (hi.vsucc + hi.verr) cfg.errRate ||
    cfg.continErrLimit.toUInt32 ≤ hi.continErr

def idleCondition (cfg : Config R) (hi : HostInfo) : Bool :=
  RateArith.exceeds hi.vsucc (hi.vsucc + hi.verr) cfg.succRate ||
    cfg.continSuccLimit.toUInt32 ≤ hi.continSucc

/-- The window and timeout check that ends `report`. -/
def windowCheck (cfg : Config R) (currentTime time : Int64) (lb : LoadBalance) (hi : Ptr) :
    LoadBalance :=
  let h := lb.hosts hi
  if h.overload = false then
    if cfg.idleTimeout.toInt64 ≤ currentTime - h.idleTs then
      if h.checkWindow cfg then lb.changeOverload cfg time hi
      else lb.setHost hi (h.setIdle cfg time)
    else lb
  else if cfg.overloadTimeout.toInt64 ≤ currentTime - h.overloadTs then lb.changeIdle cfg time hi
  else lb

/-- `currentTime` is the clock at entry, `time` the clock that a status change reads. -/
def report (cfg : Config R) (currentTime time : Int64) (lb : LoadBalance)
    (ip port retcode : Int32) : LoadBalance :=
  match lb.hostMap.lookup (reportKey ip port) with
  | none => lb
  | some hi =>
    let h := countReport retcode (lb.hosts hi)
    let lb := lb.setHost hi h
    if h.overload = false ∧ retcode ≠ retSucc.value then
      if overloadCondition cfg h then lb.changeOverload cfg time hi
      else lb.windowCheck cfg currentTime time hi
    else if h.overload = true ∧ retcode = retSucc.value then
      if idleCondition cfg h then lb.changeIdle cfg time hi
      else lb.windowCheck cfg currentTime time hi
    else lb.windowCheck cfg currentTime time hi

def callResult (lb : LoadBalance) (overload : Bool) (hi : Ptr) : HostCallResult :=
  ⟨(lb.hosts hi).ip.toInt32, (lb.hosts hi).port, (lb.hosts hi).rsucc, (lb.hosts hi).rerr, overload⟩

def commit (cfg : Config R) (time : Int64) (lb : LoadBalance) : Option ReportStatusReq :=
  if lb.empty then none
  else some
    { modid := lb.modid, cmdid := lb.cmdid, ts := time.toUInt64.toUInt32,
      caller := cfg.localIp.toInt32,
      results := lb.idleList.map (lb.callResult false) ++
        lb.overloadList.map (lb.callResult true) }

def getAllHosts (lb : LoadBalance) : List Ptr := lb.pointers

end LoadBalance

end Lrlb.Agent
