import Lrlb.Agent.Partition

/-! `report` as a state machine of the one host it finds: the new record depends on the old
record alone, and the lists follow the overload flag. -/
namespace Lrlb.Agent
open Lib
open Proto.LrlbRetCode (retSucc)

variable {R : Type}

namespace HostInfo

variable [RateArith R]

def windowed (cfg : Config R) (currentTime time : Int64) (h : HostInfo) : HostInfo :=
  if h.overload = false then
    if cfg.idleTimeout.toInt64 ≤ currentTime - h.idleTs then
      if h.checkWindow cfg then h.setOverload cfg time else h.setIdle cfg time
    else h
  else if cfg.overloadTimeout.toInt64 ≤ currentTime - h.overloadTs then h.setIdle cfg time
  else h

/-- The record of a host after one report about it. -/
def reported (cfg : Config R) (currentTime time : Int64) (retcode : Int32) (h : HostInfo) :
    HostInfo :=
  let h := LoadBalance.countReport retcode h
  if h.overload = false ∧ retcode ≠ retSucc.value then
    if LoadBalance.overloadCondition cfg h then h.setOverload cfg time
    else h.windowed cfg currentTime time
  else if h.overload = true ∧ retcode = retSucc.value then
    if LoadBalance.idleCondition cfg h then h.setIdle cfg time
    else h.windowed cfg currentTime time
  else h.windowed cfg currentTime time

end HostInfo

namespace LoadBalance

/-- Store a new record for a host and move the host to the other list if its flag changed. -/
def place (lb : LoadBalance) (p : Ptr) (h : HostInfo) : LoadBalance :=
  match (lb.hosts p).overload, h.overload with
  | false, true => { lb.setHost p h with
      idleList := remove p lb.idleList, overloadList := lb.overloadList ++ [p] }
  | true, false => { lb.setHost p h with
      overloadList := remove p lb.overloadList, idleList := lb.idleList ++ [p] }
  | _, _ => lb.setHost p h

@[simp] theorem place_hosts (lb : LoadBalance) (p : Ptr) (h : HostInfo) :
    (lb.place p h).hosts = Function.update lb.hosts p h := by
  unfold place; split <;> rfl

@[simp] theorem place_hostMap (lb : LoadBalance) (p : Ptr) (h : HostInfo) :
    (lb.place p h).hostMap = lb.hostMap := by
  unfold place; split <;> rfl

@[simp] theorem place_status (lb : LoadBalance) (p : Ptr) (h : HostInfo) :
    (lb.place p h).status = lb.status := by
  unfold place; split <;> rfl

@[simp] theorem place_accessCnt (lb : LoadBalance) (p : Ptr) (h : HostInfo) :
    (lb.place p h).accessCnt = lb.accessCnt := by
  unfold place; split <;> rfl

@[simp] theorem place_lastUpdateTime (lb : LoadBalance) (p : Ptr) (h : HostInfo) :
    (lb.place p h).lastUpdateTime = lb.lastUpdateTime := by
  unfold place; split <;> rfl

theorem place_of_eq {lb : LoadBalance} {p : Ptr} {h : HostInfo}
    (he : (lb.hosts p).overload = h.overload) : lb.place p h = lb.setHost p h := by
  unfold place
  rw [he]
  cases h.overload <;> rfl

variable (cfg : Config R) (currentTime time : Int64) (lb : LoadBalance) (p : Ptr)

theorem changeOverload_eq_place (h : HostInfo) (hf : (lb.hosts p).overload = false) :
    (lb.setHost p h).changeOverload cfg time p = lb.place p (h.setOverload cfg time) := by
  unfold place changeOverload
  simp [hf, setHost]

theorem changeIdle_eq_place (h : HostInfo) (hf : (lb.hosts p).overload = true) :
    (lb.setHost p h).changeIdle cfg time p = lb.place p (h.setIdle cfg time) := by
  unfold place changeIdle
  simp [hf, setHost]

variable [RateArith R]

theorem windowCheck_eq_place (h : HostInfo) (ho : h.overload = (lb.hosts p).overload) :
    (lb.setHost p h).windowCheck cfg currentTime time p =
      lb.place p (h.windowed cfg currentTime time) := by
  have hh : (lb.setHost p h).hosts p = h := Function.update_self ..
  unfold windowCheck HostInfo.windowed
  rw [hh]
  dsimp only
  split_ifs with hf _ hw ht
  · exact changeOverload_eq_place cfg time lb p h (ho ▸ hf)
  · rw [place_of_eq (by simp [← ho, hf])]
    simp [setHost]
  · exact (place_of_eq ho.symm).symm
  · exact changeIdle_eq_place cfg time lb p h (by simpa [ho] using hf)
  · exact (place_of_eq ho.symm).symm

/-- A report that finds its host rewrites that record and no other. -/
theorem report_eq_place (ip port retcode : Int32)
    (hp : lb.hostMap.lookup (reportKey ip port) = some p) :
    lb.report cfg currentTime time ip port retcode =
      lb.place p ((lb.hosts p).reported cfg currentTime time retcode) := by
  unfold report HostInfo.reported
  rw [hp]
  dsimp only
  have ho := countReport_overload retcode (lb.hosts p)
  have hw := windowCheck_eq_place cfg currentTime time lb p _ ho
  split_ifs with hfail _ hsucc
  · exact changeOverload_eq_place cfg time lb p _ (ho ▸ hfail.1)
  · exact hw
  · exact changeIdle_eq_place cfg time lb p _ (ho ▸ hsucc.1)
  · exact hw
  · exact hw

theorem report_of_lookup_none (ip port retcode : Int32)
    (hp : lb.hostMap.lookup (reportKey ip port) = none) :
    lb.report cfg currentTime time ip port retcode = lb := by
  unfold report
  rw [hp]

@[simp] theorem report_hostMap (ip port retcode : Int32) :
    (lb.report cfg currentTime time ip port retcode).hostMap = lb.hostMap := by
  cases hp : lb.hostMap.lookup (reportKey ip port) with
  | none => rw [report_of_lookup_none cfg currentTime time lb ip port retcode hp]
  | some p => rw [report_eq_place cfg currentTime time lb p ip port retcode hp, place_hostMap]

@[simp] theorem report_status (ip port retcode : Int32) :
    (lb.report cfg currentTime time ip port retcode).status = lb.status := by
  cases hp : lb.hostMap.lookup (reportKey ip port) with
  | none => rw [report_of_lookup_none cfg currentTime time lb ip port retcode hp]
  | some p => rw [report_eq_place cfg currentTime time lb p ip port retcode hp, place_status]

end LoadBalance

end Lrlb.Agent
