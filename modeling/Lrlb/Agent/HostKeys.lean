import Lrlb.Agent.Update

/-! When a module can find the hosts of a response again: the key that `update` stores a host
under against the key that `report` looks it up by. -/
namespace Lrlb.Agent
open Lib

private theorem shifted_eq_packed (x y : ℤ) (c : ℕ) (hx : -2 ^ 31 ≤ x) (hx' : x < 2 ^ 31)
    (hy : -2 ^ 31 ≤ y) (hy' : y < 2 ^ 31) (hc : (c : ℤ) = (32 + y) % 64)
    (h : x % 2 ^ 64 * 2 ^ c % 2 ^ 64 = (x * 2 ^ 32 + y) % 2 ^ 64) : y = 0 := by
  by_cases h32 : 32 ≤ c
  · obtain ⟨k, rfl⟩ := Nat.exists_eq_add_of_le h32
    rw [pow_add, mul_comm (2 ^ 32), ← mul_assoc] at h
    generalize x % 2 ^ 64 * 2 ^ k = z at h
    omega
  · by_cases h6 : 6 ≤ c
    · obtain ⟨k, rfl⟩ := Nat.exists_eq_add_of_le h6
      rw [pow_add, mul_comm (2 ^ 6), ← mul_assoc] at h
      generalize x % 2 ^ 64 * 2 ^ k = z at h
      omega
    · have hlt : c < 6 := by omega
      interval_cases c
      · have hxy : x % 2 ^ 32 = y % 2 ^ 32 := by
          clear hx hx' hy hy' hc
          omega
        obtain rfl : x = y := by
          clear h hc
          omega
        omega
      all_goals omega

namespace LoadBalance

/-- The two keys of a host agree for port 0 and for no other port. -/
theorem updateKey_eq_reportKey_iff (ip port : Int32) :
    updateKey ip port = reportKey ip port ↔ port = 0 := by
  constructor
  · intro h
    have hp := toNat_packInts ip port
    change ((reportKey ip port).toNat : ℤ) = _ at hp
    rw [← h] at hp
    unfold updateKey at hp
    rw [UInt64.toNat_shiftLeft, Nat.shiftLeft_eq] at hp
    have hs := toNat_signExtend (32 + port)
    rw [Int32.toInt_add, show (32 : Int32).toInt = 32 from rfl] at hs
    have hb := Int.bmod_emod (x := 32 + port.toInt) (m := 2 ^ 32)
    have hc : (((signExtend (32 + port)).toNat % 64 : ℕ) : ℤ) = (32 + port.toInt) % 64 := by
      omega
    push_cast at hp
    rw [toNat_signExtend] at hp
    have hz := shifted_eq_packed ip.toInt port.toInt _ ip.le_toInt ip.toInt_lt port.le_toInt
      port.toInt_lt hc hp
    exact Int32.toInt_inj.mp hz
  · rintro rfl
    apply UInt64.toNat_inj.mp
    have hp := toNat_packInts ip 0
    have hi := toNat_signExtend ip
    change (updateKey ip 0).toNat = (packInts ip 0).toNat
    unfold updateKey
    rw [UInt64.toNat_shiftLeft, Nat.shiftLeft_eq,
      show (signExtend (32 + 0)).toNat % 64 = 32 from rfl]
    rw [show (0 : Int32).toInt = 0 from rfl] at hp
    omega

def Matches (h : HostInfo) (x : Proto.HostInfo) : Prop := h.ip = x.ip.toUInt32 ∧ h.port = x.port

instance (h : HostInfo) (x : Proto.HostInfo) : Decidable (Matches h x) :=
  inferInstanceAs (Decidable (_ ∧ _))

/-- One `host_info` for each listed (ip, port), and no other. -/
def HoldsExactly (lb : LoadBalance) (rsp : List Proto.HostInfo) : Prop :=
  (∀ x ∈ rsp, ∃! p, p ∈ lb.pointers ∧ Matches (lb.hosts p) x) ∧
    ∀ p ∈ lb.pointers, ∃ x ∈ rsp, Matches (lb.hosts p) x

variable {R : Type}

/-- A report about `x` finds the host with that address and port and rewrites its record and
no other. -/
def ReportReaches [RateArith R] (cfg : Config R) (lb : LoadBalance) (x : Proto.HostInfo) : Prop :=
  ∃ p ∈ lb.pointers, lb.hostMap.lookup (reportKey x.ip x.port) = some p ∧
    Matches (lb.hosts p) x ∧ ∀ currentTime time retcode,
      (lb.report cfg currentTime time x.ip x.port retcode).hosts =
        Function.update lb.hosts p ((lb.hosts p).reported cfg currentTime time retcode)

theorem reportReaches_iff [RateArith R] (cfg : Config R) (lb : LoadBalance) (x : Proto.HostInfo) :
    ReportReaches cfg lb x ↔
      ∃ p, lb.hostMap.lookup (reportKey x.ip x.port) = some p ∧ Matches (lb.hosts p) x := by
  constructor
  · rintro ⟨p, -, hp, hm, -⟩
    exact ⟨p, hp, hm⟩
  · rintro ⟨p, hp, hm⟩
    refine ⟨p, (mem_pointers lb p).mpr ⟨_, hp⟩, hp, hm, ?_⟩
    intro currentTime time retcode
    rw [report_eq_place cfg currentTime time lb p x.ip x.port retcode hp, place_hosts]

theorem Inv.key_of_matches {lb : LoadBalance} (h : Inv lb) {k : UInt64} {p : Ptr}
    {x : Proto.HostInfo} (hk : lb.hostMap.lookup k = some p) (hm : Matches (lb.hosts p) x) :
    k = updateKey x.ip x.port := by
  rw [h.keyed k p hk, hm.1, hm.2]
  simp

variable {cfg : Config R} {mem : Memory} {lb lb' : LoadBalance} {rsp : List Proto.HostInfo}

/-- An entry that the module had before, under the key of a listed host, is still the same host
after `update`. -/
theorem Updated.kept (hu : Updated cfg mem lb rsp lb') {x : Proto.HostInfo} (hx : x ∈ rsp)
    (hkey : updateKey x.ip x.port = reportKey x.ip x.port) {p q : Ptr}
    (hp : lb'.hostMap.lookup (reportKey x.ip x.port) = some p)
    (hq : lb.hostMap.lookup (reportKey x.ip x.port) = some q) :
    p = q ∧ lb'.hosts p = lb.hosts p := by
  have hlisted : reportKey x.ip x.port ∈ rsp.map fun y => updateKey y.ip y.port := by
    rw [← hkey]
    exact List.mem_map_of_mem hx
  obtain ⟨hl, hh⟩ := hu.old _ q hq hlisted
  cases Option.some.inj (hp.symm.trans hl)
  exact ⟨rfl, hh⟩

/-- Every listed host has its entry in the updated module, once the listed ports are 0 and no
old entry stands in a listed host's place. -/
theorem Updated.exists_entry (hu : Updated cfg mem lb rsp lb') (hport : ∀ x ∈ rsp, x.port = 0)
    (hold : ∀ x ∈ rsp, ∀ p, lb.hostMap.lookup (reportKey x.ip 0) = some p →
      Matches (lb.hosts p) x)
    {x : Proto.HostInfo} (hx : x ∈ rsp) :
    ∃ p, lb'.hostMap.lookup (reportKey x.ip x.port) = some p ∧ Matches (lb'.hosts p) x := by
  have hkey : ∀ y ∈ rsp, updateKey y.ip y.port = reportKey y.ip y.port := fun y hy =>
    (updateKey_eq_reportKey_iff y.ip y.port).mpr (hport y hy)
  have hin : reportKey x.ip x.port ∈ lb'.hostMap := by
    rw [hu.mem_iff, ← hkey x hx]
    exact List.mem_map_of_mem hx
  obtain ⟨p, hp⟩ := Option.isSome_iff_exists.mp (AList.lookup_isSome.mpr hin)
  refine ⟨p, hp, ?_⟩
  by_cases hm : reportKey x.ip x.port ∈ lb.hostMap
  · obtain ⟨q, hq⟩ := Option.isSome_iff_exists.mp (AList.lookup_isSome.mpr hm)
    obtain ⟨rfl, hh⟩ := hu.kept hx (hkey x hx) hp hq
    rw [hh]
    exact hold x hx p (hport x hx ▸ hq)
  · obtain ⟨y, hy, hk, hnew⟩ := hu.new _ p hp hm
    rw [hkey y hy] at hk
    obtain ⟨hip, hpt⟩ := packInts_injective hk
    rw [hnew]
    exact ⟨by simp [HostInfo.new, hip], by simp [HostInfo.new, hpt]⟩

/-- With an entry for each listed host under its own key, the module holds exactly the list. -/
theorem Updated.holdsExactly (hu : Updated cfg mem lb rsp lb') (hi : Inv lb')
    (hentry : ∀ x ∈ rsp, ∃ p, lb'.hostMap.lookup (updateKey x.ip x.port) = some p ∧
      Matches (lb'.hosts p) x) : HoldsExactly lb' rsp := by
  constructor
  · intro x hx
    obtain ⟨p, hp, hm⟩ := hentry x hx
    refine ⟨p, ⟨(mem_pointers lb' p).mpr ⟨_, hp⟩, hm⟩, ?_⟩
    rintro q ⟨hq, hqm⟩
    obtain ⟨k, hk⟩ := (mem_pointers lb' q).mp hq
    rw [hi.key_of_matches hk hqm] at hk
    exact Option.some.inj (hk.symm.trans hp)
  · intro p hp
    obtain ⟨k, hk⟩ := (mem_pointers lb' p).mp hp
    obtain ⟨x, hx, rfl⟩ := List.mem_map.mp
      ((hu.mem_iff k).mp (AList.lookup_isSome.mp (by simp [hk])))
    obtain ⟨q, hq, hm⟩ := hentry x hx
    cases Option.some.inj (hk.symm.trans hq)
    exact ⟨x, hx, hm⟩

/-- After `update` the module holds exactly the listed hosts and every report about one of
them reaches it if and only if all listed ports are 0 and no listed host's entry is already
taken by another host. -/
theorem update_reports_reach_iff [RateArith R] {raw : RawLoadBalance} {modid cmdid : Int32}
    (hlb : Reachable (lbStep? cfg) (create raw modid cmdid) lb) (mem : Memory)
    (currentTime : Int64) (hrsp : rsp ≠ []) :
    ∃ lb', lb.update? cfg mem currentTime rsp = some lb' ∧
      ((HoldsExactly lb' rsp ∧ ∀ x ∈ rsp, ReportReaches cfg lb' x) ↔
        ∀ x ∈ rsp, x.port = 0 ∧ ∀ p, lb.hostMap.lookup (reportKey x.ip 0) = some p →
          Matches (lb.hosts p) x) := by
  obtain ⟨lb', h⟩ : ∃ lb', lb.update? cfg mem currentTime rsp = some lb' := ⟨_, if_neg hrsp⟩
  refine ⟨lb', h, ?_⟩
  have hi := Inv.of_reachable hlb
  have hi' : Inv lb' := hi.update mem currentTime rsp h
  have hu := update?_spec h
  constructor
  · rintro ⟨-, hreach⟩ x hx
    obtain ⟨p, hp, hm⟩ := (reportReaches_iff cfg lb' x).mp (hreach x hx)
    have hkey := hi'.key_of_matches hp hm
    have hport : x.port = 0 := (updateKey_eq_reportKey_iff x.ip x.port).mp hkey.symm
    refine ⟨hport, ?_⟩
    intro q hq
    rw [← hport] at hq
    obtain ⟨rfl, hh⟩ := hu.kept hx hkey.symm hp hq
    exact hh ▸ hm
  · intro hcond
    have hport := fun x hx => (hcond x hx).1
    have hentry := fun x hx => hu.exists_entry hport (fun y hy => (hcond y hy).2) (x := x) hx
    refine ⟨hu.holdsExactly hi' ?_, fun x hx => (reportReaches_iff cfg lb' x).mpr (hentry x hx)⟩
    intro x hx
    rw [(updateKey_eq_reportKey_iff x.ip x.port).mpr (hport x hx)]
    exact hentry x hx

/-- A fresh module that learns of one host with port 0. -/
theorem update_reports_reach_port_zero :
    ∃ lb', (create ⟨0, 0, .new⟩ 1 1).update? defaultConfig bumpMemory 100 [⟨7, 0⟩] = some lb' ∧
      HoldsExactly lb' [⟨7, 0⟩] ∧ ∀ x ∈ [⟨7, 0⟩], ReportReaches defaultConfig lb' x := by
  have hlb : Reachable (lbStep? defaultConfig) (create ⟨0, 0, .new⟩ 1 1)
      (create ⟨0, 0, .new⟩ 1 1) := ⟨[], rfl⟩
  obtain ⟨lb', h, hiff⟩ := update_reports_reach_iff hlb bumpMemory 100
    (List.cons_ne_nil (⟨7, 0⟩ : Proto.HostInfo) [])
  exact ⟨lb', h, hiff.mpr (by simp [create])⟩

/-- The same module and a host with port 1: it is stored, and its report finds nothing. -/
theorem update_reports_miss_port_one :
    ∃ lb', (create ⟨0, 0, .new⟩ 1 1).update? defaultConfig bumpMemory 100 [⟨7, 1⟩] = some lb' ∧
      ¬ (HoldsExactly lb' [⟨7, 1⟩] ∧ ∀ x ∈ [⟨7, 1⟩], ReportReaches defaultConfig lb' x) := by
  have hmiss : ((create ⟨0, 0, .new⟩ 1 1).update? defaultConfig bumpMemory 100 [⟨7, 1⟩]).bind
      (fun lb => lb.hostMap.lookup (reportKey 7 1)) = none := by decide +kernel
  obtain ⟨lb', h⟩ : ∃ lb', (create ⟨0, 0, .new⟩ 1 1).update? defaultConfig bumpMemory 100
    [⟨7, 1⟩] = some lb' := ⟨_, rfl⟩
  refine ⟨lb', h, ?_⟩
  rintro ⟨-, hreach⟩
  obtain ⟨p, -, hp, -⟩ := hreach ⟨7, 1⟩ (by simp)
  rw [h] at hmiss
  exact absurd (hp.symm.trans hmiss) (by simp)

end LoadBalance

end Lrlb.Agent
