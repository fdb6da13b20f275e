import Lrlb.Proto.Codec
import Lrlb.Agent.RouteLb

/-! The agent's dns client and the three `route_lb`s: which of them gets a response of the dns
server, and which modules each of them holds. -/
namespace Lrlb.Agent
open Lib Lib.Message
open Proto (GetHostResponse GetRouteRequest GetRouteResponse)

variable {R : Type}

/-- The `route_lb` that a response of the dns server is handed to. -/
def dealRecvRouteIndex (modid cmdid : Int32) : Int32 := (modid + cmdid) % 3

/-- `none` is an access outside `r_lb` or an abort inside `update_host`. -/
def dealRecvRoute? (cfg : Config R) (mem : Memory) (currentTime : Int64) (rLb : Fin 3 → RouteLb)
    (data : List UInt8) : Option (Fin 3 → RouteLb) := do
  let rsp : GetRouteResponse := (parse data).1
  let i ← arrayIndex? 3 (dealRecvRouteIndex rsp.modid rsp.cmdid)
  let r ← (rLb i).updateHost? cfg mem currentTime rsp.modid rsp.cmdid rsp
  some (Function.update rLb i r)

/-- The hook on a new connection to the dns server. -/
def connInit (rLb : Fin 3 → RouteLb) : Fin 3 → RouteLb := fun i => (rLb i).resetLbStatus

namespace LoadBalance

/-- The module's own ids. -/
def Named (lb : LoadBalance) (modid cmdid : Int32) : Prop := lb.modid = modid ∧ lb.cmdid = cmdid

variable {cfg : Config R} {lb lb' : LoadBalance} {modid cmdid : Int32}

theorem Named.choiceOneHost (h : lb.Named modid cmdid) {rsp rsp' : GetHostResponse} {ret : Int32}
    (hc : lb.choiceOneHost? cfg rsp = some (lb', rsp', ret)) : lb'.Named modid cmdid := by
  obtain ⟨_, _, _, -, -, rfl, -⟩ | ⟨_, _, -, -, rfl, -⟩ | ⟨-, -, rfl, -⟩ :=
    choiceOneHost?_cases cfg lb rsp hc <;> exact h

theorem Named.pullIfExpired (h : lb.Named modid cmdid) (time : Int64) :
    (lb.pullIfExpired cfg time).1.Named modid cmdid ∧
      ∀ req ∈ (lb.pullIfExpired cfg time).2, req = ⟨modid, cmdid⟩ := by
  unfold LoadBalance.pullIfExpired
  split_ifs
  · refine ⟨h, ?_⟩
    rintro req ⟨⟩
    rw [pull, h.1, h.2]
  · exact ⟨h, nofun⟩

theorem Named.insertHost (h : lb.Named modid cmdid) (mem : Memory) (x : Proto.HostInfo) :
    (lb.insertHost cfg mem x).Named modid cmdid := by
  unfold LoadBalance.insertHost
  dsimp only
  split_ifs <;> exact h

theorem Named.deleteHost (h : lb.Named modid cmdid) (key : UInt64) :
    (lb.deleteHost key).Named modid cmdid := by
  unfold LoadBalance.deleteHost
  split
  · exact h
  · split_ifs <;> exact h

theorem Named.update (h : lb.Named modid cmdid) {mem : Memory} {currentTime : Int64}
    {rsp : List Proto.HostInfo} (hu : lb.update? cfg mem currentTime rsp = some lb') :
    lb'.Named modid cmdid := by
  unfold update? at hu
  split_ifs at hu
  cases hu
  have hinserted : (rsp.foldl (LoadBalance.insertHost cfg mem) lb).Named modid cmdid :=
    List.foldlRecOn (motive := fun lb : LoadBalance => lb.Named modid cmdid) rsp _ h
      fun _ hlb x _ => hlb.insertHost mem x
  exact List.foldlRecOn (motive := fun lb : LoadBalance => lb.Named modid cmdid) _ _ hinserted
    fun _ hlb key _ => hlb.deleteHost key

theorem Named.resetStatus (h : lb.Named modid cmdid) : lb.resetStatus.Named modid cmdid := by
  unfold LoadBalance.resetStatus
  split_ifs <;> exact h

end LoadBalance

namespace RouteLb

/-- Every module is stored under its own key and satisfies `P`. -/
def Holds (P : Int32 → Int32 → Prop) (r : RouteLb) : Prop :=
  ∀ modid cmdid lb, r.routeLbMap (packInts modid cmdid) = some lb →
    lb.Named modid cmdid ∧ P modid cmdid

variable {cfg : Config R} {P : Int32 → Int32 → Prop} {r r' : RouteLb} {modid cmdid : Int32}

theorem Holds.set (h : Holds P r) {v : Option LoadBalance}
    (hv : ∀ lb, v = some lb → lb.Named modid cmdid ∧ P modid cmdid) :
    Holds P (r.set (packInts modid cmdid) v) := by
  intro m c lb hget
  simp only [RouteLb.set] at hget
  by_cases hk : packInts m c = packInts modid cmdid
  · obtain ⟨rfl, rfl⟩ := packInts_injective hk
    rw [Function.update_self] at hget
    exact hv lb hget
  · rw [Function.update_of_ne hk] at hget
    exact h m c lb hget

theorem Holds.set_some (h : Holds P r) {lb : LoadBalance} (hlb : lb.Named modid cmdid)
    (hP : P modid cmdid) : Holds P (r.set (packInts modid cmdid) (some lb)) :=
  h.set fun _ he => Option.some.inj he ▸ ⟨hlb, hP⟩

/-- A host request stores and pulls nothing but the module it names. -/
theorem Holds.getHost (h : Holds P r) (hP : P modid cmdid) {time : Int64} {raw : RawLoadBalance}
    {rsp rsp' : GetHostResponse} {ret : Int32} {pull : Option GetRouteRequest}
    (hg : r.getHost? cfg time raw modid cmdid rsp = some (r', rsp', ret, pull)) :
    Holds P r' ∧ ∀ req ∈ pull, req = ⟨modid, cmdid⟩ := by
  unfold getHost? at hg
  dsimp only at hg
  cases hget : r.routeLbMap (packInts modid cmdid) with
  | none =>
    rw [hget] at hg
    cases hg
    refine ⟨h.set_some ⟨rfl, rfl⟩ hP, ?_⟩
    rintro req ⟨⟩
    rfl
  | some lb =>
    rw [hget] at hg
    dsimp only at hg
    split_ifs at hg
    · cases hg
      exact ⟨h, nofun⟩
    · obtain ⟨⟨lb₁, rsp₁, ret₁⟩, hc, hg⟩ := Option.bind_eq_some_iff.mp hg
      cases hg
      have hnamed := (h _ _ _ hget).1.choiceOneHost hc
      exact ⟨h.set_some (hnamed.pullIfExpired time).1 hP, (hnamed.pullIfExpired time).2⟩

theorem Holds.getRoute (h : Holds P r) (hP : P modid cmdid) (time : Int64) (raw : RawLoadBalance)
    (rsp : GetRouteResponse) :
    Holds P (r.getRoute cfg time raw modid cmdid rsp).1 ∧
      ∀ req ∈ (r.getRoute cfg time raw modid cmdid rsp).2.2.2, req = ⟨modid, cmdid⟩ := by
  unfold RouteLb.getRoute
  dsimp only
  cases hget : r.routeLbMap (packInts modid cmdid) with
  | none =>
    refine ⟨h.set_some ⟨rfl, rfl⟩ hP, ?_⟩
    rintro req ⟨⟩
    rfl
  | some lb =>
    have hnamed := (h _ _ _ hget).1
    exact ⟨h.set_some (hnamed.pullIfExpired time).1 hP, (hnamed.pullIfExpired time).2⟩

/-- A response of the dns server creates no module. -/
theorem Holds.updateHost (h : Holds P r) {mem : Memory} {currentTime : Int64}
    {rsp : GetRouteResponse}
    (hu : r.updateHost? cfg mem currentTime modid cmdid rsp = some r') : Holds P r' := by
  unfold updateHost? at hu
  dsimp only at hu
  cases hget : r.routeLbMap (packInts modid cmdid) with
  | none =>
    rw [hget] at hu
    cases hu
    exact h
  | some lb =>
    rw [hget] at hu
    dsimp only at hu
    split_ifs at hu
    · cases hu
      exact h.set nofun
    · obtain ⟨lb₁, hlb₁, rfl⟩ := Option.map_eq_some_iff.mp hu
      have hold := h _ _ _ hget
      exact h.set_some (hold.1.update hlb₁) hold.2

theorem Holds.resetLbStatus (h : Holds P r) : Holds P r.resetLbStatus := by
  intro m c lb hget
  obtain ⟨lb₁, hlb₁, rfl⟩ := Option.map_eq_some_iff.mp hget
  exact ⟨(h m c lb₁ hlb₁).1.resetStatus, (h m c lb₁ hlb₁).2⟩

end RouteLb

end Lrlb.Agent
