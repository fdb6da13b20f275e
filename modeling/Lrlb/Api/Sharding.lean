import Lrlb.Agent.DnsClient
import Lrlb.Api.Session

/-! The three shards of an agent: where the requests of the client library and the responses of
the dns server for a module arrive, and who created and pulled it. -/
namespace Lrlb.Api
open Lib Lib.Message Reactor Agent
open Proto (GetRouteRequest GetRouteResponse)

/-- The `route_lb` behind the socket with this index in the client's array. -/
def reached? (index : Int32) : Option (Fin 3) := do
  let socket ← arrayIndex? 3 index
  arrayIndex? 3 (serverIndex (socketPort socket))

theorem reached?_eq (index : Int32) : reached? index = arrayIndex? 3 index := by
  have hport : ∀ i : Fin 3, arrayIndex? 3 (serverIndex (socketPort i)) = some i := by decide
  unfold reached?
  cases arrayIndex? 3 index with
  | none => rfl
  | some i => exact hport i

/-- The three calls and the dns client all lead to the same `route_lb`. -/
def SitesLeadTo (i : Fin 3) (modid cmdid : Int32) : Prop :=
  reached? (getHostIndex modid cmdid) = some i ∧ reached? (getRouteIndex modid cmdid) = some i ∧
    reached? (reportIndex modid cmdid) = some i ∧
    arrayIndex? 3 (dealRecvRouteIndex modid cmdid) = some i

/-- The sum, as the machine computes it, is not negative or divides by three. -/
def InShard (modid cmdid : Int32) : Prop :=
  0 ≤ (modid + cmdid).toInt ∨ 3 ∣ (modid + cmdid).toInt

instance (modid cmdid : Int32) : Decidable (InShard modid cmdid) :=
  inferInstanceAs (Decidable (_ ∨ _))

theorem reportIndex_eq (modid cmdid : Int32) : reportIndex modid cmdid = shard modid cmdid := by
  rw [reportIndex, shard, Int32.add_comm]

theorem sitesLeadTo_iff {i : Fin 3} {modid cmdid : Int32} :
    SitesLeadTo i modid cmdid ↔ arrayIndex? 3 (shard modid cmdid) = some i := by
  constructor
  · intro h
    exact h.2.2.2
  · intro h
    refine ⟨(reached?_eq _).trans h, (reached?_eq _).trans h, ?_, h⟩
    rw [reached?_eq, reportIndex_eq, h]

theorem isSome_shard_iff (modid cmdid : Int32) :
    (arrayIndex? 3 (shard modid cmdid)).isSome ↔ InShard modid cmdid := by
  have hlt : (shard modid cmdid).toInt < (3 : ℕ) := shard_lt modid cmdid
  have hmod : (shard modid cmdid).toInt = (modid + cmdid).toInt.tmod 3 := by
    rw [shard, Int32.toInt_mod]
    rfl
  rw [arrayIndex?_isSome_iff, and_iff_left hlt, hmod]
  exact tmod_nonneg_iff _ 3

theorem exists_sitesLeadTo_iff (modid cmdid : Int32) :
    (∃ i, SitesLeadTo i modid cmdid) ↔ InShard modid cmdid := by
  simp only [sitesLeadTo_iff, ← isSome_shard_iff, Option.isSome_iff_exists]

/-- A client with its agent. `pulled` is no data of the program: it records the requests on the
dns queue, each with the `route_lb` that put it there. -/
structure System where
  session : Session
  pulled : List (Fin 3 × GetRouteRequest)

inductive SystemAction where
  | getHost (env : Env) (modid cmdid : Int32)
  | getRoute (env : Env) (modid cmdid : Int32)
  | report (env : Env) (modid cmdid ip port retcode : Int32)
  | dealRecvRoute (mem : Memory) (currentTime : Int64) (data : List UInt8)
  | connInit

namespace System

def start (readBuf : Fin 3 → List UInt8) : System :=
  ⟨⟨Client.new, fun _ => RouteLb.empty, readBuf⟩, []⟩

variable {R : Type} [RateArith R] (cfg : Config R)

/-- `sendto` on a socket of the array, and what the agent does with the datagram. -/
def request? (env : Env) (s : System) (index : Int32) (client : Client) (d : List UInt8) :
    Option System := do
  let i ← reached? index
  let (session, served) ← Session.send? cfg env { s.session with client := client } i d
  some ⟨session, s.pulled ++ served.pull.toList.map fun req => (i, req)⟩

/-- The client's calls up to the point where they wait for the response. -/
def step? (s : System) : SystemAction → Option System
  | .getHost env modid cmdid =>
    let (client, d) := s.session.client.getHostRequest modid cmdid
    s.request? cfg env (getHostIndex modid cmdid) client d
  | .getRoute env modid cmdid =>
    s.request? cfg env (getRouteIndex modid cmdid) s.session.client
      (Client.getRouteRequest modid cmdid)
  | .report env modid cmdid ip port retcode =>
    s.request? cfg env (reportIndex modid cmdid) s.session.client
      (Client.reportRequest ⟨modid, cmdid, some ⟨ip, port⟩, retcode⟩)
  | .dealRecvRoute mem currentTime data =>
    (dealRecvRoute? cfg mem currentTime s.session.rLb data).map fun rLb =>
      { s with session := { s.session with rLb := rLb } }
  | .connInit => some { s with session := { s.session with rLb := connInit s.session.rLb } }

/-- The array accesses of an action are inside `_sockfd` and `r_lb`. -/
def InBounds : SystemAction → Prop
  | .getHost _ modid cmdid => (reached? (getHostIndex modid cmdid)).isSome
  | .getRoute _ modid cmdid => (reached? (getRouteIndex modid cmdid)).isSome
  | .report _ modid cmdid .. => (reached? (reportIndex modid cmdid)).isSome
  | .dealRecvRoute _ _ data =>
    let rsp : GetRouteResponse := (parse data).1
    (arrayIndex? 3 (dealRecvRouteIndex rsp.modid rsp.cmdid)).isSome
  | .connInit => True

/-- The module's ids are in a shard. A report is read as a request for a host of the module
`(cmdid, 0)`, which has to belong to the shard of the report. -/
def KeepsShard : SystemAction → Prop
  | .getHost _ modid cmdid | .getRoute _ modid cmdid => InShard modid cmdid
  | .report _ modid cmdid .. => InShard modid cmdid ∧ shard cmdid 0 = shard modid cmdid
  | .dealRecvRoute _ _ data =>
    let rsp : GetRouteResponse := (parse data).1
    InShard rsp.modid rsp.cmdid
  | .connInit => True

/-- Every module is where its requests and the responses for it go, and so is every pull. -/
structure Placed (s : System) : Prop where
  modules : ∀ i, (s.session.rLb i).Holds (SitesLeadTo i)
  pulls : ∀ x ∈ s.pulled, SitesLeadTo x.1 x.2.modid x.2.cmdid

/-- A datagram that makes a server work on the module `(modid, cmdid)` only. -/
def AsksFor (d : List UInt8) (modid cmdid : Int32) : Prop :=
  ∀ env readBuf r served, serve? cfg env readBuf r d = some served →
    ∀ P : Int32 → Int32 → Prop, r.Holds P → P modid cmdid →
      served.routeLb.Holds P ∧ ∀ req ∈ served.pull, req = ⟨modid, cmdid⟩

variable {cfg}

/-- A payload that reads as a host request. -/
theorem asksFor_getHost {data : List UInt8} {req : Proto.GetHostRequest} {ok : Bool}
    (hlen : messageHeadLen + data.length ≤ messageLengthLimit) (hreq : parse data = (req, ok)) :
    AsksFor cfg (frame Proto.MessageID.idGetHostRequest.value data) req.modid req.cmdid := by
  intro env readBuf r served h P hr hP
  rw [serve?_getHostRequest cfg env readBuf r hlen hreq] at h
  obtain ⟨⟨r', rsp, ret, pull⟩, ht, rfl⟩ := Option.map_eq_some_iff.mp h
  exact hr.getHost hP ht

theorem asksFor_getHostRequest (c : Client) (modid cmdid : Int32) :
    AsksFor cfg (c.getHostRequest modid cmdid).2 modid cmdid := by
  have hlen := Proto.length_getHostResponse_le { seq := c.seqid, modid := modid, cmdid := cmdid }
  exact asksFor_getHost (by simp only [messageHeadLen, messageLengthLimit]; omega)
    (Proto.parse_getHostRequest c.seqid modid cmdid)

theorem asksFor_reportRequest (req : Proto.ReportRequest) :
    AsksFor cfg (Client.reportRequest req) req.cmdid 0 := by
  have hlen := Proto.length_reportRequest_le req
  exact asksFor_getHost (by simp only [messageHeadLen, messageLengthLimit]; omega)
    (Proto.parse_reportRequest_as_getHostRequest req)

theorem asksFor_getRouteRequest (modid cmdid : Int32) :
    AsksFor cfg (Client.getRouteRequest modid cmdid) modid cmdid := by
  intro env readBuf r served h P hr hP
  rw [Client.getRouteRequest, serve?_getRouteRequest] at h
  obtain ⟨hr', hpull⟩ := reply?_eq_some h
  rw [hr', hpull]
  exact hr.getRoute hP env.time env.raw _

variable {s t : System}

theorem Placed.start (readBuf : Fin 3 → List UInt8) : Placed (System.start readBuf) :=
  ⟨fun _ => nofun, nofun⟩

/-- A change of one `route_lb`. -/
theorem Placed.update (h : Placed s) {i : Fin 3} {r : RouteLb} (hr : r.Holds (SitesLeadTo i))
    (j : Fin 3) : (Function.update s.session.rLb i r j).Holds (SitesLeadTo j) := by
  by_cases hj : j = i
  · subst j
    rw [Function.update_self]
    exact hr
  · rw [Function.update_of_ne hj]
    exact h.modules j

/-- A request that arrives where its module belongs. -/
theorem Placed.request (h : Placed s) {env : Env} {index : Int32} {client : Client}
    {d : List UInt8} {modid cmdid : Int32} (hd : AsksFor cfg d modid cmdid)
    (hindex : index = shard modid cmdid) (hstep : s.request? cfg env index client d = some t) :
    Placed t := by
  obtain ⟨i, hi, hstep⟩ := Option.bind_eq_some_iff.mp hstep
  obtain ⟨⟨session, served⟩, hsend, hstep⟩ := Option.bind_eq_some_iff.mp hstep
  cases hstep
  obtain ⟨served', hserve, heq⟩ := Option.map_eq_some_iff.mp hsend
  cases heq
  have hgo : SitesLeadTo i modid cmdid := by
    rw [reached?_eq, hindex] at hi
    exact sitesLeadTo_iff.mpr hi
  obtain ⟨hholds, hpull⟩ := hd env _ _ served hserve _ (h.modules i) hgo
  refine ⟨h.update hholds, ?_⟩
  intro x hx
  rcases List.mem_append.mp hx with hx | hx
  · exact h.pulls x hx
  · obtain ⟨req, hreq, rfl⟩ := List.mem_map.mp hx
    rw [hpull req (Option.mem_toList.mp hreq)]
    exact hgo

theorem Placed.step (h : Placed s) {a : SystemAction} (ha : KeepsShard a)
    (hstep : s.step? cfg a = some t) : Placed t := by
  cases a with
  | getHost env modid cmdid =>
    exact h.request (asksFor_getHostRequest s.session.client modid cmdid) rfl hstep
  | getRoute env modid cmdid => exact h.request (asksFor_getRouteRequest modid cmdid) rfl hstep
  | report env modid cmdid ip port retcode =>
    refine h.request (asksFor_reportRequest _) ?_ hstep
    rw [reportIndex_eq]
    exact ha.2.symm
  | dealRecvRoute mem currentTime data =>
    obtain ⟨rLb, hdeal, rfl⟩ := Option.map_eq_some_iff.mp hstep
    obtain ⟨i, -, hdeal⟩ := Option.bind_eq_some_iff.mp hdeal
    obtain ⟨r, hr, hdeal⟩ := Option.bind_eq_some_iff.mp hdeal
    cases hdeal
    exact ⟨h.update ((h.modules i).updateHost hr), h.pulls⟩
  | connInit =>
    cases hstep
    exact ⟨fun i => (h.modules i).resetLbStatus, h.pulls⟩

theorem KeepsShard.inBounds {a : SystemAction} (h : KeepsShard a) : InBounds a := by
  have hsite : ∀ {modid cmdid index}, InShard modid cmdid → index = shard modid cmdid →
      (reached? index).isSome := by
    rintro modid cmdid index hin rfl
    rw [reached?_eq]
    exact (isSome_shard_iff modid cmdid).mpr hin
  cases a with
  | getHost env modid cmdid => exact hsite h rfl
  | getRoute env modid cmdid => exact hsite h rfl
  | report env modid cmdid ip port retcode => exact hsite h.1 (reportIndex_eq modid cmdid)
  | dealRecvRoute mem currentTime data => exact (isSome_shard_iff _ _).mpr h
  | connInit => trivial

/-- The four index computations agree on an element of the arrays exactly for the ids in a
shard. As long as all ids are, and reports meet the shard of the module that they are taken for,
no access leaves the arrays, and requests and responses for a module arrive at the one `route_lb`
that created and pulled it. -/
theorem sites_agree_iff (cfg : Config R) :
    (∀ modid cmdid, (∃ i, SitesLeadTo i modid cmdid) ↔ InShard modid cmdid) ∧
    ∀ readBuf as, (∀ x ∈ attempted (step? cfg) (System.start readBuf) as, KeepsShard x.2) →
      (∀ x ∈ attempted (step? cfg) (System.start readBuf) as, InBounds x.2) ∧
      ∀ t ∈ visited (step? cfg) (System.start readBuf) as, Placed t := by
  refine ⟨exists_sitesLeadTo_iff, ?_⟩
  intro readBuf as hkeep
  refine ⟨fun x hx => (hkeep x hx).inBounds, ?_⟩
  exact forall_visited (G := fun _ a => KeepsShard a) (fun _ _ _ h ha hstep => h.step ha hstep) _ as
    (.start readBuf) hkeep

def env : Env := ⟨100, 100, 100, ⟨0, 0, .new⟩⟩

/-- The module (1, 2) is pulled and answered; the report is for (3, 5), and -3 divides by three. -/
def placedRun : List SystemAction :=
  [.getHost env 1 2, .dealRecvRoute bumpMemory 100 (serialize (⟨1, 2, [⟨7, 80⟩]⟩ : GetRouteResponse)),
    .report env 3 5 7 80 0, .getRoute env (-3) 0]

theorem sites_agree_placedRun :
    (run? (step? defaultConfig) (System.start fun _ => []) placedRun).isSome ∧
    ∀ t ∈ visited (step? defaultConfig) (System.start fun _ => []) placedRun, Placed t := by
  refine ⟨by decide +kernel, ?_⟩
  have hkeep : ∀ a ∈ placedRun, KeepsShard a := by
    simp only [placedRun, List.forall_mem_cons, KeepsShard]
    exact ⟨by decide, by decide +kernel, ⟨by decide, by decide⟩, by decide, nofun⟩
  exact ((sites_agree_iff defaultConfig).2 _ placedRun fun x hx =>
    hkeep x.2 (mem_of_mem_attempted hx)).2

/-- A negative sum leads outside the arrays. A report for (1, 2) makes the first `route_lb` pull
the module (2, 0), and the third one gets the answer. -/
theorem sites_disagree :
    (¬ ∃ i, SitesLeadTo i (-1) 0) ∧
    ∃ t ∈ visited (step? defaultConfig) (System.start fun _ => []) [.report env 1 2 7 80 0],
      ¬ Placed t := by
  constructor
  · rintro ⟨i, hi, -⟩
    have hnone : reached? (getHostIndex (-1) 0) = none := by decide
    rw [hnone] at hi
    cases hi
  · have hpull : ∃ t ∈ visited (step? defaultConfig) (System.start fun _ => [])
        [.report env 1 2 7 80 0], t.pulled = [(0, ⟨2, 0⟩)] := by decide +kernel
    obtain ⟨t, ht, hpull⟩ := hpull
    refine ⟨t, ht, ?_⟩
    intro hplaced
    have hlead := hplaced.pulls (0, ⟨2, 0⟩) (by rw [hpull]; exact List.mem_singleton_self _)
    have hthird : arrayIndex? 3 (dealRecvRouteIndex 2 0) = some 2 := by decide
    exact absurd (hthird.symm.trans hlead.2.2.2) (by decide)

end System

end Lrlb.Api
