import Lrlb.Agent.Counters
import Lrlb.Agent.DnsClient
import Lrlb.Agent.UdpServer

/-! What a datagram, a response of the dns server and a new connection do to each module of a
`route_lb`: one relation for each of them, over the entry of a key before and after. -/
namespace Lrlb.Agent
open Lib Lib.Message Reactor
open Proto (GetHostResponse GetRouteRequest GetRouteResponse ReportRequest)

variable {R : Type}

namespace LoadBalance

theorem choiceOneHost?_status {cfg : Config R} {lb lb' : LoadBalance} {rsp rsp' : GetHostResponse} {ret : Int32}
    (hc : lb.choiceOneHost? cfg rsp = some (lb', rsp', ret)) : lb'.status = lb.status := by
  obtain ⟨_, _, _, -, -, rfl, -⟩ | ⟨_, _, -, -, rfl, -⟩ | ⟨-, -, rfl, -⟩ :=
    choiceOneHost?_cases cfg lb rsp hc <;> rfl

/-- The module keeps its name, and its hosts with their addresses and ports. -/
structure Kept (lb lb' : LoadBalance) : Prop where
  modid : lb'.modid = lb.modid
  cmdid : lb'.cmdid = lb.cmdid
  hostMap : lb'.hostMap = lb.hostMap
  ip : ∀ p, (lb'.hosts p).ip = (lb.hosts p).ip
  port : ∀ p, (lb'.hosts p).port = (lb.hosts p).port
  inv : lb.Inv → lb'.Inv

namespace Kept

variable {cfg : Config R} {lb lb' lb₂ : LoadBalance}

theorem refl (lb : LoadBalance) : Kept lb lb := ⟨rfl, rfl, rfl, fun _ => rfl, fun _ => rfl, id⟩

theorem trans (h : Kept lb lb') (h' : Kept lb' lb₂) : Kept lb lb₂ :=
  ⟨h'.modid.trans h.modid, h'.cmdid.trans h.cmdid, h'.hostMap.trans h.hostMap,
    fun p => (h'.ip p).trans (h.ip p), fun p => (h'.port p).trans (h.port p), h'.inv ∘ h.inv⟩

theorem choiceOneHost {rsp rsp' : GetHostResponse} {ret : Int32}
    (hc : lb.choiceOneHost? cfg rsp = some (lb', rsp', ret)) : Kept lb lb' := by
  have hnamed : lb.Named lb.modid lb.cmdid := ⟨rfl, rfl⟩
  obtain ⟨hmodid, hcmdid⟩ := hnamed.choiceOneHost hc
  obtain ⟨hmap, hhosts⟩ := choiceOneHost?_hosts hc
  exact ⟨hmodid, hcmdid, hmap, fun p => by rw [hhosts], fun p => by rw [hhosts],
    fun h => h.choiceOneHost hc⟩

theorem pullIfExpired (lb : LoadBalance) (time : Int64) :
    Kept lb (lb.pullIfExpired cfg time).1 := by
  have hinv : lb.Inv → (lb.pullIfExpired cfg time).1.Inv := fun h => h.pullIfExpired time
  revert hinv
  unfold LoadBalance.pullIfExpired
  split_ifs
  · intro hinv
    exact ⟨rfl, rfl, rfl, fun _ => rfl, fun _ => rfl, hinv⟩
  · intro _
    exact refl lb

/-- A new record for a host at the same address and port. -/
theorem place (lb : LoadBalance) (p : Ptr) {h : HostInfo} (hip : h.ip = (lb.hosts p).ip)
    (hport : h.port = (lb.hosts p).port) (hinv : lb.Inv → (lb.place p h).Inv) :
    Kept lb (lb.place p h) := by
  have hname : (lb.place p h).modid = lb.modid ∧ (lb.place p h).cmdid = lb.cmdid := by
    unfold LoadBalance.place
    split <;> exact ⟨rfl, rfl⟩
  refine ⟨hname.1, hname.2, lb.place_hostMap p h, fun q => ?_, fun q => ?_, hinv⟩
  · rw [place_hosts]
    by_cases hq : q = p
    · subst hq
      rw [Function.update_self, hip]
    · rw [Function.update_of_ne hq]
  · rw [place_hosts]
    by_cases hq : q = p
    · subst hq
      rw [Function.update_self, hport]
    · rw [Function.update_of_ne hq]

theorem report [RateArith R] (lb : LoadBalance) (currentTime time : Int64)
    (ip port retcode : Int32) : Kept lb (lb.report cfg currentTime time ip port retcode) := by
  have hinv : lb.Inv → (lb.report cfg currentTime time ip port retcode).Inv :=
    fun h => h.report currentTime time ip port retcode
  cases hp : lb.hostMap.lookup (reportKey ip port) with
  | none =>
    rw [report_of_lookup_none cfg currentTime time lb ip port retcode hp]
    exact refl lb
  | some p =>
    rw [report_eq_place cfg currentTime time lb p ip port retcode hp] at hinv ⊢
    obtain ⟨hip, hport⟩ := HostInfo.reported_address cfg currentTime time retcode (lb.hosts p)
    exact place lb p hip hport hinv

theorem resetStatus (lb : LoadBalance) : Kept lb lb.resetStatus := by
  have hinv : lb.Inv → lb.resetStatus.Inv := Inv.resetStatus
  revert hinv
  unfold LoadBalance.resetStatus
  split_ifs
  · intro hinv
    exact ⟨rfl, rfl, rfl, fun _ => rfl, fun _ => rfl, hinv⟩
  · intro _
    exact refl lb

end Kept

end LoadBalance

open LoadBalance

/-- What a request leaves under a key: what was there, a new module that is pulled at once, or the
module with its hosts. One that is pulling from now on has been put on the dns queue. -/
inductive ModuleStep (key : UInt64) (pull : Option GetRouteRequest) :
    Option LoadBalance → Option LoadBalance → Prop
  | same (o : Option LoadBalance) : ModuleStep key pull o o
  | added (raw : RawLoadBalance) (modid cmdid : Int32) : key = packInts modid cmdid →
    pull = some ⟨modid, cmdid⟩ → ModuleStep key pull none (some (create raw modid cmdid).pull.1)
  | kept (lb lb' : LoadBalance) : lb.Kept lb' →
    (lb'.status = .pulling → lb.status = .pulling ∨ pull = some ⟨lb.modid, lb.cmdid⟩) →
    ModuleStep key pull (some lb) (some lb')

/-- What a response leaves under the key of its module. -/
inductive UpdateStep (cfg : Config R) (mem : Memory) (currentTime : Int64)
    (hosts : List Proto.HostInfo) : Option LoadBalance → Option LoadBalance → Prop
  | absent : UpdateStep cfg mem currentTime hosts none none
  | removed (lb : LoadBalance) : hosts = [] → UpdateStep cfg mem currentTime hosts (some lb) none
  | updated (lb lb' : LoadBalance) : lb.update? cfg mem currentTime hosts = some lb' →
    UpdateStep cfg mem currentTime hosts (some lb) (some lb')

namespace RouteLb

variable {cfg : Config R} {r r' : RouteLb} {key : UInt64} {pull : Option GetRouteRequest}

theorem routeLbMap_set_self (r : RouteLb) (key : UInt64) (v : Option LoadBalance) :
    (r.set key v).routeLbMap key = v := Function.update_self ..

theorem routeLbMap_set_ne (r : RouteLb) {k key : UInt64} (h : k ≠ key) (v : Option LoadBalance) :
    (r.set key v).routeLbMap k = r.routeLbMap k := Function.update_of_ne h ..

/-- A change under one key is a step under every key. -/
theorem moduleStep_set {v : Option LoadBalance} (h : ModuleStep key pull (r.routeLbMap key) v)
    (k : UInt64) : ModuleStep k pull (r.routeLbMap k) ((r.set key v).routeLbMap k) := by
  by_cases hk : k = key
  · subst hk
    rwa [routeLbMap_set_self]
  · rw [routeLbMap_set_ne r hk]
    exact .same _

theorem moduleStep_addModule (raw : RawLoadBalance) {modid cmdid : Int32}
    (hnone : r.routeLbMap (packInts modid cmdid) = none) (k : UInt64) :
    ModuleStep k (some (r.addModule raw modid cmdid).2) (r.routeLbMap k)
      ((r.addModule raw modid cmdid).1.routeLbMap k) := by
  apply moduleStep_set
  rw [hnone]
  exact .added raw modid cmdid rfl rfl

/-- A module that was pulling before is not pulled again. -/
theorem moduleStep_pullIfExpired {lb lb₁ : LoadBalance} (hget : r.routeLbMap key = some lb)
    (hkept : lb.Kept lb₁) (hstatus : lb₁.status = lb.status) (time : Int64) (k : UInt64) :
    ModuleStep k (lb₁.pullIfExpired cfg time).2 (r.routeLbMap k)
      ((r.set key (some (lb₁.pullIfExpired cfg time).1)).routeLbMap k) := by
  apply moduleStep_set
  rw [hget]
  refine .kept lb _ (hkept.trans (.pullIfExpired lb₁ time)) ?_
  unfold LoadBalance.pullIfExpired
  split_ifs
  · intro _
    rw [LoadBalance.pull, hkept.modid, hkept.cmdid]
    exact Or.inr rfl
  · intro hs
    exact Or.inl (hstatus ▸ hs)

theorem moduleStep_getHost {time : Int64} {raw : RawLoadBalance} {modid cmdid : Int32}
    {rsp rsp' : GetHostResponse} {ret : Int32}
    (h : r.getHost? cfg time raw modid cmdid rsp = some (r', rsp', ret, pull)) (k : UInt64) :
    ModuleStep k pull (r.routeLbMap k) (r'.routeLbMap k) := by
  obtain ⟨hnone, rfl, -, rfl⟩ | ⟨lb, -, -, rfl, -⟩ | ⟨lb, lb₁, rsp₁, hget, -, hc, rfl, -, rfl⟩ :=
    getHost?_cases h
  · exact moduleStep_addModule raw hnone k
  · exact .same _
  · exact moduleStep_pullIfExpired hget (.choiceOneHost hc) (choiceOneHost?_status hc) time k

theorem moduleStep_getRoute (time : Int64) (raw : RawLoadBalance) (modid cmdid : Int32)
    (rsp : GetRouteResponse) (k : UInt64) :
    ModuleStep k (r.getRoute cfg time raw modid cmdid rsp).2.2.2 (r.routeLbMap k)
      ((r.getRoute cfg time raw modid cmdid rsp).1.routeLbMap k) := by
  unfold RouteLb.getRoute
  dsimp only
  cases hget : r.routeLbMap (packInts modid cmdid) with
  | none => exact moduleStep_addModule raw hget k
  | some lb => exact moduleStep_pullIfExpired hget (.refl lb) rfl time k

theorem moduleStep_reportHost [RateArith R] (currentTime time ts : Int64) (req : ReportRequest)
    (k : UInt64) :
    ModuleStep k pull (r.routeLbMap k)
      ((r.reportHost cfg currentTime time ts req).1.routeLbMap k) := by
  unfold RouteLb.reportHost
  dsimp only
  cases hget : r.routeLbMap (packInts req.modid req.cmdid) with
  | none => exact .same _
  | some lb =>
    apply moduleStep_set
    rw [hget]
    refine .kept lb _ (.report lb currentTime time _ _ req.retcode) ?_
    intro hs
    rw [report_status] at hs
    exact Or.inl hs

theorem updateStep_updateHost {mem : Memory} {currentTime : Int64} {modid cmdid : Int32}
    {rsp : GetRouteResponse} (h : r.updateHost? cfg mem currentTime modid cmdid rsp = some r') :
    UpdateStep cfg mem currentTime rsp.host (r.routeLbMap (packInts modid cmdid))
        (r'.routeLbMap (packInts modid cmdid)) ∧
      ∀ k ≠ packInts modid cmdid, r'.routeLbMap k = r.routeLbMap k := by
  unfold updateHost? at h
  dsimp only at h
  cases hget : r.routeLbMap (packInts modid cmdid) with
  | none =>
    rw [hget] at h
    cases h
    rw [hget]
    exact ⟨.absent, fun _ _ => rfl⟩
  | some lb =>
    rw [hget] at h
    dsimp only at h
    split_ifs at h with hempty
    · cases h
      rw [routeLbMap_set_self]
      exact ⟨.removed lb hempty, fun k hk => routeLbMap_set_ne r hk none⟩
    · obtain ⟨lb', hu, rfl⟩ := Option.map_eq_some_iff.mp h
      rw [routeLbMap_set_self]
      exact ⟨.updated lb lb' hu, fun k hk => routeLbMap_set_ne r hk _⟩

end RouteLb

/-- Whatever a datagram says, each module of the `route_lb` makes one step. -/
theorem moduleStep_serve [RateArith R] {cfg : Config R} {env : Env} {readBuf d : List UInt8}
    {r : RouteLb} {served : Served} (h : serve? cfg env readBuf r d = some served) (k : UInt64) :
    ModuleStep k served.pull (r.routeLbMap k) (served.routeLb.routeLbMap k) := by
  unfold serve? at h
  split at h
  · cases h
    exact .same _
  · split at h
    · cases h
      exact .same _
    · rename_i cb _
      cases cb with
      | getRouteCb =>
        obtain ⟨hr, hpull⟩ := reply?_eq_some h
        rw [hr, hpull]
        exact RouteLb.moduleStep_getRoute ..
      | getHostCb =>
        obtain ⟨⟨r', rsp, ret, pull⟩, hg, h⟩ := Option.bind_eq_some_iff.mp h
        obtain ⟨hr, hpull⟩ := reply?_eq_some h
        rw [hr, hpull]
        exact RouteLb.moduleStep_getHost hg k
      | reportCb =>
        cases h
        exact RouteLb.moduleStep_reportHost ..

/-- A response changes the module that it names, in the `route_lb` that it is handed to. -/
theorem updateStep_dealRecvRoute {cfg : Config R} {mem : Memory} {currentTime : Int64}
    {rLb rLb' : Fin 3 → RouteLb} {rsp : GetRouteResponse}
    (h : dealRecvRoute? cfg mem currentTime rLb (serialize rsp) = some rLb') :
    ∃ i, arrayIndex? 3 (dealRecvRouteIndex rsp.modid rsp.cmdid) = some i ∧
      UpdateStep cfg mem currentTime rsp.host ((rLb i).routeLbMap (packInts rsp.modid rsp.cmdid))
        ((rLb' i).routeLbMap (packInts rsp.modid rsp.cmdid)) ∧
      ∀ j k, (j ≠ i ∨ k ≠ packInts rsp.modid rsp.cmdid) →
        (rLb' j).routeLbMap k = (rLb j).routeLbMap k := by
  unfold dealRecvRoute? at h
  rw [Proto.parse_getRouteResponse] at h
  obtain ⟨i, hi, h⟩ := Option.bind_eq_some_iff.mp h
  obtain ⟨r, hr, h⟩ := Option.bind_eq_some_iff.mp h
  cases h
  obtain ⟨hself, hother⟩ := RouteLb.updateStep_updateHost hr
  refine ⟨i, hi, ?_, ?_⟩
  · rwa [Function.update_self]
  · intro j k hjk
    by_cases hj : j = i
    · subst hj
      rw [Function.update_self]
      exact hother k (hjk.resolve_left fun hne => hne rfl)
    · rw [Function.update_of_ne hj]

/-- The host is one of the module's. -/
def RouteLb.Offers (r : RouteLb) (modid cmdid : Int32) (x : Proto.HostInfo) : Prop :=
  ∃ lb p, r.routeLbMap (packInts modid cmdid) = some lb ∧ lb.Holds p ∧
    x = ⟨(lb.hosts p).ip.toInt32, (lb.hosts p).port⟩

/-- The hosts that `get_route` tells for what is under a key. -/
def told : Option LoadBalance → List Proto.HostInfo
  | some lb => lb.getAllHosts.map fun p => ⟨(lb.hosts p).ip.toInt32, (lb.hosts p).port⟩
  | none => []

theorem told_kept {lb lb' : LoadBalance} (h : lb.Kept lb') : told (some lb') = told (some lb) := by
  have hall : lb'.getAllHosts = lb.getAllHosts := by
    rw [getAllHosts, pointers, h.hostMap]
    rfl
  simp only [told, hall, h.ip, h.port]

/-- Requests leave the hosts that are told as they were. -/
theorem ModuleStep.told_eq {key : UInt64} {pull : Option GetRouteRequest} {o o' : Option LoadBalance}
    (h : ModuleStep key pull o o') : told o' = told o := by
  cases h with
  | same => rfl
  | added => rfl
  | kept lb lb' hkept => exact told_kept hkept

namespace RouteLb

variable {cfg : Config R} {r r' : RouteLb}

theorem offers_getHost (hinv : ∀ key lb, r.routeLbMap key = some lb → lb.Inv) {time : Int64}
    {raw : RawLoadBalance} {modid cmdid : Int32} {rsp rsp' : GetHostResponse} {ret : Int32}
    {pull : Option GetRouteRequest} (hrsp : rsp.host = none)
    (h : r.getHost? cfg time raw modid cmdid rsp = some (r', rsp', ret, pull)) :
    ∀ x ∈ rsp'.host, r.Offers modid cmdid x := by
  intro x hx
  obtain ⟨-, -, rfl, -⟩ | ⟨lb, -, -, -, rfl⟩ | ⟨lb, lb₁, rsp₁, hget, -, hc, -, rfl, -⟩ :=
    getHost?_cases h
  · cases hrsp.symm.trans hx
  · cases hrsp.symm.trans hx
  · have hsplit := (hinv _ lb hget).split
    obtain ⟨p, l, cnt, hl, -, -, rfl, -⟩ | ⟨p, l, hl, -, -, rfl, -⟩ | ⟨-, -, -, rfl, -⟩ :=
      choiceOneHost?_cases cfg lb rsp hc
    · cases hx
      exact ⟨lb, p, hget, (hsplit.mem_iff p).mp (Or.inl (by simp [hl])), rfl⟩
    · cases hx
      exact ⟨lb, p, hget, (hsplit.mem_iff p).mp (Or.inr (by simp [hl])), rfl⟩
    · cases hrsp.symm.trans hx

/-- What `get_route` answers, once the module is looked up. -/
theorem getRoute_response (time : Int64) (raw : RawLoadBalance) (modid cmdid : Int32)
    (rsp : GetRouteResponse) : (r.getRoute cfg time raw modid cmdid rsp).2.1 =
      { rsp with host := rsp.host ++ told (r.routeLbMap (packInts modid cmdid)) } := by
  unfold RouteLb.getRoute told
  dsimp only
  cases r.routeLbMap (packInts modid cmdid) with
  | none => simp
  | some lb => rfl

theorem offers_told {modid cmdid : Int32} {x : Proto.HostInfo}
    (hx : x ∈ told (r.routeLbMap (packInts modid cmdid))) : r.Offers modid cmdid x := by
  unfold told at hx
  cases hget : r.routeLbMap (packInts modid cmdid) with
  | none =>
    rw [hget] at hx
    cases hx
  | some lb =>
    rw [hget] at hx
    obtain ⟨p, hp, rfl⟩ := List.mem_map.mp hx
    exact ⟨lb, p, hget, (lb.mem_pointers p).mp hp, rfl⟩

end RouteLb

theorem mem_replies_reply {r : RouteLb} {call : RouteCall} {pull : Option GetRouteRequest}
    {data : List UInt8} {id : Proto.MessageID} {served : Served}
    (h : reply? r call pull data id = some served) {reply : List UInt8}
    (hreply : reply ∈ served.replies) : reply = frame id.value data := by
  unfold reply? udpSendMessage at h
  split_ifs at h
  · cases h
    cases hreply
  · cases h
    exact List.mem_singleton.mp hreply

theorem getRouteCb?_eq (cfg : Config R) (env : Env) (r : RouteLb) (data : List UInt8) :
    ∃ (req : GetRouteRequest) (rsp : GetRouteResponse),
      rsp = (r.getRoute cfg env.time env.raw req.modid req.cmdid
        { modid := req.modid, cmdid := req.cmdid }).2.1 ∧
      getRouteCb? cfg env r data =
        reply? (r.getRoute cfg env.time env.raw req.modid req.cmdid
            { modid := req.modid, cmdid := req.cmdid }).1 (.getRoute req.modid req.cmdid)
          (r.getRoute cfg env.time env.raw req.modid req.cmdid
            { modid := req.modid, cmdid := req.cmdid }).2.2.2
          (serialize rsp) .idAPIGetRouteResponse := ⟨(parse data).1, _, rfl, rfl⟩

/-- A datagram that the agent sends: a response of `get_host` or of `get_route`, with hosts of the
module that it names. -/
inductive Offered (r : RouteLb) : List UInt8 → Prop
  | host (rsp : GetHostResponse) : (∀ x ∈ rsp.host, r.Offers rsp.modid rsp.cmdid x) →
    Offered r (frame Proto.MessageID.idGetHostResponse.value (serialize rsp))
  | route (rsp : GetRouteResponse) : (∀ x ∈ rsp.host, r.Offers rsp.modid rsp.cmdid x) →
    Offered r (frame Proto.MessageID.idAPIGetRouteResponse.value (serialize rsp))

theorem offered_serve [RateArith R] {cfg : Config R} {env : Env} {readBuf d : List UInt8}
    {r : RouteLb} {served : Served} (hinv : ∀ key lb, r.routeLbMap key = some lb → lb.Inv)
    (h : serve? cfg env readBuf r d = some served) : ∀ reply ∈ served.replies, Offered r reply := by
  intro reply hreply
  unfold serve? at h
  split at h
  · cases h
    cases hreply
  · split at h
    · cases h
      cases hreply
    · rename_i cb _
      cases cb with
      | getRouteCb =>
        obtain ⟨req, rsp, hrsp, hcb⟩ := getRouteCb?_eq cfg env r _
        rw [callback?, hcb] at h
        rw [mem_replies_reply h hreply]
        rw [RouteLb.getRoute_response] at hrsp
        apply Offered.route
        intro x hx
        rw [hrsp] at hx ⊢
        exact RouteLb.offers_told hx
      | getHostCb =>
        obtain ⟨⟨r', rsp, ret, pull⟩, hg, h⟩ := Option.bind_eq_some_iff.mp h
        rw [mem_replies_reply h hreply]
        obtain ⟨-, hmodid, hcmdid⟩ := getHost?_response cfg r hg
        apply Offered.host
        intro x hx
        rw [hmodid, hcmdid]
        exact RouteLb.offers_getHost hinv rfl hg x hx
      | reportCb =>
        cases h
        cases hreply

/-- A report that a datagram puts on the queue is committed by a module that the `route_lb` now
has. -/
theorem committed_serve [RateArith R] {cfg : Config R} {env : Env} {readBuf d : List UInt8}
    {r : RouteLb} {served : Served} (h : serve? cfg env readBuf r d = some served)
    {req : Proto.ReportStatusReq} (hreq : served.report = some req) :
    ∃ key lb, served.routeLb.routeLbMap key = some lb ∧ lb.commit cfg env.ts = some req := by
  have hreply : ∀ {r : RouteLb} {call : RouteCall} {pull : Option GetRouteRequest}
      {data : List UInt8} {id : Proto.MessageID}, reply? r call pull data id ≠ some served := by
    intro r call pull data id h
    unfold reply? udpSendMessage at h
    split_ifs at h <;> cases h <;> cases hreq
  unfold serve? at h
  split at h
  · cases h
    cases hreq
  · split at h
    · cases h
      cases hreq
    · rename_i data _ _ cb _
      cases cb with
      | getRouteCb => exact absurd h hreply
      | getHostCb =>
        obtain ⟨⟨r', rsp, ret, pull⟩, -, h⟩ := Option.bind_eq_some_iff.mp h
        exact absurd h hreply
      | reportCb =>
        cases h
        revert hreq
        unfold reportCb RouteLb.reportHost
        dsimp only
        split
        · intro hreq
          exact ⟨_, _, RouteLb.routeLbMap_set_self .., hreq⟩
        · intro hreq
          cases hreq

section Names

/-- The module is stored under the key of its own name. -/
def KeyedBy (key : UInt64) (o : Option LoadBalance) : Prop :=
  ∀ lb, o = some lb → packInts lb.modid lb.cmdid = key

variable {key : UInt64} {o o' : Option LoadBalance}

theorem ModuleStep.keyedBy {pull : Option GetRouteRequest} (h : ModuleStep key pull o o')
    (ho : KeyedBy key o) : KeyedBy key o' := by
  intro lb' hlb'
  cases h with
  | same => exact ho lb' hlb'
  | added raw modid cmdid hkey =>
    cases hlb'
    exact hkey.symm
  | kept lb _ hkept =>
    cases hlb'
    rw [hkept.modid, hkept.cmdid]
    exact ho lb rfl

theorem UpdateStep.keyedBy {cfg : Config R} {mem : Memory} {currentTime : Int64}
    {hosts : List Proto.HostInfo} (h : UpdateStep cfg mem currentTime hosts o o')
    (ho : KeyedBy key o) : KeyedBy key o' := by
  intro lb' hlb'
  cases h with
  | absent => cases hlb'
  | removed => cases hlb'
  | updated lb _ hu =>
    cases hlb'
    have hnamed : lb.Named lb.modid lb.cmdid := ⟨rfl, rfl⟩
    obtain ⟨hmodid, hcmdid⟩ := hnamed.update hu
    rw [hmodid, hcmdid]
    exact ho lb rfl

end Names

end Lrlb.Agent
