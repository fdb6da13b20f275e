import Lrlb.Pipeline.Tables

/-! What becomes of the pulls of an agent: where the request of a module that is pulling can be, what
its hosts are once everything has arrived, and what is left of it after the connection is lost. -/
namespace Lrlb.Pipeline
open Lib Lib.Message Agent Dns LoadBalance
open Proto (GetRouteRequest GetRouteResponse)
open Reactor (TcpClient)

/-- The response answers a request for the module. -/
def Answers (rsp : GetRouteResponse) (req : GetRouteRequest) : Prop :=
  rsp.modid = req.modid ∧ rsp.cmdid = req.cmdid

namespace System

/-- The places where a request or its response can be, with those it does not leave again. -/
inductive Pending (s : System) (req : GetRouteRequest) : Prop
  | queued : req ∈ s.dnsQueue → Pending s req
  | up (data : List UInt8) : data ∈ s.up → (parse data).1 = req → Pending s req
  | asked (fd : Fd) (sent : List GetRouteResponse) : s.peer = .accepted fd →
    s.dns.server.view fd = some ⟨.asked req, sent⟩ → Pending s req
  | ready (fd : Fd) (rsp : GetRouteResponse) (sent : List GetRouteResponse) :
    s.peer = .accepted fd → s.dns.server.view fd = some ⟨.ready rsp, sent⟩ → Answers rsp req →
    Pending s req
  | down (rsp : GetRouteResponse) : rsp ∈ s.down → Answers rsp req → Pending s req
  | lost : req ∈ s.lost → Pending s req
  | closed : s.peer = .closed → Pending s req

variable {R : Type} {cfg : Config R} {threads : ℕ} {s t : System} {vs : List ℕ}
  {req : GetRouteRequest}

/-- The server passes a request on until its response is on the way. -/
theorem Pending.observe (h : Pending s req) (hl : Linked s vs) {a : ServerAction} {dns : Versioned}
    (hdns : s.dns.step threads a = some dns) : Pending (s.observe dns) req := by
  by_cases hpeer : ∃ fd, s.peer = .accepted fd
  · obtain ⟨fd, hfd⟩ := hpeer
    obtain ⟨v, hv, hsent⟩ := hl.sent fd hfd
    have hview := hl.dns.viewStep hdns fd
    rw [hv] at hview
    cases hv' : dns.server.view fd with
    | none =>
      rw [observe_closed hfd hv']
      exact .closed rfl
    | some v' =>
      rw [hv'] at hview
      rw [observe_open hfd hv', hsent]
      cases h with
      | queued hmem => exact .queued hmem
      | up data hdata hreq => exact .up data hdata hreq
      | down rsp hrsp hans => exact .down rsp (List.mem_append_left _ hrsp) hans
      | lost hmem => exact .lost hmem
      | closed hc => cases hfd.symm.trans hc
      | asked f sent hf hask =>
        cases hfd.symm.trans hf
        cases hv.symm.trans hask
        cases hview with
        | same => exact .asked fd sent hfd hv'
        | answered => exact .ready fd _ sent hfd hv' ⟨rfl, rfl⟩
      | ready f rsp sent hf hready hans =>
        cases hfd.symm.trans hf
        cases hv.symm.trans hready
        cases hview with
        | same => exact .ready fd rsp sent hfd hv' hans
        | sent => exact .down rsp (by simp) hans
  · rw [not_exists] at hpeer
    rw [observe_of_ne hpeer]
    cases h with
    | queued hmem => exact .queued hmem
    | up data hdata hreq => exact .up data hdata hreq
    | asked fd _ hfd => exact absurd hfd (hpeer fd)
    | ready fd _ _ hfd => exact absurd hfd (hpeer fd)
    | down rsp hrsp hans => exact .down rsp hrsp hans
    | lost hmem => exact .lost hmem
    | closed hc => exact .closed hc

theorem observe_up (s : System) (dns : Versioned) (up : List (List UInt8)) :
    ({ s with up := up } : System).observe dns = { s.observe dns with up := up } := by
  unfold observe
  dsimp only
  split
  · split <;> rfl
  · rfl

/-- A payload that arrives at `get_route` is asked for, and the others stay where they are. -/
theorem Pending.request (h : Pending s req) (hl : Linked s vs) {w : ℕ} {fd : Fd} {data : List UInt8}
    {up : List (List UInt8)} {dns : Versioned} (hpeer : s.peer = .accepted fd)
    (hup : s.up = data :: up) (hdns : s.dns.step threads (.getRoute w fd data) = some dns) :
    Pending { s.observe dns with up := up } req := by
  obtain ⟨sent, hquiet, hasked⟩ := Versioned.view_request hdns
  rw [← observe_up]
  have hl' : Linked { s with up := up } vs := hl.congr rfl rfl rfl
  have hkeep : Pending { s with up := up } req → Pending (({ s with up := up } : System).observe dns) req :=
    fun hp => hp.observe hl' hdns
  cases h with
  | queued hmem => exact hkeep (.queued hmem)
  | up d hd hreq =>
    rw [hup] at hd
    cases List.mem_cons.mp hd with
    | inl he =>
      subst he hreq
      refine .asked fd sent ?_ ?_
      · rw [observe_open (s := { s with up := up }) hpeer hasked]
        exact hpeer
      · rw [observe_dns]
        exact hasked
    | inr hmem => exact hkeep (.up d hmem hreq)
  | asked f sent' hf hv =>
    cases hpeer.symm.trans hf
    cases hquiet.symm.trans hv
  | ready f rsp sent' hf hv =>
    cases hpeer.symm.trans hf
    cases hquiet.symm.trans hv
  | down rsp hrsp hans => exact hkeep (.down rsp hrsp hans)
  | lost hmem => exact hkeep (.lost hmem)
  | closed hc => cases hpeer.symm.trans hc

/-- The agent's side moves: what was in each of its places is pending again. -/
theorem Pending.move (h : Pending s req) (hdns : t.dns = s.dns) (hpeer : t.peer = s.peer)
    (hqueue : req ∈ s.dnsQueue → Pending t req)
    (hup : ∀ data ∈ s.up, (parse data).1 = req → Pending t req)
    (hdown : ∀ rsp ∈ s.down, Answers rsp req → Pending t req)
    (hlost : req ∈ s.lost → Pending t req) : Pending t req := by
  cases h with
  | queued hmem => exact hqueue hmem
  | up data hdata hreq => exact hup data hdata hreq
  | asked fd sent hfd hv => exact .asked fd sent (hpeer.trans hfd) (hdns ▸ hv)
  | ready fd rsp sent hfd hv hans => exact .ready fd rsp sent (hpeer.trans hfd) (hdns ▸ hv) hans
  | down rsp hrsp hans => exact hdown rsp hrsp hans
  | lost hmem => exact hlost hmem
  | closed hc => exact .closed (hpeer.trans hc)

/-- `new_dns_request` empties the queue, but each request is sent or refused. -/
theorem Pending.newDnsRequest (h : Pending s req) {client : TcpClient} {msgid : Int32}
    {sent : TcpClient × List GetRouteRequest × List GetRouteRequest}
    (hsent : sent = forward msgid client s.dnsQueue) :
    Pending { s with
      dnsQueue := []
      up := s.up ++ sent.2.1.map serialize
      lost := s.lost ++ sent.2.2 } req := by
  refine h.move rfl rfl ?_ ?_ ?_ ?_
  · intro hmem
    have hfwd := mem_forward msgid client hmem
    rw [← hsent] at hfwd
    cases hfwd with
    | inl htaken =>
      refine .up (serialize req) (List.mem_append_right _ (List.mem_map_of_mem htaken)) ?_
      rw [Proto.parse_getRouteRequest]
    | inr hrefused => exact .lost (List.mem_append_right _ hrefused)
  · intro data hdata hreq
    exact .up data (List.mem_append_left _ hdata) hreq
  · intro rsp hrsp hans
    exact .down rsp hrsp hans
  · intro hmem
    exact .lost (List.mem_append_left _ hmem)

/-- A response leaves the connection: other requests stay pending. -/
theorem Pending.handed (h : Pending s req) {rsp : GetRouteResponse} {down : List GetRouteResponse}
    (hdown : s.down = rsp :: down) (ht : t.dns = s.dns ∧ t.peer = s.peer ∧ t.dnsQueue = s.dnsQueue ∧
      t.up = s.up ∧ t.down = down ∧ s.lost <+: t.lost)
    (hrsp : Answers rsp req → Pending t req) : Pending t req := by
  obtain ⟨hdns, hpeer, hqueue, hup, htdown, hlost⟩ := ht
  refine h.move hdns hpeer ?_ ?_ ?_ ?_
  · intro hmem
    exact .queued (hqueue ▸ hmem)
  · intro data hdata hreq
    exact .up data (hup ▸ hdata) hreq
  · intro r hr hans
    rw [hdown] at hr
    cases List.mem_cons.mp hr with
    | inl he =>
      subst he
      exact hrsp hans
    | inr hmem => exact .down r (htdown ▸ hmem) hans
  · intro hmem
    exact .lost (hlost.subset hmem)

/-- The bookkeeping of one module: it has the name of its key, and while it is pulling its request
is somewhere. -/
structure Accounted (modid cmdid : Int32) (s : System) : Prop where
  linked : ∃ vs, Linked s vs
  named : ∀ i lb, (s.rLb i).routeLbMap (packInts modid cmdid) = some lb → lb.Named modid cmdid
  pulls : ∀ i lb, (s.rLb i).routeLbMap (packInts modid cmdid) = some lb → lb.status = .pulling →
    arrayIndex? 3 (dealRecvRouteIndex modid cmdid) = some i → Pending s ⟨modid, cmdid⟩

variable {modid cmdid : Int32}

theorem Accounted.start (rows : List RouteRow) (link : Link) :
    Accounted modid cmdid (System.start rows link) :=
  ⟨⟨[], .start rows link⟩, by simp [System.start, RouteLb.empty], by simp [System.start, RouteLb.empty]⟩

/-- A module has its name after a datagram, and one that starts to pull has put its request on the
queue. -/
theorem Accounted.moduleStep {i : Fin 3} {pull : Option GetRouteRequest} {o' : Option LoadBalance}
    (h : Accounted modid cmdid s)
    (hstep : ModuleStep (packInts modid cmdid) pull ((s.rLb i).routeLbMap (packInts modid cmdid)) o')
    (lb' : LoadBalance) (hlb' : o' = some lb') :
    lb'.Named modid cmdid ∧ (lb'.status = .pulling →
      arrayIndex? 3 (dealRecvRouteIndex modid cmdid) = some i →
        Pending s ⟨modid, cmdid⟩ ∨ pull = some ⟨modid, cmdid⟩) := by
  generalize ho : (s.rLb i).routeLbMap (packInts modid cmdid) = o at hstep
  cases hstep with
  | same =>
    rw [hlb'] at ho
    exact ⟨h.named i lb' ho, fun hs hi => Or.inl (h.pulls i lb' ho hs hi)⟩
  | added raw m c hkey hpull =>
    cases hlb'
    obtain ⟨rfl, rfl⟩ := packInts_injective hkey
    exact ⟨⟨rfl, rfl⟩, fun _ _ => Or.inr hpull⟩
  | kept lb _ hkept hpulling =>
    cases hlb'
    obtain ⟨hm, hc⟩ := h.named i lb ho
    refine ⟨⟨hkept.modid.trans hm, hkept.cmdid.trans hc⟩, ?_⟩
    intro hs hi
    cases hpulling hs with
    | inl hold => exact Or.inl (h.pulls i lb ho hold hi)
    | inr hpull =>
      rw [hm, hc] at hpull
      exact Or.inr hpull

/-- The answer to a pull ends it. -/
theorem Accounted.receive {rsp : GetRouteResponse} {down : List GetRouteResponse}
    (h : Accounted modid cmdid s) (hl : ∃ vs, Linked t vs) (hdown : s.down = rsp :: down)
    {mem : Memory} {currentTime : Int64}
    (hdeal : dealRecvRoute? cfg mem currentTime s.rLb (serialize rsp) = some t.rLb)
    (ht : t.dns = s.dns ∧ t.peer = s.peer ∧ t.dnsQueue = s.dnsQueue ∧ t.up = s.up ∧ t.down = down ∧
      s.lost <+: t.lost) : Accounted modid cmdid t := by
  obtain ⟨j, hj, hself, hother⟩ := updateStep_dealRecvRoute hdeal
  by_cases hm : rsp.modid = modid ∧ rsp.cmdid = cmdid
  · obtain ⟨rfl, rfl⟩ := hm
    have hafter : ∀ lb, (t.rLb j).routeLbMap (packInts rsp.modid rsp.cmdid) = some lb →
        lb.Named rsp.modid rsp.cmdid ∧ lb.status = .new := by
      intro lb hget
      rw [hget] at hself
      cases hold : (s.rLb j).routeLbMap (packInts rsp.modid rsp.cmdid) with
      | none =>
        rw [hold] at hself
        cases hself
      | some lb₀ =>
        rw [hold] at hself
        cases hself with
        | updated _ _ hup => exact ⟨(h.named j lb₀ hold).update hup, (update?_spec hup).status⟩
    refine ⟨hl, ?_, ?_⟩
    · intro i lb hget
      by_cases hij : i = j
      · subst hij
        exact (hafter lb hget).1
      · rw [hother i _ (Or.inl hij)] at hget
        exact h.named i lb hget
    · intro i lb hget hs hi
      cases hj.symm.trans hi
      cases (hafter lb hget).2.symm.trans hs
  · have hkey : packInts modid cmdid ≠ packInts rsp.modid rsp.cmdid := by
      intro he
      obtain ⟨rfl, rfl⟩ := packInts_injective he
      exact hm ⟨rfl, rfl⟩
    refine ⟨hl, ?_, ?_⟩
    · intro i lb hget
      rw [hother i _ (Or.inr hkey)] at hget
      exact h.named i lb hget
    · intro i lb hget hs hi
      rw [hother i _ (Or.inr hkey)] at hget
      exact (h.pulls i lb hget hs hi).handed hdown ht fun hans => absurd hans hm

variable [RateArith R]

theorem Accounted.step (h : Accounted modid cmdid s) {a : Action}
    (hstep : s.step? cfg threads a = some t) : Accounted modid cmdid t := by
  obtain ⟨vs, hl⟩ := h.linked
  have hl' : ∃ vs, Linked t vs := by
    obtain ⟨vs', -, hl'⟩ := hl.step hstep
    exact ⟨vs', hl'⟩
  cases step?_inv hstep with
  | datagram i env readBuf d served hserve =>
    have hmove : Pending s ⟨modid, cmdid⟩ → Pending { s with
        rLb := Function.update s.rLb i served.routeLb
        dnsQueue := s.dnsQueue ++ served.pull.toList } ⟨modid, cmdid⟩ := by
      intro hp
      refine hp.move rfl rfl ?_ ?_ ?_ ?_
      · intro hmem
        exact .queued (List.mem_append_left _ hmem)
      · intro data hdata hreq
        exact .up data hdata hreq
      · intro rsp hrsp hans
        exact .down rsp hrsp hans
      · intro hmem
        exact .lost hmem
    have hmodule := fun lb hget => h.moduleStep (moduleStep_serve hserve _) lb hget
    refine ⟨hl', ?_, ?_⟩
    · intro j lb hget
      dsimp only at hget
      by_cases hj : j = i
      · subst hj
        rw [Function.update_self] at hget
        exact (hmodule lb hget).1
      · rw [Function.update_of_ne hj] at hget
        exact h.named j lb hget
    · intro j lb hget hs hi
      dsimp only at hget
      by_cases hj : j = i
      · subst hj
        rw [Function.update_self] at hget
        cases (hmodule lb hget).2 hs hi with
        | inl hp => exact hmove hp
        | inr hpull => exact .queued (List.mem_append_right _ (by rw [hpull]; exact List.mem_singleton_self _))
      · rw [Function.update_of_ne hj] at hget
        exact hmove (h.pulls j lb hget hs hi)
  | newDnsRequest client sent hc hsent =>
    exact ⟨hl', h.named, fun i lb hget hs hi => (h.pulls i lb hget hs hi).newDnsRequest hsent⟩
  | connInit hlink =>
    refine ⟨hl', ?_, ?_⟩
    · intro i lb hget
      obtain ⟨lb₁, hlb₁, rfl⟩ := Option.map_eq_some_iff.mp hget
      exact (h.named i lb₁ hlb₁).resetStatus
    · intro i lb hget hs
      obtain ⟨lb₁, hlb₁, rfl⟩ := Option.map_eq_some_iff.mp hget
      cases lb₁.resetStatus_status.symm.trans hs
  | disconnect =>
    refine ⟨hl', h.named, fun i lb hget hs hi => ?_⟩
    exact (h.pulls i lb hget hs hi).move rfl rfl (fun hq => .queued hq)
      (fun data hdata hreq => .up data hdata hreq) (fun rsp hrsp hans => .down rsp hrsp hans)
      fun hmem => .lost hmem
  | dealRecvRoute mem currentTime rsp down rLb hlink hdown hdeal =>
    exact h.receive hl' hdown hdeal ⟨rfl, rfl, rfl, rfl, rfl, List.prefix_refl _⟩
  | refuse rsp down hdown =>
    refine ⟨hl', h.named, fun i lb hget hs hi => ?_⟩
    refine (h.pulls i lb hget hs hi).handed hdown ⟨rfl, rfl, rfl, rfl, rfl, List.prefix_append ..⟩ ?_
    intro hans
    obtain ⟨rfl, rfl⟩ := hans
    exact .lost (List.mem_append_right _ (List.mem_singleton_self _))
  | accept w fd dns hpeer hdns =>
    refine ⟨hl', h.named, fun i lb hget hs hi => ?_⟩
    cases h.pulls i lb hget hs hi with
    | queued hmem => exact .queued hmem
    | up data hdata hreq => exact .up data hdata hreq
    | asked f _ hf => cases hpeer.symm.trans hf
    | ready f _ _ hf => cases hpeer.symm.trans hf
    | down rsp hrsp hans => exact .down rsp hrsp hans
    | lost hmem => exact .lost hmem
    | closed hc => cases hpeer.symm.trans hc
  | request w fd data up dns hpeer hup hdns =>
    refine ⟨hl', ?_, ?_⟩
    · rw [observe_rLb]
      exact h.named
    · rw [observe_rLb]
      intro i lb hget hs hi
      exact (h.pulls i lb hget hs hi).request hl hpeer hup hdns
  | dns a dns hdns =>
    refine ⟨hl', ?_, ?_⟩
    · rw [observe_rLb]
      exact h.named
    · rw [observe_rLb]
      intro i lb hget hs hi
      exact (h.pulls i lb hget hs hi).observe hl hdns

end System

end Lrlb.Pipeline
