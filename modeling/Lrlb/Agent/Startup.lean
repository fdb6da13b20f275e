import Lrlb.Agent.UdpServer

/-! The start of the agent. `main` starts the UDP servers first and makes the queues that their
callbacks use after that, so a request can come too early. -/
namespace Lrlb.Agent
open Lib Lib.Message Reactor
open Proto (MessageID GetRouteRequest GetRouteResponse ReportStatusReq)

/-- The last thing that `main` has done. -/
inductive MainPc where
  | initLbAgent | startUdpServers | newReportQueue | newDnsQueue
deriving DecidableEq, Repr

/-- A queue is `none` while the pointer to it is null. -/
structure Starting where
  pc : MainPc
  rLb : Fin 3 → RouteLb
  readBuf : Fin 3 → List UInt8
  reportQueue : Option (List ReportStatusReq)
  dnsQueue : Option (List GetRouteRequest)
  crashed : Bool

/-- `main` goes on, or one of the servers receives a datagram. -/
inductive StartAction where
  | main
  | datagram (env : Env) (i : Fin 3) (d : List UInt8)

/-- What a callback does with a queue; `none` calls `send` through a null pointer. -/
def put? {M : Type} (queue : Option (List M)) : Option M → Option (Option (List M))
  | none => some queue
  | some m => queue.map fun ms => some (ms ++ [m])

theorem isSome_put? {M : Type} {queue queue' : Option (List M)} {m : Option M}
    (h : put? queue m = some queue') : queue'.isSome = queue.isSome := by
  cases m with
  | none =>
    cases h
    rfl
  | some m =>
    obtain ⟨ms, hms, rfl⟩ := Option.map_eq_some_iff.mp h
    rw [hms]
    rfl

theorem exists_put? {M : Type} (ms : List M) (m : Option M) :
    ∃ queue, put? (some ms) m = some queue := by
  cases m <;> exact ⟨_, rfl⟩

namespace Starting

def start (readBuf : Fin 3 → List UInt8) : Starting where
  pc := .initLbAgent
  rLb := fun _ => RouteLb.empty
  readBuf := readBuf
  reportQueue := none
  dnsQueue := none
  crashed := false

variable {R : Type} [RateArith R] (cfg : Config R)

def mainStep? (s : Starting) : Option Starting :=
  match s.pc with
  | .initLbAgent => some { s with pc := .startUdpServers }
  | .startUdpServers => some { s with pc := .newReportQueue, reportQueue := some [] }
  | .newReportQueue => some { s with pc := .newDnsQueue, dnsQueue := some [] }
  | .newDnsQueue => none

/-- Server `i` handles a datagram. -/
def receive (s : Starting) (env : Env) (i : Fin 3) (d : List UInt8) : Starting :=
  match serve? cfg env (s.readBuf i) (s.rLb i) d with
  | none => { s with crashed := true }
  | some served =>
    match put? s.dnsQueue served.pull, put? s.reportQueue served.report with
    | some dnsQueue, some reportQueue =>
      { s with
        rLb := Function.update s.rLb i served.routeLb
        readBuf := Function.update s.readBuf i (recvInto (s.readBuf i) d)
        reportQueue := reportQueue
        dnsQueue := dnsQueue }
    | _, _ => { s with crashed := true }

def step? (s : Starting) : StartAction → Option Starting
  | .main => if s.crashed then none else s.mainStep?
  | .datagram env i d =>
    if s.crashed = true ∨ s.pc = .initLbAgent then none else some (s.receive cfg env i d)

end Starting

/-- The callback that a datagram is dispatched to. -/
def dispatched? (readBuf : List UInt8) (d : List UInt8) : Option AgentCallback :=
  (udpMessage? readBuf d).bind fun message => agentRouter.router message.1

/-- A request for a host or for the route of a module. -/
def asks : Option AgentCallback → Bool
  | some .getHostCb | some .getRouteCb => true
  | some .reportCb | none => false

def StartAction.Asks (s : Starting) : StartAction → Prop
  | .main => False
  | .datagram _ i d => asks (dispatched? (s.readBuf i) d) = true

section Empty

variable {R : Type} (cfg : Config R) (env : Env) (data : List UInt8)

theorem length_emptyResponse_le (modid cmdid : Int32) :
    (serialize ({ modid := modid, cmdid := cmdid } : GetRouteResponse)).length ≤ 100 := by
  have hsame : serialize ({ modid := modid, cmdid := cmdid } : GetRouteResponse) =
      serialize (⟨modid, cmdid⟩ : GetRouteRequest) := by simp [serialize, fields]
  rw [hsame]
  exact Proto.length_getRouteRequest_le _

/-! A server without modules makes one at each request, which is put on the dns queue. -/

theorem getHostCb?_empty : ∃ served, getHostCb? cfg env RouteLb.empty data = some served ∧
    served.pull.isSome = true := by
  rw [getHostCb?]
  simp only [RouteLb.getHost?, RouteLb.empty, RouteLb.addModule, Option.bind_eq_bind,
    Option.bind_some, reply?_getHostResponse]
  exact ⟨_, rfl, rfl⟩

theorem getRouteCb?_empty : ∃ served, getRouteCb? cfg env RouteLb.empty data = some served ∧
    served.pull.isSome = true := by
  have hlen := length_emptyResponse_le (parse data : GetRouteRequest × Bool).1.modid
    (parse data : GetRouteRequest × Bool).1.cmdid
  rw [getRouteCb?]
  simp only [RouteLb.getRoute, RouteLb.empty, RouteLb.addModule, reply?]
  rw [udpSendMessage_of_le _ _ (by simp only [messageHeadLen, messageLengthLimit]; omega)]
  exact ⟨_, rfl, rfl⟩

variable [RateArith R] (readBuf d : List UInt8)

/-- A datagram that is not dispatched leaves the server alone, the others go to their callback. -/
theorem serve?_eq_dispatched (r : RouteLb) :
    ∃ data, serve? cfg env readBuf r d = match dispatched? readBuf d with
      | none => some ⟨r, none, none, none, []⟩
      | some cb => callback? cfg env r data cb := by
  unfold serve? dispatched?
  cases udpMessage? readBuf d with
  | none => exact ⟨[], rfl⟩
  | some message => exact ⟨message.2, rfl⟩

theorem serve?_empty : ∃ served, serve? cfg env readBuf RouteLb.empty d = some served ∧
    (asks (dispatched? readBuf d) = true ∧ served.pull.isSome = true ∨
      asks (dispatched? readBuf d) = false ∧ served.pull = none ∧ served.report = none ∧
        served.routeLb = RouteLb.empty) := by
  obtain ⟨data, hserve⟩ := serve?_eq_dispatched cfg env readBuf d RouteLb.empty
  rw [hserve]
  cases dispatched? readBuf d with
  | none => exact ⟨_, rfl, Or.inr ⟨rfl, rfl, rfl, rfl⟩⟩
  | some cb =>
    cases cb with
    | getHostCb =>
      obtain ⟨served, hcb, hpull⟩ := getHostCb?_empty cfg env data
      exact ⟨served, hcb, Or.inl ⟨rfl, hpull⟩⟩
    | getRouteCb =>
      obtain ⟨served, hcb, hpull⟩ := getRouteCb?_empty cfg env data
      exact ⟨served, hcb, Or.inl ⟨rfl, hpull⟩⟩
    | reportCb => exact ⟨_, rfl, Or.inr ⟨rfl, rfl, rfl, rfl⟩⟩

end Empty

namespace Starting

variable {R : Type} [RateArith R] {cfg : Config R} {s t : Starting}

/-- The agent before its first module, while there is no dns queue. -/
structure Fresh (s : Starting) : Prop where
  alive : s.crashed = false
  dnsQueue : s.dnsQueue = none
  modules : ∀ i, s.rLb i = RouteLb.empty

/-- A request reaches the null pointer, and nothing else changes anything but the buffers. -/
theorem Fresh.receive (h : Fresh s) (env : Env) (i : Fin 3) (d : List UInt8) :
    asks (dispatched? (s.readBuf i) d) = true ∧ (s.receive cfg env i d).crashed = true ∨
      asks (dispatched? (s.readBuf i) d) = false ∧ Fresh (s.receive cfg env i d) := by
  obtain ⟨served, hserve, hcases⟩ := serve?_empty cfg env (s.readBuf i) d
  rw [← h.modules i] at hserve
  unfold Starting.receive
  rw [hserve]
  dsimp only
  obtain ⟨hasks, hpull⟩ | ⟨hasks, hpull, hreport, hsame⟩ := hcases
  · obtain ⟨req, hreq⟩ := Option.isSome_iff_exists.mp hpull
    rw [hreq, h.dnsQueue]
    exact Or.inl ⟨hasks, rfl⟩
  · rw [hpull, hreport]
    refine Or.inr ⟨hasks, h.alive, h.dnsQueue, ?_⟩
    intro j
    rw [hsame]
    by_cases hj : j = i
    · subst hj
      exact Function.update_self ..
    · exact (Function.update_of_ne hj ..).trans (h.modules j)

/-- The queues are made one after the other. -/
structure Ordered (s : Starting) : Prop where
  made : s.pc = .newReportQueue → s.reportQueue.isSome = true
  first : s.dnsQueue.isSome = true → s.reportQueue.isSome = true

/-- A callback leaves a null pointer null, and a queue there. -/
theorem receive_queues (env : Env) (i : Fin 3) (d : List UInt8) :
    (s.receive cfg env i d).pc = s.pc ∧
      (s.receive cfg env i d).reportQueue.isSome = s.reportQueue.isSome ∧
      (s.receive cfg env i d).dnsQueue.isSome = s.dnsQueue.isSome := by
  unfold Starting.receive
  split
  · exact ⟨rfl, rfl, rfl⟩
  · split
    next hdns hreport => exact ⟨rfl, isSome_put? hreport, isSome_put? hdns⟩
    next => exact ⟨rfl, rfl, rfl⟩

theorem mainStep?_cases (h : s.mainStep? = some t) :
    (s.pc = .initLbAgent ∧ t = { s with pc := .startUdpServers }) ∨
      (s.pc = .startUdpServers ∧ t = { s with pc := .newReportQueue, reportQueue := some [] }) ∨
      (s.pc = .newReportQueue ∧ t = { s with pc := .newDnsQueue, dnsQueue := some [] }) := by
  unfold mainStep? at h
  cases hpc : s.pc <;> rw [hpc] at h
  · exact Or.inl ⟨rfl, (Option.some.inj h).symm⟩
  · exact Or.inr (Or.inl ⟨rfl, (Option.some.inj h).symm⟩)
  · exact Or.inr (Or.inr ⟨rfl, (Option.some.inj h).symm⟩)
  · cases h

theorem step?_main (h : s.step? cfg .main = some t) : s.crashed = false ∧ s.mainStep? = some t := by
  simpa [step?] using h

theorem step?_datagram {env : Env} {i : Fin 3} {d : List UInt8}
    (h : s.step? cfg (.datagram env i d) = some t) :
    s.crashed = false ∧ t = s.receive cfg env i d := by
  have hparts : (s.crashed = false ∧ s.pc ≠ .initLbAgent) ∧ s.receive cfg env i d = t := by
    simpa [step?] using h
  exact ⟨hparts.1.1, hparts.2.symm⟩

theorem Ordered.step {a : StartAction} (h : Ordered s) (hstep : s.step? cfg a = some t) :
    Ordered t ∧ (s.dnsQueue.isSome = true → t.dnsQueue.isSome = true) := by
  cases a with
  | main =>
    obtain ⟨-, rfl⟩ | ⟨-, rfl⟩ | ⟨hpc, rfl⟩ := mainStep?_cases (step?_main hstep).2
    · exact ⟨⟨by simp, h.first⟩, id⟩
    · exact ⟨⟨fun _ => rfl, fun _ => rfl⟩, id⟩
    · exact ⟨⟨by simp, fun _ => h.made hpc⟩, fun _ => rfl⟩
  | datagram env i d =>
    obtain ⟨-, rfl⟩ := step?_datagram hstep
    obtain ⟨hpc, hreport, hdns⟩ :
      (s.receive cfg env i d).pc = s.pc ∧ _ := receive_queues env i d
    rw [hdns]
    refine ⟨⟨?_, ?_⟩, id⟩
    · rw [hpc, hreport]
      exact h.made
    · rw [hdns, hreport]
      exact h.first

/-- A crashed agent takes no step. -/
theorem run?_of_crashed {as : List StartAction} (hs : s.crashed = true)
    (h : run? (step? cfg) s as = some t) : as = [] ∧ t = s := by
  cases as with
  | nil =>
    cases h
    exact ⟨rfl, rfl⟩
  | cons a as =>
    obtain ⟨u, hu, -⟩ := Option.bind_eq_some_iff.mp h
    cases a with
    | main => simp [(step?_main hu).1] at hs
    | datagram env i d => simp [(step?_datagram hu).1] at hs

theorem dnsQueue_of_run {as : List StartAction} (h : Ordered s)
    (hrun : run? (step? cfg) s as = some t) :
    Ordered t ∧ (s.dnsQueue.isSome = true → t.dnsQueue.isSome = true) := by
  have hreach : Reachable (step? cfg) s t := ⟨as, hrun⟩
  refine hreach.invariant (P := fun t => Ordered t ∧
    (s.dnsQueue.isSome = true → t.dnsQueue.isSome = true)) ?_ ⟨h, id⟩
  intro t a u ht hstep
  obtain ⟨hordered, hkeep⟩ := ht.1.step hstep
  exact ⟨hordered, fun hs => hkeep (ht.2 hs)⟩

/-- A run that has not got to the dns queue: the first request is its end. -/
theorem Fresh.run {as : List StartAction} (h : Fresh s) (ho : Ordered s)
    (hrun : run? (step? cfg) s as = some t) (hearly : t.dnsQueue = none) :
    (t.crashed = true ↔ ∃ x ∈ attempted (step? cfg) s as, x.2.Asks x.1) ∧
      (t.crashed = false → Fresh t) := by
  induction as generalizing s with
  | nil =>
    cases hrun
    simp [attempted, h.alive, h]
  | cons a as ih =>
    obtain ⟨u, hu, hrest⟩ := Option.bind_eq_some_iff.mp hrun
    have hou := (ho.step hu).1
    have hq : u.dnsQueue = none := by
      cases hdns : u.dnsQueue with
      | none => rfl
      | some ms =>
        have hlate := (dnsQueue_of_run hou hrest).2 (by rw [hdns]; rfl)
        simp [hearly] at hlate
    have hattempted : attempted (step? cfg) s (a :: as) =
        (s, a) :: attempted (step? cfg) u as := by rw [attempted, hu]
    rw [hattempted]
    simp only [List.mem_cons, exists_eq_or_imp]
    cases a with
    | main =>
      have hfresh : Fresh u := by
        obtain ⟨-, rfl⟩ | ⟨-, rfl⟩ | ⟨-, rfl⟩ := mainStep?_cases (step?_main hu).2
        · exact ⟨h.alive, h.dnsQueue, h.modules⟩
        · exact ⟨h.alive, h.dnsQueue, h.modules⟩
        · cases hq
      simpa [StartAction.Asks] using ih hfresh hou hrest
    | datagram env i d =>
      obtain ⟨-, rfl⟩ := step?_datagram hu
      obtain ⟨hasks, hcrash⟩ | ⟨hasks, hfresh⟩ :=
        (h.receive env i d : asks (dispatched? (s.readBuf i) d) = true ∧
          (s.receive cfg env i d).crashed = true ∨ _)
      · obtain ⟨rfl, rfl⟩ := run?_of_crashed hcrash hrest
        simp [StartAction.Asks, hasks, hcrash]
      · simpa [StartAction.Asks, hasks] using ih hfresh hou hrest

/-- While there is no dns queue, the agent crashes exactly if a request for a host or a route
arrives; reports and all other datagrams leave it without modules. From then on a callback that
returns finds both queues. -/
theorem early_request_crashes (cfg : Config R) (readBuf : Fin 3 → List UInt8)
    {as : List StartAction} {s : Starting} (hrun : run? (step? cfg) (start readBuf) as = some s) :
    (s.dnsQueue = none →
      (s.crashed = true ↔ ∃ x ∈ attempted (step? cfg) (start readBuf) as, x.2.Asks x.1) ∧
      (s.crashed = false → ∀ i, s.rLb i = RouteLb.empty)) ∧
    (s.dnsQueue ≠ none → s.crashed = false → ∀ env i d,
      (serve? cfg env (s.readBuf i) (s.rLb i) d).isSome = true →
        (s.receive cfg env i d).crashed = false) := by
  have hfresh : Fresh (start readBuf) := ⟨rfl, rfl, fun _ => rfl⟩
  have hordered : Ordered (start readBuf) := ⟨by simp [start], by simp [start]⟩
  constructor
  · intro hearly
    obtain ⟨hiff, hmodules⟩ := hfresh.run hordered hrun hearly
    exact ⟨hiff, fun halive => (hmodules halive).modules⟩
  · intro hlate halive env i d hserve
    obtain ⟨served, hserved⟩ := Option.isSome_iff_exists.mp hserve
    obtain ⟨pulls, hpulls⟩ := Option.ne_none_iff_exists'.mp hlate
    have hreports := (dnsQueue_of_run hordered hrun).1.first (by rw [hpulls]; rfl)
    obtain ⟨reports, hreports⟩ := Option.isSome_iff_exists.mp hreports
    obtain ⟨pulls', hpull⟩ := exists_put? pulls served.pull
    obtain ⟨reports', hreport⟩ := exists_put? reports served.report
    unfold Starting.receive
    rw [hserved, hpulls, hreports]
    dsimp only
    rw [hpull, hreport]
    exact halive

def hostRequest (i : Fin 3) : StartAction :=
  .datagram ⟨100, 100, 100, ⟨0, 0, .new⟩⟩ i
    (frame MessageID.idGetHostRequest.value (serialize (⟨0, 1, 2⟩ : Proto.GetHostRequest)))

/-- The servers run, the report queue is there, and a host is asked for. -/
theorem early_request_crashes_hostRequest :
    ∃ s, run? (step? defaultConfig) (start fun _ => []) [.main, .main, hostRequest 0] = some s ∧
      s.crashed = true := by
  have hqueue : (run? (step? defaultConfig) (start fun _ => []) [.main, .main, hostRequest 0]).map
      Starting.dnsQueue = some none := by decide +kernel
  obtain ⟨s, hs, hearly⟩ := Option.map_eq_some_iff.mp hqueue
  refine ⟨s, hs, ?_⟩
  have hcrash := ((early_request_crashes defaultConfig (fun _ => []) hs).1 hearly).1
  exact hcrash.mpr ⟨_, List.mem_cons_of_mem _ (List.mem_cons_of_mem _ List.mem_cons_self), by
    change asks (dispatched? _ _) = true
    decide +kernel⟩

end Starting

end Lrlb.Agent
