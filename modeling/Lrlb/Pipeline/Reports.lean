import Lrlb.Pipeline.Wired
import Lrlb.Proto.Reports
import Lrlb.Reporter.Store

/-! The way of a report, from the module that commits it over the report queue, the reporter client
and the bytes of its connection to the threads of the reporter and their table. There is one agent,
so that one worker of the reporter calls `get_report_status`. -/
namespace Lrlb.Pipeline
open Lib Lib.Message Agent Dns
open Proto (ReportStatusReq HostCallResult)
open Reporter (Complete Service StatusKey StatusRow Storing entries)
open Reactor (BadHeader Duplex DuplexOp Msg TcpClient frame maxCap messageHeadLen messageLengthLimit
  stream unread)

def reportMsg (req : ReportStatusReq) : Msg :=
  (Proto.MessageID.idReportStatusRequest.value, serialize req)

/-- `committed` and `lost` are no data of the program: they record the reports that modules have
put on the queue, and those that `send_message` refused. -/
structure Reporting where
  sys : System
  reportQueue : List ReportStatusReq
  link : Link
  tcp : Duplex
  /-- how many of the messages that the connection has unpacked its router has been called with -/
  handled : ℕ
  service : Service
  committed : List ReportStatusReq
  lost : List ReportStatusReq

inductive ReportingAction where
  | agent (a : Action)
  | newReportRequest
  | connected
  | disconnect
  /-- a `write` of the client's `do_write` that takes `k` bytes -/
  | write (k : ℕ)
  /-- the reporter's `do_read` with `n` bytes to read -/
  | read (raw : ℤ → UInt8) (n : ℕ)
  /-- the reporter's `do_read` at the end of the stream, or with an error of the socket -/
  | hangUp
  | getReportStatus
  | thread (t : ℕ) (a : Reporter.ThreadAction)

/-- What an action does to the connection alone. -/
def ReportingAction.op? : ReportingAction → Option DuplexOp
  | .write k => some (.write k)
  | .read raw n => some (.read raw n)
  | .hangUp => some .hangUp
  | _ => none

namespace Reporting

/-- The memory of the two buffers of the client is as it was found. -/
def start (rows : List RouteRow) (dnsLink link : Link) (rawIn rawOut : ℤ → UInt8) (threadCnt : ℕ)
    (table : Reporter.Table) : Reporting where
  sys := System.start rows dnsLink
  reportQueue := []
  link := link
  tcp := { Duplex.new rawIn rawOut with
    client := { TcpClient.new rawIn rawOut with connected := decide (link = .connected) } }
  handled := 0
  service := Service.init threadCnt table
  committed := []
  lost := []

def setLink (s : Reporting) (link : Link) : Reporting :=
  { s with
    link := link
    tcp := { s.tcp with client := { s.tcp.client with connected := decide (link = .connected) } } }

variable {R : Type} [RateArith R]

/-- The report that an action of the agent puts on the queue. -/
def committedBy (cfg : Config R) (sys : System) : Action → Option ReportStatusReq
  | .datagram i env readBuf d => (serve? cfg env readBuf (sys.rLb i) d).bind Served.report
  | _ => none

/-- `none` is an action that cannot happen, or an abort. -/
def step? (cfg : Config R) (threads : ℕ) (s : Reporting) : ReportingAction → Option Reporting
  | .agent a =>
    (s.sys.step? cfg threads a).map fun sys =>
      { s with
        sys := sys
        reportQueue := s.reportQueue ++ (committedBy cfg s.sys a).toList
        committed := s.committed ++ (committedBy cfg s.sys a).toList }
  | .newReportRequest =>
    let msgid := Proto.MessageID.idReportStatusRequest.value
    (run? Duplex.step? s.tcp (sends msgid s.reportQueue)).map fun tcp =>
      { s with
        reportQueue := []
        tcp := tcp
        lost := s.lost ++ (forward msgid s.tcp.client s.reportQueue).2.2 }
  | .connected => if s.link = .connecting then some (s.setLink .connected) else none
  | .disconnect => some (s.setLink .lost)
  | .write k =>
    if s.link = .connected then (s.tcp.step? (.write k)).map fun tcp => { s with tcp := tcp } else none
  | .read raw n => (s.tcp.step? (.read raw n)).map fun tcp => { s with tcp := tcp }
  | .hangUp => (s.tcp.step? .hangUp).map fun tcp => { s with tcp := tcp }
  | .getReportStatus =>
    match s.tcp.conn.dispatched[s.handled]? with
    | some (msgid, data) =>
      if msgid = Proto.MessageID.idReportStatusRequest.value then
        (s.service.getReportStatus? (parse data).1).map fun service =>
          { s with handled := s.handled + 1, service := service }
      else some { s with handled := s.handled + 1 }
    | none => none
  | .thread t a =>
    (s.service.step? (.thread t a)).map fun service => { s with service := service }

/-- The action loses no statement for the row. -/
def Executes (key : StatusKey) (s : Reporting) : ReportingAction → Prop
  | .thread t a => s.service.Executes key (.thread t a)
  | _ => True

/-- What a step does to the reports. -/
inductive Step (cfg : Config R) (threads : ℕ) (s : Reporting) : ReportingAction → Reporting → Prop
  | agent (a : Action) (sys : System) : s.sys.step? cfg threads a = some sys →
    Step cfg threads s (.agent a)
      { s with
        sys := sys
        reportQueue := s.reportQueue ++ (committedBy cfg s.sys a).toList
        committed := s.committed ++ (committedBy cfg s.sys a).toList }
  | newReportRequest (sent : TcpClient × List ReportStatusReq × List ReportStatusReq) (tcp : Duplex) :
    sent = forward Proto.MessageID.idReportStatusRequest.value s.tcp.client s.reportQueue →
    run? Duplex.step? s.tcp (sends Proto.MessageID.idReportStatusRequest.value s.reportQueue) =
      some tcp →
    Step cfg threads s .newReportRequest
      { s with reportQueue := [], tcp := tcp, lost := s.lost ++ sent.2.2 }
  | link (a : ReportingAction) (link : Link) : a = .connected ∨ a = .disconnect →
    Step cfg threads s a (s.setLink link)
  | move (a : ReportingAction) (op : DuplexOp) (tcp : Duplex) : a.op? = some op →
    s.tcp.step? op = some tcp → Step cfg threads s a { s with tcp := tcp }
  | getReportStatus (data : List UInt8) (service : Service) :
    s.tcp.conn.dispatched[s.handled]? =
      some (Proto.MessageID.idReportStatusRequest.value, data) →
    s.service.step? (.getReportStatus (parse data).1) = some service →
    Step cfg threads s .getReportStatus { s with handled := s.handled + 1, service := service }
  | skip (m : Msg) : s.tcp.conn.dispatched[s.handled]? = some m →
    m.1 ≠ Proto.MessageID.idReportStatusRequest.value →
    Step cfg threads s .getReportStatus { s with handled := s.handled + 1 }
  | thread (t : ℕ) (a : Reporter.ThreadAction) (service : Service) :
    s.service.step? (.thread t a) = some service →
    Step cfg threads s (.thread t a) { s with service := service }

variable {cfg : Config R} {threads : ℕ} {s t : Reporting}

theorem step?_inv {a : ReportingAction} (h : s.step? cfg threads a = some t) :
    Step cfg threads s a t := by
  cases a with
  | agent a =>
    obtain ⟨sys, hsys, rfl⟩ := Option.map_eq_some_iff.mp h
    exact .agent a sys hsys
  | newReportRequest =>
    obtain ⟨tcp, htcp, rfl⟩ := Option.map_eq_some_iff.mp h
    exact .newReportRequest _ tcp rfl htcp
  | connected =>
    obtain ⟨-, h⟩ := Option.ite_none_right_eq_some.mp h
    cases h
    exact .link _ _ (Or.inl rfl)
  | disconnect =>
    cases h
    exact .link _ _ (Or.inr rfl)
  | write k =>
    obtain ⟨-, h⟩ := Option.ite_none_right_eq_some.mp h
    obtain ⟨tcp, htcp, rfl⟩ := Option.map_eq_some_iff.mp h
    exact .move _ _ tcp rfl htcp
  | read raw n =>
    obtain ⟨tcp, htcp, rfl⟩ := Option.map_eq_some_iff.mp h
    exact .move _ _ tcp rfl htcp
  | hangUp =>
    obtain ⟨tcp, htcp, rfl⟩ := Option.map_eq_some_iff.mp h
    exact .move _ _ tcp rfl htcp
  | getReportStatus =>
    simp only [step?] at h
    split at h
    case h_1 msgid data hnext =>
      split_ifs at h with hmsgid
      · subst hmsgid
        obtain ⟨service, hservice, rfl⟩ := Option.map_eq_some_iff.mp h
        exact .getReportStatus data service hnext hservice
      · cases h
        exact .skip (msgid, data) hnext hmsgid
    case h_2 => cases h
  | thread t a =>
    obtain ⟨service, hservice, rfl⟩ := Option.map_eq_some_iff.mp h
    exact .thread t a service hservice

/-- The service makes one of its own steps, or none. -/
theorem Step.service {a : ReportingAction} (hs : Step cfg threads s a t) :
    t.service = s.service ∨ ∃ b, s.service.step? b = some t.service ∧
      ∀ key, s.Executes key a → s.service.Executes key b := by
  cases hs with
  | getReportStatus data service hnext hservice => exact Or.inr ⟨_, hservice, fun _ _ => trivial⟩
  | thread t a service hservice => exact Or.inr ⟨_, hservice, fun _ hexec => hexec⟩
  | _ => exact Or.inl rfl

/-- What the connection does by itself leaves what was sent as it is. -/
theorem asked_op? {a : ReportingAction} {op : DuplexOp} (hop : a.op? = some op) {tcp tcp' : Duplex}
    (h : tcp.step? op = some tcp') : tcp.Allows op ∧ tcp'.asked = tcp.asked := by
  cases a with
  | write k =>
    cases hop
    simp only [Duplex.step?, Option.ite_none_right_eq_some, Option.some.injEq] at h
    obtain ⟨-, rfl⟩ := h
    exact ⟨trivial, rfl⟩
  | read raw n =>
    cases hop
    simp only [Duplex.step?, Option.ite_none_right_eq_some] at h
    obtain ⟨conn, -, rfl⟩ := Option.map_eq_some_iff.mp h.2
    exact ⟨trivial, rfl⟩
  | hangUp =>
    cases hop
    simp only [Duplex.step?, Option.ite_none_left_eq_some, Option.some.injEq] at h
    obtain ⟨-, rfl⟩ := h
    exact ⟨trivial, rfl⟩
  | _ => cases hop

/-- `sent` are the reports that the client has taken and `get_report_status` has not been called
with. What was committed has been received, is on its way, is in the queue or was refused, and what
was not refused is in order. -/
structure Flow (s : Reporting) (sent : List ReportStatusReq) : Prop where
  tcp : ∃ p q, s.tcp.At p q
  asked : s.tcp.asked = (s.service.received ++ sent).map reportMsg
  handled : s.handled = s.service.received.length
  order : (s.service.received ++ sent ++ s.reportQueue).Sublist s.committed
  all : (s.service.received ++ sent ++ s.reportQueue ++ s.lost).Perm s.committed

section Runs

variable {rows : List RouteRow} {dnsLink link : Link} {rawIn rawOut : ℤ → UInt8} {threadCnt : ℕ}
  {table : Reporter.Table}

namespace Flow

variable {sent : List ReportStatusReq}

theorem start (rows : List RouteRow) (dnsLink link : Link) (rawIn rawOut : ℤ → UInt8)
    (threadCnt : ℕ) (table : Reporter.Table) :
    Flow (start rows dnsLink link rawIn rawOut threadCnt table) [] where
  tcp := ⟨[], [], (Duplex.At.new rawIn rawOut).setConnected _⟩
  asked := rfl
  handled := rfl
  order := List.Sublist.refl _
  all := List.Perm.refl _

theorem commit (h : Flow s sent) (sys : System) (reqs : List ReportStatusReq) :
    Flow { s with
      sys := sys
      reportQueue := s.reportQueue ++ reqs
      committed := s.committed ++ reqs } sent := by
  refine ⟨h.tcp, h.asked, h.handled, ?_, ?_⟩
  · simpa only [List.append_assoc] using h.order.append (List.Sublist.refl reqs)
  · refine List.Perm.trans ?_ (h.all.append_right reqs)
    simp only [List.append_assoc]
    exact ((List.perm_append_comm.append_left _).append_left _).append_left _

theorem newReportRequest (h : Flow s sent)
    {taken : TcpClient × List ReportStatusReq × List ReportStatusReq}
    (htaken : taken = forward Proto.MessageID.idReportStatusRequest.value s.tcp.client s.reportQueue)
    {tcp : Duplex}
    (htcp : run? Duplex.step? s.tcp
      (sends Proto.MessageID.idReportStatusRequest.value s.reportQueue) = some tcp) :
    Flow { s with reportQueue := [], tcp := tcp, lost := s.lost ++ taken.2.2 }
      (sent ++ taken.2.1) := by
  have hsplit := forward_perm Proto.MessageID.idReportStatusRequest.value s.tcp.client s.reportQueue
  have hsub := forward_sublist Proto.MessageID.idReportStatusRequest.value s.tcp.client s.reportQueue
  rw [← htaken] at hsplit hsub
  obtain ⟨p, q, hat⟩ := h.tcp
  refine ⟨hat.run ?_ htcp, ?_, h.handled, ?_, ?_⟩
  · intro x hx
    obtain ⟨req, -, hreq⟩ := List.mem_map.mp (mem_of_mem_attempted hx)
    rw [← hreq]
    trivial
  · rw [run_sends htcp, ← htaken]
    dsimp only
    rw [h.asked, ← List.append_assoc]
    exact List.map_append.symm
  · refine List.Sublist.trans ?_ h.order
    simp only [List.append_nil, ← List.append_assoc]
    exact hsub.append_left _
  · refine List.Perm.trans ?_ h.all
    simp only [List.append_nil, List.append_assoc]
    refine List.Perm.append_left _ (List.Perm.append_left _ ?_)
    exact ((List.perm_append_comm.append_left _).trans
      (by rw [← List.append_assoc])).trans (hsplit.append_right _)

/-- The message that the router is called with next is the first of those on their way. -/
theorem next (h : Flow s sent) {m : Msg} (hnext : s.tcp.conn.dispatched[s.handled]? = some m) :
    ∃ req sent', sent = req :: sent' ∧ m = reportMsg req := by
  obtain ⟨p, q, hat⟩ := h.tcp
  have hasked : s.tcp.asked[s.handled]? = some m := by
    obtain ⟨later, hlater⟩ := hat.dispatched
    rw [← hlater, List.getElem?_append_left (List.getElem?_eq_some_iff.mp hnext).1]
    exact hnext
  rw [h.asked, h.handled, List.getElem?_map, List.getElem?_append_right le_rfl, Nat.sub_self,
    ← List.head?_eq_getElem?] at hasked
  cases hsent : sent with
  | nil => simp [hsent] at hasked
  | cons req sent' =>
    rw [hsent] at hasked
    exact ⟨req, sent', rfl, (Option.some.inj hasked).symm⟩

theorem getReportStatus (h : Flow s sent) {data : List UInt8}
    (hnext : s.tcp.conn.dispatched[s.handled]? =
      some (Proto.MessageID.idReportStatusRequest.value, data))
    {service : Service} (hs : s.service.step? (.getReportStatus (parse data).1) = some service) :
    ∃ sent', Flow { s with handled := s.handled + 1, service := service } sent' := by
  obtain ⟨req, sent', rfl, hm⟩ := h.next hnext
  obtain rfl : data = serialize req := congrArg Prod.snd hm
  rw [Proto.parse_reportStatusReq] at hs
  obtain ⟨-, hs⟩ := Option.ite_none_right_eq_some.mp hs
  cases hs
  refine ⟨sent', h.tcp, ?_, ?_, ?_, ?_⟩
  · simpa using h.asked
  · simpa using h.handled
  · simpa using h.order
  · simpa using h.all

theorem step {a : ReportingAction} (h : Flow s sent) (hs : Step cfg threads s a t) :
    ∃ sent', Flow t sent' := by
  cases hs with
  | agent a sys hsys => exact ⟨sent, h.commit sys _⟩
  | newReportRequest taken tcp htaken htcp => exact ⟨_, h.newReportRequest htaken htcp⟩
  | link _ link hlink =>
    obtain ⟨p, q, hat⟩ := h.tcp
    exact ⟨sent, ⟨p, q, hat.setConnected _⟩, h.asked, h.handled, h.order, h.all⟩
  | move _ op tcp hop htcp =>
    obtain ⟨p, q, hat⟩ := h.tcp
    obtain ⟨hallows, hasked⟩ := asked_op? hop htcp
    exact ⟨sent, hat.step hallows htcp, hasked.trans h.asked, h.handled, h.order, h.all⟩
  | getReportStatus data service hnext hservice => exact h.getReportStatus hnext hservice
  | skip m hnext hother =>
    obtain ⟨req, -, -, rfl⟩ := h.next hnext
    exact absurd rfl hother
  | thread t a service hservice =>
    obtain ⟨-, hservice⟩ := Option.ite_none_right_eq_some.mp hservice
    obtain ⟨x, -, rfl⟩ := Option.map_eq_some_iff.mp hservice
    exact ⟨sent, h.tcp, h.asked, h.handled, h.order, h.all⟩

end Flow

theorem service_reachable
    (hr : Reachable (step? cfg threads) (start rows dnsLink link rawIn rawOut threadCnt table) s) :
    Reachable Service.step? (Service.init threadCnt table) s.service := by
  refine hr.invariant
    (P := fun s => Reachable Service.step? (Service.init threadCnt table) s.service) ?_ (.refl _)
  intro s a t h hs
  obtain hsame | ⟨b, hb, -⟩ := (step?_inv hs).service
  · rwa [hsame]
  · exact h.tail hb

/-- In a run that loses no statement for a row, every statement for it has been executed. -/
theorem storing_complete {as : List ReportingAction}
    (hrun : run? (step? cfg threads) (start rows dnsLink link rawIn rawOut threadCnt table) as =
      some s) {key : StatusKey}
    (hexec : ∀ x ∈ attempted (step? cfg threads)
      (start rows dnsLink link rawIn rawOut threadCnt table) as, x.1.Executes key x.2) :
    ∃ done, Storing threadCnt table s.service done ∧ Complete key done := by
  refine forall_visited (G := Executes key)
    (P := fun s => ∃ done, Storing threadCnt table s.service done ∧ Complete key done) ?_ _ as
    ⟨_, .init, fun _ _ hq => by cases hq⟩ hexec s (mem_visited_of_run? hrun)
  intro s a t h hallows hs
  obtain ⟨done, h, hcomplete⟩ := h
  obtain hsame | ⟨b, hb, hkeeps⟩ := (step?_inv hs).service
  · rw [hsame]
    exact ⟨done, h, hcomplete⟩
  · obtain ⟨done', h', hcomplete'⟩ := h.step hb
    exact ⟨done', h', hcomplete' key (hkeeps key hallows) hcomplete⟩

theorem sys_reachable
    (hr : Reachable (step? cfg threads) (start rows dnsLink link rawIn rawOut threadCnt table) s) :
    Reachable (System.step? cfg threads) (System.start rows dnsLink) s.sys := by
  refine hr.invariant
    (P := fun s => Reachable (System.step? cfg threads) (System.start rows dnsLink) s.sys) ?_
    (.refl _)
  intro s a t h hs
  cases step?_inv hs with
  | agent a sys hsys => exact h.tail hsys
  | _ => exact h

theorem flow_of_reachable
    (hr : Reachable (step? cfg threads) (start rows dnsLink link rawIn rawOut threadCnt table) s) :
    ∃ sent, Flow s sent := by
  refine hr.invariant (P := fun s => ∃ sent, Flow s sent) ?_ ⟨[], .start ..⟩
  intro s a t h hs
  obtain ⟨sent, h⟩ := h
  exact h.step (step?_inv hs)

end Runs

end Reporting

namespace System

variable {R : Type} [RateArith R] {cfg : Config R} {threads : ℕ} {s : System}

theorem keyedBy_of_reachable {rows : List RouteRow} {link : Link}
    (hr : Reachable (step? cfg threads) (start rows link) s) (i : Fin 3) (key : UInt64) :
    KeyedBy key ((s.rLb i).routeLbMap key) := by
  refine hr.invariant (P := fun s => ∀ i key, KeyedBy key ((s.rLb i).routeLbMap key)) ?_
    (fun _ _ _ h => by cases h) i key
  intro s a t h hs i key
  cases step?_inv hs with
  | datagram j env readBuf d served hserve =>
    dsimp only
    by_cases hij : i = j
    · subst hij
      rw [Function.update_self]
      exact (moduleStep_serve hserve key).keyedBy (h i key)
    · rw [Function.update_of_ne hij]
      exact h i key
  | connInit hlink =>
    intro lb hget
    obtain ⟨lb₁, hlb₁, rfl⟩ := Option.map_eq_some_iff.mp hget
    have hkept := LoadBalance.Kept.resetStatus lb₁
    rw [hkept.modid, hkept.cmdid]
    exact h i key lb₁ hlb₁
  | dealRecvRoute mem currentTime rsp down rLb hlink hdown hdeal =>
    obtain ⟨j, -, hself, hother⟩ := updateStep_dealRecvRoute hdeal
    dsimp only
    by_cases hij : i = j ∧ key = packInts rsp.modid rsp.cmdid
    · obtain ⟨rfl, rfl⟩ := hij
      exact hself.keyedBy (h i _)
    · rw [hother i key (not_and_or.mp hij)]
      exact h i key
  | request => simpa using h i key
  | dns => simpa using h i key
  | _ => exact h i key

/-- The row tells, number for number, the counters and the state of a host that the agent's module
now has and that the dns server has listed for it. -/
def Tells (s : System) (key : StatusKey) (row : StatusRow) : Prop :=
  ListedFor s.dns.tables key.modid key.cmdid ⟨key.ip, key.port⟩ ∧
  ∃ i lb p, (s.rLb i).routeLbMap (packInts key.modid key.cmdid) = some lb ∧ lb.Holds p ∧
    key.ip.toInt = (lb.hosts p).ip.toNat ∧ key.port = (lb.hosts p).port ∧
    row.succCnt.toInt = (lb.hosts p).rsucc.toNat ∧ row.errCnt.toInt = (lb.hosts p).rerr.toNat ∧
    row.overload = if (lb.hosts p).overload then '1' else '0'

omit [RateArith R] in
/-- A module that commits a report has hosts, and the report names the module and the agent. -/
theorem commit_names {lb : LoadBalance} {ts : Int64} {req : ReportStatusReq}
    (hreq : lb.commit cfg ts = some req) :
    lb.empty = false ∧ req.modid = lb.modid ∧ req.cmdid = lb.cmdid ∧
      req.caller = cfg.localIp.toInt32 := by
  unfold LoadBalance.commit at hreq
  obtain ⟨hne, hreq⟩ := Option.ite_none_left_eq_some.mp hreq
  rw [← Option.some.inj hreq]
  exact ⟨Bool.not_eq_true _ ▸ hne, rfl, rfl, rfl⟩

/-- What a module commits: one result for each of its hosts, of which it has some. -/
theorem results_commit {rows : List RouteRow} {link : Link}
    (hr : Reachable (step? cfg threads) (start rows link) s) {i : Fin 3} {key : UInt64}
    {lb : LoadBalance} (hget : (s.rLb i).routeLbMap key = some lb) {ts : Int64}
    {req : ReportStatusReq} (hreq : lb.commit cfg ts = some req) :
    req.results.Perm (lb.getAllHosts.map lb.hostResult) ∧ req.results ≠ [] := by
  have hkey := keyedBy_of_reachable hr i key lb hget
  subst hkey
  obtain ⟨u, hu⟩ := follows_of_reachable hr lb.modid lb.cmdid
  have hinv := (hu.modules i lb hget).1
  obtain ⟨hne, -⟩ := commit_names hreq
  obtain ⟨req', hreq', hperm⟩ := hinv.commit_perm cfg ts hne
  obtain rfl : req' = req := Option.some.inj (hreq'.symm.trans hreq)
  refine ⟨hperm, ?_⟩
  intro hnil
  rw [hnil, List.nil_perm, List.map_eq_nil_iff] at hperm
  obtain ⟨p, hp⟩ := lb.holds_of_not_empty hne
  have hmem : p ∈ lb.getAllHosts := (lb.mem_pointers p).mpr hp
  rw [hperm] at hmem
  cases hmem

/-- What a module commits tells its hosts, as far as the columns take it. -/
theorem tells_commit {rows : List RouteRow} {link : Link}
    (hr : Reachable (step? cfg threads) (start rows link) s) {i : Fin 3} {key : UInt64}
    {lb : LoadBalance} (hget : (s.rLb i).routeLbMap key = some lb) {ts : Int64}
    {req : ReportStatusReq} (hreq : lb.commit cfg ts = some req) :
    ∀ e ∈ entries req, s.Tells e.1 e.2 := by
  intro e he
  obtain ⟨st, hst, he⟩ := List.mem_filterMap.mp he
  obtain ⟨result, hresult, rfl⟩ := List.mem_map.mp hst
  have hprints := Reporter.Statement.prints_of_writes? he
  have hkey := keyedBy_of_reachable hr i key lb hget
  subst hkey
  obtain ⟨p, hp, rfl⟩ := List.mem_map.mp ((results_commit hr hget hreq).1.mem_iff.mp hresult)
  have hholds := (lb.mem_pointers p).mp hp
  obtain ⟨-, hmod, hcmd, -⟩ := commit_names hreq
  have hmodid : e.1.modid = lb.modid := hprints.modid.trans hmod
  have hcmdid : e.1.cmdid = lb.cmdid := hprints.cmdid.trans hcmd
  have hip : e.1.ip = (lb.hosts p).ip.toInt32 := hprints.ip.1
  have hport : e.1.port = (lb.hosts p).port := hprints.port.1
  constructor
  · rw [hmodid, hcmdid, hip, hport]
    exact ListedFor.of_offers hr ⟨lb, p, hget, hholds, rfl⟩
  · refine ⟨i, lb, p, ?_, hholds, hprints.ip.2, hport, hprints.succCnt, hprints.errCnt,
      hprints.overload⟩
    rw [hmodid, hcmdid]
    exact hget

end System

namespace Reporting

variable {R : Type} [RateArith R] {cfg : Config R} {threads : ℕ} {s₀ s t : Reporting}

/-- Every report has a result, and tells what was so at some moment of the run. -/
def Truthful (cfg : Config R) (threads : ℕ) (s₀ : Reporting) (as : List ReportingAction)
    (s : Reporting) : Prop :=
  ∀ req ∈ s.committed, req.caller = cfg.localIp.toInt32 ∧ req.results ≠ [] ∧
    ∃ bs u, bs <+: as ∧ run? (step? cfg threads) s₀ bs = some u ∧
      ∀ e ∈ entries req, u.sys.Tells e.1 e.2

theorem Truthful.later {as : List ReportingAction} (h : Truthful cfg threads s₀ as s)
    (a : ReportingAction) (hcommitted : t.committed = s.committed) :
    Truthful cfg threads s₀ (as ++ [a]) t := by
  intro req hreq
  rw [hcommitted] at hreq
  obtain ⟨hcaller, hresults, bs, u, hbs, hu, htells⟩ := h req hreq
  exact ⟨hcaller, hresults, bs, u, hbs.trans (List.prefix_append _ _), hu, htells⟩

/-- The report that a datagram brings about tells the state after it. -/
theorem committedBy_tells {rows : List RouteRow} {link : Link} {sys sys' : System}
    (hr : Reachable (System.step? cfg threads) (System.start rows link) sys) {a : Action}
    (hs : sys.step? cfg threads a = some sys') {req : ReportStatusReq}
    (hreq : committedBy cfg sys a = some req) :
    req.caller = cfg.localIp.toInt32 ∧ req.results ≠ [] ∧ ∀ e ∈ entries req, sys'.Tells e.1 e.2 := by
  cases System.step?_inv hs with
  | datagram i env readBuf d served hserve =>
    simp only [committedBy, hserve, Option.bind_some] at hreq
    obtain ⟨key, lb, hget, hcommit⟩ := committed_serve hserve hreq
    have hnow : (Function.update sys.rLb i served.routeLb i).routeLbMap key = some lb := by
      rwa [Function.update_self]
    obtain ⟨-, -, -, hcaller⟩ := System.commit_names hcommit
    exact ⟨hcaller, (System.results_commit (hr.tail hs) hnow hcommit).2,
      System.tells_commit (hr.tail hs) hnow hcommit⟩
  | _ => simp [committedBy] at hreq

theorem Truthful.step {rows : List RouteRow} {link : Link} {as : List ReportingAction}
    (h : Truthful cfg threads s₀ as s)
    (hr : Reachable (System.step? cfg threads) (System.start rows link) s.sys)
    {a : ReportingAction} (hs : s.step? cfg threads a = some t)
    (hrun : run? (step? cfg threads) s₀ (as ++ [a]) = some t) :
    Truthful cfg threads s₀ (as ++ [a]) t := by
  cases step?_inv hs with
  | agent b sys hsys =>
    intro req hreq
    obtain hold | hnew := List.mem_append.mp hreq
    · exact h.later (t := s) (.agent b) rfl req hold
    · obtain ⟨hcaller, hresults, htells⟩ := committedBy_tells hr hsys (Option.mem_toList.mp hnew)
      exact ⟨hcaller, hresults, _, _, List.prefix_refl _, hrun, htells⟩
  | _ => exact h.later _ rfl

variable {rows : List RouteRow} {dnsLink link : Link} {rawIn rawOut : ℤ → UInt8} {threadCnt : ℕ}
  {table : Reporter.Table} {as : List ReportingAction}

theorem truthful_of_run
    (hrun : run? (step? cfg threads) (start rows dnsLink link rawIn rawOut threadCnt table) as =
      some s) :
    Truthful cfg threads (start rows dnsLink link rawIn rawOut threadCnt table) as s := by
  refine (run?_history (P := fun as s =>
    run? (step? cfg threads) (start rows dnsLink link rawIn rawOut threadCnt table) as = some s ∧
      Truthful cfg threads (start rows dnsLink link rawIn rawOut threadCnt table) as s)
    (G := fun _ => True) ?_ ⟨rfl, fun _ h => by cases h⟩ (fun _ _ => trivial) hrun).2
  intro as s a t h _ hs
  have hrun : run? (step? cfg threads) (start rows dnsLink link rawIn rawOut threadCnt table)
      (as ++ [a]) = some t := by
    rw [run?_append, h.1, Option.bind_some, run?, hs]
    rfl
  exact ⟨hrun, h.2.step (sys_reachable ⟨as, h.1⟩) hs hrun⟩

/-- An open connection with nothing left in the buffers and on the way has unpacked everything. -/
theorem Flow.drained {sent : List ReportStatusReq} (h : Flow s sent)
    (hresults : ∀ req ∈ s.committed, req.results ≠ []) (hd : s.tcp.UpDrained) :
    s.tcp.conn.dispatched = s.tcp.asked := by
  obtain ⟨p, q, hat⟩ := h.tcp
  refine hat.up_drained hd ?_
  intro m hm
  rw [h.asked] at hm
  obtain ⟨req, hreq, rfl⟩ := List.mem_map.mp (List.mem_of_getLast? hm)
  exact Proto.serialize_reportStatusReq_ne_nil
    (hresults req (h.order.subset (List.mem_append_left _ hreq)))

/-- Every report is received, on its way, in the queue or refused, and never twice. Those that are
not refused keep their order, so that without a refusal they are all. Once everything has come
through, every host of every report that the columns take has a row, if no statement for it is
lost. -/
theorem reports_accounted (cfg : Config R) (threads : ℕ)
    (hrun : run? (step? cfg threads) (start rows dnsLink link rawIn rawOut threadCnt table) as =
      some s) :
    ∃ sent, s.tcp.asked = (s.service.received ++ sent).map reportMsg ∧
      (s.service.received ++ sent ++ s.reportQueue).Sublist s.committed ∧
      (s.service.received ++ sent ++ s.reportQueue ++ s.lost).Perm s.committed ∧
      (s.lost = [] → s.service.received ++ sent ++ s.reportQueue = s.committed) ∧
      (s.lost = [] → s.reportQueue = [] → s.tcp.UpDrained →
        s.handled = s.tcp.conn.dispatched.length → s.service.Idle →
        ∀ req ∈ s.committed, ∀ e ∈ entries req,
          (∀ x ∈ attempted (step? cfg threads)
            (start rows dnsLink link rawIn rawOut threadCnt table) as, x.1.Executes e.1 x.2) →
          ∃ row, s.service.table e.1 = some row) := by
  obtain ⟨sent, h⟩ := flow_of_reachable ⟨as, hrun⟩
  have hall : s.lost = [] → s.service.received ++ sent ++ s.reportQueue = s.committed := by
    intro hlost
    have hperm := h.all
    rw [hlost, List.append_nil] at hperm
    exact h.order.eq_of_length hperm.length_eq
  refine ⟨sent, h.asked, h.order, h.all, hall, ?_⟩
  intro hlost hqueue hdrained hhandled hidle req hreq e he hexec
  have hunpacked := h.drained (fun req hreq => (truthful_of_run hrun req hreq).2.1) hdrained
  have hsent : sent = [] := by
    rw [h.handled, hunpacked, h.asked, List.length_map, List.length_append] at hhandled
    exact List.length_eq_zero_iff.mp (by omega)
  have hreceived := hall hlost
  rw [hsent, hqueue, List.append_nil, List.append_nil] at hreceived
  obtain ⟨done, hstoring, hcomplete⟩ := storing_complete hrun hexec
  have hvalues : Reporter.valuesFor e.1 s.service.received ≠ [] := by
    have hmem : e.2 ∈ Reporter.valuesFor e.1 s.service.received := by
      refine Reporter.mem_rowsFor.mpr (List.mem_flatMap.mpr ⟨req, ?_, he⟩)
      rwa [hreceived]
    exact List.ne_nil_of_mem hmem
  obtain ⟨-, -, row, -, hrow⟩ := hstoring.row hidle hcomplete hvalues
  exact ⟨row, hrow⟩

/-- A call of the host (7, 80) of the module (1, 1) that has succeeded. -/
def callReport : List UInt8 :=
  frame Proto.MessageID.idReportRequest.value
    (serialize (⟨1, 1, some ⟨7, 80⟩, 0⟩ : Proto.ReportRequest))

/-- The module (1, 1) is pulled, a call of its host is reported, and the report travels in two
pieces. -/
def arrivingRun : List ReportingAction :=
  System.pulledRun.map .agent ++
    [.connected, .agent (.datagram System.shard System.clock [] callReport), .newReportRequest,
      .write 26, .read (fun _ => 0) 5]

/-- The report is stored. The call is not counted, since `update` and `report` use different keys
for the host. -/
def reportedRun : List ReportingAction :=
  arrivingRun ++ [.read (fun _ => 0) 21, .getReportStatus, .thread 0 .recv, .thread 0 .pop,
    .thread 0 (.query true)]

/-- The row of the host that the call is reported of. -/
def calledKey : StatusKey := ⟨1, 1, 7, 80, defaultConfig.localIp.toInt32⟩

def emptyReporting : Reporting :=
  start [⟨1, 1, 7, 80⟩] .connecting .connecting (fun _ => 0) (fun _ => 0) 1 fun _ => none

instance (key : StatusKey) (s : Reporting) (a : ReportingAction) : Decidable (s.Executes key a) :=
  match a with
  | .thread t a => inferInstanceAs (Decidable (s.service.Executes key (.thread t a)))
  | .agent _ => .isTrue trivial
  | .newReportRequest => .isTrue trivial
  | .connected => .isTrue trivial
  | .disconnect => .isTrue trivial
  | .write _ => .isTrue trivial
  | .read _ _ => .isTrue trivial
  | .hangUp => .isTrue trivial
  | .getReportStatus => .isTrue trivial

theorem reports_accounted_reportedRun :
    ∃ s, run? (step? defaultConfig 1) emptyReporting reportedRun = some s ∧
      s.committed.length = 1 ∧ s.lost = [] ∧
      ∃ sent, s.service.received ++ sent ++ s.reportQueue = s.committed ∧
        ∃ req ∈ s.committed, ∃ e ∈ entries req, e.1 = calledKey ∧
          ∃ row, s.service.table calledKey = some row := by
  have hrun : (run? (step? defaultConfig 1) emptyReporting reportedRun).map (fun s =>
      decide (s.committed.length = 1 ∧ s.lost = [] ∧ s.reportQueue = [] ∧ s.tcp.conn.closed = false ∧
        s.tcp.toConn = [] ∧ s.tcp.client.obuf.content = [] ∧
        s.handled = s.tcp.conn.dispatched.length ∧ s.service.Idle ∧
        ∃ req ∈ s.committed, ∃ e ∈ entries req, e.1 = calledKey)) = some true := by decide +kernel
  have hexec : ∀ x ∈ attempted (step? defaultConfig 1) emptyReporting reportedRun,
      x.1.Executes calledKey x.2 := by decide +kernel
  obtain ⟨s, hs, hrest⟩ := Option.map_eq_some_iff.mp hrun
  obtain ⟨hone, hlost, hqueue, hopen, hwire, hbuf, hhandled, hidle, req, hreq, e, he, hkey⟩ :=
    of_decide_eq_true hrest
  obtain ⟨sent, -, -, -, hall, hrows⟩ := reports_accounted defaultConfig 1 hs
  rw [← hkey] at hexec ⊢
  exact ⟨s, hs, hone, hlost, sent, hall hlost, req, hreq, e, he, rfl,
    hrows hlost hqueue ⟨hopen, hwire, hbuf⟩ hhandled hidle req hreq e he hexec⟩

/-- The first report on the way that is too long, in terms of the reports. -/
theorem Flow.badHeader_iff {sent : List ReportStatusReq} (h : Flow s sent) {p q bs : List UInt8}
    (hat : s.tcp.At p q) (hbs : p ++ bs <+: stream s.tcp.asked) :
    BadHeader (p ++ bs) ↔ ∃ pre req post, s.tcp.asked = (pre ++ req :: post).map reportMsg ∧
      messageLengthLimit < (serialize req).length ∧
      (stream (pre.map reportMsg)).length + messageHeadLen < s.tcp.bytesRead + bs.length := by
  rw [Reactor.badHeader_iff hat.sending.size hbs, hat.bytesRead, List.length_append]
  constructor
  · intro hbad
    obtain ⟨pre, m, post, hasked, hlong, hseen⟩ := hbad
    rw [h.asked] at hasked
    obtain ⟨pre, rest, hsplit, rfl, hrest⟩ := List.map_eq_append_iff.mp hasked
    obtain ⟨req, post, rfl, rfl, rfl⟩ := List.map_eq_cons_iff.mp hrest
    exact ⟨pre, req, post, by rw [h.asked, hsplit], hlong, hseen⟩
  · intro hlong
    obtain ⟨pre, req, post, hasked, hlong, hseen⟩ := hlong
    exact ⟨pre.map reportMsg, reportMsg req, post.map reportMsg, by rw [hasked]; simp, hlong, hseen⟩

/-- What makes the reporter close its end: the end of the stream or an error of the socket, more than
4 MB that come together, or a read that goes past the header of a report that is too long. -/
def Closes (s : Reporting) : ReportingAction → Prop
  | .hangUp => True
  | .read _ n =>
    maxCap < (unread s.tcp.conn.ibuf).length + n ∨
      ∃ pre req post, s.tcp.asked = (pre ++ req :: post).map reportMsg ∧
        messageLengthLimit < (serialize req).length ∧
        (stream (pre.map reportMsg)).length + messageHeadLen < s.tcp.bytesRead + n
  | _ => False

/-- A step of the connection itself. -/
theorem closed_move {sent : List ReportStatusReq} (h : Flow s sent)
    (hopen : s.tcp.conn.closed = false) {a : ReportingAction} {op : DuplexOp} {tcp : Duplex}
    (hop : a.op? = some op) (htcp : s.tcp.step? op = some tcp) :
    tcp.conn.closed = true ↔ s.Closes a := by
  cases a with
  | write k =>
    cases hop
    simp only [Duplex.step?, Option.ite_none_right_eq_some, Option.some.injEq] at htcp
    obtain ⟨-, rfl⟩ := htcp
    simp [hopen, Closes]
  | read raw n =>
    cases hop
    obtain ⟨p, q, hat⟩ := h.tcp
    obtain ⟨hat', hclosed⟩ := hat.read htcp
    simp only [Duplex.step?, Option.ite_none_right_eq_some] at htcp
    obtain ⟨⟨-, -, hn⟩, hread⟩ := htcp
    obtain ⟨conn, -, rfl⟩ := Option.map_eq_some_iff.mp hread
    have hlen : (s.tcp.toConn.take n).length = n := by rw [List.length_take, Nat.min_eq_left hn]
    rw [hclosed, h.badHeader_iff hat hat'.conn_prefix, hlen]
    exact Iff.rfl
  | hangUp =>
    cases hop
    simp only [Duplex.step?, Option.ite_none_left_eq_some, Option.some.injEq] at htcp
    obtain ⟨-, rfl⟩ := htcp
    exact iff_of_true rfl trivial
  | _ => cases hop

/-- A step closes the reporter's end exactly for one of those reasons, and for none that has to do
with a report as long as no report has more than 770 hosts. -/
theorem reporter_closes_iff (cfg : Config R) (threads : ℕ)
    (hr : Reachable (step? cfg threads) (start rows dnsLink link rawIn rawOut threadCnt table) s)
    (hopen : s.tcp.conn.closed = false) {a : ReportingAction} (hs : s.step? cfg threads a = some t) :
    (t.tcp.conn.closed = true ↔ s.Closes a) ∧
    ((∀ req ∈ s.committed, req.results.length ≤ 770) → t.tcp.conn.closed = true →
      a = .hangUp ∨ ∃ raw n, a = .read raw n ∧ maxCap < (unread s.tcp.conn.ibuf).length + n) := by
  obtain ⟨sent, h⟩ := flow_of_reachable hr
  have hiff : t.tcp.conn.closed = true ↔ s.Closes a := by
    cases step?_inv hs with
    | move _ op tcp hop htcp => exact closed_move h hopen hop htcp
    | newReportRequest sent tcp hsent htcp =>
      rw [run_sends htcp]
      simp [hopen, Closes]
    | link _ link hlink =>
      obtain rfl | rfl := hlink
      · simp [setLink, hopen, Closes]
      · simp [setLink, hopen, Closes]
    | _ => simp [hopen, Closes]
  refine ⟨hiff, ?_⟩
  intro hhosts hclosed
  have hwhy := hiff.mp hclosed
  cases a with
  | hangUp => exact Or.inl rfl
  | read raw n =>
    obtain hlarge | ⟨pre, req, post, hasked, hlong, -⟩ := hwhy
    · exact Or.inr ⟨raw, n, rfl, hlarge⟩
    · have hmem : reportMsg req ∈ (s.service.received ++ sent).map reportMsg := by
        rw [← h.asked, hasked]
        exact List.mem_map_of_mem (by simp)
      obtain ⟨req', hreq', hsame⟩ := List.mem_map.mp hmem
      have hserialize : serialize req' = serialize req := congrArg Prod.snd hsame
      have hresults := hhosts req' (h.order.subset (List.mem_append_left _ hreq'))
      have hlen := Proto.length_reportStatusReq_le req'
      rw [hserialize] at hlen
      have hlimit : messageLengthLimit = 65527 := rfl
      omega
  | _ => cases hwhy

/-- The rest of a short report leaves the connection open, and the end of the stream closes it. -/
theorem reporter_closes_iff_arrivingRun :
    ∃ s t u, run? (step? defaultConfig 1) emptyReporting arrivingRun = some s ∧
      s.step? defaultConfig 1 (.read (fun _ => 0) 21) = some t ∧ t.tcp.conn.closed = false ∧
      t.step? defaultConfig 1 .hangUp = some u ∧ u.tcp.conn.closed = true := by
  have hrun : ((run? (step? defaultConfig 1) emptyReporting arrivingRun).bind fun s =>
      (s.step? defaultConfig 1 (.read (fun _ => 0) 21)).bind fun t =>
        (t.step? defaultConfig 1 .hangUp).map fun _ =>
          decide (s.tcp.conn.closed = false ∧ t.tcp.conn.closed = false ∧
            (unread s.tcp.conn.ibuf).length = 5 ∧
            ∀ req ∈ s.committed, req.results.length ≤ 770)) = some true := by decide +kernel
  obtain ⟨s, hs, hrun⟩ := Option.bind_eq_some_iff.mp hrun
  obtain ⟨t, ht, hrun⟩ := Option.bind_eq_some_iff.mp hrun
  obtain ⟨u, hu, hends⟩ := Option.map_eq_some_iff.mp hrun
  obtain ⟨hopen, hopen', hunread, hhosts⟩ := of_decide_eq_true hends
  have hr : Reachable (step? defaultConfig 1) emptyReporting s := ⟨arrivingRun, hs⟩
  refine ⟨s, t, u, hs, ht, ?_, hu, ?_⟩
  · by_contra hclosed
    have hwhy := (reporter_closes_iff defaultConfig 1 hr hopen ht).2 hhosts (by simpa using hclosed)
    obtain ⟨raw, n, ha, hlarge⟩ := hwhy.resolve_left (by simp)
    cases ha
    rw [hunread] at hlarge
    exact absurd hlarge (by decide)
  · exact (reporter_closes_iff defaultConfig 1 (hr.tail ht) hopen' hu).1.mpr trivial

/-- Whatever the agent, the dns server and the reporter do in between and whatever statements fail, a
row that the reporter has written has the caller's address and tells the counters and the state that
a host really had in a module of the agent at some moment of the run, and the dns server has listed
that host for the module. An agent with an address from 128.0.0.0 on leaves no row at all. -/
theorem rows_truthful (cfg : Config R) (threads : ℕ)
    (hrun : run? (step? cfg threads) (start rows dnsLink link rawIn rawOut threadCnt table) as =
      some s) :
    (∀ key row, s.service.table key = some row → table key = some row ∨
      key.caller.toInt = cfg.localIp.toNat ∧ ∃ bs u, bs <+: as ∧
        run? (step? cfg threads) (start rows dnsLink link rawIn rawOut threadCnt table) bs = some u ∧
        u.sys.Tells key row) ∧
    (2 ^ 31 ≤ cfg.localIp.toNat → s.service.table = table) := by
  have hnew (key : StatusKey) : s.service.table key = table key ∨
      ∃ row, s.service.table key = some row ∧ key.caller.toInt = cfg.localIp.toNat ∧
        ∃ bs u, bs <+: as ∧
          run? (step? cfg threads) (start rows dnsLink link rawIn rawOut threadCnt table) bs = some u ∧
          u.sys.Tells key row := by
    obtain hkeep | ⟨row, hrow, req, hreq, he⟩ :=
      Reporter.row_received (service_reachable ⟨as, hrun⟩) key
    · exact Or.inl hkeep
    · obtain ⟨sent, hflow⟩ := flow_of_reachable ⟨as, hrun⟩
      have hcommitted : req ∈ s.committed := hflow.order.subset (by simp [hreq])
      obtain ⟨hcaller, -, bs, u, hbs, hu, htells⟩ := truthful_of_run hrun req hcommitted
      have hprinted : key.caller.toInt = req.caller.toUInt32.toNat := Reporter.caller_entries he
      rw [hcaller, UInt32.toUInt32_toInt32] at hprinted
      have htold : u.sys.Tells key row := htells (key, row) he
      exact Or.inr ⟨row, hrow, hprinted, bs, u, hbs, hu, htold⟩
  constructor
  · intro key row hrow
    obtain hkeep | ⟨row', hrow', htells⟩ := hnew key
    · exact Or.inl (hkeep.symm.trans hrow)
    · obtain rfl : row' = row := Option.some.inj (hrow'.symm.trans hrow)
      exact Or.inr htells
  · intro hlarge
    funext key
    obtain hkeep | ⟨row, -, hcaller, -⟩ := hnew key
    · exact hkeep
    · have hrange := Int32.toInt_lt key.caller
      omega

theorem rows_truthful_reportedRun :
    ∃ s, run? (step? defaultConfig 1) emptyReporting reportedRun = some s ∧
      s.service.table calledKey = some ⟨0, 0, 100, '0'⟩ ∧
      (none = some (⟨0, 0, 100, '0'⟩ : StatusRow) ∨
        calledKey.caller.toInt = defaultConfig.localIp.toNat ∧ ∃ bs u, bs <+: reportedRun ∧
          run? (step? defaultConfig 1) emptyReporting bs = some u ∧
          u.sys.Tells calledKey ⟨0, 0, 100, '0'⟩) := by
  have hrun : (run? (step? defaultConfig 1) emptyReporting reportedRun).map
      (fun s => s.service.table calledKey) = some (some ⟨0, 0, 100, '0'⟩) := by decide +kernel
  obtain ⟨s, hs, hrow⟩ := Option.map_eq_some_iff.mp hrun
  exact ⟨s, hs, hrow, (rows_truthful defaultConfig 1 hs).1 calledKey _ hrow⟩

end Reporting

end Lrlb.Pipeline
