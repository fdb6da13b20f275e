import Lrlb.Lib.Run
import Lrlb.Proto.Messages

/-! The reporter: status reports dealt in turn to threads that write them into the database. -/
namespace Lrlb.Reporter
open Lib
open Proto (ReportStatusReq HostCallResult)

/-- The primary key of `ServerCallStatus`: five signed `int(11)` columns. -/
structure StatusKey where
  modid : Int32
  cmdid : Int32
  ip : Int32
  port : Int32
  caller : Int32
deriving DecidableEq, Repr

/-- The other columns: two signed `int(11)`, a `bigint(20)` and a `char(1)`. -/
structure StatusRow where
  succCnt : Int32
  errCnt : Int32
  ts : Int64
  overload : Char
deriving DecidableEq, Repr

abbrev Entry := StatusKey × StatusRow

abbrev Table := StatusKey → Option StatusRow

/-- What is printed into one `INSERT ... ON DUPLICATE KEY UPDATE`: the numbers of type `UInt32` with
`%u`, although the fields for `ip`, `port` and `caller` are signed, the others with `%d`, and the flag
as 1 or 0. -/
structure Statement where
  modid : Int32
  cmdid : Int32
  ip : UInt32
  port : UInt32
  caller : UInt32
  succCnt : UInt32
  errCnt : UInt32
  ts : UInt32
  overload : Bool
deriving DecidableEq, Repr

/-- The statements that `StoreReport::store` executes for a message. -/
def statements (req : ReportStatusReq) : List Statement :=
  req.results.map fun result =>
    ⟨req.modid, req.cmdid, result.ip.toUInt32, result.port.toUInt32, req.caller.toUInt32, result.succ,
      result.err, req.ts, result.overload⟩

/-- The value that a signed `int(11)` column has after a number was written to it. -/
def intColumn? (v : UInt32) : Option Int32 := if v < 2147483648 then some v.toInt32 else none

/-- The row that a statement writes. A number outside the range of its column is an error in the
strict mode, which is the default of MySQL 5.7, and the whole statement has no effect. -/
def Statement.writes? (st : Statement) : Option Entry := do
  let ip ← intColumn? st.ip
  let port ← intColumn? st.port
  let caller ← intColumn? st.caller
  let succCnt ← intColumn? st.succCnt
  let errCnt ← intColumn? st.errCnt
  some (⟨st.modid, st.cmdid, ip, port, caller⟩,
    ⟨succCnt, errCnt, st.ts.toUInt64.toInt64, if st.overload then '1' else '0'⟩)

theorem intColumn?_eq_some {v : UInt32} {c : Int32} (h : intColumn? v = some c) :
    c = v.toInt32 ∧ c.toInt = v.toNat := by
  obtain ⟨hlt, hc⟩ := Option.ite_none_right_eq_some.mp h
  obtain rfl := Option.some.inj hc
  rw [UInt32.lt_iff_toNat_lt] at hlt
  have hbound : (2147483648 : UInt32).toNat = 2147483648 := rfl
  refine ⟨rfl, ?_⟩
  rw [← Int32.toInt_toBitVec, UInt32.toBitVec_toInt32, BitVec.toInt_eq_toNat_of_lt]
  · rfl
  · rw [UInt32.toNat_toBitVec]
    omega

/-- Every column has the number that was printed for it. -/
structure Statement.Prints (st : Statement) (e : Entry) : Prop where
  modid : e.1.modid = st.modid
  cmdid : e.1.cmdid = st.cmdid
  ip : e.1.ip = st.ip.toInt32 ∧ e.1.ip.toInt = st.ip.toNat
  port : e.1.port = st.port.toInt32 ∧ e.1.port.toInt = st.port.toNat
  caller : e.1.caller.toInt = st.caller.toNat
  succCnt : e.2.succCnt.toInt = st.succCnt.toNat
  errCnt : e.2.errCnt.toInt = st.errCnt.toNat
  overload : e.2.overload = if st.overload then '1' else '0'

theorem Statement.prints_of_writes? {st : Statement} {e : Entry} (h : st.writes? = some e) :
    st.Prints e := by
  simp only [writes?, Option.bind_eq_bind, Option.bind_eq_some_iff] at h
  obtain ⟨ip, hip, port, hport, caller, hcaller, succCnt, hsucc, errCnt, herr, he⟩ := h
  cases he
  exact ⟨rfl, rfl, intColumn?_eq_some hip, intColumn?_eq_some hport, (intColumn?_eq_some hcaller).2,
    (intColumn?_eq_some hsucc).2, (intColumn?_eq_some herr).2, rfl⟩

/-- The rows that the statements for a message write where the database executes them. -/
def entries (req : ReportStatusReq) : List Entry := (statements req).filterMap Statement.writes?

theorem caller_entries {req : ReportStatusReq} {e : Entry} (h : e ∈ entries req) :
    e.1.caller.toInt = req.caller.toUInt32.toNat := by
  obtain ⟨st, hst, he⟩ := List.mem_filterMap.mp h
  obtain ⟨result, -, rfl⟩ := List.mem_map.mp hst
  exact (Statement.prints_of_writes? he).caller

/-- A call of `mysql_real_query`, and whether the database is there to execute the statement. -/
structure Query where
  statement : Statement
  served : Bool
deriving DecidableEq, Repr

def Query.writes? (q : Query) : Option Entry := if q.served then q.statement.writes? else none

/-- The rows that calls have written. -/
def written (qs : List Query) : List Entry := qs.filterMap Query.writes?

/-- A call that fails leaves the table as it is: `store` prints the error and goes on. -/
def mysqlRealQuery (table : Table) (q : Query) : Table :=
  match q.writes? with
  | some (key, row) => Function.update table key (some row)
  | none => table

/-- A store thread: its queue, the messages that `thread_report` has taken from it, and the
statements of the message that is being stored. -/
structure StoreThread where
  queue : List ReportStatusReq
  reportMsgs : List ReportStatusReq
  pending : List Statement
deriving DecidableEq, Repr

/-- `thread_report` in three parts that other threads can come between: it takes the whole queue,
takes a message off what it has taken, and executes a statement of that message. -/
inductive ThreadAction where
  | recv
  | pop
  | query (served : Bool)

namespace StoreThread

/-- The thread after an action, with the calls of `mysql_real_query` that it has made. -/
def step? (th : StoreThread) : ThreadAction → Option (StoreThread × List Query)
  | .recv =>
    match th.reportMsgs, th.pending with
    | [], [] => some (⟨[], th.queue, []⟩, [])
    | _, _ => none
  | .pop =>
    match th.reportMsgs, th.pending with
    | msg :: reportMsgs, [] => some (⟨th.queue, reportMsgs, statements msg⟩, [])
    | _, _ => none
  | .query served =>
    match th.pending with
    | st :: pending => some (⟨th.queue, th.reportMsgs, pending⟩, [⟨st, served⟩])
    | [] => none

/-- The statements that the thread has still to execute. -/
def rest (th : StoreThread) : List Statement :=
  th.pending ++ th.reportMsgs.flatMap statements ++ th.queue.flatMap statements

theorem step?_rest {th th' : StoreThread} {a : ThreadAction} {done : List Query}
    (h : th.step? a = some (th', done)) : th.rest = done.map Query.statement ++ th'.rest := by
  obtain ⟨queue, reportMsgs, pending⟩ := th
  unfold step? at h
  cases a with
  | recv =>
    dsimp only at h
    split at h
    · cases h
      simp [rest]
    · cases h
  | pop =>
    dsimp only at h
    split at h
    · cases h
      simp [rest]
    · cases h
  | query served =>
    dsimp only at h
    split at h
    · cases h
      simp [rest]
    · cases h

end StoreThread

/-- `received` are all messages so far. -/
structure Service where
  threadCnt : ℕ
  idx : ℕ
  threads : ℕ → StoreThread
  table : Table
  received : List ReportStatusReq

inductive ServiceAction where
  | getReportStatus (req : ReportStatusReq)
  | thread (t : ℕ) (a : ThreadAction)

namespace Service

def init (threadCnt : ℕ) (table : Table) : Service :=
  ⟨threadCnt, 0, fun _ => ⟨[], [], []⟩, table, []⟩

/-- The message goes to the thread whose turn it is. -/
def getReportStatus? (s : Service) (req : ReportStatusReq) : Option Service :=
  if s.idx < s.threadCnt then
    let th := s.threads s.idx
    some { s with
      threads := Function.update s.threads s.idx { th with queue := th.queue ++ [req] }
      idx := (s.idx + 1) % s.threadCnt
      received := s.received ++ [req] }
  else none

def step? (s : Service) : ServiceAction → Option Service
  | .getReportStatus req => s.getReportStatus? req
  | .thread t a =>
    if t < s.threadCnt then
      ((s.threads t).step? a).map fun (th, done) =>
        { s with
          threads := Function.update s.threads t th
          table := done.foldl mysqlRealQuery s.table }
    else none

/-- All queues are empty, and what was taken from them has been stored. -/
def Idle (s : Service) : Prop := ∀ t < s.threadCnt, s.threads t = ⟨[], [], []⟩

instance (s : Service) : Decidable s.Idle := Nat.decidableBallLT _ _

/-- The action loses no statement for the row. -/
def Executes (key : StatusKey) (s : Service) : ServiceAction → Prop
  | .thread t (.query false) =>
    ∀ e ∈ (s.threads t).pending.head?.bind Statement.writes?, e.1 ≠ key
  | _ => True

instance (key : StatusKey) (s : Service) (a : ServiceAction) : Decidable (s.Executes key a) :=
  match a with
  | .thread _ (.query false) => inferInstanceAs (Decidable (∀ e ∈ (_ : Option Entry), e.1 ≠ key))
  | .thread _ (.query true) => .isTrue trivial
  | .thread _ .recv => .isTrue trivial
  | .thread _ .pop => .isTrue trivial
  | .getReportStatus _ => .isTrue trivial

end Service

/-- The values that are written to a row, in order. -/
def rowsFor (key : StatusKey) (es : List Entry) : List StatusRow :=
  es.filterMap fun e => if e.1 = key then some e.2 else none

/-- The messages that come to thread `t` of `n` when they are dealt in turn. -/
def share (n t : ℕ) (msgs : List ReportStatusReq) : List ReportStatusReq :=
  (msgs.zipIdx.filter fun x => x.2 % n = t).map Prod.fst

/-- The values that messages have for a row, in order, as far as the columns take them. -/
abbrev valuesFor (key : StatusKey) (msgs : List ReportStatusReq) : List StatusRow :=
  rowsFor key (msgs.flatMap entries)

section Rows

variable {key : StatusKey} {n t : ℕ}

theorem rowsFor_append (es es' : List Entry) :
    rowsFor key (es ++ es') = rowsFor key es ++ rowsFor key es' :=
  List.filterMap_append

theorem mem_rowsFor {es : List Entry} {row : StatusRow} : row ∈ rowsFor key es ↔ (key, row) ∈ es := by
  unfold rowsFor
  rw [List.mem_filterMap]
  constructor
  · intro h
    obtain ⟨e, he, hrow⟩ := h
    obtain ⟨hkey, hrow⟩ := Option.ite_none_right_eq_some.mp hrow
    have hpair : e = (key, row) := Prod.ext hkey (Option.some.inj hrow)
    rwa [← hpair]
  · intro h
    exact ⟨(key, row), h, if_pos rfl⟩

theorem share_append_singleton (msgs : List ReportStatusReq) (req : ReportStatusReq) :
    share n t (msgs ++ [req]) = share n t msgs ++ if msgs.length % n = t then [req] else [] := by
  unfold share
  rw [List.zipIdx_append, List.filter_append, List.map_append]
  by_cases ht : msgs.length % n = t <;> simp [ht]

/-- A row that one thread alone has values for gets them in the order of arrival. -/
theorem valuesFor_share {msgs : List ReportStatusReq}
    (h : ∀ u < n, u ≠ t → valuesFor key (share n u msgs) = []) (hn : 0 < n) :
    valuesFor key (share n t msgs) = valuesFor key msgs := by
  induction msgs using List.reverseRecOn with
  | nil => rfl
  | append_singleton msgs req ih =>
    have hsplit (u : ℕ) : valuesFor key (share n u (msgs ++ [req])) =
        valuesFor key (share n u msgs) ++
          if msgs.length % n = u then rowsFor key (entries req) else [] := by
      rw [valuesFor, share_append_singleton, List.flatMap_append, rowsFor_append]
      split_ifs <;> simp [rowsFor]
    have hprev : ∀ u < n, u ≠ t → valuesFor key (share n u msgs) = [] := by
      intro u hu hne
      have hall := h u hu hne
      rw [hsplit, List.append_eq_nil_iff] at hall
      exact hall.1
    rw [hsplit, ih hprev, valuesFor, valuesFor, List.flatMap_append, rowsFor_append,
      List.flatMap_singleton]
    split_ifs with hturn
    · rfl
    · -- the message went to another thread, so that it has no value for the row
      have hall := h (msgs.length % n) (Nat.mod_lt _ hn) hturn
      rw [hsplit, List.append_eq_nil_iff, if_pos rfl] at hall
      rw [hall.2]

theorem valuesFor_mono (key : StatusKey) {msgs more : List ReportStatusReq} (h : msgs <+: more) :
    valuesFor key msgs <+: valuesFor key more := by
  obtain ⟨later, rfl⟩ := h
  rw [valuesFor, valuesFor, List.flatMap_append, rowsFor_append]
  exact List.prefix_append _ _

theorem share_mono (n t : ℕ) {msgs more : List ReportStatusReq} (h : msgs <+: more) :
    share n t msgs <+: share n t more := by
  obtain ⟨later, rfl⟩ := h
  unfold share
  rw [List.zipIdx_append, List.filter_append, List.map_append]
  exact List.prefix_append _ _

end Rows

/-- All messages that mention a row were dealt to one thread. -/
def DealtToOne (n : ℕ) (key : StatusKey) (msgs : List ReportStatusReq) : Prop :=
  ∃ t, ∀ u < n, u ≠ t → valuesFor key (share n u msgs) = []

/-- A row is untouched, or it has the last value that some thread has written to it. -/
def LastOfSome (n : ℕ) (table₀ : Table) (done : ℕ → List Query) (table : Table) : Prop :=
  ∀ key, ((∀ t < n, rowsFor key (written (done t)) = []) ∧ table key = table₀ key) ∨
    ∃ t < n, ∃ row, (rowsFor key (written (done t))).getLast? = some row ∧ table key = some row

/-- Each thread is through with the first statements of its share, and has the others before it. -/
structure Storing (n : ℕ) (table₀ : Table) (s : Service) (done : ℕ → List Query) : Prop where
  threadCnt : s.threadCnt = n
  turn : s.idx = s.received.length % n
  dealt : s.received ≠ [] → 0 < n
  share : ∀ t < n, (share n t s.received).flatMap statements =
    (done t).map Query.statement ++ (s.threads t).rest
  table : LastOfSome n table₀ done s.table

/-- Every statement for the row that was tried has been executed. -/
def Complete (key : StatusKey) (done : ℕ → List Query) : Prop :=
  ∀ t, ∀ q ∈ done t, q.served = false → ∀ e ∈ q.statement.writes?, e.1 ≠ key

section Storing

variable {n : ℕ} {table₀ : Table} {s s' : Service} {done : ℕ → List Query}

theorem Storing.init : Storing n table₀ (Service.init n table₀) fun _ => [] where
  threadCnt := rfl
  turn := (Nat.zero_mod n).symm
  dealt h := absurd rfl h
  share _ _ := rfl
  table _ := Or.inl ⟨fun _ _ => rfl, rfl⟩

theorem Storing.getReportStatus (h : Storing n table₀ s done) {req : ReportStatusReq}
    (hs : s.step? (.getReportStatus req) = some s') : Storing n table₀ s' done := by
  obtain ⟨hidx, hs⟩ := Option.ite_none_right_eq_some.mp hs
  cases hs
  refine ⟨h.threadCnt, ?_, fun _ => h.threadCnt ▸ Nat.zero_lt_of_lt hidx, ?_, h.table⟩
  · simp only [List.length_append, List.length_singleton, h.turn, h.threadCnt, Nat.mod_add_mod]
  · intro t ht
    dsimp only
    rw [share_append_singleton, List.flatMap_append, h.share t ht, ← h.turn]
    by_cases hturn : s.idx = t
    · subst hturn
      simp [StoreThread.rest]
    · simp [hturn, Ne.symm hturn]

theorem written_append (qs qs' : List Query) : written (qs ++ qs') = written qs ++ written qs' :=
  List.filterMap_append

/-- A call that writes nothing to a row leaves its values as they are. -/
theorem rowsFor_update {key : StatusKey} {q : Query} (hq : ∀ e ∈ q.writes?, e.1 ≠ key) (t u : ℕ) :
    rowsFor key (written (Function.update done t (done t ++ [q]) u)) =
      rowsFor key (written (done u)) := by
  by_cases hu : u = t
  · subst hu
    rw [Function.update_self, written_append, rowsFor_append]
    cases he : q.writes? with
    | none => simp [written, rowsFor, he]
    | some e => simp [written, rowsFor, he, hq e he]
  · rw [Function.update_of_ne hu]

theorem LastOfSome.mysqlRealQuery {table : Table} (h : LastOfSome n table₀ done table) {t : ℕ}
    (ht : t < n) (q : Query) :
    LastOfSome n table₀ (Function.update done t (done t ++ [q])) (mysqlRealQuery table q) := by
  intro key
  by_cases hkey : ∃ row, q.writes? = some (key, row)
  · obtain ⟨row, hrow⟩ := hkey
    refine Or.inr ⟨t, ht, row, ?_, ?_⟩
    · rw [Function.update_self, written_append, rowsFor_append]
      simp [written, rowsFor, hrow]
    · simp [Reporter.mysqlRealQuery, hrow]
  · have hother : ∀ e ∈ q.writes?, e.1 ≠ key := by
      intro e he hek
      subst hek
      exact hkey ⟨e.2, he⟩
    have hrow : Reporter.mysqlRealQuery table q key = table key := by
      unfold Reporter.mysqlRealQuery
      cases he : q.writes? with
      | none => rfl
      | some e => exact Function.update_of_ne (Ne.symm (hother e he)) _ _
    simpa only [rowsFor_update hother, hrow] using h key

theorem LastOfSome.foldl_mysqlRealQuery {table : Table} (h : LastOfSome n table₀ done table) {t : ℕ}
    (ht : t < n) (qs : List Query) :
    LastOfSome n table₀ (Function.update done t (done t ++ qs))
      (qs.foldl Reporter.mysqlRealQuery table) := by
  induction qs generalizing done table with
  | nil => simpa using h
  | cons q qs ih => simpa using ih (h.mysqlRealQuery ht q)

/-- A call is served or was not lost for the row. -/
theorem StoreThread.step?_complete {th th' : StoreThread} {a : ThreadAction} {qs : List Query}
    (h : th.step? a = some (th', qs)) {key : StatusKey}
    (hexec : a = .query false → ∀ e ∈ th.pending.head?.bind Statement.writes?, e.1 ≠ key) :
    ∀ q ∈ qs, q.served = false → ∀ e ∈ q.statement.writes?, e.1 ≠ key := by
  unfold step? at h
  cases a with
  | recv =>
    dsimp only at h
    split at h <;> cases h
    simp
  | pop =>
    dsimp only at h
    split at h <;> cases h
    simp
  | query served =>
    cases hpending : th.pending with
    | nil =>
      rw [hpending] at h
      cases h
    | cons st pending =>
      rw [hpending] at h hexec
      cases h
      intro q hq hserved e he
      rw [List.mem_singleton] at hq
      subst hq
      subst hserved
      exact hexec rfl e he

theorem Storing.thread (h : Storing n table₀ s done) {t : ℕ} {a : ThreadAction}
    (hs : s.step? (.thread t a) = some s') :
    ∃ done', Storing n table₀ s' done' ∧
      ∀ key, s.Executes key (.thread t a) → Complete key done → Complete key done' := by
  obtain ⟨ht, hs⟩ := Option.ite_none_right_eq_some.mp hs
  obtain ⟨⟨th, qs⟩, hstep, rfl⟩ := Option.map_eq_some_iff.mp hs
  rw [h.threadCnt] at ht
  refine ⟨Function.update done t (done t ++ qs),
    ⟨h.threadCnt, h.turn, h.dealt, ?_, h.table.foldl_mysqlRealQuery ht qs⟩, ?_⟩
  · intro u hu
    dsimp only
    rw [h.share u hu]
    by_cases hut : u = t
    · subst hut
      rw [Function.update_self, Function.update_self, StoreThread.step?_rest hstep, List.map_append,
        List.append_assoc]
    · rw [Function.update_of_ne hut, Function.update_of_ne hut]
  · intro key hexec hcomplete u
    by_cases hut : u = t
    · subst hut
      rw [Function.update_self]
      intro q hq
      obtain hold | hnew := List.mem_append.mp hq
      · exact hcomplete u q hold
      · refine StoreThread.step?_complete hstep ?_ q hnew
        intro ha
        subst ha
        exact hexec
    · rw [Function.update_of_ne hut]
      exact hcomplete u

theorem Storing.step {a : ServiceAction} (h : Storing n table₀ s done) (hs : s.step? a = some s') :
    ∃ done', Storing n table₀ s' done' ∧
      ∀ key, s.Executes key a → Complete key done → Complete key done' := by
  cases a with
  | getReportStatus req => exact ⟨done, h.getReportStatus hs, fun _ _ hcomplete => hcomplete⟩
  | thread t a => exact h.thread hs

theorem Storing.of_reachable (hr : Reachable Service.step? (Service.init n table₀) s) :
    ∃ done, Storing n table₀ s done := by
  refine hr.invariant (P := fun s => ∃ done, Storing n table₀ s done) ?_ ⟨_, .init⟩
  intro s a s' h hs
  obtain ⟨done, h⟩ := h
  obtain ⟨done', h', -⟩ := h.step hs
  exact ⟨done', h'⟩

/-- In a run that loses no statement for a row, every statement for it has been executed. -/
theorem Storing.run_complete {key : StatusKey} {as : List ServiceAction}
    (h : ∃ done, Storing n table₀ s done ∧ Complete key done)
    (hrun : run? Service.step? s as = some s')
    (hexec : ∀ x ∈ attempted Service.step? s as, x.1.Executes key x.2) :
    ∃ done, Storing n table₀ s' done ∧ Complete key done := by
  refine forall_visited (P := fun s => ∃ done, Storing n table₀ s done ∧ Complete key done)
    (G := Service.Executes key) ?_ s as h hexec s' (mem_visited_of_run? hrun)
  intro s a s' h hallows hs
  obtain ⟨done, h, hcomplete⟩ := h
  obtain ⟨done', h', hkeeps⟩ := h.step hs
  exact ⟨done', h', hkeeps key hallows hcomplete⟩

/-- What was written to a row is what the statements say, where none was lost. -/
theorem rowsFor_written {key : StatusKey} {qs : List Query}
    (hqs : ∀ q ∈ qs, q.served = false → ∀ e ∈ q.statement.writes?, e.1 ≠ key) :
    rowsFor key (written qs) = rowsFor key ((qs.map Query.statement).filterMap Statement.writes?) := by
  induction qs with
  | nil => rfl
  | cons q qs ih =>
    have hrest := ih fun x hx => hqs x (List.mem_cons_of_mem q hx)
    have hfirst := hqs q List.mem_cons_self
    obtain ⟨st, served⟩ := q
    rw [← List.singleton_append, written_append, rowsFor_append, List.map_append,
      List.filterMap_append, rowsFor_append, hrest]
    congr 1
    cases served with
    | true => rfl
    | false =>
      cases he : st.writes? with
      | none => simp [written, Query.writes?, he]
      | some e => simp [written, Query.writes?, rowsFor, he, hfirst rfl e he]

theorem flatMap_entries (msgs : List ReportStatusReq) :
    msgs.flatMap entries = (msgs.flatMap statements).filterMap Statement.writes? := by
  rw [List.filterMap_flatMap]
  rfl

/-- When all is stored, the threads have written the values of their shares. -/
theorem Storing.values (h : Storing n table₀ s done) (hidle : s.Idle) {key : StatusKey}
    (hcomplete : Complete key done) {t : ℕ} (ht : t < n) :
    rowsFor key (written (done t)) = valuesFor key (Reporter.share n t s.received) := by
  have hall : (done t).map Query.statement = (Reporter.share n t s.received).flatMap statements := by
    rw [h.share t ht, hidle t (h.threadCnt.symm ▸ ht)]
    exact (List.append_nil _).symm
  rw [rowsFor_written (hcomplete t), hall, valuesFor, flatMap_entries]

theorem Service.received_mono {as : List ServiceAction}
    (hrun : run? Service.step? s as = some s') : s.received <+: s'.received := by
  refine Reachable.invariant (P := fun s' => s.received <+: s'.received) ?_ List.prefix_rfl ⟨as, hrun⟩
  intro u a u' h hu
  cases a with
  | getReportStatus req =>
    obtain ⟨-, hu⟩ := Option.ite_none_right_eq_some.mp hu
    cases hu
    exact h.trans (List.prefix_append _ _)
  | thread t a =>
    obtain ⟨-, hu⟩ := Option.ite_none_right_eq_some.mp hu
    obtain ⟨x, -, rfl⟩ := Option.map_eq_some_iff.mp hu
    exact h

/-- The row of a key that messages have values for. -/
theorem Storing.row (h : Storing n table₀ s done) (hidle : s.Idle) {key : StatusKey}
    (hcomplete : Complete key done) (hkey : valuesFor key s.received ≠ []) :
    ∃ t < n, ∃ row, (valuesFor key (Reporter.share n t s.received)).getLast? = some row ∧
      s.table key = some row := by
  obtain ⟨hnone, -⟩ | ⟨t, ht, row, hlast, hrow⟩ := h.table key
  · have hn : 0 < n := by
      apply h.dealt
      intro hnil
      rw [hnil] at hkey
      exact hkey rfl
    have hempty : ∀ u < n, valuesFor key (Reporter.share n u s.received) = [] := by
      intro u hu
      rw [← h.values hidle hcomplete hu]
      exact hnone u hu
    have hall := valuesFor_share (t := 0) (fun u hu _ => hempty u hu) hn
    exact absurd (hall.symm.trans (hempty 0 hn)) hkey
  · rw [h.values hidle hcomplete ht] at hlast
    exact ⟨t, ht, row, hlast, hrow⟩

theorem Storing.row_of_dealtToOne (h : Storing n table₀ s done) (hidle : s.Idle) {key : StatusKey}
    (hcomplete : Complete key done) (hone : DealtToOne n key s.received)
    (hkey : valuesFor key s.received ≠ []) :
    s.table key = (valuesFor key s.received).getLast? := by
  obtain ⟨t, hother⟩ := hone
  obtain ⟨u, hu, row, hlast, hrow⟩ := h.row hidle hcomplete hkey
  obtain rfl : u = t := by
    by_contra hne
    rw [hother u hu hne] at hlast
    cases hlast
  rw [← valuesFor_share hother (Nat.zero_lt_of_lt hu), hlast, hrow]

theorem DealtToOne.mono {key : StatusKey} {msgs more : List ReportStatusReq}
    (h : DealtToOne n key more) (hpre : msgs <+: more) : DealtToOne n key msgs := by
  obtain ⟨t, hother⟩ := h
  refine ⟨t, fun u hu hne => ?_⟩
  have hprefix := valuesFor_mono key (share_mono n u hpre)
  rw [hother u hu hne] at hprefix
  exact List.prefix_nil.mp hprefix

/-- In a list that grows in order, the last of a first part is at most the last of all. -/
theorem ts_getLast?_le {rows more : List StatusRow} (hpre : rows <+: more)
    (hmono : more.Pairwise fun r r' => r.ts ≤ r'.ts) {row row' : StatusRow}
    (hrow : rows.getLast? = some row) (hrow' : more.getLast? = some row') : row.ts ≤ row'.ts := by
  have hmem : row ∈ more := hpre.subset (List.mem_of_getLast? hrow)
  obtain ⟨front, rfl⟩ := List.getLast?_eq_some_iff.mp hrow'
  rcases List.mem_append.mp hmem with hmem | hmem
  · exact (List.pairwise_append.mp hmono).2.2 row hmem row' (List.mem_singleton_self _)
  · rw [List.mem_singleton.mp hmem]
    exact Int64.le_refl _

end Storing

/-- Whatever fails, a row is untouched or has values that a received message has for it. -/
theorem row_received {n : ℕ} {table₀ : Table} {s : Service}
    (hr : Reachable Service.step? (Service.init n table₀) s) (key : StatusKey) :
    s.table key = table₀ key ∨
      ∃ row, s.table key = some row ∧ ∃ req ∈ s.received, (key, row) ∈ entries req := by
  obtain ⟨done, h⟩ := Storing.of_reachable hr
  obtain ⟨-, hkeep⟩ | ⟨t, ht, row, hlast, hrow⟩ := h.table key
  · exact Or.inl hkeep
  · obtain ⟨q, hq, he⟩ := List.mem_filterMap.mp (mem_rowsFor.mp (List.mem_of_getLast? hlast))
    have hst : q.statement.writes? = some (key, row) := (Option.ite_none_right_eq_some.mp he).2
    have hmem : q.statement ∈ (share n t s.received).flatMap statements := by
      rw [h.share t ht]
      exact List.mem_append_left _ (List.mem_map_of_mem hq)
    obtain ⟨req, hreq, hstreq⟩ := List.mem_flatMap.mp hmem
    refine Or.inr ⟨row, hrow, req, ?_, List.mem_filterMap.mpr ⟨_, hstreq, hst⟩⟩
    obtain ⟨x, hx, rfl⟩ := List.mem_map.mp hreq
    exact List.fst_mem_of_mem_zipIdx (List.mem_of_mem_filter hx)

/-- Where no statement for a row is lost and all is stored, a row that messages have values for has
the last values that one of the threads was dealt for it. Those are the last values received if all
were dealt to one thread, and then the time of the row never goes back while that of the messages
does not. Only values that the columns take count. -/
theorem rows_stored {n : ℕ} {table₀ : Table} {as : List ServiceAction} {s : Service}
    (hrun : run? Service.step? (Service.init n table₀) as = some s) (hidle : s.Idle)
    (key : StatusKey)
    (hexec : ∀ x ∈ attempted Service.step? (Service.init n table₀) as, x.1.Executes key x.2)
    (hkey : valuesFor key s.received ≠ []) :
    (∃ t < n, ∃ row, (valuesFor key (share n t s.received)).getLast? = some row ∧
      s.table key = some row) ∧
    (DealtToOne n key s.received → s.table key = (valuesFor key s.received).getLast?) ∧
    ∀ bs s', run? Service.step? s bs = some s' → s'.Idle →
      (∀ x ∈ attempted Service.step? s bs, x.1.Executes key x.2) → DealtToOne n key s'.received →
      (valuesFor key s'.received).Pairwise (fun r r' => r.ts ≤ r'.ts) →
      ∃ row row', s.table key = some row ∧ s'.table key = some row' ∧ row.ts ≤ row'.ts := by
  obtain ⟨done, h, hcomplete⟩ :=
    Storing.run_complete ⟨_, Storing.init, fun _ _ hq => by cases hq⟩ hrun hexec
  refine ⟨h.row hidle hcomplete hkey,
    fun hone => h.row_of_dealtToOne hidle hcomplete hone hkey, ?_⟩
  intro bs s' hrun' hidle' hexec' hone hmono
  obtain ⟨done', h', hcomplete'⟩ := Storing.run_complete ⟨_, h, hcomplete⟩ hrun' hexec'
  have hpre := Service.received_mono hrun'
  have hvalues := valuesFor_mono key hpre
  have hkey' : valuesFor key s'.received ≠ [] := fun hnil =>
    hkey (List.prefix_nil.mp (hnil ▸ hvalues))
  have hrow := h.row_of_dealtToOne hidle hcomplete (hone.mono hpre) hkey
  have hrow' := h'.row_of_dealtToOne hidle' hcomplete' hone hkey'
  rw [List.getLast?_eq_some_getLast hkey] at hrow
  rw [List.getLast?_eq_some_getLast hkey'] at hrow'
  exact ⟨_, _, hrow, hrow', ts_getLast?_le hvalues hmono (List.getLast?_eq_some_getLast hkey)
    (List.getLast?_eq_some_getLast hkey')⟩

/-- A report of one host at a time. -/
def reportAt (ts : UInt32) : ReportStatusReq := ⟨1, 1, 123, [⟨1, 80, 100, 3, false⟩], ts⟩

def storeAll (t : ℕ) : List ServiceAction :=
  [.thread t .recv, .thread t .pop, .thread t (.query true)]

/-- A report of a host that has no row, since its address is above what the column takes. -/
def otherReport : ReportStatusReq := ⟨1, 1, 123, [⟨Int32.ofNat 3232235953, 7777, 50, 0, false⟩], 8⟩

def firstReport : List ServiceAction := .getReportStatus (reportAt 7) :: storeAll 0

/-- One of the statements for the other host is lost. -/
def laterReports : List ServiceAction :=
  [.getReportStatus otherReport, .getReportStatus otherReport, .getReportStatus (reportAt 9)] ++
    storeAll 0 ++ storeAll 1 ++ [.thread 2 .recv, .thread 2 .pop, .thread 2 (.query false)]

/-- Of three threads the first is dealt both reports of a host. -/
theorem rows_stored_one_thread :
    ∃ s s', run? Service.step? (Service.init 3 fun _ => none) firstReport = some s ∧
      run? Service.step? s laterReports = some s' ∧
      ∃ row row', s.table ⟨1, 1, 1, 80, 123⟩ = some row ∧ s'.table ⟨1, 1, 1, 80, 123⟩ = some row' ∧
        row.ts ≤ row'.ts := by
  have hends : ((run? Service.step? (Service.init 3 fun _ => none) firstReport).bind fun s =>
      (run? Service.step? s laterReports).map fun s' =>
        (decide s.Idle, s.received, decide s'.Idle, s'.received)) =
      some (true, [reportAt 7], true, [reportAt 7, otherReport, otherReport, reportAt 9]) := by
    decide +kernel
  have hexec : ∀ x ∈ attempted Service.step? (Service.init 3 fun _ => none)
      (firstReport ++ laterReports), x.1.Executes ⟨1, 1, 1, 80, 123⟩ x.2 := by decide +kernel
  obtain ⟨s, hrun, hends⟩ := Option.bind_eq_some_iff.mp hends
  obtain ⟨s', hrun', hends⟩ := Option.map_eq_some_iff.mp hends
  simp only [Prod.mk.injEq, decide_eq_true_eq] at hends
  obtain ⟨hidle, hmsgs, hidle', hmsgs'⟩ := hends
  rw [attempted_append hrun] at hexec
  have hstored := rows_stored hrun hidle ⟨1, 1, 1, 80, 123⟩
    (fun x hx => hexec x (List.mem_append_left _ hx)) (by rw [hmsgs]; decide)
  refine ⟨s, s', hrun, hrun', hstored.2.2 laterReports s' hrun' hidle'
    (fun x hx => hexec x (List.mem_append_right _ hx)) ⟨0, ?_⟩ ?_⟩
  · rw [hmsgs']
    decide
  · rw [hmsgs']
    decide

/-- Two reports of one host go to two threads, and the second thread is the first to store. -/
theorem older_report_stored_last :
    ((run? Service.step? (Service.init 3 fun _ => none)
        ([.getReportStatus (reportAt 7), .getReportStatus (reportAt 8)] ++ storeAll 1)).map fun s =>
      (s.table ⟨1, 1, 1, 80, 123⟩).map StatusRow.ts) = some (some 8) ∧
    ((run? Service.step? (Service.init 3 fun _ => none)
        ([.getReportStatus (reportAt 7), .getReportStatus (reportAt 8)] ++ storeAll 1 ++
          storeAll 0)).map fun s =>
      (decide s.Idle, (s.table ⟨1, 1, 1, 80, 123⟩).map StatusRow.ts,
        (valuesFor ⟨1, 1, 1, 80, 123⟩ s.received).getLast?.map StatusRow.ts)) =
      some (true, some 7, some 8) := by
  decide +kernel

end Lrlb.Reporter
