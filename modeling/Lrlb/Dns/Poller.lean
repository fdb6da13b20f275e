import Lrlb.Lib.Run
import Lrlb.Dns.Route

/-! The thread `check_route_changes` beside any number of writers, one database statement at a
time. The histories are no data of the program: they record which statements of which writers
had run when a table was loaded, when an iteration began, and when a list was published. -/
namespace Lrlb.Dns
open Lib

/-- What a writer executes: an edit of `RouteData`, then `RouteVersion` set to its timestamp,
then its `RouteChange` row with the same timestamp. -/
structure Writer where
  edit : List RouteRow → List RouteRow
  time : ℕ
  modid : UInt32
  cmdid : UInt32

inductive Statement where
  | edit | setVersion | insertChange
deriving DecidableEq, Repr

variable {ι : Type}

abbrev History (ι : Type) := List (ι × Statement)

instance [DecidableEq ι] (e : ι × Statement) (h : History ι) : Decidable (e ∈ h) :=
  List.instDecidableMemOfLawfulBEq e h

/-- One call of `SubscribeList::publish`, with the table served at that moment. -/
structure Publication (ι : Type) where
  changeMods : List UInt64
  served : RouteMap
  history : History ι
deriving DecidableEq

/-- The statement of `check_route_changes` that runs next. The flag of a load tells the branch
of a new version from the branch of the timeout. -/
inductive PollPc where
  | removeAll | sleep | loadVersion | loadRouteData (changed : Bool) | swap (changed : Bool)
  | loadChanges | publish | removeChanges
deriving DecidableEq, Repr

structure PollState (ι : Type) where
  db : Db ι
  route : Route
  pc : PollPc
  currentTime : ℤ
  lastLoadTime : ℤ
  changes : List UInt64
  published : List (Publication ι)
  /-- the statements run so far -/
  history : History ι
  /-- those run when the table behind `_data_pointer`, or `_temp_pointer`, was selected -/
  dataHistory : History ι
  tempHistory : History ι
  /-- those run when the current iteration, or the last finished one, began -/
  startHistory : History ι
  finishedHistory : History ι

/-- `ok` is the outcome of the query, if the statement is one, and `now` what `time` returns. -/
inductive PollAction (ι : Type) where
  | poll (ok : Bool) (now : ℤ)
  | write (w : ι)

namespace Writer

def row (x : Writer) (w : ι) : ChangeRow ι := ⟨w, x.modid, x.cmdid, x.time⟩

def key (x : Writer) : UInt64 := packInts (atoi x.modid) (atoi x.cmdid)

def exec (x : Writer) (w : ι) (db : Db ι) : Statement → Db ι
  | .edit => { db with routeData := x.edit db.routeData }
  | .setVersion => { db with routeVersion := x.time }
  | .insertChange => { db with routeChange := db.routeChange ++ [x.row w] }

end Writer

/-- `RouteData` after the edits of a history. -/
def replay (W : ι → Writer) (rows : List RouteRow) (h : History ι) : List RouteRow :=
  h.foldl (fun rows e => if e.2 = .edit then (W e.1).edit rows else rows) rows

namespace PollState

/-- The start of the thread. Rows that an earlier server left in `RouteChange` are no writer's
of this run and are dropped at once by `removeAll`; they are left out. -/
def init (rows : List RouteRow) (routeVersion : ℕ) (version lastLoadTime : ℤ) : PollState ι where
  db := ⟨rows, routeVersion, []⟩
  route := Route.new version rows
  pc := .removeAll
  currentTime := lastLoadTime
  lastLoadTime := lastLoadTime
  changes := []
  published := []
  history := []
  dataHistory := []
  tempHistory := []
  startHistory := []
  finishedHistory := []

/-- A change row that the loaded version covers. -/
def Due (s : PollState ι) (row : ChangeRow ι) : Prop := (row.version : ℤ) ≤ s.route.version

instance (s : PollState ι) (row : ChangeRow ι) : Decidable (s.Due row) :=
  inferInstanceAs (Decidable ((row.version : ℤ) ≤ s.route.version))

/-- The end of an iteration. -/
def finish (s : PollState ι) : PollState ι :=
  { s with pc := .sleep, finishedHistory := s.startHistory }

def removeAll (s : PollState ι) (ok : Bool) : PollState ι :=
  { s with db := if ok then s.db.deleteAllChanges else s.db, pc := .sleep }

def wake (s : PollState ι) (now : ℤ) : PollState ι :=
  { s with pc := .loadVersion, currentTime := now, startHistory := s.history }

def loadVersion (waitTime : ℤ) (s : PollState ι) (ok : Bool) : PollState ι :=
  let (route, ret) := s.route.loadVersion (query ok s.db.selectVersion)
  if ret = 1 then { s with route := route, pc := .loadRouteData true }
  else if s.currentTime - s.lastLoadTime ≥ waitTime then
    { s with route := route, pc := .loadRouteData false }
  else { s with route := route }.finish

def loadRouteData (s : PollState ι) (ok changed : Bool) : PollState ι :=
  let (route, ret) := s.route.loadRouteData (query ok s.db.routeData)
  if ret = 0 then { s with route := route, tempHistory := s.history, pc := .swap changed }
  else if changed then { s with route := route, pc := .loadChanges }
  else { s with route := route }.finish

def swap (s : PollState ι) (now : ℤ) (changed : Bool) : PollState ι :=
  let s := { s with
    route := s.route.swap, lastLoadTime := now
    dataHistory := s.tempHistory, tempHistory := s.dataHistory }
  if changed then { s with pc := .loadChanges } else s.finish

def loadChanges (s : PollState ι) (ok : Bool) : PollState ι :=
  { s with
    changes := Route.loadChanges [] (query ok (s.db.selectChanges s.route.version))
    pc := .publish }

def publish (s : PollState ι) : PollState ι :=
  { s with
    published := s.published ++ [⟨s.changes, s.route.dataPointer, s.dataHistory⟩]
    pc := .removeChanges }

def removeChanges (s : PollState ι) (ok : Bool) : PollState ι :=
  { s with db := if ok then s.db.deleteChanges s.route.version else s.db }.finish

def poll (waitTime : ℤ) (s : PollState ι) (ok : Bool) (now : ℤ) : PollState ι :=
  match s.pc with
  | .removeAll => s.removeAll ok
  | .sleep => s.wake now
  | .loadVersion => s.loadVersion waitTime ok
  | .loadRouteData changed => s.loadRouteData ok changed
  | .swap changed => s.swap now changed
  | .loadChanges => s.loadChanges ok
  | .publish => s.publish
  | .removeChanges => s.removeChanges ok

theorem loadVersion_cases (waitTime : ℤ) (s : PollState ι) (ok : Bool) :
    (ok = true ∧ (s.db.routeVersion : ℤ) ≠ s.route.version ∧ s.loadVersion waitTime ok =
        { s with route.version := s.db.routeVersion, pc := .loadRouteData true }) ∨
      ((ok = true → (s.db.routeVersion : ℤ) = s.route.version) ∧
        (s.loadVersion waitTime ok = { s with pc := .loadRouteData false } ∨
          s.loadVersion waitTime ok = s.finish)) := by
  by_cases hnew : ok = true ∧ (s.db.routeVersion : ℤ) ≠ s.route.version
  · obtain ⟨rfl, hne⟩ := hnew
    left
    refine ⟨rfl, hne, ?_⟩
    simp [loadVersion, query, Db.selectVersion, Route.loadVersion, hne]
  · right
    have hsame : ok = true → (s.db.routeVersion : ℤ) = s.route.version := by tauto
    have hret : ∃ ret, ret ≠ 1 ∧
        s.route.loadVersion (query ok s.db.selectVersion) = (s.route, ret) := by
      cases ok with
      | false => exact ⟨-1, by decide, rfl⟩
      | true => exact ⟨0, by decide, if_pos (hsame rfl)⟩
    obtain ⟨ret, hne, hr⟩ := hret
    refine ⟨hsame, ?_⟩
    simp only [loadVersion, hr, if_neg hne]
    split_ifs with htime
    · exact Or.inl rfl
    · exact Or.inr rfl

/-- What one statement of the poller can do, by the outcome of its query. -/
inductive Polled (s : PollState ι) : Bool → PollState ι → Prop where
  | removeAll (ok : Bool) : s.pc = .removeAll → Polled s ok (s.removeAll ok)
  | wake (ok : Bool) (now : ℤ) : s.pc = .sleep → Polled s ok (s.wake now)
  | newVersion : s.pc = .loadVersion → (s.db.routeVersion : ℤ) ≠ s.route.version →
      Polled s true { s with route.version := s.db.routeVersion, pc := .loadRouteData true }
  | timeout (ok : Bool) : s.pc = .loadVersion →
      (ok = true → (s.db.routeVersion : ℤ) = s.route.version) →
      Polled s ok { s with pc := .loadRouteData false }
  | noChange (ok : Bool) : s.pc = .loadVersion →
      (ok = true → (s.db.routeVersion : ℤ) = s.route.version) → Polled s ok s.finish
  | loaded (changed : Bool) : s.pc = .loadRouteData changed →
      Polled s true { s with
        route.tempPointer := RouteMap.ofRows s.db.routeData
        tempHistory := s.history, pc := .swap changed }
  | loadFailed : s.pc = .loadRouteData true →
      Polled s false { s with route.tempPointer := ∅, pc := .loadChanges }
  | reloadFailed : s.pc = .loadRouteData false →
      Polled s false { s with route.tempPointer := ∅ }.finish
  | swapped (ok : Bool) (now : ℤ) : s.pc = .swap true → Polled s ok (s.swap now true)
  | reloaded (ok : Bool) (now : ℤ) : s.pc = .swap false → Polled s ok (s.swap now false)
  | loadChanges (ok : Bool) : s.pc = .loadChanges → Polled s ok (s.loadChanges ok)
  | publish (ok : Bool) : s.pc = .publish → Polled s ok s.publish
  | removeChanges (ok : Bool) : s.pc = .removeChanges → Polled s ok (s.removeChanges ok)

theorem poll_polled (waitTime : ℤ) (s : PollState ι) (ok : Bool) (now : ℤ) :
    s.Polled ok (s.poll waitTime ok now) := by
  unfold poll
  cases hpc : s.pc with
  | removeAll => exact .removeAll ok hpc
  | sleep => exact .wake ok now hpc
  | loadVersion =>
    obtain ⟨rfl, hne, h⟩ | ⟨hsame, h | h⟩ := loadVersion_cases waitTime s ok <;> dsimp only <;> rw [h]
    · exact .newVersion hpc hne
    · exact .timeout ok hpc hsame
    · exact .noChange ok hpc hsame
  | loadRouteData changed =>
    cases ok with
    | true => exact .loaded changed hpc
    | false =>
      cases changed with
      | true => exact .loadFailed hpc
      | false => exact .reloadFailed hpc
  | swap changed =>
    cases changed with
    | true => exact .swapped ok now hpc
    | false => exact .reloaded ok now hpc
  | loadChanges => exact .loadChanges ok hpc
  | publish => exact .publish ok hpc
  | removeChanges => exact .removeChanges ok hpc

variable [DecidableEq ι]

def nextStatement? (s : PollState ι) (w : ι) : Option Statement :=
  if (w, .edit) ∉ s.history then some .edit
  else if (w, .setVersion) ∉ s.history then some .setVersion
  else if (w, .insertChange) ∉ s.history then some .insertChange
  else none

def write (W : ι → Writer) (s : PollState ι) (w : ι) (st : Statement) : PollState ι :=
  { s with db := (W w).exec w s.db st, history := s.history ++ [(w, st)] }

def step (W : ι → Writer) (waitTime : ℤ) (s : PollState ι) : PollAction ι → Option (PollState ι)
  | .poll ok now => some (s.poll waitTime ok now)
  | .write w => (s.nextStatement? w).map (s.write W w)

variable {W : ι → Writer} {s : PollState ι} {w : ι}

omit [DecidableEq ι] in
theorem mem_write {st : Statement} {row : ChangeRow ι} :
    row ∈ (s.write W w st).db.routeChange ↔
      row ∈ s.db.routeChange ∨ (st = .insertChange ∧ row = (W w).row w) := by
  cases st with
  | edit | setVersion => simp [write, Writer.exec]
  | insertChange => simp [write, Writer.exec]

theorem nextStatement?_notMem {st : Statement} (h : s.nextStatement? w = some st) :
    (w, st) ∉ s.history := by
  unfold nextStatement? at h
  split_ifs at h with h1 h2 h3 <;> cases h <;> assumption

/-- A writer's row comes after its other two statements. -/
theorem nextStatement?_insertChange (h : s.nextStatement? w = some .insertChange) :
    (w, .edit) ∈ s.history ∧ (w, .setVersion) ∈ s.history := by
  unfold nextStatement? at h
  split_ifs at h with h1 h2 h3 <;> cases h
  exact ⟨h1, h2⟩

end PollState

end Lrlb.Dns
