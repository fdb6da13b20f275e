import Lrlb.Lib.Run
import Lrlb.Dns.Route

/-! The two maps of `Route` and the pointers to them, with a load taken apart into its steps.
Requests read the map behind `_data_pointer` at any of these steps. -/
namespace Lrlb.Dns
open Lib

/-- The two map objects that the constructor allocates. -/
inductive TableName where
  | a | b
deriving DecidableEq, Repr

/-- Where `load_route_data` stands. -/
inductive LoadPhase where
  | idle
  /-- before the query, and before `mysql_store_result` -/
  | cleared
  | queried
  /-- in the loop, with the rows still to be fetched -/
  | fetching (rest : List RouteRow)
  /-- `load_route_data` has returned 0 -/
  | loaded
deriving DecidableEq

/-- `served` and `loading` are no data of the program: they are the result sets of the table that
was swapped in last and of the one that is being loaded. -/
structure RouteTables where
  maps : TableName → RouteMap
  dataPointer : TableName
  tempPointer : TableName
  phase : LoadPhase
  served : List RouteRow
  loading : List RouteRow

inductive LoadAction where
  | clear
  | query (ok : Bool)
  /-- `none` where `mysql_store_result` fails -/
  | storeResult (result : Answer RouteRow)
  | fetchRow
  | swap

namespace RouteTables

def insertRow (s : RouteTables) (name : TableName) (row : RouteRow) : RouteTables :=
  { s with maps := Function.update s.maps name ((s.maps name).insertAt row.key row.value) }

/-- The constructor: `build_maps` fills the map behind `_data_pointer`. -/
def buildMaps (rows : List RouteRow) : RouteTables :=
  rows.foldl (fun s row => s.insertRow s.dataPointer row) ⟨fun _ => ∅, .a, .b, .idle, rows, []⟩

def getHosts (s : RouteTables) (modid cmdid : Int32) : HashSet UInt64 :=
  (s.maps s.dataPointer).find (packInts modid cmdid)

def step? (s : RouteTables) : LoadAction → Option RouteTables
  | .clear =>
    if s.phase = .idle then
      some { s with maps := Function.update s.maps s.tempPointer ∅, phase := .cleared }
    else none
  | .query ok =>
    if s.phase = .cleared then some { s with phase := if ok then .queried else .idle } else none
  | .storeResult result =>
    if s.phase = .queried then
      match result with
      | none => some { s with phase := .idle }
      | some rows => some { s with phase := .fetching rows, loading := rows }
    else none
  | .fetchRow =>
    match s.phase with
    | .fetching [] => some { s with phase := .loaded }
    | .fetching (row :: rest) => some { s.insertRow s.tempPointer row with phase := .fetching rest }
    | _ => none
  | .swap =>
    if s.phase = .loaded then
      some { s with
        dataPointer := s.tempPointer, tempPointer := s.dataPointer
        phase := .idle, served := s.loading }
    else none

/-- What the map behind `_temp_pointer` has been filled with at a point of a load. -/
def TempHolds (s : RouteTables) : LoadPhase → Prop
  | .idle => True
  | .cleared | .queried => s.maps s.tempPointer = ∅
  | .fetching rest =>
    ∃ done, s.loading = done ++ rest ∧ s.maps s.tempPointer = RouteMap.ofRows done
  | .loaded => s.maps s.tempPointer = RouteMap.ofRows s.loading

structure Inv (s : RouteTables) : Prop where
  apart : s.dataPointer ≠ s.tempPointer
  data : s.maps s.dataPointer = RouteMap.ofRows s.served
  temp : s.TempHolds s.phase

variable {s t : RouteTables}

theorem foldl_insertRow (rows : List RouteRow) (s : RouteTables) :
    rows.foldl (fun s row => s.insertRow s.dataPointer row) s = { s with
      maps := Function.update s.maps s.dataPointer (rows.foldl
        (fun m row => m.insertAt row.key row.value) (s.maps s.dataPointer)) } := by
  induction rows generalizing s with
  | nil => rw [List.foldl_nil, List.foldl_nil, Function.update_eq_self]
  | cons row rows ih =>
    rw [List.foldl_cons, ih]
    simp [insertRow]

/-- `build_maps` builds the map that a load of the same rows builds. -/
theorem buildMaps_eq (rows : List RouteRow) : buildMaps rows =
    ⟨Function.update (fun _ => ∅) .a (RouteMap.ofRows rows), .a, .b, .idle, rows, []⟩ := by
  exact foldl_insertRow rows ⟨fun _ => ∅, .a, .b, .idle, rows, []⟩

theorem Inv.buildMaps (rows : List RouteRow) : (buildMaps rows).Inv := by
  rw [buildMaps_eq]
  exact ⟨nofun, rfl, trivial⟩

/-- No step of a load writes to the map that is being served. -/
theorem Inv.step {a : LoadAction} (h : s.Inv) (hs : s.step? a = some t) : t.Inv := by
  have htemp := h.temp
  cases a with
  | clear =>
    simp only [step?, Option.ite_none_right_eq_some] at hs
    obtain ⟨-, hs⟩ := hs
    cases hs
    refine ⟨h.apart, (Function.update_of_ne h.apart ..).trans h.data, ?_⟩
    exact Function.update_self ..
  | query ok =>
    simp only [step?, Option.ite_none_right_eq_some] at hs
    obtain ⟨hphase, hs⟩ := hs
    rw [hphase] at htemp
    cases hs
    refine ⟨h.apart, h.data, ?_⟩
    cases ok with
    | true => exact htemp
    | false => trivial
  | storeResult result =>
    simp only [step?, Option.ite_none_right_eq_some] at hs
    obtain ⟨hphase, hs⟩ := hs
    rw [hphase] at htemp
    cases result with
    | none =>
      cases hs
      exact ⟨h.apart, h.data, trivial⟩
    | some rows =>
      cases hs
      exact ⟨h.apart, h.data, [], rfl, htemp⟩
  | fetchRow =>
    simp only [step?] at hs
    cases hphase : s.phase with
    | fetching rest =>
      rw [hphase] at hs htemp
      obtain ⟨done, hload, hdone⟩ := htemp
      match rest with
      | [] =>
        cases hs
        refine ⟨h.apart, h.data, ?_⟩
        rw [List.append_nil] at hload
        exact hload ▸ hdone
      | row :: rest =>
        cases hs
        refine ⟨h.apart, (Function.update_of_ne h.apart ..).trans h.data, done ++ [row], ?_, ?_⟩
        · change s.loading = _
          rw [hload, List.append_cons]
        · refine (Function.update_self ..).trans ?_
          rw [hdone, RouteMap.ofRows, RouteMap.ofRows, List.foldl_append]
          rfl
    | _ =>
      rw [hphase] at hs
      cases hs
  | swap =>
    simp only [step?, Option.ite_none_right_eq_some] at hs
    obtain ⟨hphase, hs⟩ := hs
    rw [hphase] at htemp
    cases hs
    exact ⟨h.apart.symm, htemp, trivial⟩

end RouteTables

/-- The rows that an `int` can hold the ids and the port of. -/
structure RouteRow.InRange (row : RouteRow) : Prop where
  modid : row.modid.toNat < 2 ^ 31
  cmdid : row.cmdid.toNat < 2 ^ 31
  serverport : row.serverport.toNat < 2 ^ 31

theorem atoi_eq_iff {n : UInt32} (hn : n.toNat < 2 ^ 31) (x : Int32) :
    atoi n = x ↔ (n.toNat : ℤ) = x.toInt := by
  rw [← Int32.toInt_inj, atoi, toInt_ofUInt32, if_pos hn]

theorem RouteRow.InRange.toNat_value {row : RouteRow} (h : row.InRange) :
    row.value.toNat = row.serverip.toNat * 2 ^ 32 + row.serverport.toNat := by
  have hval := RouteRow.toNat_value row
  have hip := row.serverip.toNat_lt
  have hport := h.serverport
  rw [atoi, toInt_ofUInt32, if_pos hport] at hval
  omega

theorem RouteRow.InRange.key_eq_iff {row : RouteRow} (h : row.InRange) (modid cmdid : Int32) :
    row.key = packInts modid cmdid ↔
      (row.modid.toNat : ℤ) = modid.toInt ∧ (row.cmdid.toNat : ℤ) = cmdid.toInt := by
  rw [← atoi_eq_iff h.modid, ← atoi_eq_iff h.cmdid]
  constructor
  · exact packInts_injective
  · rintro ⟨rfl, rfl⟩
    rfl

namespace RouteTables

variable {s t : RouteTables}

/-- At every point of every load, `get_hosts` gives the packed addresses of the module's rows in
the table that was completely loaded and swapped in last. -/
theorem getHosts_mem_iff (rows : List RouteRow) (s : RouteTables)
    (hs : Reachable step? (buildMaps rows) s) (hrange : ∀ row ∈ s.served, row.InRange)
    (modid cmdid : Int32) (value : UInt64) :
    value ∈ s.getHosts modid cmdid ↔ ∃ row ∈ s.served,
      (row.modid.toNat : ℤ) = modid.toInt ∧ (row.cmdid.toNat : ℤ) = cmdid.toInt ∧
        value.toNat = row.serverip.toNat * 2 ^ 32 + row.serverport.toNat := by
  have h : s.Inv := hs.invariant (fun _ _ _ h hstep => h.step hstep) (.buildMaps rows)
  rw [getHosts, h.data, mem_ofRows]
  refine exists_congr fun row => and_congr_right fun hrow => ?_
  have hr := hrange row hrow
  rw [hr.key_eq_iff, and_assoc, ← hr.toNat_value, ← UInt64.toNat_inj, eq_comm (a := value.toNat)]

/-- A load fails after the query, the next one is under way. -/
def interruptedLoads : List LoadAction :=
  [.clear, .query true, .storeResult none, .clear, .query true,
    .storeResult (some [⟨1, 1, 4294967295, 80⟩, ⟨1, 2, 7, 81⟩]), .fetchRow, .fetchRow, .fetchRow, .swap,
    .clear, .query true, .storeResult (some [⟨1, 1, 9, 90⟩, ⟨1, 1, 8, 80⟩]), .fetchRow]

theorem getHosts_mem_iff_interruptedLoads :
    ∃ s, run? step? (buildMaps [⟨1, 1, 3, 80⟩]) interruptedLoads = some s ∧
      s.phase = .fetching [⟨1, 1, 8, 80⟩] ∧ s.served = [⟨1, 1, 4294967295, 80⟩, ⟨1, 2, 7, 81⟩] ∧
      (18446744069414584400 ∈ s.getHosts 1 1 ↔ ∃ row ∈ s.served,
        (row.modid.toNat : ℤ) = (1 : Int32).toInt ∧ (row.cmdid.toNat : ℤ) = (1 : Int32).toInt ∧
          18446744069414584400 = row.serverip.toNat * 2 ^ 32 + row.serverport.toNat) := by
  have hrun : (run? step? (buildMaps [⟨1, 1, 3, 80⟩]) interruptedLoads).map
      (fun s => (s.phase, s.served)) =
      some (.fetching [⟨1, 1, 8, 80⟩], [⟨1, 1, 4294967295, 80⟩, ⟨1, 2, 7, 81⟩]) := by decide +kernel
  obtain ⟨s, hs, he⟩ := Option.map_eq_some_iff.mp hrun
  obtain ⟨hphase, hserved⟩ := Prod.mk.inj he
  refine ⟨s, hs, hphase, hserved, ?_⟩
  refine getHosts_mem_iff [⟨1, 1, 3, 80⟩] s ⟨_, hs⟩ ?_ 1 1 18446744069414584400
  rw [hserved]
  simp only [List.forall_mem_cons, List.not_mem_nil, false_imp_iff, implies_true, and_true]
  exact ⟨⟨by decide, by decide, by decide⟩, by decide, by decide, by decide⟩

/-- The two tables as the poller sees them, which takes a load for one step. -/
def route (s : RouteTables) (version : ℤ) : Route :=
  ⟨version, s.maps s.dataPointer, s.maps s.tempPointer⟩

theorem route_buildMaps (version : ℤ) (rows : List RouteRow) :
    (buildMaps rows).route version = Route.new version rows := by
  rw [buildMaps_eq]
  rfl

theorem route_swap (h : s.step? .swap = some t) (version : ℤ) :
    t.route version = (s.route version).swap := by
  simp only [step?, Option.ite_none_right_eq_some] at h
  obtain ⟨-, h⟩ := h
  cases h
  rfl

theorem run?_clear (hidle : s.phase = .idle) (as : List LoadAction) :
    run? step? s (.clear :: as) = run? step?
      { s with maps := Function.update s.maps s.tempPointer ∅, phase := .cleared } as := by
  rw [run?, step?, if_pos hidle]
  rfl

/-- A load that fails at either query step leaves the poller with a cleared table. -/
theorem route_failed (h : s.Inv) (hidle : s.phase = .idle) (version : ℤ) :
    ∀ as ∈ [[.clear, .query false], [.clear, .query true, .storeResult none]],
      ∃ t, run? step? s as = some t ∧ t.phase = .idle ∧
        t.route version = ((s.route version).loadRouteData none).1 := by
  have hroute : ∀ phase, ({ s with
      maps := Function.update s.maps s.tempPointer ∅, phase := phase } : RouteTables).route version =
        ((s.route version).loadRouteData none).1 := by
    intro phase
    simp [route, Route.loadRouteData, Function.update_of_ne h.apart]
  intro as has
  rcases List.mem_pair.mp has with rfl | rfl
  · rw [run?_clear hidle]
    exact ⟨_, rfl, rfl, hroute .idle⟩
  · rw [run?_clear hidle]
    exact ⟨_, rfl, rfl, hroute .idle⟩

theorem run?_fetchRows (rows done : List RouteRow) (hphase : s.phase = .fetching rows)
    (hdone : s.maps s.tempPointer = RouteMap.ofRows done) :
    run? step? s (List.replicate (rows.length + 1) .fetchRow) = some { s with
      maps := Function.update s.maps s.tempPointer (RouteMap.ofRows (done ++ rows))
      phase := .loaded } := by
  induction rows generalizing s done with
  | nil =>
    have hself : Function.update s.maps s.tempPointer (RouteMap.ofRows (done ++ [])) = s.maps := by
      rw [List.append_nil, ← hdone, Function.update_eq_self]
    rw [hself]
    simp [run?, step?, hphase]
  | cons row rows ih =>
    rw [List.length_cons, List.replicate_succ, run?]
    have hstep : s.step? .fetchRow =
        some { s.insertRow s.tempPointer row with phase := .fetching rows } := by
      simp [step?, hphase]
    rw [hstep, Option.bind_some, ih (done ++ [row]) rfl ?_]
    · simp [insertRow]
    · refine (Function.update_self ..).trans ?_
      rw [hdone, RouteMap.ofRows, RouteMap.ofRows, List.foldl_append]
      rfl

/-- A load that succeeds is the poller's single step. -/
theorem route_loaded (h : s.Inv) (hidle : s.phase = .idle) (version : ℤ) (rows : List RouteRow) :
    ∃ t, run? step? s (.clear :: .query true :: .storeResult (some rows) ::
        List.replicate (rows.length + 1) .fetchRow) = some t ∧ t.phase = .loaded ∧
      t.route version = ((s.route version).loadRouteData (some rows)).1 := by
  rw [run?_clear hidle]
  refine ⟨_, run?_fetchRows (s := { s with
    maps := Function.update s.maps s.tempPointer ∅, phase := .fetching rows, loading := rows })
    rows [] rfl (Function.update_self ..), rfl, ?_⟩
  simp [route, Route.loadRouteData, Function.update_of_ne h.apart]

end RouteTables

end Lrlb.Dns
