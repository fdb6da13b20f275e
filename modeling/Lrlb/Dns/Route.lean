import Lrlb.Lib.SetMap
import Lrlb.Lib.Word

/-! The dns server's database tables and its `Route`: the served table, the table being loaded
and the version they are compared by. -/
namespace Lrlb.Dns
open Lib

/-- The columns of `RouteData` that the server reads. -/
structure RouteRow where
  modid : UInt32
  cmdid : UInt32
  serverip : UInt32
  serverport : UInt32
deriving DecidableEq, Repr

/-- A row of `RouteChange`; its primary key names the writer that inserted it. -/
structure ChangeRow (ι : Type) where
  id : ι
  modid : UInt32
  cmdid : UInt32
  version : ℕ
deriving DecidableEq, Repr

/-- `RouteVersion` has the one row of the schema, with id 1. -/
structure Db (ι : Type) where
  routeData : List RouteRow
  routeVersion : ℕ
  routeChange : List (ChangeRow ι)
deriving DecidableEq, Repr

/-- `atoi` of an unsigned column keeps its low 32 bits. -/
def atoi (n : UInt32) : Int32 := n.toInt32

abbrev RouteMap := SetMap UInt64 UInt64

namespace RouteRow

def key (row : RouteRow) : UInt64 := packInts (atoi row.modid) (atoi row.cmdid)

/-- The address is unsigned and the port is sign-extended. -/
def value (row : RouteRow) : UInt64 :=
  ((atoi row.serverip).toUInt32.toUInt64 <<< 32) + signExtend (atoi row.serverport)

end RouteRow

def RouteMap.ofRows (rows : List RouteRow) : RouteMap :=
  rows.foldl (fun m row => m.insertAt row.key row.value) ∅

theorem mem_ofRows {rows : List RouteRow} {key value : UInt64} :
    value ∈ (RouteMap.ofRows rows).find key ↔ ∃ row ∈ rows, row.key = key ∧ row.value = value := by
  suffices h : ∀ m : RouteMap,
      value ∈ (rows.foldl (fun m row => m.insertAt row.key row.value) m).find key ↔
        value ∈ m.find key ∨ ∃ row ∈ rows, row.key = key ∧ row.value = value by
    refine (h ∅).trans (or_iff_right ?_)
    exact HashSet.notMem_empty value
  intro m
  induction rows generalizing m with
  | nil => simp
  | cons row rows ih =>
    rw [List.foldl_cons, ih, SetMap.mem_find_insertAt]
    simp only [List.exists_mem_cons_iff]
    grind

theorem RouteRow.toNat_value (row : RouteRow) : (row.value.toNat : ℤ) =
    (row.serverip.toNat * 2 ^ 32 + (atoi row.serverport).toInt) % 2 ^ 64 := by
  have hip := row.serverip.toNat_lt
  have hport := toNat_signExtend (atoi row.serverport)
  unfold RouteRow.value
  rw [atoi, UInt32.toUInt32_toInt32, UInt64.toNat_add, UInt64.toNat_shiftLeft,
    show (32 : UInt64).toNat % 64 = 32 from rfl, Nat.shiftLeft_eq, UInt32.toNat_toUInt64]
  push_cast
  rw [hport]
  omega

variable {ι : Type}

def ChangeRow.key (row : ChangeRow ι) : UInt64 := packInts (atoi row.modid) (atoi row.cmdid)

namespace Db

/-- `SELECT version from RouteVersion WHERE id = 1` -/
def selectVersion (db : Db ι) : List ℕ := [db.routeVersion]

/-- `SELECT modid,cmdid FROM RouteChange WHERE version <= v` -/
def selectChanges (db : Db ι) (v : ℤ) : List (UInt32 × UInt32) :=
  (db.routeChange.filter fun row => (row.version : ℤ) ≤ v).map fun row => (row.modid, row.cmdid)

/-- `DELETE FROM RouteChange WHERE version <= v` -/
def deleteChanges (db : Db ι) (v : ℤ) : Db ι :=
  { db with routeChange := db.routeChange.filter fun row => ¬ (row.version : ℤ) ≤ v }

def deleteAllChanges (db : Db ι) : Db ι := { db with routeChange := [] }

@[simp] theorem mem_deleteChanges {db : Db ι} {v : ℤ} {row : ChangeRow ι} :
    row ∈ (db.deleteChanges v).routeChange ↔ row ∈ db.routeChange ∧ ¬ (row.version : ℤ) ≤ v := by
  simp [deleteChanges]

end Db

structure Route where
  version : ℤ
  dataPointer : RouteMap
  tempPointer : RouteMap
deriving DecidableEq

/-- The result set of a query; `none` where `mysql_real_query` or `mysql_store_result` fails. -/
abbrev Answer (α : Type) := Option (List α)

def query {α : Type} (ok : Bool) (rows : List α) : Answer α := if ok then some rows else none

namespace Route

/-- The constructor leaves the version as it finds it in memory. -/
def new (version : ℤ) (rows : List RouteRow) : Route := ⟨version, RouteMap.ofRows rows, ∅⟩

def getHosts (r : Route) (modid cmdid : Int32) : HashSet UInt64 :=
  r.dataPointer.find (packInts modid cmdid)

/-- Returns 0 for the version it already has, 1 for a new one and -1 for a failure. -/
def loadVersion (r : Route) : Answer ℕ → Route × Int32
  | none => (r, -1)
  | some [] => (r, -1)
  | some (newVersion :: _) =>
    if (newVersion : ℤ) = r.version then (r, 0) else ({ r with version := newVersion }, 1)

def loadRouteData (r : Route) : Answer RouteRow → Route × Int32
  | none => ({ r with tempPointer := ∅ }, -1)
  | some rows => ({ r with tempPointer := RouteMap.ofRows rows }, 0)

def swap (r : Route) : Route := ⟨r.version, r.tempPointer, r.dataPointer⟩

def loadChanges (changeList : List UInt64) : Answer (UInt32 × UInt32) → List UInt64
  | none => changeList
  | some rows => changeList ++ rows.map fun row => packInts (atoi row.1) (atoi row.2)

theorem mem_loadChanges {db : Db ι} {v : ℤ} {row : ChangeRow ι} (h : row ∈ db.routeChange)
    (hv : (row.version : ℤ) ≤ v) : row.key ∈ loadChanges [] (query true (db.selectChanges v)) := by
  have hs : (row.modid, row.cmdid) ∈ db.selectChanges v :=
    List.mem_map.mpr ⟨row, List.mem_filter.mpr ⟨h, by simpa using hv⟩, rfl⟩
  exact List.mem_append_right _ (List.mem_map.mpr ⟨_, hs, rfl⟩)

end Route

end Lrlb.Dns
