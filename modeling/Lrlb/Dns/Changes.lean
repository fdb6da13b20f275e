import Lrlb.Dns.Poller

/-! When a change row reaches `publish`: what the poller's statements and the writers'
statements preserve, and the runs in which no change is lost. -/
namespace Lrlb.Dns
open Lib

variable {ι : Type} {W : ι → Writer} {s t : PollState ι} {ok : Bool}

namespace PollState

theorem Polled.history_eq (h : s.Polled ok t) : t.history = s.history := by
  cases h <;> rfl

/-- The poller never edits the routes, and it only deletes change rows. -/
theorem Polled.db_sub (h : s.Polled ok t) :
    t.db.routeData = s.db.routeData ∧ t.db.routeChange ⊆ s.db.routeChange := by
  cases h with
  | removeAll ok =>
    cases ok with
    | false => exact ⟨rfl, List.Subset.refl _⟩
    | true => exact ⟨rfl, List.nil_subset _⟩
  | removeChanges ok =>
    cases ok with
    | false => exact ⟨rfl, List.Subset.refl _⟩
    | true => exact ⟨rfl, fun row hrow => (Db.mem_deleteChanges.mp hrow).1⟩
  | _ => exact ⟨rfl, List.Subset.refl _⟩

theorem Polled.pc_ne (h : s.Polled ok t) : t.pc ≠ .removeAll := by
  cases h <;> exact PollPc.noConfusion

end PollState

/-- Every row is the row of a writer that has run all its statements. -/
structure WellFormed (W : ι → Writer) (s : PollState ι) : Prop where
  row_eq : ∀ row ∈ s.db.routeChange, row = (W row.id).row row.id
  inserted : ∀ row ∈ s.db.routeChange, (row.id, .insertChange) ∈ s.history
  ordered : ∀ w, (w, .insertChange) ∈ s.history → ∀ st, (w, st) ∈ s.history

namespace WellFormed

theorem key_eq (h : WellFormed W s) {row : ChangeRow ι} (hrow : row ∈ s.db.routeChange) :
    row.key = (W row.id).key := by
  rw [h.row_eq row hrow]
  rfl

theorem polled (h : WellFormed W s) (hp : s.Polled ok t) : WellFormed W t := by
  have hsub := hp.db_sub.2
  constructor
  · intro row hrow
    exact h.row_eq row (hsub hrow)
  · intro row hrow
    rw [hp.history_eq]
    exact h.inserted row (hsub hrow)
  · rw [hp.history_eq]
    exact h.ordered

variable [DecidableEq ι]

theorem write (h : WellFormed W s) {w : ι} {st : Statement} (hst : s.nextStatement? w = some st) :
    WellFormed W (s.write W w st) := by
  have hgrow : s.history ⊆ (s.write W w st).history := List.subset_append_left ..
  constructor
  · intro row hrow
    obtain hrow | ⟨-, rfl⟩ := PollState.mem_write.mp hrow
    · exact h.row_eq row hrow
    · rfl
  · intro row hrow
    obtain hrow | ⟨rfl, rfl⟩ := PollState.mem_write.mp hrow
    · exact hgrow (h.inserted row hrow)
    · exact List.mem_append_right _ (List.mem_singleton_self _)
  · intro v hv st'
    obtain hv | hv := List.mem_append.mp hv
    · exact hgrow (h.ordered v hv st')
    · cases List.mem_singleton.mp hv
      obtain ⟨hedit, hset⟩ := PollState.nextStatement?_insertChange hst
      cases st' with
      | edit => exact hgrow hedit
      | setVersion => exact hgrow hset
      | insertChange => exact List.mem_append_right _ (List.mem_singleton_self _)

end WellFormed

/-- The tables are the database's rows at the point of the history that goes with them. -/
structure Tables (W : ι → Writer) (rows : List RouteRow) (s : PollState ι) : Prop where
  db : s.db.routeData = replay W rows s.history
  data : s.route.dataPointer = RouteMap.ofRows (replay W rows s.dataHistory)
  temp : ∀ changed, s.pc = .swap changed →
    s.route.tempPointer = RouteMap.ofRows (replay W rows s.tempHistory)
  published : ∀ p ∈ s.published, p.served = RouteMap.ofRows (replay W rows p.history)

namespace Tables

variable {rows : List RouteRow}

theorem polled (h : Tables W rows s) (hp : s.Polled ok t) : Tables W rows t := by
  have hdb : t.db.routeData = replay W rows t.history := by
    rw [hp.db_sub.1, hp.history_eq]
    exact h.db
  cases hp with
  | loaded changed hpc =>
    refine ⟨hdb, h.data, ?_, h.published⟩
    intro _ _
    exact congrArg RouteMap.ofRows h.db
  | swapped ok now hpc => exact ⟨hdb, h.temp true hpc, nofun, h.published⟩
  | reloaded ok now hpc => exact ⟨hdb, h.temp false hpc, nofun, h.published⟩
  | publish ok hpc =>
    refine ⟨hdb, h.data, nofun, ?_⟩
    intro p hp
    obtain hp | hp := List.mem_append.mp hp
    · exact h.published p hp
    · cases List.mem_singleton.mp hp
      exact h.data
  | _ => exact ⟨hdb, h.data, nofun, h.published⟩

theorem write (h : Tables W rows s) (w : ι) (st : Statement) :
    Tables W rows (s.write W w st) := by
  refine ⟨?_, h.data, h.temp, h.published⟩
  have hreplay : replay W rows (s.history ++ [(w, st)]) =
      if st = .edit then (W w).edit (replay W rows s.history) else replay W rows s.history := by
    simp [replay]
  change _ = replay W rows (s.history ++ [(w, st)])
  rw [hreplay, ← h.db]
  cases st <;> rfl

end Tables

namespace PollState

/-- The key was published while the served table had been loaded after the statement `st` of
the writer `w`. -/
def Delivered (st : Statement) (s : PollState ι) (w : ι) (key : UInt64) : Prop :=
  ∃ p ∈ s.published, key ∈ p.changeMods ∧ (w, st) ∈ p.history

/-- A covered row that the iteration in progress publishes with a table loaded after the
statement `st` of its writer, as far as the iteration has come. -/
def Timely (st : Statement) (s : PollState ι) (row : ChangeRow ι) : Prop :=
  match s.pc with
  | .swap true => (row.id, st) ∈ s.tempHistory
  | .loadChanges => (row.id, st) ∈ s.dataHistory
  | .publish | .removeChanges => (row.id, st) ∈ s.dataHistory ∧ row.key ∈ s.changes
  | _ => True

/-- A failing query of the branch of a new version does no harm where no covered row depends
on it. -/
def Harmless (st : Statement) (s : PollState ι) (ok : Bool) : Prop :=
  match s.pc with
  | .loadRouteData true =>
    ok = false → ∀ row ∈ s.db.routeChange, s.Due row → (row.id, st) ∈ s.dataHistory
  | .loadChanges => ok = false → ∀ row ∈ s.db.routeChange, ¬ s.Due row
  | _ => True

instance [DecidableEq ι] (st : Statement) (s : PollState ι) (row : ChangeRow ι) :
    Decidable (s.Timely st row) := by
  unfold Timely
  split <;> infer_instance

instance [DecidableEq ι] (st : Statement) (s : PollState ι) (ok : Bool) :
    Decidable (s.Harmless st ok) := by
  unfold Harmless
  split <;> infer_instance

end PollState

/-- The rows of the writers in `T` stay in the database until they have been delivered. -/
structure Delivery (W : ι → Writer) (st : Statement) (T : Set ι) (s : PollState ι) : Prop where
  kept : ∀ w ∈ T, (w, .insertChange) ∈ s.history →
    (∃ row ∈ s.db.routeChange, row.id = w) ∨ s.Delivered st w (W w).key
  timely : ∀ row ∈ s.db.routeChange, s.Due row → s.Timely st row
  sent : s.pc = .removeChanges →
    ⟨s.changes, s.route.dataPointer, s.dataHistory⟩ ∈ s.published

namespace Delivery

variable {st : Statement} {T : Set ι}

theorem publish (h : Delivery W st T s) (hpc : s.pc = .publish) : Delivery W st T s.publish := by
  constructor
  · intro w hw hins
    obtain hrow | ⟨p, hp, hkey⟩ := h.kept w hw hins
    · exact Or.inl hrow
    · exact Or.inr ⟨p, List.mem_append_left _ hp, hkey⟩
  · intro row hrow hdue
    show (row.id, st) ∈ s.dataHistory ∧ row.key ∈ s.changes
    simpa only [PollState.Timely, hpc] using h.timely row hrow hdue
  · intro _
    exact List.mem_append_right _ (List.mem_singleton_self _)

theorem removeChanges (h : Delivery W st T s) (hwf : WellFormed W s) (ok : Bool)
    (hpc : s.pc = .removeChanges) : Delivery W st T (s.removeChanges ok) := by
  refine ⟨?_, fun _ _ _ => trivial, nofun⟩
  intro w hw hins
  obtain ⟨row, hrow, rfl⟩ | hdel := h.kept w hw hins
  · cases ok with
    | false => exact Or.inl ⟨row, hrow, rfl⟩
    | true =>
      by_cases hdue : s.Due row
      · -- the row is deleted, and the list just published had its key
        obtain ⟨hhist, hkey⟩ : (row.id, st) ∈ s.dataHistory ∧ row.key ∈ s.changes := by
          simpa only [PollState.Timely, hpc] using h.timely row hrow hdue
        rw [hwf.key_eq hrow] at hkey
        exact Or.inr ⟨_, h.sent hpc, hkey, hhist⟩
      · exact Or.inl ⟨row, Db.mem_deleteChanges.mpr ⟨hrow, hdue⟩, rfl⟩
  · exact Or.inr hdel

theorem polled (h : Delivery W st T s) (hwf : WellFormed W s) (hp : s.Polled ok t)
    (hstart : s.pc = .removeAll → s.db.routeChange = []) (hok : s.Harmless st ok) :
    Delivery W st T t := by
  unfold PollState.Harmless at hok
  cases hp with
  | removeAll ok hpc =>
    have hrows : (s.removeAll ok).db.routeChange = s.db.routeChange := by
      rw [hstart hpc]
      cases ok with
      | false => exact hstart hpc
      | true => rfl
    refine ⟨?_, fun _ _ _ => trivial, nofun⟩
    rw [hrows]
    exact h.kept
  | loaded changed hpc =>
    refine ⟨h.kept, ?_, nofun⟩
    intro row hrow hdue
    cases changed with
    | true => exact hwf.ordered row.id (hwf.inserted row hrow) st
    | false => trivial
  | loadFailed hpc =>
    rw [hpc] at hok
    exact ⟨h.kept, hok rfl, nofun⟩
  | swapped ok now hpc =>
    refine ⟨h.kept, ?_, nofun⟩
    intro row hrow hdue
    show (row.id, st) ∈ s.tempHistory
    simpa only [PollState.Timely, hpc] using h.timely row hrow hdue
  | loadChanges ok hpc =>
    rw [hpc] at hok
    refine ⟨h.kept, ?_, nofun⟩
    intro row hrow hdue
    have hhist : (row.id, st) ∈ s.dataHistory := by
      simpa only [PollState.Timely, hpc] using h.timely row hrow hdue
    cases ok with
    | false => exact absurd hdue (hok rfl row hrow)
    | true => exact ⟨hhist, Route.mem_loadChanges hrow hdue⟩
  | publish ok hpc => exact h.publish hpc
  | removeChanges ok hpc => exact h.removeChanges hwf ok hpc
  | wake _ _ _ | newVersion _ _ | timeout _ _ _ | noChange _ _ _ | reloadFailed _
  | reloaded _ _ _ => exact ⟨h.kept, fun _ _ _ => trivial, nofun⟩

theorem write (h : Delivery W st T s) {w : ι} {stw : Statement}
    (htime : stw = .insertChange → s.Due ((W w).row w) → s.Timely st ((W w).row w)) :
    Delivery W st T (s.write W w stw) := by
  refine ⟨?_, ?_, h.sent⟩
  · intro v hv hins
    obtain hins | hins := List.mem_append.mp hins
    · obtain ⟨row, hrow, rfl⟩ | hdel := h.kept v hv hins
      · exact Or.inl ⟨row, PollState.mem_write.mpr (Or.inl hrow), rfl⟩
      · exact Or.inr hdel
    · cases List.mem_singleton.mp hins
      exact Or.inl ⟨(W w).row w, PollState.mem_write.mpr (Or.inr ⟨rfl, rfl⟩), rfl⟩
  · intro row hrow hdue
    obtain hrow | ⟨hst, rfl⟩ := PollState.mem_write.mp hrow
    · exact h.timely row hrow hdue
    · exact htime hst hdue

end Delivery

namespace PollState

/-- The iteration in progress takes care of a row that it found at its start. -/
def Handles (s : PollState ι) (row : ChangeRow ι) : Prop :=
  match s.pc with
  | .removeAll | .loadVersion => True
  | .sleep | .loadRouteData false | .swap false => False
  | _ => s.Due row

/-- A new version is there for the rows found at the start of the iteration, and covers them. -/
def VersionCovers (s : PollState ι) : Prop :=
  ∀ row ∈ s.db.routeChange, (row.id, .insertChange) ∈ s.startHistory →
    (s.db.routeVersion : ℤ) ≠ s.route.version ∧ row.version ≤ s.db.routeVersion

instance [DecidableEq ι] (s : PollState ι) : Decidable s.VersionCovers := by
  unfold VersionCovers
  infer_instance

end PollState

/-- No row that was there when a finished iteration began is still there. -/
structure Progress (s : PollState ι) : Prop where
  start_sub : s.startHistory ⊆ s.history
  finished_sub : s.finishedHistory ⊆ s.history
  handled : ∀ row ∈ s.db.routeChange, (row.id, .insertChange) ∈ s.startHistory → s.Handles row
  gone : ∀ row ∈ s.db.routeChange, (row.id, .insertChange) ∉ s.finishedHistory

namespace Progress

/-- An iteration that leaves none of the rows of its start may end. -/
theorem finish (hsub : s.startHistory ⊆ s.history)
    (hnone : ∀ row ∈ s.db.routeChange, (row.id, .insertChange) ∉ s.startHistory) :
    Progress s.finish :=
  ⟨hsub, hsub, fun row hrow hs => absurd hs (hnone row hrow), hnone⟩

theorem polled (h : Progress s) (hp : s.Polled true t)
    (hver : s.pc = .loadVersion → s.VersionCovers) : Progress t := by
  have hh := h.handled
  unfold PollState.Handles at hh
  cases hp with
  | removeAll _ hpc =>
    have hnil : ∀ row ∈ s.db.deleteAllChanges.routeChange, False := nofun
    exact ⟨h.start_sub, h.finished_sub, fun row hrow => (hnil row hrow).elim,
      fun row hrow => (hnil row hrow).elim⟩
  | wake _ now hpc =>
    exact ⟨List.Subset.refl _, h.finished_sub, fun _ _ _ => trivial, h.gone⟩
  | newVersion hpc hne =>
    refine ⟨h.start_sub, h.finished_sub, ?_, h.gone⟩
    intro row hrow hs
    exact Int.ofNat_le.mpr (hver hpc row hrow hs).2
  | timeout _ hpc hsame =>
    refine ⟨h.start_sub, h.finished_sub, ?_, h.gone⟩
    intro row hrow hs
    exact (hver hpc row hrow hs).1 (hsame rfl)
  | noChange _ hpc hsame =>
    apply finish h.start_sub
    intro row hrow hs
    exact (hver hpc row hrow hs).1 (hsame rfl)
  | loaded changed hpc =>
    refine ⟨h.start_sub, h.finished_sub, ?_, h.gone⟩
    rw [hpc] at hh
    intro row hrow hs
    cases changed with
    | false => exact hh row hrow hs
    | true => exact hh row hrow hs
  | reloaded _ now hpc =>
    rw [hpc] at hh
    exact ⟨h.start_sub, h.start_sub, hh, hh⟩
  | removeChanges _ hpc =>
    rw [hpc] at hh
    apply finish (s := { s with db := s.db.deleteChanges s.route.version }) h.start_sub
    intro row hrow hs
    obtain ⟨hrow, hdue⟩ := Db.mem_deleteChanges.mp hrow
    exact hdue (hh row hrow hs)
  | swapped _ _ hpc | loadChanges _ hpc | publish _ hpc =>
    rw [hpc] at hh
    exact ⟨h.start_sub, h.finished_sub, hh, h.gone⟩

variable [DecidableEq ι]

theorem write (h : Progress s) {w : ι} {st : Statement} (hst : s.nextStatement? w = some st) :
    Progress (s.write W w st) := by
  -- a row that is inserted now was in no history before
  have hrows : ∀ row ∈ (s.write W w st).db.routeChange,
      row ∈ s.db.routeChange ∨ (row.id, .insertChange) ∉ s.history := by
    intro row hrow
    obtain hrow | ⟨rfl, rfl⟩ := PollState.mem_write.mp hrow
    · exact Or.inl hrow
    · exact Or.inr (PollState.nextStatement?_notMem hst)
  have hgrow : s.history ⊆ (s.write W w st).history := List.subset_append_left ..
  refine ⟨List.Subset.trans h.start_sub hgrow, List.Subset.trans h.finished_sub hgrow, ?_, ?_⟩
  · intro row hrow hs
    obtain hrow | hrow := hrows row hrow
    · exact h.handled row hrow hs
    · exact absurd (h.start_sub hs) hrow
  · intro row hrow hs
    obtain hrow | hrow := hrows row hrow
    · exact h.gone row hrow hs
    · exact hrow (h.finished_sub hs)

end Progress

section Runs

variable {waitTime : ℤ} {rows : List RouteRow}

theorem wellFormed_init (routeVersion : ℕ) (version now : ℤ) :
    WellFormed W (PollState.init rows routeVersion version now) := ⟨nofun, nofun, nofun⟩

theorem tables_init (routeVersion : ℕ) (version now : ℤ) :
    Tables W rows (PollState.init rows routeVersion version now) := ⟨rfl, rfl, nofun, nofun⟩

variable [DecidableEq ι]

theorem reachable_wellFormed {routeVersion : ℕ} {version now : ℤ}
    (h : Reachable (PollState.step W waitTime) (.init rows routeVersion version now) s) :
    WellFormed W s ∧ Tables W rows s := by
  refine Reachable.invariant (P := fun s => WellFormed W s ∧ Tables W rows s) ?_
    ⟨wellFormed_init .., tables_init ..⟩ h
  intro s a t hs hstep
  obtain ⟨hwf, htab⟩ := hs
  cases a with
  | poll ok now =>
    cases hstep
    have hp := s.poll_polled waitTime ok now
    exact ⟨hwf.polled hp, htab.polled hp⟩
  | write w =>
    obtain ⟨st, hst, rfl⟩ := Option.map_eq_some_iff.mp hstep
    exact ⟨hwf.write hst, htab.write w st⟩

/-- One statement of the poller while every writer is quiet. -/
def quietStep (waitTime : ℤ) (s : PollState ι) (q : Bool × ℤ) : Option (PollState ι) :=
  some (s.poll waitTime q.1 q.2)

omit [DecidableEq ι] in
/-- The invariants along a quiet run of the loop. -/
theorem quiet_run {T : Set ι} {s₀ : PollState ι} (hwf : WellFormed W s₀) (htab : Tables W rows s₀)
    (hdel : Delivery W .insertChange T s₀) (hpc : s₀.pc ≠ .removeAll) (polls : List (Bool × ℤ))
    (hG : ∀ x ∈ attempted (quietStep waitTime) s₀ polls, x.1.Harmless .insertChange x.2.1) :
    ∀ s ∈ visited (quietStep waitTime) s₀ polls, WellFormed W s ∧ Tables W rows s ∧
      Delivery W .insertChange T s ∧ s.pc ≠ .removeAll ∧ s.history = s₀.history := by
  refine forall_visited (G := fun s q => s.Harmless .insertChange q.1) ?_ s₀ polls
    ⟨hwf, htab, hdel, hpc, rfl⟩ hG
  intro s q t hs hok hstep
  obtain ⟨hwf, htab, hdel, hpc, hhist⟩ := hs
  cases hstep
  have hp := s.poll_polled waitTime q.1 q.2
  exact ⟨hwf.polled hp, htab.polled hp, hdel.polled hwf hp (fun h => absurd h hpc) hok, hp.pc_ne,
    hp.history_eq.trans hhist⟩

/-- While the writers are quiet a change row is deleted only after its module was published
from a table loaded after the row was inserted, as long as no query fails that a covered row
depends on. -/
theorem change_deleted_after_publish (W : ι → Writer) (rows : List RouteRow) (routeVersion : ℕ)
    (version now waitTime : ℤ) (s₀ : PollState ι)
    (hs₀ : Reachable (PollState.step W waitTime) (.init rows routeVersion version now) s₀)
    (hpc : s₀.pc = .sleep) (polls : List (Bool × ℤ))
    (hG : ∀ x ∈ attempted (quietStep waitTime) s₀ polls, x.1.Harmless .insertChange x.2.1) :
    ∀ s ∈ visited (quietStep waitTime) s₀ polls, ∀ row ∈ s₀.db.routeChange,
      row ∈ s.db.routeChange ∨ ∃ p ∈ s.published, row.key ∈ p.changeMods ∧
        (row.id, .insertChange) ∈ p.history ∧
        p.served = RouteMap.ofRows (replay W rows p.history) := by
  obtain ⟨hwf₀, htab₀⟩ := reachable_wellFormed hs₀
  have hdel₀ : Delivery W .insertChange (fun w => ∃ row ∈ s₀.db.routeChange, row.id = w) s₀ := by
    refine ⟨fun w hw _ => Or.inl hw, fun row _ _ => ?_, by simp [hpc]⟩
    unfold PollState.Timely
    rw [hpc]
    trivial
  intro s hs row hrow
  obtain ⟨hwf, htab, hdel, -, hsame⟩ := quiet_run hwf₀ htab₀ hdel₀ (by simp [hpc]) polls hG s hs
  have hins : (row.id, .insertChange) ∈ s.history := hsame ▸ hwf₀.inserted row hrow
  obtain ⟨row', hrow', hid⟩ | ⟨p, hp, hkey, hhist⟩ := hdel.kept row.id ⟨row, hrow, rfl⟩ hins
  · have heq : row' = row := by
      rw [hwf.row_eq row' hrow', hwf₀.row_eq row hrow, hid]
    exact Or.inl (heq ▸ hrow')
  · rw [← hwf₀.key_eq hrow] at hkey
    exact Or.inr ⟨p, hp, hkey, hhist, htab.published p hp⟩

/-- The insert script of the tests, with the timestamp 5. -/
def insertScript : Writer where
  edit rows := rows ++ [⟨1, 1, 3232235953, 9999⟩]
  time := 5
  modid := 1
  cmdid := 1

/-- The start-up of the poller, then the whole script while the poller sleeps. -/
def scriptCommitted : PollState Unit :=
  (run? (PollState.step (fun _ => insertScript) 10) (.init [] 0 (-1) 0)
    [.poll true 0, .write (), .write (), .write ()]).getD (.init [] 0 (-1) 0)

theorem scriptCommitted_reachable :
    Reachable (PollState.step (fun _ => insertScript) 10) (.init [] 0 (-1) 0) scriptCommitted :=
  ⟨[.poll true 0, .write (), .write (), .write ()], rfl⟩

/-- A failed `load_version`, then an iteration that publishes the row and deletes it. -/
def retriedPolls : List (Bool × ℤ) :=
  [(true, 5), (false, 0), (true, 9), (true, 0), (true, 0), (true, 9), (true, 0), (true, 0), (true, 0)]

theorem change_deleted_after_publish_script :
    (∃ s ∈ visited (quietStep 10) scriptCommitted retriedPolls, s.db.routeChange = []) ∧
    ∀ s ∈ visited (quietStep 10) scriptCommitted retriedPolls,
      ∀ row ∈ scriptCommitted.db.routeChange,
        row ∈ s.db.routeChange ∨ ∃ p ∈ s.published, row.key ∈ p.changeMods ∧
          (row.id, .insertChange) ∈ p.history ∧
          p.served = RouteMap.ofRows (replay (fun _ => insertScript) [] p.history) :=
  ⟨by decide +kernel, change_deleted_after_publish (fun _ => insertScript) [] 0 (-1) 0 10
    scriptCommitted scriptCommitted_reachable rfl retriedPolls (by decide +kernel)⟩

/-- The version is remembered although `load_route_data` fails: the row is published with the
table from before the insertion and then deleted. -/
theorem failed_load_publishes_old_table :
    ∃ s ∈ visited (quietStep 10) scriptCommitted
        [(true, 5), (true, 0), (false, 0), (true, 0), (true, 0), (true, 0)],
      ∃ row ∈ scriptCommitted.db.routeChange, row ∉ s.db.routeChange ∧
        ∀ p ∈ s.published, (row.id, .insertChange) ∉ p.history ∧ row.key ∉ p.served := by
  decide +kernel

/-- No query of the statement fails. -/
def PollAction.Succeeds : PollAction ι → Prop
  | .poll ok _ => ok = true
  | .write _ => True

/-- The interleavings that lose nothing: the start-up finds no change row; a new version is
there for the rows an iteration starts with; and a row whose timestamp the loaded version
already covers is inserted while the iteration can still publish it with its edit. -/
def InTime (W : ι → Writer) (s : PollState ι) : PollAction ι → Prop
  | .poll _ _ => (s.pc = .removeAll → s.db.routeChange = []) ∧
    (s.pc = .loadVersion → s.VersionCovers)
  | .write w => s.nextStatement? w = some .insertChange → s.Due ((W w).row w) →
    s.Timely .edit ((W w).row w)

instance (a : PollAction ι) : Decidable a.Succeeds := by
  cases a <;> unfold PollAction.Succeeds <;> infer_instance

instance (s : PollState ι) (a : PollAction ι) : Decidable (InTime W s a) := by
  cases a <;> unfold InTime <;> infer_instance

/-- The invariants along a run without failures whose statements come in time. -/
theorem timely_run (routeVersion : ℕ) (version now : ℤ) (as : List (PollAction ι))
    (hok : ∀ a ∈ as, a.Succeeds)
    (hG : ∀ x ∈ attempted (PollState.step W waitTime) (.init rows routeVersion version now) as,
      InTime W x.1 x.2) :
    ∀ s ∈ visited (PollState.step W waitTime) (.init rows routeVersion version now) as,
      WellFormed W s ∧ Tables W rows s ∧ Delivery W .edit Set.univ s ∧ Progress s := by
  refine forall_visited (G := fun s a => a.Succeeds ∧ InTime W s a) ?_ _ as ?_
    fun x hx => ⟨hok _ (mem_of_mem_attempted hx), hG x hx⟩
  · intro s a t hs hG hstep
    obtain ⟨hwf, htab, hdel, hprog⟩ := hs
    obtain ⟨hsucc, htime⟩ := hG
    cases a with
    | poll ok now =>
      cases hstep
      obtain rfl : ok = true := hsucc
      have hp := s.poll_polled waitTime true now
      have hharm : s.Harmless .edit true := by
        unfold PollState.Harmless
        split <;> simp
      exact ⟨hwf.polled hp, htab.polled hp, hdel.polled hwf hp htime.1 hharm,
        hprog.polled hp htime.2⟩
    | write w =>
      obtain ⟨st, hst, rfl⟩ := Option.map_eq_some_iff.mp hstep
      refine ⟨hwf.write hst, htab.write w st, hdel.write ?_, hprog.write hst⟩
      rintro rfl
      exact htime hst
  · exact ⟨wellFormed_init .., tables_init .., ⟨nofun, nofun, nofun⟩, ⟨nofun, nofun, nofun, nofun⟩⟩

/-- With no query failing, a writer's module has been published from a table that contains its
edit once an iteration that began after its last statement is over, in every run whose
statements come in time. -/
theorem change_published_after_iteration (W : ι → Writer) (rows : List RouteRow)
    (routeVersion : ℕ) (version now waitTime : ℤ) (as : List (PollAction ι))
    (hok : ∀ a ∈ as, a.Succeeds)
    (hG : ∀ x ∈ attempted (PollState.step W waitTime) (.init rows routeVersion version now) as,
      InTime W x.1 x.2) :
    ∀ s ∈ visited (PollState.step W waitTime) (.init rows routeVersion version now) as,
      ∀ w, (w, .insertChange) ∈ s.finishedHistory →
        ∃ p ∈ s.published, (W w).key ∈ p.changeMods ∧ (w, .edit) ∈ p.history ∧
          p.served = RouteMap.ofRows (replay W rows p.history) := by
  intro s hs w hw
  obtain ⟨-, htab, hdel, hprog⟩ := timely_run routeVersion version now as hok hG s hs
  obtain ⟨row, hrow, rfl⟩ | ⟨p, hp, hkey, hhist⟩ :=
    hdel.kept w (Set.mem_univ w) (hprog.finished_sub hw)
  · exact absurd hw (hprog.gone row hrow)
  · exact ⟨p, hp, hkey, hhist, htab.published p hp⟩

/-- Two writers with one timestamp. -/
def twoScripts (w : Bool) : Writer := { insertScript with cmdid := if w then 1 else 2 }

/-- The second writer edits before the iteration selects the routes and inserts its row before
the iteration selects the changes. -/
def overlappingRun : List (PollAction Bool) :=
  [.poll true 0, .write true, .write true, .write true, .poll true 5, .poll true 0, .write false,
    .poll true 0, .write false, .poll true 9, .write false, .poll true 0, .poll true 0,
    .poll true 0, .poll true 12, .poll true 0]

theorem change_published_after_iteration_overlapping :
    (∃ s ∈ visited (PollState.step twoScripts 10) (.init [] 0 (-1) 0) overlappingRun,
      ∀ w, (w, .insertChange) ∈ s.finishedHistory) ∧
    ∀ s ∈ visited (PollState.step twoScripts 10) (.init [] 0 (-1) 0) overlappingRun,
      ∀ w, (w, .insertChange) ∈ s.finishedHistory →
        ∃ p ∈ s.published, (twoScripts w).key ∈ p.changeMods ∧ (w, .edit) ∈ p.history ∧
          p.served = RouteMap.ofRows (replay twoScripts [] p.history) :=
  ⟨by decide +kernel, change_published_after_iteration twoScripts [] 0 (-1) 0 10 overlappingRun
    (by decide +kernel) (by decide +kernel)⟩

/-- A whole iteration between a writer's last two statements: it takes the version, finds no
row, and the next iterations see no new version. -/
theorem row_after_its_version_is_missed :
    ∃ s ∈ visited (PollState.step (fun _ : Unit => insertScript) 10) (.init [] 0 (-1) 0)
        [.poll true 0, .write (), .write (), .poll true 5, .poll true 0, .poll true 0, .poll true 9,
          .poll true 0, .poll true 0, .poll true 0, .write (), .poll true 12, .poll true 0],
      ((), .insertChange) ∈ s.finishedHistory ∧
        ∀ p ∈ s.published, insertScript.key ∉ p.changeMods := by
  decide +kernel

end Runs

end Lrlb.Dns
