import Lrlb.Dns.BookList

/-! What becomes of one entry of the push list: the publication that puts it there, and the push
task that takes it out. -/
namespace Lrlb.Dns
open Lib

/-- The two lists beside the `listen_fds` of the worker loops. No descriptor is in two of these
sets, so they are one map from a descriptor to its loop. -/
structure PushSystem where
  subs : SubscribeList
  loopOf : Fd → Option ℕ

inductive PushAction where
  | listen (w : ℕ) (fd : Fd)
  | unlisten (fd : Fd)
  | subscribe (mod : UInt64) (fd : Fd)
  | unsubscribe (mod : UInt64) (fd : Fd)
  | publish (changeMods : List UInt64)
  | pushChangeTask (w : ℕ)

inductive PushEvent where
  | added
  | taken (w : ℕ)
deriving DecidableEq

namespace PushSystem

def listens (s : PushSystem) (w : ℕ) (fd : Fd) : Bool := s.loopOf fd = some w

/-- What the push task of a loop takes. -/
def needPublish (s : PushSystem) (w : ℕ) : List (Fd × UInt64) :=
  (s.subs.makePublishMap (s.listens w)).1.pairs

def step? (s : PushSystem) : PushAction → Option PushSystem
  | .listen w fd =>
    if s.loopOf fd = none then some { s with loopOf := Function.update s.loopOf fd (some w) } else none
  | .unlisten fd => some { s with loopOf := Function.update s.loopOf fd none }
  | .subscribe mod fd => some { s with subs := s.subs.subscribe mod fd }
  | .unsubscribe mod fd => some { s with subs := s.subs.unsubscribe mod fd }
  | .publish changeMods => some { s with subs := s.subs.publish changeMods }
  | .pushChangeTask w => some { s with subs := (s.subs.makePublishMap (s.listens w)).2 }

/-- The module is to be pushed to the descriptor. -/
def Holds (s : PushSystem) (fd : Fd) (mod : UInt64) : Prop := mod ∈ s.subs.pushList.find fd

instance (s : PushSystem) (fd : Fd) (mod : UInt64) : Decidable (s.Holds fd mod) :=
  inferInstanceAs (Decidable (mod ∈ s.subs.pushList.find fd))

/-- What an action does to one entry: a task takes it as often as the task is going to push it. -/
def events (fd : Fd) (mod : UInt64) : PushSystem × PushAction → List PushEvent
  | (s, .publish changeMods) =>
    if ¬ s.Holds fd mod ∧ mod ∈ (s.subs.publish changeMods).pushList.find fd then [.added] else []
  | (s, .pushChangeTask w) => List.replicate ((s.needPublish w).count (fd, mod)) (.taken w)
  | _ => []

/-- What happens to one entry in the course of a run. -/
def history (s : PushSystem) (as : List PushAction) (fd : Fd) (mod : UInt64) : List PushEvent :=
  (attempted step? s as).flatMap (events fd mod)

end PushSystem

/-- An entry is added when it is not there and taken when it is. -/
def PushEvent.advance? : Bool → PushEvent → Option Bool
  | false, .added => some true
  | true, .taken _ => some false
  | _, _ => none

namespace PushSystem

variable {s t : PushSystem} {fd : Fd} {mod : UInt64}

/-- A task takes exactly the entries of its own descriptors, each of them once. -/
theorem count_needPublish (s : PushSystem) (w : ℕ) (fd : Fd) (mod : UInt64) :
    (s.needPublish w).count (fd, mod) = if s.loopOf fd = some w ∧ s.Holds fd mod then 1 else 0 := by
  have hmem : (fd, mod) ∈ s.needPublish w ↔ s.loopOf fd = some w ∧ s.Holds fd mod := by
    rw [needPublish, SubscribeList.mem_makePublishMap, listens, decide_eq_true_iff]
    rfl
  split_ifs with h
  · exact List.count_eq_one_of_mem (SetMap.nodup_pairs _) (hmem.mpr h)
  · exact List.count_eq_zero_of_not_mem (mt hmem.mp h)

theorem holds_pushChangeTask (s : PushSystem) (w : ℕ) (fd : Fd) (mod : UInt64) :
    mod ∈ (s.subs.makePublishMap (s.listens w)).2.pushList.find fd ↔
      s.Holds fd mod ∧ s.loopOf fd ≠ some w := by
  change mod ∈ (s.subs.pushList.extract (s.listens w)).2.find fd ↔ _
  rw [(SetMap.find_extract s.subs.pushList (s.listens w) fd).2]
  by_cases hl : s.loopOf fd = some w
  · simp [listens, hl]
  · simp [listens, hl, Holds]

/-- Everything an action can do to an entry. -/
theorem step?_cases {a : PushAction} (h : s.step? a = some t) (fd : Fd) (mod : UInt64) :
    (events fd mod (s, a) = [] ∧ (t.Holds fd mod ↔ s.Holds fd mod) ∧
      ∀ w, a = .pushChangeTask w → s.loopOf fd = some w → ¬ s.Holds fd mod) ∨
    (∃ changeMods, a = .publish changeMods ∧ mod ∈ changeMods ∧ fd ∈ s.subs.bookList.find mod ∧
      ¬ s.Holds fd mod ∧ t.Holds fd mod ∧ events fd mod (s, a) = [.added]) ∨
    ∃ w, a = .pushChangeTask w ∧ s.loopOf fd = some w ∧ s.Holds fd mod ∧ ¬ t.Holds fd mod ∧
      events fd mod (s, a) = [.taken w] := by
  cases a with
  | listen w f =>
    simp only [step?, Option.ite_none_right_eq_some] at h
    obtain ⟨-, h⟩ := h
    cases h
    exact Or.inl ⟨rfl, Iff.rfl, nofun⟩
  | unlisten f =>
    cases h
    exact Or.inl ⟨rfl, Iff.rfl, nofun⟩
  | subscribe m f =>
    cases h
    exact Or.inl ⟨rfl, Iff.rfl, nofun⟩
  | unsubscribe m f =>
    cases h
    exact Or.inl ⟨rfl, Iff.rfl, nofun⟩
  | publish changeMods =>
    cases h
    have hpub : mod ∈ (s.subs.publish changeMods).pushList.find fd ↔
        (mod ∈ changeMods ∧ fd ∈ s.subs.bookList.find mod) ∨ s.Holds fd mod :=
      SubscribeList.mem_publish changeMods
    by_cases hnew : ¬ s.Holds fd mod ∧ mod ∈ (s.subs.publish changeMods).pushList.find fd
    · obtain ⟨hmod, hfd⟩ := (hpub.mp hnew.2).resolve_right hnew.1
      exact Or.inr (Or.inl ⟨changeMods, rfl, hmod, hfd, hnew.1, hnew.2, if_pos hnew⟩)
    · refine Or.inl ⟨if_neg hnew, ⟨fun ht => ?_, fun hs => hpub.mpr (Or.inr hs)⟩, nofun⟩
      by_contra hs
      exact hnew ⟨hs, ht⟩
  | pushChangeTask w =>
    cases h
    have hrest := s.holds_pushChangeTask w fd mod
    have hcount := s.count_needPublish w fd mod
    by_cases htake : s.loopOf fd = some w ∧ s.Holds fd mod
    · rw [if_pos htake] at hcount
      refine Or.inr (Or.inr ⟨w, rfl, htake.1, htake.2, fun ht => ?_, ?_⟩)
      · exact (hrest.mp ht).2 htake.1
      · rw [events, hcount]
        rfl
    · rw [if_neg htake] at hcount
      refine Or.inl ⟨?_, ?_, fun v hv hl hs => ?_⟩
      · rw [events, hcount]
        rfl
      · exact hrest.trans (and_iff_left_of_imp fun hs hl => htake ⟨hl, hs⟩)
      · cases hv
        exact htake ⟨hl, hs⟩

theorem events_advance {a : PushAction} (h : s.step? a = some t) (fd : Fd) (mod : UInt64) :
    (events fd mod (s, a)).foldlM PushEvent.advance? (decide (s.Holds fd mod)) =
      some (decide (t.Holds fd mod)) := by
  rcases step?_cases h fd mod with ⟨he, hiff, -⟩ | ⟨-, -, -, -, hs, ht, he⟩ | ⟨w, -, -, hs, ht, he⟩
  · rw [he, decide_eq_decide.mpr hiff]
    rfl
  · rw [he, decide_eq_false hs, decide_eq_true ht]
    rfl
  · rw [he, decide_eq_true hs, decide_eq_false ht]
    rfl

/-- Additions and removals of an entry take turns in every run, from what is there at its start to
what is there at its end. -/
theorem history_advance {as : List PushAction} (h : run? step? s as = some t) (fd : Fd)
    (mod : UInt64) : (s.history as fd mod).foldlM PushEvent.advance? (decide (s.Holds fd mod)) =
      some (decide (t.Holds fd mod)) := by
  induction as generalizing s with
  | nil =>
    cases h
    rfl
  | cons a as ih =>
    obtain ⟨u, hu, hr⟩ := Option.bind_eq_some_iff.mp h
    have hrest := ih hr
    unfold history at hrest ⊢
    simp only [attempted, hu, List.flatMap_cons, List.foldlM_append, events_advance hu fd mod]
    exact hrest

/-- Every entry that a publication puts into the push list stays there until the task of the loop
that listens on its descriptor takes it, and is taken once: in every run additions and removals
take turns. The entry is put there by a publication for a subscriber only, and it is gone after
a step if and only if that step is the task of its loop, which pushes it once. -/
theorem entries_taken_once (s t : PushSystem) (as : List PushAction)
    (h : run? step? s as = some t) (fd : Fd) (mod : UInt64) :
    (s.history as fd mod).foldlM PushEvent.advance? (decide (s.Holds fd mod)) =
      some (decide (t.Holds fd mod)) ∧
    ∀ u a u', (u, a) ∈ attempted step? s as → u.step? a = some u' →
      (¬ u.Holds fd mod → u'.Holds fd mod → ∃ changeMods, a = .publish changeMods ∧
        mod ∈ changeMods ∧ fd ∈ u.subs.bookList.find mod) ∧
      (u.Holds fd mod → (¬ u'.Holds fd mod ↔ ∃ w, a = .pushChangeTask w ∧ u.loopOf fd = some w)) ∧
      ∀ w, a = .pushChangeTask w → (u.needPublish w).count (fd, mod) =
        if u.loopOf fd = some w ∧ u.Holds fd mod then 1 else 0 := by
  refine ⟨history_advance h fd mod, fun u a u' _ hstep => ⟨fun hu hu' => ?_, fun hu => ?_, ?_⟩⟩
  · rcases step?_cases hstep fd mod with ⟨-, hiff, -⟩ | ⟨ms, ha, hm, hf, -⟩ | ⟨-, -, -, hs, -⟩
    · exact absurd (hiff.mp hu') hu
    · exact ⟨ms, ha, hm, hf⟩
    · exact absurd hs hu
  · rcases step?_cases hstep fd mod with ⟨-, hiff, hno⟩ | ⟨-, -, -, -, hs, -⟩ | ⟨w, ha, hl, -, ht, -⟩
    · refine iff_of_false (not_not_intro (hiff.mpr hu)) ?_
      rintro ⟨w, ha, hl⟩
      exact hno w ha hl hu
    · exact absurd hu hs
    · exact iff_of_true ht ⟨w, ha, hl⟩
  · exact fun w _ => u.count_needPublish w fd mod

def init : PushSystem := ⟨SubscribeList.empty, fun _ => none⟩

/-- Two publications of a module before the task of loop 1 runs, and one after it. -/
def publishedThrice : List PushAction :=
  [.listen 1 5, .subscribe 7 5, .publish [7], .pushChangeTask 0, .publish [7], .pushChangeTask 1,
    .pushChangeTask 1, .unlisten 5, .publish [7], .pushChangeTask 1]

theorem entries_taken_once_publishedThrice :
    init.history publishedThrice 5 7 = [.added, .taken 1, .added] ∧
      ∃ t, run? step? init publishedThrice = some t ∧ t.Holds 5 7 ∧
        (init.history publishedThrice 5 7).foldlM PushEvent.advance? (decide (init.Holds 5 7)) =
          some (decide (t.Holds 5 7)) := by
  refine ⟨by decide +kernel, ?_⟩
  have hrun : (run? step? init publishedThrice).map (fun t => decide (t.Holds 5 7)) = some true := by
    decide +kernel
  obtain ⟨t, ht, he⟩ := Option.map_eq_some_iff.mp hrun
  exact ⟨t, ht, of_decide_eq_true he, (entries_taken_once init t publishedThrice ht 5 7).1⟩

end PushSystem

namespace Server

variable {s t : Server} {w : ℕ}

/-- The part of the server that the entries of the push list depend on. -/
def pushSystem (s : Server) : PushSystem := ⟨s.subs, fun fd => (s.conns fd).map Conn.loop⟩

theorem listens_pushSystem (s : Server) (w : ℕ) : s.pushSystem.listens w = s.listens w := by
  funext fd
  change decide ((s.conns fd).map Conn.loop = some w) = (s.conns fd).any _
  cases s.conns fd <;> simp

theorem pushSystem_setConn (s : Server) (fd : Fd) (o : Option Conn) :
    (s.setConn fd o).pushSystem =
      ⟨s.subs, Function.update s.pushSystem.loopOf fd (o.map Conn.loop)⟩ := by
  unfold pushSystem setConn
  congr 1
  funext f
  by_cases hf : f = fd
  · subst f
    simp
  · simp [hf]

theorem pushSystem_setConn_of_loop {fd : Fd} {c : Conn} (hc : s.conns fd = some c) (c' : Conn)
    (hl : c'.loop = c.loop) : (s.setConn fd (some c')).pushSystem = s.pushSystem := by
  rw [pushSystem_setConn]
  have hself : s.pushSystem.loopOf fd = some c'.loop := by simp [pushSystem, hc, hl]
  rw [Option.map_some, ← hself, Function.update_eq_self]
  rfl

/-- A step of the server is at most one action on the lists. -/
def PushRefines (s t : Server) : Prop :=
  t.pushSystem = s.pushSystem ∨ ∃ a, s.pushSystem.step? a = some t.pushSystem

theorem PushRefines.resume (h : s.resume? w = some t) : PushRefines s t := by
  unfold resume? at h
  cases hmode : s.mode w with
  | idle =>
    rw [hmode] at h
    cases h
  | subscribe fd req =>
    rw [hmode] at h
    obtain ⟨c, hc, rfl⟩ := Option.map_eq_some_iff.mp h
    unfold Server.subscribe
    split_ifs with hkey
    · exact Or.inl rfl
    · refine Or.inr ⟨.subscribe (requestKey req) fd, congrArg some ?_⟩
      exact (pushSystem_setConn_of_loop
        (s := { s with subs := s.subs.subscribe (requestKey req) fd }) hc
        { c with subList := c.subList.insert (requestKey req) } rfl).symm
  | getHosts fd req =>
    rw [hmode] at h
    cases h
    exact Or.inl rfl
  | send fd rsp =>
    rw [hmode] at h
    obtain ⟨c, hc, rfl⟩ := Option.map_eq_some_iff.mp h
    exact Or.inl (pushSystem_setConn_of_loop hc _ rfl)
  | push needPublish =>
    rw [hmode] at h
    match needPublish with
    | [] =>
      cases h
      exact Or.inl rfl
    | (fd, mod) :: needPublish =>
      cases h
      exact Or.inl rfl
  | pushSend fd rsp needPublish =>
    rw [hmode] at h
    cases hc : s.conns fd with
    | none =>
      simp only [hc] at h
      cases h
      exact Or.inl rfl
    | some c =>
      simp only [hc] at h
      cases h
      exact Or.inl (pushSystem_setConn_of_loop hc _ rfl)
  | clean fd mods =>
    rw [hmode] at h
    match mods with
    | [] =>
      cases h
      exact Or.inr ⟨.unlisten fd, congrArg some (pushSystem_setConn s fd none).symm⟩
    | mod :: mods =>
      cases h
      exact Or.inr ⟨.unsubscribe mod fd, rfl⟩

theorem PushRefines.step {threads : ℕ} {a : ServerAction} (h : s.pushStep threads a = some t) :
    PushRefines s t := by
  cases pushStep_inv h with
  | newConn w fd _ hnone =>
    refine Or.inr ⟨.listen w fd, ?_⟩
    have hfree : s.pushSystem.loopOf fd = none := by simp [pushSystem, hnone]
    rw [PushSystem.step?, if_pos hfree, newConn, pushSystem_setConn]
    rfl
  | getRoute w fd data c _ hc _ => exact Or.inl (pushSystem_setConn_of_loop hc _ rfl)
  | cleanConn w fd c _ _ _ => exact Or.inl rfl
  | pushChangeTask w _ =>
    refine Or.inr ⟨.pushChangeTask w, ?_⟩
    rw [PushSystem.step?, listens_pushSystem]
    rfl
  | resume w t ht => exact .resume ht
  | swap rows => exact Or.inl rfl
  | publish changeMods => exact Or.inr ⟨.publish changeMods, rfl⟩
  | sendTask i _ =>
    unfold Server.sendTask
    split_ifs <;> exact Or.inl rfl

/-- What holds of the entries in every run of the two lists holds in every run of the server. -/
theorem pushSystem_reachable {threads : ℕ} {rows : List RouteRow}
    (h : Reachable (pushStep threads) (Server.init rows) s) :
    Reachable PushSystem.step? PushSystem.init s.pushSystem := by
  refine h.invariant (P := fun s => Reachable PushSystem.step? PushSystem.init s.pushSystem) ?_
    (.refl _)
  intro s a t hs ht
  rcases PushRefines.step ht with he | ⟨b, hb⟩
  · rwa [he]
  · exact hs.tail hb

theorem TaskPending.resume {v : ℕ} (h : s.TaskPending w) (hstep : s.resume? v = some t) :
    t.TaskPending w := by
  have hsame : t.tasks = s.tasks ∧ t.broadcast = s.broadcast := by
    unfold resume? at hstep
    split at hstep
    · cases hstep
    · obtain ⟨c, -, rfl⟩ := Option.map_eq_some_iff.mp hstep
      unfold Server.subscribe
      split_ifs <;> exact ⟨rfl, rfl⟩
    · cases hstep
      exact ⟨rfl, rfl⟩
    · obtain ⟨c, -, rfl⟩ := Option.map_eq_some_iff.mp hstep
      exact ⟨rfl, rfl⟩
    · cases hstep
      exact ⟨rfl, rfl⟩
    · cases hstep
      exact ⟨rfl, rfl⟩
    · split at hstep <;> cases hstep <;> exact ⟨rfl, rfl⟩
    · cases hstep
      exact ⟨rfl, rfl⟩
    · cases hstep
      exact ⟨rfl, rfl⟩
  unfold TaskPending
  rw [hsame.1, hsame.2]
  exact h

theorem TaskPending.step {threads : ℕ} {a : ServerAction} (h : s.TaskPending w) (hw : w < threads)
    (ha : a ≠ .pushChangeTask w) (hstep : s.pushStep threads a = some t) : t.TaskPending w := by
  cases pushStep_inv hstep with
  | newConn v fd _ _ => exact h
  | getRoute v fd data c _ _ _ => exact h
  | cleanConn v fd c _ _ _ => exact h
  | pushChangeTask v _ =>
    have hne : w ≠ v := by
      intro heq
      exact ha (heq ▸ rfl)
    refine h.imp_left fun ht => ?_
    change 0 < Function.update s.tasks v (s.tasks v - 1) w
    rwa [Function.update_of_ne hne]
  | resume v t ht => exact h.resume ht
  | swap rows => exact h
  | publish changeMods => exact Or.inr ⟨0, rfl, Nat.zero_le w⟩
  | sendTask i hi => exact h.sendTask hi hw

/-- After a publication a push task waits for every worker until that worker runs one. -/
theorem taskPending_after_publish {threads : ℕ} {changeMods : List UInt64} {as : List ServerAction}
    {u : Server} (hpub : s.pushStep threads (.publish changeMods) = some t) (hw : w < threads)
    (has : ∀ a ∈ as, a ≠ .pushChangeTask w) (hrun : run? (pushStep threads) t as = some u) :
    u.TaskPending w := by
  have hstart : t.TaskPending w := by
    cases pushStep_inv hpub
    exact Or.inr ⟨0, rfl, Nat.zero_le w⟩
  exact run?_history (P := fun _ s => s.TaskPending w) (fun _ _ _ _ h ha hstep => h.step hw ha hstep)
    hstart has hrun

end Server

end Lrlb.Dns
