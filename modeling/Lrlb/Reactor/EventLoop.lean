import Lrlb.Lib.Run

/-! The event loop: its table of registered events beside the interest set that the kernel keeps
for it. -/
namespace Lrlb.Reactor
open Lib

/-- A file descriptor. -/
abbrev Fd := ℕ

inductive Direction where
  | epollin | epollout
deriving DecidableEq, Repr

def Direction.mask : Direction → UInt32
  | .epollin => 1
  | .epollout => 4

theorem Direction.forall_iff (P : Direction → Prop) : P .epollin ∧ P .epollout ↔ ∀ d, P d :=
  ⟨fun h d => Direction.casesOn d h.1 h.2, fun h => ⟨h _, h _⟩⟩

/-- A callback with its argument is a `C`. -/
structure IoEvent (C : Type) where
  mask : UInt32
  readCallback : Option C
  writeCallback : Option C

inductive CtlOp where
  | add | mod | del
deriving DecidableEq, Repr

/-- The kernel's side of `epoll_ctl`; `none` where it fails. -/
def epollCtl? (interest : Fd → Option UInt32) (op : CtlOp) (fd : Fd) (events : UInt32) :
    Option (Fd → Option UInt32) :=
  match op, interest fd with
  | .add, none => some (Function.update interest fd (some events))
  | .mod, some _ => some (Function.update interest fd (some events))
  | .del, some _ => some (Function.update interest fd none)
  | _, _ => none

/-- `interest` is the kernel's; `firedEvs` are the events of the last `epoll_wait` that have still
to be dispatched. -/
structure EventLoop (C : Type) where
  ioEvs : Fd → Option (IoEvent C)
  listenFds : Fd → Bool
  interest : Fd → Option UInt32
  firedEvs : List (Fd × UInt32)

namespace IoEvent

variable {C : Type}

def callback (ev : IoEvent C) : Direction → Option C
  | .epollin => ev.readCallback
  | .epollout => ev.writeCallback

/-- The entry that `add_io_event` leaves behind. -/
def register (old : Option (IoEvent C)) (mask : UInt32) (proc : C) : IoEvent C :=
  let finalMask := match old with
    | none => mask
    | some ev => ev.mask ||| mask
  let ev := old.getD ⟨0, none, none⟩
  let ev :=
    if mask &&& Direction.epollin.mask ≠ 0 then { ev with readCallback := some proc }
    else if mask &&& Direction.epollout.mask ≠ 0 then { ev with writeCallback := some proc }
    else ev
  { ev with mask := finalMask }

/-- Registering a direction sets its callback and leaves the other one. -/
theorem callback_register (old : Option (IoEvent C)) (d d' : Direction) (proc : C) :
    (register old d.mask proc).callback d' =
      if d' = d then some proc else old.bind fun ev => ev.callback d' := by
  have hin : Direction.epollin.mask &&& Direction.epollin.mask ≠ 0 := by decide
  have hout : ¬ Direction.epollout.mask &&& Direction.epollin.mask ≠ 0 := by decide
  have hout' : Direction.epollout.mask &&& Direction.epollout.mask ≠ 0 := by decide
  unfold register
  dsimp only
  cases d with
  | epollin =>
    rw [if_pos hin]
    cases old <;> cases d' <;> rfl
  | epollout =>
    rw [if_neg hout, if_pos hout']
    cases old <;> cases d' <;> rfl

end IoEvent

/-- What `event_process` does with the events of a descriptor. -/
inductive Reaction where
  | call (d : Direction)
  | delete
  | nothing
deriving DecidableEq, Repr

/-- The last test is for `EPOLLHUP` and `EPOLLERR`. -/
def reaction (events : UInt32) : Reaction :=
  if events &&& Direction.epollin.mask ≠ 0 then .call .epollin
  else if events &&& Direction.epollout.mask ≠ 0 then .call .epollout
  else if events &&& 24 ≠ 0 then .delete
  else .nothing

inductive LoopAction (C : Type) where
  | addIoEvent (fd : Fd) (proc : C) (d : Direction)
  | delIoEvent (fd : Fd)
  | delIoEventMask (fd : Fd) (d : Direction)
  | epollWait (fired : List (Fd × UInt32))
  | dispatch

namespace EventLoop

variable {C : Type}

def init : EventLoop C := ⟨fun _ => none, fun _ => false, fun _ => none, []⟩

def addIoEvent? (l : EventLoop C) (fd : Fd) (proc : C) (mask : UInt32) : Option (EventLoop C) :=
  let op := match l.ioEvs fd with
    | none => CtlOp.add
    | some _ => .mod
  let ev := IoEvent.register (l.ioEvs fd) mask proc
  (epollCtl? l.interest op fd ev.mask).map fun interest =>
    { l with
      ioEvs := Function.update l.ioEvs fd (some ev)
      listenFds := Function.update l.listenFds fd true
      interest := interest }

def delIoEvent? (l : EventLoop C) (fd : Fd) : Option (EventLoop C) :=
  (epollCtl? l.interest .del fd 0).map fun interest =>
    { l with
      ioEvs := Function.update l.ioEvs fd none
      listenFds := Function.update l.listenFds fd false
      interest := interest }

/-- The overload with a mask. The reduced mask goes to the kernel and not into the table. -/
def delIoEventMask? (l : EventLoop C) (fd : Fd) (mask : UInt32) : Option (EventLoop C) :=
  match l.ioEvs fd with
  | none => some l
  | some ev =>
    let oMask := ev.mask &&& ~~~mask
    if oMask = 0 then l.delIoEvent? fd
    else (epollCtl? l.interest .mod fd oMask).map fun interest => { l with interest := interest }

/-- The kernel reports, once each, descriptors of the interest set, with some of the events it
was asked for and possibly `EPOLLHUP` or `EPOLLERR`. -/
def Reports (l : EventLoop C) (fired : List (Fd × UInt32)) : Prop :=
  fired.length ≤ 10 ∧ (fired.map Prod.fst).Nodup ∧
    ∀ x ∈ fired, ∃ mask ∈ l.interest x.1, x.2 &&& ~~~(mask ||| 24) = 0

instance (l : EventLoop C) (fired : List (Fd × UInt32)) : Decidable (l.Reports fired) :=
  haveI (x : Fd × UInt32) : Decidable (∃ mask ∈ l.interest x.1, x.2 &&& ~~~(mask ||| 24) = 0) :=
    Option.decidableExistsMem _
  inferInstanceAs (Decidable (_ ∧ _ ∧ ∀ x ∈ fired, _))

def epollWait? (l : EventLoop C) (fired : List (Fd × UInt32)) : Option (EventLoop C) :=
  if l.firedEvs = [] ∧ l.Reports fired then some { l with firedEvs := fired } else none

/-- One round of the loop over the fired events, up to the call of the callback. `none` is the
failed assertion or a call through a null pointer. -/
def dispatch? (l : EventLoop C) : Option (EventLoop C) :=
  match l.firedEvs with
  | [] => none
  | (fd, events) :: fired =>
    let l := { l with firedEvs := fired }
    match l.ioEvs fd with
    | none => none
    | some ev =>
      match reaction events with
      | .call d => (ev.callback d).map fun _ => l
      | .delete => l.delIoEvent? fd
      | .nothing => some l

/-- The callback that the next round calls, if it calls one. -/
def called? (l : EventLoop C) : Option C :=
  match l.firedEvs with
  | [] => none
  | (fd, events) :: _ =>
    match reaction events with
    | .call d => (l.ioEvs fd).bind fun ev => ev.callback d
    | _ => none

def step? (l : EventLoop C) : LoopAction C → Option (EventLoop C)
  | .addIoEvent fd proc d => l.addIoEvent? fd proc d.mask
  | .delIoEvent fd => l.delIoEvent? fd
  | .delIoEventMask fd d => l.delIoEventMask? fd d.mask
  | .epollWait fired => l.epollWait? fired
  | .dispatch => l.dispatch?

/-- The descriptor that an action is about; a dispatch is about the one that it deletes itself. -/
def target? (l : EventLoop C) : LoopAction C → Option Fd
  | .addIoEvent fd _ _ => some fd
  | .delIoEvent fd => some fd
  | .delIoEventMask fd _ => some fd
  | .epollWait _ => none
  | .dispatch =>
    match l.firedEvs with
    | [] => none
    | (fd, events) :: _ => if reaction events = .delete then some fd else none

variable {l l' : EventLoop C} {fd : Fd}

theorem epollCtl?_eq {interest interest' : Fd → Option UInt32} {op : CtlOp} {events : UInt32}
    (h : epollCtl? interest op fd events = some interest') :
    interest' = Function.update interest fd (if op = .del then none else some events) := by
  unfold epollCtl? at h
  split at h <;> cases h <;> rfl

theorem addIoEvent?_eq {proc : C} {mask : UInt32} (h : l.addIoEvent? fd proc mask = some l') :
    l' = ⟨Function.update l.ioEvs fd (some (IoEvent.register (l.ioEvs fd) mask proc)),
      Function.update l.listenFds fd true,
      Function.update l.interest fd (some (IoEvent.register (l.ioEvs fd) mask proc).mask),
      l.firedEvs⟩ := by
  obtain ⟨interest, hctl, rfl⟩ := Option.map_eq_some_iff.mp h
  rw [epollCtl?_eq hctl]
  cases l.ioEvs fd <;> rfl

theorem delIoEvent?_eq (h : l.delIoEvent? fd = some l') :
    l' = ⟨Function.update l.ioEvs fd none, Function.update l.listenFds fd false,
      Function.update l.interest fd none, l.firedEvs⟩ := by
  obtain ⟨interest, hctl, rfl⟩ := Option.map_eq_some_iff.mp h
  rw [epollCtl?_eq hctl]
  rfl

theorem ioEvs_addIoEvent? {proc : C} {mask : UInt32} (h : l.addIoEvent? fd proc mask = some l') :
    l'.ioEvs = Function.update l.ioEvs fd (some (IoEvent.register (l.ioEvs fd) mask proc)) := by
  rw [addIoEvent?_eq h]

/-- A descriptor that neither side knows can be added. -/
theorem addIoEvent?_of_none (hev : l.ioEvs fd = none) (hctl : l.interest fd = none) (proc : C)
    (mask : UInt32) : ∃ l', l.addIoEvent? fd proc mask = some l' := by
  unfold addIoEvent? epollCtl?
  rw [hev, hctl]
  exact ⟨_, rfl⟩

theorem ioEvs_delIoEvent? (h : l.delIoEvent? fd = some l') :
    l'.ioEvs = Function.update l.ioEvs fd none := by
  rw [delIoEvent?_eq h]

/-- `listen_fds` has the descriptors of the table. -/
def Listens (l : EventLoop C) : Prop := ∀ fd, l.listenFds fd = (l.ioEvs fd).isSome

theorem Listens.addIoEvent? (h : l.Listens) {proc : C} {mask : UInt32}
    (hl : l.addIoEvent? fd proc mask = some l') : l'.Listens := by
  intro f
  rw [addIoEvent?_eq hl]
  by_cases hf : f = fd
  · rw [hf]
    simp
  · simpa [hf] using h f

theorem Listens.delIoEvent? (h : l.Listens) (hl : l.delIoEvent? fd = some l') : l'.Listens := by
  intro f
  rw [delIoEvent?_eq hl]
  by_cases hf : f = fd
  · rw [hf]
    simp
  · simpa [hf] using h f

theorem delIoEventMask?_cases {mask : UInt32} (h : l.delIoEventMask? fd mask = some l') :
    (l.ioEvs fd = none ∧ l' = l) ∨ ∃ ev, l.ioEvs fd = some ev ∧
      ((ev.mask &&& ~~~mask = 0 ∧ l.delIoEvent? fd = some l') ∨
        (ev.mask &&& ~~~mask ≠ 0 ∧ l' =
          { l with interest := Function.update l.interest fd (some (ev.mask &&& ~~~mask)) })) := by
  unfold delIoEventMask? at h
  cases htable : l.ioEvs fd with
  | none =>
    rw [htable] at h
    cases h
    exact Or.inl ⟨rfl, rfl⟩
  | some ev =>
    rw [htable] at h
    dsimp only at h
    split_ifs at h with hzero
    · exact Or.inr ⟨ev, rfl, Or.inl ⟨hzero, h⟩⟩
    · obtain ⟨interest, hctl, rfl⟩ := Option.map_eq_some_iff.mp h
      rw [epollCtl?_eq hctl]
      exact Or.inr ⟨ev, rfl, Or.inr ⟨hzero, rfl⟩⟩

theorem dispatch?_cases (h : l.dispatch? = some l') :
    ∃ fd events fired, l.firedEvs = (fd, events) :: fired ∧
      ((reaction events = .delete ∧ { l with firedEvs := fired }.delIoEvent? fd = some l') ∨
        (reaction events ≠ .delete ∧ l' = { l with firedEvs := fired })) := by
  unfold dispatch? at h
  cases hfired : l.firedEvs with
  | nil => simp [hfired] at h
  | cons x fired =>
    obtain ⟨fd, events⟩ := x
    rw [hfired] at h
    dsimp only at h
    refine ⟨fd, events, fired, rfl, ?_⟩
    cases htable : l.ioEvs fd with
    | none => simp [htable] at h
    | some ev =>
      rw [htable] at h
      dsimp only at h
      cases hreaction : reaction events with
      | call d =>
        rw [hreaction] at h
        obtain ⟨proc, -, rfl⟩ := Option.map_eq_some_iff.mp h
        exact Or.inr ⟨nofun, rfl⟩
      | nothing =>
        rw [hreaction] at h
        cases h
        exact Or.inr ⟨nofun, rfl⟩
      | delete =>
        rw [hreaction] at h
        exact Or.inl ⟨rfl, h⟩

/-- The assertion of the loop: the next event is for a descriptor of the table. -/
theorem ioEvs_of_dispatch? {events : UInt32} {fired : List (Fd × UInt32)}
    (h : l.dispatch? = some l') (hfired : l.firedEvs = (fd, events) :: fired) :
    ∃ ev, l.ioEvs fd = some ev := by
  unfold dispatch? at h
  rw [hfired] at h
  cases hev : l.ioEvs fd with
  | none => simp [hev] at h
  | some ev => exact ⟨ev, rfl⟩

/-- An action leaves the other descriptors alone. -/
theorem step?_frame {a : LoopAction C} (h : l.step? a = some l') (hfd : l.target? a ≠ some fd) :
    l'.ioEvs fd = l.ioEvs fd ∧ l'.interest fd = l.interest fd := by
  cases a with
  | addIoEvent fd' proc d =>
    have hne : fd ≠ fd' := fun he => hfd (congrArg some he.symm)
    rw [addIoEvent?_eq h]
    simp [hne]
  | delIoEvent fd' =>
    have hne : fd ≠ fd' := fun he => hfd (congrArg some he.symm)
    rw [delIoEvent?_eq h]
    simp [hne]
  | delIoEventMask fd' d =>
    have hne : fd ≠ fd' := fun he => hfd (congrArg some he.symm)
    obtain ⟨-, rfl⟩ | ⟨ev, -, ⟨-, hdel⟩ | ⟨-, rfl⟩⟩ := delIoEventMask?_cases h
    · exact ⟨rfl, rfl⟩
    · rw [delIoEvent?_eq hdel]
      simp [hne]
    · simp [hne]
  | epollWait fired =>
    obtain ⟨-, h⟩ := Option.ite_none_right_eq_some.mp h
    cases h
    exact ⟨rfl, rfl⟩
  | dispatch =>
    obtain ⟨fd', events, fired, hfired, ⟨hreaction, hdel⟩ | ⟨-, rfl⟩⟩ := dispatch?_cases h
    · have hne : fd ≠ fd' := by
        rintro rfl
        exact hfd (by simp [target?, hfired, hreaction])
      rw [delIoEvent?_eq hdel]
      simp [hne]
    · exact ⟨rfl, rfl⟩

end EventLoop

section Registry

variable {C : Type}

/-- What a descriptor is registered for: the callbacks that were added and not deleted since. -/
abbrev Registry (C : Type) := Direction → Option C

def maskOf (reg : Registry C) : UInt32 :=
  (if (reg .epollin).isSome then Direction.epollin.mask else 0) |||
    (if (reg .epollout).isSome then Direction.epollout.mask else 0)

/-- The entry that belongs to a registry; a descriptor without directions has none. -/
def entry (reg : Registry C) : Option (IoEvent C) :=
  if maskOf reg = 0 then none else some ⟨maskOf reg, reg .epollin, reg .epollout⟩

theorem maskOf_and (reg : Registry C) (d : Direction) :
    maskOf reg &&& d.mask = if (reg d).isSome then d.mask else 0 := by
  unfold maskOf
  cases d <;> cases (reg .epollin).isSome <;> cases (reg .epollout).isSome <;> decide

theorem entry_register (reg : Registry C) (d : Direction) (proc : C) :
    entry (Function.update reg d (some proc)) =
      some (IoEvent.register (entry reg) d.mask proc) := by
  have hand : (4 : UInt32) &&& 1 = 0 := rfl
  have hor : (1 : UInt32) ||| 4 = 5 ∧ (4 : UInt32) ||| 1 = 5 := ⟨rfl, rfl⟩
  have hboth : (5 : UInt32) ||| 1 = 5 ∧ (5 : UInt32) ||| 4 = 5 := ⟨rfl, rfl⟩
  cases d <;> cases h1 : reg .epollin <;> cases h2 : reg .epollout <;>
    simp [entry, maskOf, IoEvent.register, h1, h2, Direction.mask, hand, hor, hboth]

theorem entry_none : entry (fun _ => none : Registry C) = none := by
  simp [entry, maskOf]

/-- A registry that has at most one direction loses nothing or everything. -/
theorem entry_remove {reg : Registry C} (h : reg .epollin = none ∨ reg .epollout = none)
    (d : Direction) :
    (entry reg = none → entry (Function.update reg d none) = none) ∧
    ∀ ev, entry reg = some ev →
      if ev.mask &&& ~~~d.mask = 0 then entry (Function.update reg d none) = none
      else entry (Function.update reg d none) = some ev ∧ ev.mask &&& ~~~d.mask = ev.mask := by
  cases d <;> cases h1 : reg .epollin <;> cases h2 : reg .epollout <;>
    simp_all [entry, maskOf, Direction.mask] <;> decide

/-- A direction that is registered has its callback in the entry. -/
theorem entry_of_registered {reg : Registry C} {d : Direction} {proc : C} (h : reg d = some proc) :
    ∃ ev, entry reg = some ev ∧ ev.callback d = some proc := by
  have hmask : maskOf reg ≠ 0 := by
    intro h0
    have hand := maskOf_and reg d
    rw [h0, h, UInt32.zero_and] at hand
    cases d <;> simp [Direction.mask] at hand
  refine ⟨_, if_neg hmask, ?_⟩
  cases d <;> exact h

/-- An event that the kernel may report for a registry is one that it has. -/
theorem registered_of_reported {reg : Registry C} {events : UInt32}
    (h : events &&& ~~~(maskOf reg ||| 24) = 0) {d : Direction} (hd : events &&& d.mask ≠ 0) :
    (reg d).isSome := by
  by_contra hnone
  -- then the direction is among the bits that are masked out
  have hout : ~~~(maskOf reg ||| 24) &&& d.mask = d.mask := by
    unfold maskOf
    cases d <;> cases h1 : (reg .epollin).isSome <;> cases h2 : (reg .epollout).isSome <;>
      simp_all <;> decide
  apply hd
  rw [← hout, ← UInt32.and_assoc, h, UInt32.zero_and]

end Registry

/-- The loop with what its users have registered. -/
structure Watch (C : Type) where
  loop : EventLoop C
  registry : Fd → Registry C

namespace Watch

variable {C : Type}

def init : Watch C := ⟨EventLoop.init, fun _ _ => none⟩

def forget (registry : Fd → Registry C) (fd : Fd) : Fd → Registry C :=
  Function.update registry fd fun _ => none

/-- What is registered after an action. -/
def record (s : Watch C) : LoopAction C → Fd → Registry C
  | .addIoEvent fd proc d =>
    Function.update s.registry fd (Function.update (s.registry fd) d (some proc))
  | .delIoEvent fd => forget s.registry fd
  | .delIoEventMask fd d =>
    Function.update s.registry fd (Function.update (s.registry fd) d none)
  | .epollWait _ => s.registry
  | .dispatch =>
    match s.loop.target? .dispatch with
    | none => s.registry
    | some fd => forget s.registry fd

/-- A run whose calls of `epoll_ctl` succeed. -/
def step? (s : Watch C) (a : LoopAction C) : Option (Watch C) :=
  (s.loop.step? a).map fun l => ⟨l, s.record a⟩

/-- The table and the kernel have what was registered, and the next event to dispatch leads to
the callback that is registered for it. -/
structure Faithful (s : Watch C) : Prop where
  table : ∀ fd, s.loop.ioEvs fd = entry (s.registry fd)
  kernel : ∀ fd, s.loop.interest fd = (s.loop.ioEvs fd).map IoEvent.mask
  listens : ∀ fd, s.loop.listenFds fd = (s.loop.ioEvs fd).isSome
  unmonitored : ∀ fd, (∀ d, s.registry fd d = none) → s.loop.interest fd = none
  next : ∀ fd events fired d, s.loop.firedEvs = (fd, events) :: fired → reaction events = .call d →
    ∃ ev proc, s.loop.ioEvs fd = some ev ∧ ev.callback d = some proc ∧ s.registry fd d = some proc

/-- An event that has been fired is still going to call the callback of this direction. -/
def Pending (l : EventLoop C) (fd : Fd) (d : Direction) : Prop :=
  ∃ x ∈ l.firedEvs, x.1 = fd ∧ reaction x.2 = .call d

/-- No direction is deleted by its mask from a descriptor that is registered for both, and none
while an event is pending for it. -/
def KeepsMasks (s : Watch C) : LoopAction C → Prop
  | .delIoEvent fd => ∀ d, ¬ Pending s.loop fd d
  | .delIoEventMask fd d => ¬ Pending s.loop fd d ∧
      (s.registry fd .epollin = none ∨ s.registry fd .epollout = none)
  | _ => True

instance (l : EventLoop C) (fd : Fd) (d : Direction) : Decidable (Pending l fd d) :=
  inferInstanceAs (Decidable (∃ x ∈ l.firedEvs, _))

instance (s : Watch C) (a : LoopAction C) : Decidable (s.KeepsMasks a) :=
  match a with
  | .delIoEvent _ => decidable_of_iff _ (Direction.forall_iff _)
  | .delIoEventMask fd d => inferInstanceAs (Decidable (¬ Pending s.loop fd d ∧ (_ ∨ _)))
  | .addIoEvent _ _ _ => .isTrue trivial
  | .epollWait _ => .isTrue trivial
  | .dispatch => .isTrue trivial

/-- `Faithful` with what it takes to keep it: no pending direction has been deleted. -/
structure Inv (s : Watch C) : Prop where
  table : ∀ fd, s.loop.ioEvs fd = entry (s.registry fd)
  kernel : ∀ fd, s.loop.interest fd = (s.loop.ioEvs fd).map IoEvent.mask
  listens : ∀ fd, s.loop.listenFds fd = (s.loop.ioEvs fd).isSome
  once : (s.loop.firedEvs.map Prod.fst).Nodup
  pending : ∀ fd d, Pending s.loop fd d → (s.registry fd d).isSome

variable {s t : Watch C}

theorem reaction_call {events : UInt32} {d : Direction} (h : reaction events = .call d) :
    events &&& d.mask ≠ 0 := by
  unfold reaction at h
  split_ifs at h with h1 h2
  · cases h
    exact h1
  · cases h
    exact h2

theorem Inv.faithful (h : Inv s) : Faithful s := by
  refine ⟨h.table, h.kernel, h.listens, ?_, ?_⟩
  · intro fd hnone
    rw [h.kernel, h.table, show s.registry fd = fun _ => none from funext hnone, entry_none]
    rfl
  · intro fd events fired d hfired hcall
    have hpending : Pending s.loop fd d := ⟨(fd, events), hfired ▸ List.mem_cons_self, rfl, hcall⟩
    obtain ⟨proc, hproc⟩ := Option.isSome_iff_exists.mp (h.pending fd d hpending)
    obtain ⟨ev, hev, hcb⟩ := entry_of_registered hproc
    exact ⟨ev, proc, (h.table fd).trans hev, hcb, hproc⟩

theorem Inv.init : Inv (Watch.init : Watch C) := by
  refine ⟨fun _ => entry_none.symm, fun _ => rfl, fun _ => rfl, List.nodup_nil, ?_⟩
  rintro fd d ⟨x, hx, -⟩
  exact absurd hx List.not_mem_nil

/-- What is left to show of a step that only touches the entry of one descriptor. -/
theorem Inv.update (h : Inv s) {fd : Fd} (reg : Registry C) {fired : List (Fd × UInt32)}
    (hfired : fired.Sublist s.loop.firedEvs)
    (hreg : ∀ d, Pending { s.loop with firedEvs := fired } fd d → (reg d).isSome) :
    Inv ⟨⟨Function.update s.loop.ioEvs fd (entry reg),
      Function.update s.loop.listenFds fd (entry reg).isSome,
      Function.update s.loop.interest fd ((entry reg).map IoEvent.mask), fired⟩,
      Function.update s.registry fd reg⟩ := by
  refine ⟨?_, ?_, ?_, (hfired.map Prod.fst).nodup h.once, ?_⟩
  · intro fd'
    by_cases hfd : fd' = fd
    · subst hfd
      simp
    · simpa [hfd] using h.table fd'
  · intro fd'
    by_cases hfd : fd' = fd
    · subst hfd
      simp
    · simpa [hfd] using h.kernel fd'
  · intro fd'
    by_cases hfd : fd' = fd
    · subst hfd
      simp
    · simpa [hfd] using h.listens fd'
  · intro fd' d hpending
    by_cases hfd : fd' = fd
    · subst hfd
      simpa using hreg d hpending
    · obtain ⟨x, hx, hx1, hx2⟩ := hpending
      simpa [hfd] using h.pending fd' d ⟨x, hfired.subset hx, hx1, hx2⟩

theorem Inv.addIoEvent (h : Inv s) {fd : Fd} {proc : C} {d : Direction}
    (hstep : s.step? (.addIoEvent fd proc d) = some t) : Inv t := by
  obtain ⟨l, hl, rfl⟩ := Option.map_eq_some_iff.mp hstep
  have hinv := h.update (Function.update (s.registry fd) d (some proc))
    (List.Sublist.refl s.loop.firedEvs) fun d' hpending => by
      by_cases hd : d' = d
      · subst hd
        simp
      · simpa [hd] using h.pending fd d' hpending
  rw [entry_register, ← h.table] at hinv
  rw [EventLoop.addIoEvent?_eq hl]
  exact hinv

theorem Inv.delete (h : Inv s) {fd : Fd} {l : EventLoop C} {fired : List (Fd × UInt32)}
    (hfired : fired.Sublist s.loop.firedEvs)
    (hpending : ∀ d, ¬ Pending { s.loop with firedEvs := fired } fd d)
    (hdel : { s.loop with firedEvs := fired }.delIoEvent? fd = some l) :
    Inv ⟨l, forget s.registry fd⟩ := by
  have hinv := h.update (fun _ => none) hfired fun d hp => absurd hp (hpending d)
  rw [entry_none] at hinv
  rw [EventLoop.delIoEvent?_eq hdel]
  exact hinv

theorem Inv.delIoEventMask (h : Inv s) {fd : Fd} {d : Direction}
    (hguard : s.KeepsMasks (.delIoEventMask fd d))
    (hstep : s.step? (.delIoEventMask fd d) = some t) : Inv t := by
  obtain ⟨l, hl, rfl⟩ := Option.map_eq_some_iff.mp hstep
  obtain ⟨hpending, hone⟩ := hguard
  obtain ⟨hnone, hsome⟩ := entry_remove hone d
  have hinv := h.update (Function.update (s.registry fd) d none)
    (List.Sublist.refl s.loop.firedEvs) fun d' hp => by
      by_cases hd : d' = d
      · exact absurd (hd ▸ hp) hpending
      · simpa [hd] using h.pending fd d' hp
  -- where the entry stays, so does the whole loop
  have hkeep (hentry : entry (Function.update (s.registry fd) d none) = s.loop.ioEvs fd) :
      Inv ⟨s.loop, Function.update s.registry fd (Function.update (s.registry fd) d none)⟩ := by
    rw [hentry, ← h.kernel, ← h.listens] at hinv
    simpa only [Function.update_eq_self] using hinv
  rw [← h.table] at hnone hsome
  obtain ⟨htable, rfl⟩ | ⟨ev, htable, ⟨hzero, hdel⟩ | ⟨hzero, rfl⟩⟩ :=
    EventLoop.delIoEventMask?_cases hl
  · exact hkeep ((hnone htable).trans htable.symm)
  · have hev := hsome ev htable
    rw [if_pos hzero] at hev
    rw [hev] at hinv
    rw [EventLoop.delIoEvent?_eq hdel]
    exact hinv
  · have hev := hsome ev htable
    rw [if_neg hzero] at hev
    have hinterest : some (ev.mask &&& ~~~d.mask) = s.loop.interest fd := by
      rw [h.kernel, htable, hev.2]
      rfl
    rw [hinterest, Function.update_eq_self]
    exact hkeep (hev.1.trans htable.symm)

theorem Inv.epollWait (h : Inv s) {fired : List (Fd × UInt32)}
    (hstep : s.step? (.epollWait fired) = some t) : Inv t := by
  obtain ⟨l, hl, rfl⟩ := Option.map_eq_some_iff.mp hstep
  obtain ⟨⟨-, -, hnodup, hreports⟩, hl⟩ := Option.ite_none_right_eq_some.mp hl
  cases hl
  refine ⟨h.table, h.kernel, h.listens, hnodup, ?_⟩
  rintro _ d ⟨x, hx, rfl, hcall⟩
  obtain ⟨mask, hmask, hevents⟩ := hreports x hx
  rw [h.kernel, h.table] at hmask
  obtain ⟨ev, hev, rfl⟩ := Option.map_eq_some_iff.mp hmask
  obtain ⟨-, hev⟩ := Option.ite_none_left_eq_some.mp hev
  cases hev
  exact registered_of_reported hevents (reaction_call hcall)

theorem Inv.dispatch (h : Inv s) (hstep : s.step? .dispatch = some t) : Inv t := by
  obtain ⟨l, hl, rfl⟩ := Option.map_eq_some_iff.mp hstep
  obtain ⟨fd, events, fired, hfired, hcases⟩ := EventLoop.dispatch?_cases hl
  have hsub : fired.Sublist s.loop.firedEvs := hfired ▸ List.sublist_cons_self _ _
  obtain ⟨hreaction, hdel⟩ | ⟨hreaction, rfl⟩ := hcases
  · have hrecord : s.record .dispatch = forget s.registry fd := by
      simp [record, EventLoop.target?, hfired, hreaction]
    rw [hrecord]
    refine h.delete hsub ?_ hdel
    -- the kernel has reported the descriptor once
    rintro d ⟨x, hx, rfl, -⟩
    have honce := h.once
    rw [hfired, List.map_cons, List.nodup_cons] at honce
    exact honce.1 (List.mem_map.mpr ⟨x, hx, rfl⟩)
  · have hrecord : s.record .dispatch = s.registry := by
      simp [record, EventLoop.target?, hfired, hreaction]
    rw [hrecord]
    exact ⟨h.table, h.kernel, h.listens, (hsub.map Prod.fst).nodup h.once,
      fun fd' d ⟨x, hx, hx'⟩ => h.pending fd' d ⟨x, hsub.subset hx, hx'⟩⟩

theorem Inv.step {a : LoopAction C} (h : Inv s) (hguard : s.KeepsMasks a)
    (hstep : s.step? a = some t) : Inv t := by
  cases a with
  | addIoEvent fd proc d => exact h.addIoEvent hstep
  | delIoEvent fd =>
    obtain ⟨l, hl, rfl⟩ := Option.map_eq_some_iff.mp hstep
    exact h.delete (List.Sublist.refl _) hguard hl
  | delIoEventMask fd d => exact h.delIoEventMask hguard hstep
  | epollWait fired => exact h.epollWait hstep
  | dispatch => exact h.dispatch hstep

theorem faithful_of_keepsMasks (as : List (LoopAction C))
    (hguard : ∀ x ∈ attempted step? Watch.init as, x.1.KeepsMasks x.2) :
    ∀ t ∈ visited step? Watch.init as, t.Faithful := by
  have hinv := forall_visited (fun _ _ _ h hG hstep => Inv.step h hG hstep) Watch.init as Inv.init
    hguard
  exact fun t ht => (hinv t ht).faithful

/-- A listener and a connection that writes: each deletes what it has added when its own event
is being handled. -/
def registerRun : List (LoopAction ℕ) :=
  [.addIoEvent 3 0 .epollin, .addIoEvent 7 1 .epollout, .epollWait [(3, 1), (7, 4)], .dispatch,
    .dispatch, .delIoEventMask 7 .epollout, .addIoEvent 7 2 .epollin, .addIoEvent 7 1 .epollout,
    .delIoEvent 7]

theorem faithful_registerRun : (run? step? Watch.init registerRun).isSome ∧
    ∀ t ∈ visited step? Watch.init registerRun, t.Faithful := by
  refine ⟨by decide, faithful_of_keepsMasks registerRun ?_⟩
  decide

/-- A connection stops writing and later registers its reader once more: the table has kept the
deleted direction, and the kernel is asked for it again. -/
theorem deleted_direction_returns :
    ((run? step? Watch.init [.addIoEvent 7 0 .epollin, .addIoEvent 7 1 .epollout,
        .delIoEventMask 7 .epollout]).map fun s =>
      ((s.loop.ioEvs 7).map IoEvent.mask, s.loop.interest 7, s.registry 7 .epollout)) =
        some (some 5, some 1, none) ∧
    ((run? step? Watch.init [.addIoEvent 7 0 .epollin, .addIoEvent 7 1 .epollout,
        .delIoEventMask 7 .epollout, .addIoEvent 7 0 .epollin, .epollWait [(7, 4)]]).map fun s =>
      (s.loop.firedEvs, s.loop.dispatch?.isSome, s.registry 7 .epollout)) =
        some ([(7, 4)], true, (none : Option ℕ)) := by
  decide

end Watch

end Lrlb.Reactor
