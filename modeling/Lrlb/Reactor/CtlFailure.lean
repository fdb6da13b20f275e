import Lrlb.Reactor.EventLoop

/-! The event loop where calls of `epoll_ctl` may fail. -/
namespace Lrlb.Reactor
open Lib

variable {C : Type}

/-- A call on the loop; `fails` says whether the kernel refuses the `epoll_ctl` in it. -/
inductive LoopCall (C : Type) where
  | addIoEvent (fails : Bool) (fd : Fd) (proc : C) (mask : UInt32)
  | delIoEvent (fails : Bool) (fd : Fd)
  | delIoEventMask (fails : Bool) (fd : Fd) (mask : UInt32)

/-- `epoll_ctl` with failures other than those that come from the interest set itself. -/
def tryCtl? (fails : Bool) (interest : Fd → Option UInt32) (op : CtlOp) (fd : Fd)
    (events : UInt32) : Option (Fd → Option UInt32) :=
  if fails then none else epollCtl? interest op fd events

namespace EventLoop

/-- The operation that `add_io_event` asks the kernel for. -/
def addOp (l : EventLoop C) (fd : Fd) : CtlOp :=
  match l.ioEvs fd with
  | none => .add
  | some _ => .mod

/-- The table is written before the call, `listen_fds` only after it has succeeded. -/
def addIoEvent (l : EventLoop C) (fails : Bool) (fd : Fd) (proc : C) (mask : UInt32) :
    EventLoop C :=
  let op := l.addOp fd
  let ev := IoEvent.register (l.ioEvs fd) mask proc
  let l := { l with ioEvs := Function.update l.ioEvs fd (some ev) }
  match tryCtl? fails l.interest op fd ev.mask with
  | none => l
  | some interest =>
    { l with listenFds := Function.update l.listenFds fd true, interest := interest }

def delIoEvent (l : EventLoop C) (fails : Bool) (fd : Fd) : EventLoop C :=
  { l with
    ioEvs := Function.update l.ioEvs fd none
    listenFds := Function.update l.listenFds fd false
    interest := (tryCtl? fails l.interest .del fd 0).getD l.interest }

def delIoEventMask (l : EventLoop C) (fails : Bool) (fd : Fd) (mask : UInt32) : EventLoop C :=
  match l.ioEvs fd with
  | none => l
  | some ev =>
    let oMask := ev.mask &&& ~~~mask
    if oMask = 0 then l.delIoEvent fails fd
    else { l with interest := (tryCtl? fails l.interest .mod fd oMask).getD l.interest }

def perform (l : EventLoop C) : LoopCall C → EventLoop C
  | .addIoEvent fails fd proc mask => l.addIoEvent fails fd proc mask
  | .delIoEvent fails fd => l.delIoEvent fails fd
  | .delIoEventMask fails fd mask => l.delIoEventMask fails fd mask

def callStep? (l : EventLoop C) (a : LoopCall C) : Option (EventLoop C) := some (l.perform a)

variable {l l' : EventLoop C} {fd : Fd}

/-! Where no call fails this is the loop of the other modules. -/

theorem addIoEvent_of_addIoEvent? {proc : C} {mask : UInt32}
    (h : l.addIoEvent? fd proc mask = some l') : l.addIoEvent false fd proc mask = l' := by
  obtain ⟨interest, hctl, rfl⟩ := Option.map_eq_some_iff.mp h
  have htry : tryCtl? false l.interest (l.addOp fd) fd
      (IoEvent.register (l.ioEvs fd) mask proc).mask = some interest := hctl
  simp only [addIoEvent, htry]

theorem delIoEvent_of_delIoEvent? (h : l.delIoEvent? fd = some l') :
    l.delIoEvent false fd = l' := by
  obtain ⟨interest, hctl, rfl⟩ := Option.map_eq_some_iff.mp h
  have htry : tryCtl? false l.interest .del fd 0 = some interest := hctl
  simp only [delIoEvent, htry, Option.getD_some]

theorem delIoEventMask_of_delIoEventMask? {mask : UInt32}
    (h : l.delIoEventMask? fd mask = some l') : l.delIoEventMask false fd mask = l' := by
  unfold delIoEventMask? at h
  unfold delIoEventMask
  cases htable : l.ioEvs fd with
  | none =>
    rw [htable] at h
    exact Option.some.inj h
  | some ev =>
    rw [htable] at h
    dsimp only at h ⊢
    split_ifs at h ⊢ with hzero
    · exact delIoEvent_of_delIoEvent? h
    · obtain ⟨interest, hctl, rfl⟩ := Option.map_eq_some_iff.mp h
      have htry : tryCtl? false l.interest .mod fd (ev.mask &&& ~~~mask) = some interest := hctl
      rw [htry, Option.getD_some]

/-- The table, `listen_fds` and the kernel have the same descriptors. -/
structure SameFds (l : EventLoop C) : Prop where
  listens : ∀ fd, l.listenFds fd = (l.ioEvs fd).isSome
  kernel : ∀ fd, (l.interest fd).isSome = (l.ioEvs fd).isSome

/-- The call does not fail if it is to make a descriptor known or unknown. -/
def Effective (l : EventLoop C) : LoopCall C → Prop
  | .addIoEvent fails fd _ _ => l.ioEvs fd = none → fails = false
  | .delIoEvent fails fd => (l.ioEvs fd).isSome → fails = false
  | .delIoEventMask fails fd mask =>
    ∀ ev, l.ioEvs fd = some ev → ev.mask &&& ~~~mask = 0 → fails = false

/-- An addition of a new descriptor that fails leaves the loop as it was, and the next one is
again asked for as an addition. -/
def FailedAddUndone (l : EventLoop C) : LoopCall C → Prop
  | .addIoEvent fails fd proc mask => l.ioEvs fd = none → fails = true →
      l.addIoEvent fails fd proc mask = l ∧ (l.addIoEvent fails fd proc mask).addOp fd = .add
  | _ => True

theorem SameFds.init : SameFds (EventLoop.init : EventLoop C) := ⟨fun _ => rfl, fun _ => rfl⟩

/-- Where one descriptor becomes known, or unknown, to all three. -/
theorem SameFds.update (h : SameFds l) (fd : Fd) (ev : Option (IoEvent C)) (events : Option UInt32)
    (hev : events.isSome = ev.isSome) :
    SameFds { l with
      ioEvs := Function.update l.ioEvs fd ev
      listenFds := Function.update l.listenFds fd ev.isSome
      interest := Function.update l.interest fd events } := by
  constructor
  · intro f
    by_cases hf : f = fd
    · subst hf
      simp
    · simpa [hf] using h.listens f
  · intro f
    by_cases hf : f = fd
    · subst hf
      simpa using hev
    · simpa [hf] using h.kernel f

/-- A change of an entry that stays does not matter. -/
theorem SameFds.rewrite (h : SameFds l) (ev : IoEvent C) (hev : (l.ioEvs fd).isSome) :
    SameFds { l with ioEvs := Function.update l.ioEvs fd (some ev) } := by
  have hsame : ∀ f, (Function.update l.ioEvs fd (some ev) f).isSome = (l.ioEvs f).isSome := by
    intro f
    by_cases hf : f = fd
    · subst hf
      simp [hev]
    · simp [hf]
  constructor
  · intro f
    rw [hsame]
    exact h.listens f
  · intro f
    rw [hsame]
    exact h.kernel f

/-- Whether or not the kernel takes a new mask, it keeps the descriptor. -/
theorem SameFds.modified (h : SameFds l) (fails : Bool) (fd : Fd) (events : UInt32) :
    SameFds { l with interest := (tryCtl? fails l.interest .mod fd events).getD l.interest } := by
  cases hctl : tryCtl? fails l.interest .mod fd events with
  | none => exact ⟨h.listens, h.kernel⟩
  | some interest =>
    refine ⟨h.listens, fun f => ?_⟩
    obtain ⟨-, hctl⟩ := Option.ite_none_left_eq_some.mp hctl
    have hsome : (l.interest fd).isSome := by
      unfold epollCtl? at hctl
      cases hfd : l.interest fd with
      | none => simp [hfd] at hctl
      | some _ => rfl
    change (interest f).isSome = (l.ioEvs f).isSome
    rw [epollCtl?_eq hctl, ← h.kernel]
    by_cases hf : f = fd
    · subst hf
      simp [hsome]
    · simp [hf]

theorem SameFds.addIoEvent (h : SameFds l) {fails : Bool} {proc : C} {mask : UInt32}
    (heff : l.Effective (.addIoEvent fails fd proc mask)) :
    SameFds (l.addIoEvent fails fd proc mask) := by
  cases htable : l.ioEvs fd with
  | none =>
    have hfails : fails = false := heff htable
    have hkernel : l.interest fd = none := by
      have hsome := h.kernel fd
      rw [htable] at hsome
      simpa using hsome
    obtain ⟨l', hl'⟩ := addIoEvent?_of_none htable hkernel proc mask
    rw [hfails, addIoEvent_of_addIoEvent? hl', addIoEvent?_eq hl']
    exact h.update fd _ _ rfl
  | some ev =>
    have hknown : (l.ioEvs fd).isSome := by simp [htable]
    have hop : l.addOp fd = .mod := by simp [addOp, htable]
    have hmod := (h.rewrite (IoEvent.register (l.ioEvs fd) mask proc) hknown).modified fails fd
      (IoEvent.register (l.ioEvs fd) mask proc).mask
    have hlisten : Function.update l.listenFds fd true = l.listenFds := by
      rw [Function.update_eq_self_iff, h.listens, hknown]
    unfold EventLoop.addIoEvent
    rw [hop]
    dsimp only at hmod ⊢
    cases hctl : tryCtl? fails l.interest .mod fd (IoEvent.register (l.ioEvs fd) mask proc).mask with
    | none =>
      rw [hctl] at hmod
      exact hmod
    | some interest =>
      rw [hctl] at hmod
      dsimp only
      rw [hlisten]
      exact hmod

theorem SameFds.delIoEvent (h : SameFds l) {fails : Bool}
    (heff : l.Effective (.delIoEvent fails fd)) : SameFds (l.delIoEvent fails fd) := by
  cases hkernel : l.interest fd with
  | none =>
    -- the kernel refuses, and there is nothing to delete
    have hctl : tryCtl? fails l.interest .del fd 0 = none := by
      unfold tryCtl? epollCtl?
      cases fails <;> simp [hkernel]
    have hupdate := h.update fd none none rfl
    rw [← hkernel, Function.update_eq_self] at hupdate
    unfold EventLoop.delIoEvent
    rw [hctl]
    exact hupdate
  | some events =>
    have hknown : (l.ioEvs fd).isSome := by
      rw [← h.kernel, hkernel]
      rfl
    have hfails : fails = false := heff hknown
    have hctl : tryCtl? fails l.interest .del fd 0 = some (Function.update l.interest fd none) := by
      simp [tryCtl?, epollCtl?, hfails, hkernel]
    unfold EventLoop.delIoEvent
    rw [hctl]
    exact h.update fd _ _ rfl

theorem SameFds.delIoEventMask (h : SameFds l) {fails : Bool} {mask : UInt32}
    (heff : l.Effective (.delIoEventMask fails fd mask)) :
    SameFds (l.delIoEventMask fails fd mask) := by
  unfold EventLoop.delIoEventMask
  cases htable : l.ioEvs fd with
  | none => exact h
  | some ev =>
    dsimp only
    split_ifs with hzero
    · apply h.delIoEvent
      intro _
      exact heff ev htable hzero
    · exact h.modified fails fd _

theorem SameFds.perform (h : SameFds l) {a : LoopCall C} (heff : l.Effective a) :
    SameFds (l.perform a) := by
  cases a with
  | addIoEvent fails fd proc mask => exact h.addIoEvent heff
  | delIoEvent fails fd => exact h.delIoEvent heff
  | delIoEventMask fails fd mask => exact h.delIoEventMask heff

/-- A failed addition of a new descriptor is in the table and not in the kernel. -/
theorem not_sameFds_failed_add (h : SameFds l) (hnew : l.ioEvs fd = none) (proc : C)
    (mask : UInt32) : ¬ SameFds (l.addIoEvent true fd proc mask) := by
  intro hafter
  have hkernel := hafter.kernel fd
  have hbefore := h.kernel fd
  rw [hnew] at hbefore
  simp [addIoEvent, tryCtl?, hbefore] at hkernel

/-- A failed deletion of a known one is in the kernel and not in the table. -/
theorem not_sameFds_failed_del (h : SameFds l) (hknown : (l.ioEvs fd).isSome) :
    ¬ SameFds (l.delIoEvent true fd) := by
  intro hafter
  have hkernel := hafter.kernel fd
  have hbefore := h.kernel fd
  rw [hknown] at hbefore
  simp [delIoEvent, tryCtl?, hbefore] at hkernel

theorem effective_of_sameFds (h : SameFds l) {a : LoopCall C} (hafter : SameFds (l.perform a)) :
    l.Effective a := by
  cases a with
  | addIoEvent fails fd proc mask =>
    intro hnew
    cases fails with
    | false => rfl
    | true => exact absurd hafter (not_sameFds_failed_add h hnew proc mask)
  | delIoEvent fails fd =>
    intro hknown
    cases fails with
    | false => rfl
    | true => exact absurd hafter (not_sameFds_failed_del h hknown)
  | delIoEventMask fails fd mask =>
    intro ev htable hzero
    cases fails with
    | false => rfl
    | true =>
      have hknown : (l.ioEvs fd).isSome := by simp [htable]
      have hdel : l.delIoEventMask true fd mask = l.delIoEvent true fd := by
        simp [delIoEventMask, htable, hzero]
      change SameFds (l.delIoEventMask true fd mask) at hafter
      rw [hdel] at hafter
      exact absurd hafter (not_sameFds_failed_del h hknown)

theorem Effective.failedAddUndone {a : LoopCall C} (h : l.Effective a) : l.FailedAddUndone a := by
  cases a with
  | addIoEvent fails fd proc mask =>
    intro hnew hfails
    have hfalse : fails = false := h hnew
    rw [hfalse] at hfails
    cases hfails
  | delIoEvent fails fd => trivial
  | delIoEventMask fails fd mask => trivial

theorem run?_callStep? (l : EventLoop C) (as : List (LoopCall C)) :
    (run? callStep? l as).isSome := by
  induction as generalizing l with
  | nil => rfl
  | cons a as ih => exact ih (l.perform a)

theorem same_fds_iff (as : List (LoopCall C)) :
    ((∀ l ∈ visited callStep? (EventLoop.init : EventLoop C) as, l.SameFds) ∧
      ∀ x ∈ attempted callStep? EventLoop.init as, x.1.FailedAddUndone x.2) ↔
    ∀ x ∈ attempted callStep? EventLoop.init as, x.1.Effective x.2 := by
  have hkeep : ∀ (l : EventLoop C) a l', l.SameFds → l.Effective a → l.callStep? a = some l' →
      l'.SameFds := by
    intro l a l' hl heff hstep
    cases hstep
    exact hl.perform heff
  have hbreak : ∀ (l : EventLoop C) a l', l.SameFds → l.callStep? a = some l' → l'.SameFds →
      l.Effective a := by
    intro l a l' hl hstep hl'
    cases hstep
    exact effective_of_sameFds hl hl'
  constructor
  · intro h
    exact guard_of_run hbreak EventLoop.init as h.1 (run?_callStep? _ as)
  · intro heff
    exact ⟨forall_visited hkeep EventLoop.init as SameFds.init heff,
      fun x hx => (heff x hx).failedAddUndone⟩

/-- The first registration of a descriptor fails. The table keeps it all the same, so that the
next registration asks for a modification, which the kernel refuses too. -/
theorem failed_add_stays :
    let l := (EventLoop.init : EventLoop ℕ).addIoEvent true 3 0 Direction.epollin.mask
    ((l.ioEvs 3).isSome = true ∧ l.listenFds 3 = false ∧ l.interest 3 = none) ∧
      l.addOp 3 = .mod ∧ (l.addIoEvent false 3 0 Direction.epollin.mask).interest 3 = none := by
  decide

end EventLoop

end Lrlb.Reactor
