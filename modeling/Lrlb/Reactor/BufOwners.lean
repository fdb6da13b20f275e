import Lrlb.Lib.Run
import Lrlb.Reactor.BufPool
import Lrlb.Reactor.OutputBuf

/-! The buffers of any number of connections beside the pool they share. An operation that
exchanges its buffer for a larger one takes the lock of the pool twice, and operations on other
connections come in between. -/
namespace Lrlb.Reactor
open Lib

/-- Where a pointer to a buffer is kept: the `_buf` of a `reactor_buf`, or the `new_buf` of an
operation on it. -/
inductive BufSlot where
  | buf (i : ℕ)
  | newBuf (i : ℕ)
deriving DecidableEq

/-- What an operation has still to do after it has got a larger buffer. -/
inductive BufTask where
  | idle
  | reading (needRead : Int32) (got : Option (List UInt8))
  | sending (data : List UInt8)
deriving DecidableEq

structure BufSystem where
  pool : BufPool
  slot : BufSlot → Option BufPtr
  task : ℕ → BufTask

/-- Why there is no next state: the process exits at the memory limit, the assertion of `revert`
fails, a null pointer is used, another assertion fails or a buffer is overrun, or the action
cannot be taken. -/
inductive BufHalt where
  | exit
  | assertion
  | nullPointer
  | fault
  | blocked
deriving DecidableEq

inductive BufAction where
  | readData (i : ℕ) (needRead : Int32) (got : Option (List UInt8))
  | sendData (i : ℕ) (data : List UInt8)
  | pop (i : ℕ) (len : Int32)
  | adjust (i : ℕ)
  | write2fd (i : ℕ) (r : WriteResult)
  | clear (i : ℕ)
  | resume (i : ℕ)

namespace BufSystem

/-- The buffer that a `reactor_buf` points to. -/
def value (s : BufSystem) (i : ℕ) : Option IoBuf := (s.slot (.buf i)).map s.pool.bufs

/-- Replaces the contents of a buffer; `none` is an assertion that failed on the way to them. -/
def write (s : BufSystem) (p : BufPtr) : Option IoBuf → Except BufHalt BufSystem
  | none => .error .fault
  | some b => .ok { s with pool := s.pool.modify p fun _ => b }

def finishRead (s : BufSystem) (p : BufPtr) (needRead : Int32) (got : Option (List UInt8)) :
    Except BufHalt BufSystem :=
  s.write p ((finishRead? needRead got (s.pool.bufs p)).bind Prod.fst)

/-- The copy at the end of `send_data`. -/
def append (s : BufSystem) (p : BufPtr) (data : List UInt8) : Except BufHalt BufSystem :=
  let b := s.pool.bufs p
  s.write p (if b.capacity.toInt < b.length.toInt + data.length then none else some (b.write data))

def toFront (s : BufSystem) (p : BufPtr) : BufSystem :=
  { s with pool := s.pool.modify p fun b => if b.head ≠ 0 then b.adjust else b }

/-- `alloc_buf` into an empty slot; `none` is `NULL`. -/
def alloc (raw : BufPtr → ℤ → UInt8) (s : BufSystem) (n : Int32) (x : BufSlot) :
    Except BufHalt (Option (BufSystem × BufPtr)) :=
  match s.pool.allocBuf raw n with
  | .exit => .error .exit
  | .null => .ok none
  | .buf pool p =>
    .ok (some ({ s with pool := pool, slot := Function.update s.slot x (some p) }, p))

def setTask (s : BufSystem) (i : ℕ) (task : BufTask) : BufSystem :=
  { s with task := Function.update s.task i task }

section Operations

variable (raw : BufPtr → ℤ → UInt8)

def readData (s : BufSystem) (i : ℕ) (needRead : Int32) (got : Option (List UInt8)) :
    Except BufHalt BufSystem :=
  match s.slot (.buf i) with
  | none => do
    match ← s.alloc raw needRead (.buf i) with
    | none => .ok s
    | some (s, p) => s.finishRead p needRead got
  | some p =>
    let s := s.toFront p
    let b := s.pool.bufs p
    if b.capacity - b.length < needRead then do
      match ← s.alloc raw (needRead + b.length) (.newBuf i) with
      | none => .error .nullPointer
      | some (s, _) => .ok (s.setTask i (.reading needRead got))
    else s.finishRead p needRead got

def sendData (s : BufSystem) (i : ℕ) (data : List UInt8) : Except BufHalt BufSystem :=
  let datalen := Int32.ofNat data.length
  match s.slot (.buf i) with
  | none => do
    match ← s.alloc raw datalen (.buf i) with
    | none => .ok s
    | some (s, p) => s.append p data
  | some p =>
    let s := s.toFront p
    let b := s.pool.bufs p
    if b.capacity - b.length < datalen then do
      match ← s.alloc raw (datalen + b.length) (.newBuf i) with
      | none => .ok s
      | some (s, _) => .ok (s.setTask i (.sending data))
    else s.append p data

def revert (s : BufSystem) (p : BufPtr) (x : BufSlot) : Except BufHalt BufSystem :=
  match s.pool.revert? p with
  | none => .error .assertion
  | some pool => .ok { s with pool := pool, slot := Function.update s.slot x none }

/-- The old buffer is copied and given back, and the new one takes its place. -/
def exchange (s : BufSystem) (i : ℕ) (p q : BufPtr) : Except BufHalt BufSystem := do
  let s := { s with pool := s.pool.modify q fun b => b.copy (s.pool.bufs p) }
  let s ← s.revert p (.buf i)
  .ok { s with slot := Function.update (Function.update s.slot (.newBuf i) none) (.buf i) (some q) }

def resume (s : BufSystem) (i : ℕ) : Except BufHalt BufSystem :=
  match s.slot (.buf i), s.slot (.newBuf i) with
  | some p, some q =>
    match s.task i with
    | .idle => .error .blocked
    | .reading needRead got => do
      let s ← s.exchange i p q
      (s.setTask i .idle).finishRead q needRead got
    | .sending data => do
      let s ← s.exchange i p q
      (s.setTask i .idle).append q data
  | _, _ => .error .blocked

def clear (s : BufSystem) (i : ℕ) : Except BufHalt BufSystem :=
  match s.slot (.buf i) with
  | none => .ok s
  | some p => s.revert p (.buf i)

/-- The operations that only work on the buffer that is there. -/
def update (s : BufSystem) (i : ℕ) (f : IoBuf → Option IoBuf) : Except BufHalt BufSystem :=
  match s.slot (.buf i) with
  | none => .error .fault
  | some p => s.write p (f (s.pool.bufs p))

def adjust (s : BufSystem) (i : ℕ) : Except BufHalt BufSystem :=
  match s.slot (.buf i) with
  | none => .ok s
  | some p => s.write p (some (s.pool.bufs p).adjust)

def step (s : BufSystem) : BufAction → Except BufHalt BufSystem
  | .readData i needRead got =>
    if s.task i = .idle then s.readData raw i needRead got else .error .blocked
  | .sendData i data => if s.task i = .idle then s.sendData raw i data else .error .blocked
  | .pop i len =>
    if s.task i = .idle then s.update i fun b => reactorPop? b len else .error .blocked
  | .adjust i => if s.task i = .idle then s.adjust i else .error .blocked
  | .write2fd i r =>
    if s.task i = .idle then s.update i fun b => (write2fd? (some b) r).bind Prod.fst
    else .error .blocked
  | .clear i => if s.task i = .idle then s.clear i else .error .blocked
  | .resume i => s.resume i

def step? (s : BufSystem) (a : BufAction) : Option BufSystem := (s.step raw a).toOption

def init : BufSystem := ⟨BufPool.create raw, fun _ => none, fun _ => .idle⟩

end Operations

/-- What arrives leaves at most 4 MB unread, and what is sent is no longer than 2^30. -/
def InDomain (s : BufSystem) : BufAction → Prop
  | .readData i needRead _ =>
    0 ≤ needRead.toInt ∧ (bufLength (s.value i)).toInt + needRead.toInt ≤ maxCap
  | .sendData _ data => data.length ≤ 2 ^ 30
  | _ => True

instance (s : BufSystem) : (a : BufAction) → Decidable (s.InDomain a)
  | .readData .. => inferInstanceAs (Decidable (_ ∧ _))
  | .sendData .. => inferInstanceAs (Decidable (_ ≤ _))
  | .pop .. | .adjust _ | .write2fd .. | .clear _ | .resume _ => inferInstanceAs (Decidable True)

structure Inv (s : BufSystem) : Prop where
  accounted : ∃ free, s.pool.Accounted s.slot free
  task : ∀ i, s.task i = .idle → s.slot (.newBuf i) = none

/-- An operation that keeps the buffers apart, and stops only for reasons of its own. -/
def Safe (r : Except BufHalt BufSystem) : Prop :=
  (∀ t, r = .ok t → t.Inv) ∧ r ≠ .error .assertion ∧ r ≠ .error .nullPointer

variable {raw : BufPtr → ℤ → UInt8} {s t : BufSystem} {x : BufSlot} {p q : BufPtr} {i j : ℕ}

theorem Safe.ok (h : t.Inv) : Safe (.ok t) :=
  ⟨fun _ he => Except.ok.inj he ▸ h, nofun, nofun⟩

theorem Safe.stop {e : BufHalt} (ha : e ≠ .assertion) (hn : e ≠ .nullPointer) : Safe (.error e) :=
  ⟨nofun, fun he => ha (Except.error.inj he), fun he => hn (Except.error.inj he)⟩

theorem Inv.modify (h : s.Inv) (hx : s.slot x = some p) {f : IoBuf → IoBuf}
    (hf : (f (s.pool.bufs p)).capacity = (s.pool.bufs p).capacity) :
    Inv { s with pool := s.pool.modify p f } := by
  obtain ⟨free, hacc⟩ := h.accounted
  exact ⟨⟨free, hacc.modify hx hf⟩, h.task⟩

theorem Safe.write (h : s.Inv) (hx : s.slot x = some p) {b : Option IoBuf}
    (hb : ∀ b', b = some b' → b'.capacity = (s.pool.bufs p).capacity) : Safe (s.write p b) := by
  cases b with
  | none => exact .stop nofun nofun
  | some b => exact .ok (h.modify hx (hb b rfl))

theorem finishRead?_capacity {needRead ret : Int32} {got : Option (List UInt8)} {b : IoBuf}
    {o : Option IoBuf} (h : finishRead? needRead got b = some (o, ret)) :
    ∃ b', o = some b' ∧ b'.capacity = b.capacity := by
  unfold finishRead? Reactor.finishRead at h
  cases got with
  | none =>
    cases h
    exact ⟨b, rfl, rfl⟩
  | some bs =>
    cases bs with
    | nil =>
      cases h
      exact ⟨b, rfl, rfl⟩
    | cons c bs =>
      dsimp only at h
      split_ifs at h <;> cases h
      exact ⟨_, rfl, rfl⟩

theorem Safe.finishRead (h : s.Inv) (hx : s.slot x = some p) (needRead : Int32)
    (got : Option (List UInt8)) : Safe (s.finishRead p needRead got) := by
  refine Safe.write h hx fun b' hb => ?_
  obtain ⟨⟨o, ret⟩, hfin, ho⟩ := Option.bind_eq_some_iff.mp hb
  obtain ⟨b₁, rfl, hcap⟩ := finishRead?_capacity hfin
  cases ho
  exact hcap

theorem Safe.append (h : s.Inv) (hx : s.slot x = some p) (data : List UInt8) :
    Safe (s.append p data) := by
  refine Safe.write h hx fun b' hb => ?_
  split_ifs at hb
  cases hb
  rfl

theorem Inv.toFront (h : s.Inv) (hx : s.slot x = some p) : (s.toFront p).Inv := by
  refine h.modify hx ?_
  split_ifs <;> simp

theorem length_toFront (s : BufSystem) (p : BufPtr) :
    ((s.toFront p).pool.bufs p).length = (s.pool.bufs p).length := by
  change ((s.pool.modify p _).bufs p).length = _
  rw [BufPool.bufs_modify_self]
  split_ifs <;> simp

/-- What `alloc_buf` can come to, and where the buffer is then. -/
theorem alloc_cases (raw : BufPtr → ℤ → UInt8) (h : s.Inv) (hx : s.slot x = none) (n : Int32) :
    s.alloc raw n x = .error .exit ∨ (s.alloc raw n x = .ok none ∧ memCap? n = none) ∨
    ∃ t p, s.alloc raw n x = .ok (some (t, p)) ∧ (∃ free, t.pool.Accounted t.slot free) ∧
      t.slot = Function.update s.slot x (some p) ∧ t.task = s.task ∧
      (∃ garbage, allocBuf? garbage n = some (t.pool.bufs p)) ∧ (∀ y, s.slot y ≠ some p) ∧
      ∀ q, q ≠ p → t.pool.bufs q = s.pool.bufs q := by
  obtain ⟨free, hacc⟩ := h.accounted
  unfold BufSystem.alloc
  cases halloc : s.pool.allocBuf raw n with
  | exit => exact Or.inl rfl
  | null =>
    refine Or.inr (Or.inl ⟨rfl, ?_⟩)
    cases hcap : memCap? n with
    | none => rfl
    | some index => exact absurd halloc (BufPool.allocBuf_ne_null hcap)
  | buf pool p =>
    obtain ⟨hcap, hlen, hhead, -, hnew, hbufs⟩ := hacc.allocBuf_spec halloc
    have hfresh : IoBuf.new (pool.bufs p).capacity (pool.bufs p).data = pool.bufs p := by
      generalize pool.bufs p = b at hlen hhead
      cases b
      cases hlen
      cases hhead
      rfl
    refine Or.inr (Or.inr ⟨_, p, rfl, hacc.alloc hx halloc, rfl, rfl, ⟨(pool.bufs p).data, ?_⟩,
      hnew, hbufs⟩)
    rw [allocBuf?, hcap, Option.map_some, hfresh]

theorem Inv.of_alloc_buf (h : s.Inv) (hfree : ∃ free, t.pool.Accounted t.slot free)
    (hslot : t.slot = Function.update s.slot (.buf i) (some p)) (htask : t.task = s.task) : t.Inv := by
  refine ⟨hfree, fun j hj => ?_⟩
  rw [hslot, Function.update_of_ne (by simp)]
  exact h.task j (htask ▸ hj)

theorem Inv.of_alloc_newBuf (h : s.Inv) (hfree : ∃ free, t.pool.Accounted t.slot free)
    (hslot : t.slot = Function.update s.slot (.newBuf i) (some p)) (htask : t.task = s.task)
    {task : BufTask} (hbusy : task ≠ .idle) : (t.setTask i task).Inv := by
  refine ⟨hfree, fun j hj => ?_⟩
  change Function.update t.task i task j = .idle at hj
  have hne : j ≠ i := by
    rintro rfl
    rw [Function.update_self] at hj
    exact hbusy hj
  rw [Function.update_of_ne hne, htask] at hj
  change t.slot (.newBuf j) = none
  rw [hslot, Function.update_of_ne (by simpa using hne)]
  exact h.task j hj

theorem Safe.readData (h : s.Inv) (hidle : s.task i = .idle) {needRead : Int32}
    (hneed : 0 ≤ needRead.toInt)
    (hfit : (bufLength (s.value i)).toInt + needRead.toInt ≤ maxCap) (got : Option (List UInt8)) :
    Safe (s.readData raw i needRead got) := by
  unfold BufSystem.readData
  cases hx : s.slot (.buf i) with
  | none =>
    dsimp only
    rcases alloc_cases raw h hx needRead with he | ⟨he, -⟩ |
      ⟨t, p, he, hfree, hslot, htask, -⟩ <;> rw [he]
    · exact .stop nofun nofun
    · exact .ok h
    · refine Safe.finishRead (x := .buf i) (h.of_alloc_buf hfree hslot htask) ?_ needRead got
      rw [hslot, Function.update_self]
  | some p =>
    have hfront := h.toFront hx
    dsimp only
    split_ifs with hgrow
    · have hlen := s.length_toFront p
      have hvalue : bufLength (s.value i) = (s.pool.bufs p).length := by
        rw [value, hx]
        rfl
      have hsum : (needRead + ((s.toFront p).pool.bufs p).length).toInt ≤ maxCap := by
        rw [hlen, ← hvalue]
        have hmax : (maxCap : ℤ) = 4194304 := rfl
        have := (bufLength (s.value i)).le_toInt
        rw [toInt_add_of_range (by omega) (by omega)]
        omega
      rcases alloc_cases raw hfront (h.task i hidle)
        (needRead + ((s.toFront p).pool.bufs p).length) with he | ⟨he, hnull⟩ |
        ⟨t, q, he, hfree, hslot, htask, -⟩ <;> rw [he]
      · exact .stop nofun nofun
      · obtain ⟨c, hc⟩ := memCap?_isSome hsum
        exact nomatch hnull.symm.trans hc
      · exact .ok (hfront.of_alloc_newBuf hfree hslot htask nofun)
    · exact Safe.finishRead (x := .buf i) hfront hx needRead got

theorem Safe.sendData (h : s.Inv) (hidle : s.task i = .idle) (data : List UInt8) :
    Safe (s.sendData raw i data) := by
  unfold BufSystem.sendData
  cases hx : s.slot (.buf i) with
  | none =>
    dsimp only
    rcases alloc_cases raw h hx (Int32.ofNat data.length) with he | ⟨he, -⟩ |
      ⟨t, p, he, hfree, hslot, htask, -⟩ <;> rw [he]
    · exact .stop nofun nofun
    · exact .ok h
    · refine Safe.append (x := .buf i) (h.of_alloc_buf hfree hslot htask) ?_ data
      rw [hslot, Function.update_self]
  | some p =>
    have hfront := h.toFront hx
    dsimp only
    split_ifs with hgrow
    · rcases alloc_cases raw hfront (h.task i hidle)
        (Int32.ofNat data.length + ((s.toFront p).pool.bufs p).length) with he | ⟨he, -⟩ |
        ⟨t, q, he, hfree, hslot, htask, -⟩ <;> rw [he]
      · exact .stop nofun nofun
      · exact .ok hfront
      · exact .ok (hfront.of_alloc_newBuf hfree hslot htask nofun)
    · exact Safe.append (x := .buf i) hfront hx data

/-- The assertion of `revert` holds for every buffer that somebody owns. -/
theorem revert_eq (h : ∃ free, s.pool.Accounted s.slot free) (hx : s.slot x = some p) :
    ∃ t, s.revert p x = .ok t ∧ (∃ free, t.pool.Accounted t.slot free) ∧
      t.slot = Function.update s.slot x none ∧ t.task = s.task ∧
      ∀ q, q ≠ p → t.pool.bufs q = s.pool.bufs q := by
  obtain ⟨free, hacc⟩ := h
  obtain ⟨pool, free', hrev, hacc', hbufs⟩ := hacc.revert hx
  refine ⟨{ s with pool := pool, slot := Function.update s.slot x none }, ?_, ⟨free', hacc'⟩, rfl,
    rfl, hbufs⟩
  unfold BufSystem.revert
  rw [hrev]

/-- The exchange of a buffer, which leaves everybody else's buffers as they are. -/
theorem exchange_eq (h : s.Inv) (hp : s.slot (.buf i) = some p) (hq : s.slot (.newBuf i) = some q) :
    ∃ t, s.exchange i p q = .ok t ∧ (∃ free, t.pool.Accounted t.slot free) ∧
      t.slot = Function.update (Function.update s.slot (.newBuf i) none) (.buf i) (some q) ∧
      t.task = s.task ∧ t.pool.bufs q = (s.pool.bufs q).copy (s.pool.bufs p) ∧
      ∀ r, r ≠ p → r ≠ q → t.pool.bufs r = s.pool.bufs r := by
  have hne : q ≠ p := by
    rintro rfl
    obtain ⟨free, hacc⟩ := h.accounted
    exact nomatch hacc.unique _ _ _ hp hq
  have hcopy : Inv { s with pool := s.pool.modify q fun b => b.copy (s.pool.bufs p) } :=
    h.modify hq rfl
  obtain ⟨t, hrev, ⟨free, hacc⟩, hslot, htask, hbufs⟩ := revert_eq hcopy.accounted hp
  have hnew : t.slot (.newBuf i) = some q := by
    rw [hslot, Function.update_of_ne (by simp)]
    exact hq
  have hold : t.slot (.buf i) = none := by
    rw [hslot, Function.update_self]
  have hupdate : Function.update (Function.update t.slot (.newBuf i) none) (.buf i) (some q) =
      Function.update (Function.update s.slot (.newBuf i) none) (.buf i) (some q) := by
    rw [hslot]
    funext y
    by_cases hy : y = .buf i
    · subst y
      simp
    · simp [Function.update_apply, hy]
  refine ⟨{ t with
      slot := Function.update (Function.update t.slot (.newBuf i) none) (.buf i) (some q) }, ?_,
    ⟨free, hacc.move hnew hold⟩, hupdate, htask, ?_, fun r hrp hrq => ?_⟩
  · unfold BufSystem.exchange
    dsimp only
    rw [hrev]
    rfl
  · exact (hbufs q hne).trans (s.pool.bufs_modify_self q fun b => b.copy (s.pool.bufs p))
  · exact (hbufs r hrp).trans (s.pool.bufs_modify_ne hrq fun b => b.copy (s.pool.bufs p))

theorem Inv.of_exchange (h : s.Inv) (hfree : ∃ free, t.pool.Accounted t.slot free)
    (hslot : t.slot = Function.update (Function.update s.slot (.newBuf i) none) (.buf i) (some q))
    (htask : t.task = s.task) : (t.setTask i .idle).Inv := by
  refine ⟨hfree, fun j hj => ?_⟩
  change t.slot (.newBuf j) = none
  rw [hslot, Function.update_of_ne (by simp)]
  by_cases hji : j = i
  · subst j
    rw [Function.update_self]
  · change Function.update t.task i .idle j = .idle at hj
    rw [Function.update_of_ne hji, htask] at hj
    rw [Function.update_of_ne (by simpa using hji)]
    exact h.task j hj

theorem Safe.resume (h : s.Inv) (i : ℕ) : Safe (s.resume i) := by
  unfold BufSystem.resume
  cases hp : s.slot (.buf i) with
  | none => exact .stop nofun nofun
  | some p =>
    cases hq : s.slot (.newBuf i) with
    | none => exact .stop nofun nofun
    | some q =>
      obtain ⟨t, he, hfree, hslot, htask, -⟩ := exchange_eq h hp hq
      have hinv := h.of_exchange hfree hslot htask
      have hx : (t.setTask i .idle).slot (.buf i) = some q := by
        change t.slot (.buf i) = some q
        rw [hslot, Function.update_self]
      dsimp only
      cases s.task i with
      | idle => exact .stop nofun nofun
      | reading needRead got =>
        dsimp only
        rw [he]
        exact Safe.finishRead hinv hx needRead got
      | sending data =>
        dsimp only
        rw [he]
        exact Safe.append hinv hx data

theorem Safe.clear (h : s.Inv) (i : ℕ) : Safe (s.clear i) := by
  unfold BufSystem.clear
  cases hx : s.slot (.buf i) with
  | none => exact .ok h
  | some p =>
    obtain ⟨t, he, hfree, hslot, htask, -⟩ := revert_eq h.accounted hx
    dsimp only
    rw [he]
    refine .ok ⟨hfree, fun j hj => ?_⟩
    rw [hslot, Function.update_of_ne (by simp)]
    exact h.task j (htask ▸ hj)

theorem Safe.update (h : s.Inv) (i : ℕ) {f : IoBuf → Option IoBuf}
    (hf : ∀ b b', f b = some b' → b'.capacity = b.capacity) : Safe (s.update i f) := by
  unfold BufSystem.update
  cases hx : s.slot (.buf i) with
  | none => exact .stop nofun nofun
  | some p => exact Safe.write h hx fun b' hb => hf _ b' hb

theorem write2fd?_capacity {b b' : IoBuf} {r : WriteResult}
    (h : (write2fd? (some b) r).bind Prod.fst = some b') : b'.capacity = b.capacity := by
  have hfront : (if b.head ≠ 0 then b.adjust else b).capacity = b.capacity := by
    split_ifs <;> simp
  obtain ⟨out, hout, rest⟩ := Option.bind_eq_some_iff.mp h
  simp only [write2fd?, Option.bind_some] at hout
  cases r with
  | wrote k =>
    dsimp only at hout
    split_ifs at hout <;> cases hout <;> cases rest <;> simp [IoBuf.pop]
  | again =>
    cases hout
    cases rest
    exact hfront
  | error =>
    cases hout
    cases rest
    exact hfront

theorem Safe.step (h : s.Inv) {a : BufAction} (hdom : s.InDomain a) : Safe (s.step raw a) := by
  unfold BufSystem.step
  cases a with
  | readData i needRead got =>
    dsimp only
    split_ifs with hidle
    · exact .readData h hidle hdom.1 hdom.2 got
    · exact .stop nofun nofun
  | sendData i data =>
    dsimp only
    split_ifs with hidle
    · exact .sendData h hidle data
    · exact .stop nofun nofun
  | pop i len =>
    dsimp only
    split_ifs with hidle
    · refine .update h i fun b b' hb => ?_
      unfold reactorPop? at hb
      split_ifs at hb
      cases hb
      rfl
    · exact .stop nofun nofun
  | adjust i =>
    dsimp only
    split_ifs with hidle
    · unfold BufSystem.adjust
      cases hx : s.slot (.buf i) with
      | none => exact .ok h
      | some p =>
        refine Safe.write h hx fun b' hb => ?_
        cases hb
        simp
    · exact .stop nofun nofun
  | write2fd i r =>
    dsimp only
    split_ifs with hidle
    · exact .update h i fun b b' hb => write2fd?_capacity hb
    · exact .stop nofun nofun
  | clear i =>
    dsimp only
    split_ifs with hidle
    · exact .clear h i
    · exact .stop nofun nofun
  | resume i => exact .resume h i

theorem Inv.step (h : s.Inv) {a : BufAction} (hdom : s.InDomain a)
    (hs : s.step? raw a = some t) : t.Inv := by
  unfold step? at hs
  cases hr : s.step raw a with
  | error e =>
    rw [hr] at hs
    cases hs
  | ok u =>
    rw [hr] at hs
    cases hs
    exact (Safe.step h hdom).1 t hr

theorem Inv.init (raw : BufPtr → ℤ → UInt8) : (init raw).Inv :=
  ⟨BufPool.Accounted.create _ fun _ => rfl, fun _ _ => rfl⟩

/-- The buffer is in the free list of its size, once, or in one slot, and nowhere else. -/
def OwnedOnce (s : BufSystem) (free : Int32 → List BufPtr) (p : BufPtr) : Prop :=
  ((free (s.pool.bufs p).capacity).count p = 1 ∧
    (∀ index, index ≠ (s.pool.bufs p).capacity → p ∉ free index) ∧ ∀ x, s.slot x ≠ some p) ∨
  ((∀ index, p ∉ free index) ∧ ∃ x, s.slot x = some p ∧ ∀ y, s.slot y = some p → y = x)

theorem ownedOnce {free : Int32 → List BufPtr} (h : s.pool.Accounted s.slot free)
    (hp : p < s.pool.count) : s.OwnedOnce free p := by
  rcases h.total p hp with ⟨index, hmem⟩ | ⟨x, hx⟩
  · have hsize : (s.pool.bufs p).capacity = index := (h.idle index p hmem).2.1
    refine Or.inl ⟨?_, fun i hi hmem' => ?_, fun x hx => (h.held x p hx).2.2 index hmem⟩
    · rw [hsize]
      exact List.count_eq_one_of_mem (h.linked index).nodup hmem
    · exact hi ((h.index_eq hmem' hmem).trans hsize.symm)
  · exact Or.inr ⟨(h.held x p hx).2.2, x, hx, fun y hy => h.unique y x p hy hx⟩

/-- In every run, whatever the operations on the connections and the order in which they take the
lock, every buffer is in the free list of its size or has one owner. A request for at most 4 MB
gets a buffer that is large enough, empty and in no list, unless the process exits at its memory
limit, and the assertion of `revert` holds. -/
theorem buffers_owned_once (raw : BufPtr → ℤ → UInt8) (as : List BufAction)
    (hdom : ∀ x ∈ attempted (step? raw) (init raw) as, InDomain x.1 x.2) :
    ∀ s ∈ visited (step? raw) (init raw) as,
      (∃ free : Int32 → List BufPtr,
        (∀ index, Linked s.pool.next (s.pool.entry index) (free index)) ∧
        ∀ p < s.pool.count, s.OwnedOnce free p) ∧
      (∀ i, s.task i = .idle → s.slot (.newBuf i) = none) ∧
      (∀ n : Int32, n.toInt ≤ maxCap → s.pool.allocBuf raw n = .exit ∨
        ∃ pool p, s.pool.allocBuf raw n = .buf pool p ∧ pool.next p = none ∧
          n.toInt ≤ (pool.bufs p).capacity.toInt ∧ (pool.bufs p).length = 0 ∧
          (pool.bufs p).head = 0 ∧ ∀ x, s.slot x ≠ some p) ∧
      ∀ a, s.InDomain a → s.step raw a ≠ .error .assertion := by
  intro s hs
  have h : s.Inv := forall_visited (G := InDomain) (fun _ _ _ h hd hstep => h.step hd hstep)
    (init raw) as (.init raw) hdom s hs
  obtain ⟨free, hacc⟩ := h.accounted
  refine ⟨⟨free, hacc.linked, fun p hp => ownedOnce hacc hp⟩, h.task, fun n hn => ?_,
    fun a ha => (Safe.step h ha).2.1⟩
  cases halloc : s.pool.allocBuf raw n with
  | exit => exact Or.inl rfl
  | null =>
    obtain ⟨c, hc⟩ := memCap?_isSome hn
    exact absurd halloc (BufPool.allocBuf_ne_null hc)
  | buf pool p =>
    obtain ⟨hcap, hlen, hhead, hnext, hnew, -⟩ := hacc.allocBuf_spec halloc
    exact Or.inr ⟨pool, p, rfl, hnext, (memCap?_spec hcap).1, hlen, hhead, hnew⟩

/-- Connection 7 outgrows its first buffer. Connection 9 reads before that, and is closed while
connection 7 holds both its buffers. -/
def growthRun : List BufAction :=
  [.sendData 7 [1, 2, 3], .readData 9 2 (some [4, 5]), .sendData 7 (List.replicate 4094 0),
    .clear 9, .resume 7]

-- The two buffers of 4 KB are back at the head of their list, the last one given back first.
theorem buffers_owned_once_growthRun :
    ∃ s, run? (step? fun _ _ => 0) (init fun _ _ => 0) growthRun = some s ∧
      s.slot (.buf 7) = some 5000 ∧ s.slot (.buf 9) = none ∧ s.pool.entry 4096 = some 0 ∧
      s.pool.next 0 = some 1 ∧
      ∃ free : Int32 → List BufPtr,
        (∀ index, Linked s.pool.next (s.pool.entry index) (free index)) ∧
        ∀ p < s.pool.count, s.OwnedOnce free p := by
  have heval : (run? (step? fun _ _ => 0) (init fun _ _ => 0) growthRun).map (fun s =>
      (s.slot (.buf 7), s.slot (.buf 9), s.pool.entry 4096, s.pool.next 0)) =
      some (some 5000, none, some 0, some 1) := by decide +kernel
  have hdom : ∀ x ∈ attempted (step? fun _ _ => 0) (init fun _ _ => 0) growthRun,
      InDomain x.1 x.2 := by decide +kernel
  obtain ⟨s, hs, hfields⟩ := Option.map_eq_some_iff.mp heval
  simp only [Prod.mk.injEq] at hfields
  obtain ⟨hseven, hnine, hentry, hnext⟩ := hfields
  have howned := (buffers_owned_once (fun _ _ => 0) growthRun hdom s (mem_visited_of_run? hs)).1
  exact ⟨s, hs, hseven, hnine, hentry, hnext, howned⟩

end BufSystem

end Lrlb.Reactor
