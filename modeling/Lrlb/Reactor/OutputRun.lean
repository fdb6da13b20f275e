import Lrlb.Lib.Run
import Lrlb.Reactor.OutputBuf

/-! The output buffer as a queue of bytes, over whole runs of sends and writes. -/
namespace Lrlb.Reactor
open Lib

/-- A call on an output buffer, with the old bytes of the memory that it may be given. -/
inductive OutputOp where
  | sendData (raw : ℤ → UInt8) (data : List UInt8) (short : data.length ≤ 2 ^ 30)
  | write2fd (r : WriteResult)

/-- An output buffer with the bytes that the socket has taken and those of the sends that
returned 0. -/
structure OutputState where
  buf : Option IoBuf
  written : List UInt8
  accepted : List UInt8

namespace OutputState

def init : OutputState := ⟨none, [], []⟩

def step? (s : OutputState) : OutputOp → Option OutputState
  | .sendData raw data _ =>
    let (buf, ret) := sendData raw s.buf data
    some ⟨buf, s.written, if ret = 0 then s.accepted ++ data else s.accepted⟩
  | .write2fd r => (write2fd? s.buf r).map fun (buf, bytes, _) =>
    ⟨buf, s.written ++ bytes, s.accepted⟩

end OutputState

/-- Between two calls the unsent bytes are at the front. -/
def AtFront (buf : Option IoBuf) : Prop := ∀ b, buf = some b → b.head = 0

section AtFront

variable {buf : Option IoBuf}

theorem sendData_atFront (raw : ℤ → UInt8) (buf : Option IoBuf) (data : List UInt8) :
    AtFront (sendData raw buf data).1 := by
  unfold sendData
  cases buf with
  | none =>
    dsimp only
    cases halloc : allocBuf? raw (Int32.ofNat data.length) with
    | none => nofun
    | some b =>
      rintro _ ⟨⟩
      exact (allocBuf?_spec halloc).2.1
  | some b₀ =>
    dsimp only
    rw [adjust_if_moved]
    split_ifs
    · cases allocBuf? raw (Int32.ofNat data.length + b₀.adjust.length) with
      | none =>
        rintro _ ⟨⟩
        exact b₀.adjust_head
      | some newBuf =>
        rintro _ ⟨⟩
        rfl
    · rintro _ ⟨⟩
      exact b₀.adjust_head

theorem write2fd?_atFront {r : WriteResult} {buf' : Option IoBuf} {bytes : List UInt8} {ret : Int32}
    (hw : write2fd? buf r = some (buf', bytes, ret)) : AtFront buf' := by
  cases buf with
  | none => cases hw
  | some b₀ =>
    simp only [write2fd?, Option.bind_some, adjust_if_moved] at hw
    cases r with
    | wrote k =>
      dsimp only at hw
      split_ifs at hw
      · cases hw
        rintro _ ⟨⟩
        exact IoBuf.adjust_head _
      · cases hw
        rintro _ ⟨⟩
        exact b₀.adjust_head
    | again =>
      cases hw
      rintro _ ⟨⟩
      exact b₀.adjust_head
    | error =>
      cases hw
      rintro _ ⟨⟩
      exact b₀.adjust_head

/-- A refused send leaves the buffer as it is. -/
theorem sendData_refused (h : AtFront buf) {raw : ℤ → UInt8} {data : List UInt8}
    (hret : (sendData raw buf data).2 ≠ 0) : (sendData raw buf data).1 = buf := by
  rw [sendData_of_refused hret]
  cases buf with
  | none => rfl
  | some b => exact congrArg some (if_neg (not_not.mpr (h b rfl)))

end AtFront

namespace OutputState

variable {s t : OutputState}

/-- The buffer holds what was accepted and is not yet written, from its front on. -/
structure Queued (s : OutputState) : Prop where
  ok : OutOk s.buf
  front : AtFront s.buf
  bytes : s.written ++ unread s.buf = s.accepted

theorem Queued.step (h : Queued s) {op : OutputOp} (hstep : s.step? op = some t) : Queued t := by
  cases op with
  | sendData raw data short =>
    obtain ⟨hok, hsend⟩ := sendData_spec raw h.ok short
    have hfront := sendData_atFront raw s.buf data
    simp only [step?] at hstep
    generalize sendData raw s.buf data = r at hok hsend hfront hstep
    obtain ⟨buf, ret⟩ := r
    cases hstep
    refine ⟨hok, hfront, ?_⟩
    obtain ⟨rfl, hcon⟩ | ⟨rfl, hcon⟩ := hsend
    · simp only [hcon, if_true, ← h.bytes, List.append_assoc]
    · simp only [hcon, h.bytes]
      exact (if_neg (by decide)).symm
  | write2fd r =>
    obtain ⟨⟨buf, bytes, ret⟩, hw, rfl⟩ := Option.map_eq_some_iff.mp hstep
    obtain ⟨hok, hcon⟩ := write2fd?_spec h.ok hw
    refine ⟨hok, write2fd?_atFront hw, ?_⟩
    simp only [List.append_assoc, hcon, h.bytes]

/-- Only a write without a buffer, or one that takes more than it is given, ends a run. -/
theorem step?_eq_none {op : OutputOp} (hstep : s.step? op = none) :
    ∃ r, op = .write2fd r ∧
      (s.buf = none ∨ ∃ k, r = .wrote k ∧ (bufLength s.buf).toInt < k) := by
  cases op with
  | sendData raw data short => cases hstep
  | write2fd r =>
    refine ⟨r, rfl, ?_⟩
    have hw : write2fd? s.buf r = none := Option.map_eq_none_iff.mp hstep
    cases hbuf : s.buf with
    | none => exact Or.inl rfl
    | some b =>
      rw [hbuf, write2fd?, Option.bind_some, adjust_if_moved] at hw
      cases r with
      | wrote k =>
        dsimp only at hw
        split_ifs at hw with hmany
        rw [IoBuf.adjust_length] at hmany
        exact Or.inr ⟨k, rfl, hmany⟩
      | again => cases hw
      | error => cases hw

/-- In every state of every run the bytes written and the bytes buffered are those of the sends
that were accepted, in order, and lie within the buffer. A refused send changes nothing. -/
theorem output_is_queue (ops : List OutputOp) :
    ∀ s ∈ visited step? init ops,
      s.written ++ unread s.buf = s.accepted ∧
      (∀ b, s.buf = some b → 0 ≤ b.head.toInt ∧ 0 ≤ b.length.toInt ∧
        b.head.toInt + b.length.toInt ≤ b.capacity.toInt) ∧
      (∀ raw data, data.length ≤ 2 ^ 30 → (sendData raw s.buf data).2 ≠ 0 →
        (sendData raw s.buf data).1 = s.buf) ∧
      ∀ op, s.step? op = none → ∃ r, op = .write2fd r ∧
        (s.buf = none ∨ ∃ k, r = .wrote k ∧ (bufLength s.buf).toInt < k) := by
  have hinit : Queued init := ⟨OutOk.none, nofun, rfl⟩
  have hall : ∀ s ∈ visited step? init ops, Queued s :=
    forall_visited (G := fun _ _ => True) (fun _ _ _ h _ hstep => h.step hstep) init ops hinit
      fun _ _ => trivial
  intro s hs
  have h := hall s hs
  refine ⟨h.bytes, fun b hb => ?_, fun raw data _ => sendData_refused h.front, fun _ => step?_eq_none⟩
  have hv := (h.ok b hb).valid
  exact ⟨hv.head, hv.length, hv.capacity⟩

/-- Two sends around a write that takes the first of them in part. -/
def partialWrite : List OutputOp :=
  [.sendData (fun _ => 0) [1, 2, 3] (by decide), .write2fd (.wrote 2),
    .sendData (fun _ => 0) [4] (by decide), .write2fd .again]

theorem output_is_queue_partialWrite :
    ∃ s ∈ visited step? init partialWrite,
      s.written = [1, 2] ∧ s.accepted = [1, 2, 3, 4] ∧ s.written ++ unread s.buf = s.accepted := by
  have hrun : (run? step? init partialWrite).map (fun s => (s.written, s.accepted)) =
      some ([1, 2], [1, 2, 3, 4]) := by decide +kernel
  obtain ⟨s, hs, he⟩ := Option.map_eq_some_iff.mp hrun
  have hmem := mem_visited_of_run? hs
  exact ⟨s, hmem, congrArg Prod.fst he, congrArg Prod.snd he,
    (output_is_queue partialWrite s hmem).1⟩

end OutputState

end Lrlb.Reactor
