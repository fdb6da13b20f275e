import Lrlb.Lib.Run
import Lrlb.Reactor.BufPool

/-! How many bytes the pool has taken from the heap, beside the KB that it accounts for. -/
namespace Lrlb.Reactor
open Lib

inductive PoolOp where
  | allocBuf (n : Int32)
  | revert (buffer : BufPtr)

namespace BufPool

variable (raw : BufPtr → ℤ → UInt8)

/-- One call on the pool. `none` is the end of the process or the failed assertion of `revert`. -/
def poolStep? (s : BufPool) : PoolOp → Option BufPool
  | .allocBuf n =>
    match s.allocBuf raw n with
    | .exit => none
    | .null => some s
    | .buf t _ => some t
  | .revert buffer => s.revert? buffer

/-- The bytes of all buffers that were ever made. -/
def bytes (s : BufPool) : ℕ := ∑ p ∈ Finset.range s.count, (s.bufs p).capacity.toInt.toNat

variable {raw} {s t : BufPool}

theorem bytes_newBuf (s : BufPool) (size : Int32) :
    (s.newBuf raw size).bytes = s.bytes + size.toInt.toNat := by
  have hold : ∀ p ∈ Finset.range s.count,
      ((s.newBuf raw size).bufs p).capacity.toInt.toNat = (s.bufs p).capacity.toInt.toNat := by
    intro p hp
    have hne : p ≠ s.count := Nat.ne_of_lt (Finset.mem_range.mp hp)
    simp only [newBuf, Function.update_of_ne hne]
  have hnew : ((s.newBuf raw size).bufs s.count).capacity = size := by
    simp [newBuf, IoBuf.new]
  change ∑ p ∈ Finset.range (s.count + 1), _ = _
  rw [Finset.sum_range_succ, Finset.sum_congr rfl hold, hnew]
  rfl

theorem bytes_fill (size : Int32) (k : ℕ) (s : BufPool) (prev : BufPtr) :
    (fill raw size k s prev).bytes = s.bytes + k * size.toInt.toNat := by
  induction k generalizing s prev with
  | zero => simp [fill]
  | succ k ih =>
    have hnew : ((s.newBuf raw size).setNext prev (some s.count)).bytes =
        s.bytes + size.toInt.toNat := bytes_newBuf s size
    rw [fill, ih, hnew]
    ring

theorem bytes_addClass (s : BufPool) (size : Int32) (num mem : ℕ) :
    (s.addClass raw size (num + 1) mem).bytes = s.bytes + (num + 1) * size.toInt.toNat := by
  have hfirst : ((s.newBuf raw size).setEntry size (some s.count)).bytes =
      s.bytes + size.toInt.toNat := bytes_newBuf s size
  change (fill raw size num ((s.newBuf raw size).setEntry size (some s.count)) s.count).bytes = _
  rw [bytes_fill, hfirst]
  ring

theorem bytes_create : (create raw).bytes = 258370680 := by
  have hempty : (empty raw).bytes = 0 := rfl
  simp only [create, classes, List.foldl_cons, List.foldl_nil, bytes_addClass, hempty]
  rfl

theorem totalMem_addClass (s : BufPool) (size : Int32) (num mem : ℕ) :
    (s.addClass raw size num mem).totalMem = s.totalMem + mem := rfl

theorem totalMem_create : (create raw).totalMem = 375200 := by
  have hempty : (empty raw).totalMem = 0 := rfl
  simp only [create, classes, List.foldl_cons, List.foldl_nil, totalMem_addClass, hempty]

/-- What a call changes: the buffers that exist keep their sizes, and a new one is accounted for
with the whole KB of its size. -/
theorem poolStep?_cases {op : PoolOp} (h : s.poolStep? raw op = some t) :
    (t.bytes = s.bytes ∧ t.totalMem = s.totalMem) ∨
      ∃ n index, memCap? n = some index ∧ t.bytes = s.bytes + index.toInt.toNat ∧
        t.totalMem = s.totalMem + index.toInt.toNat / 1024 ∧ t.totalMem < extraMemLimit := by
  cases op with
  | revert buffer =>
    left
    obtain ⟨-, hrevert⟩ := Option.ite_none_right_eq_some.mp h
    cases hrevert
    constructor
    · apply Finset.sum_congr rfl
      intro p _
      change (Function.update s.bufs buffer _ p).capacity.toInt.toNat = _
      by_cases hp : p = buffer
      · rw [hp, Function.update_self]
      · rw [Function.update_of_ne hp]
    · rfl
  | allocBuf n =>
    simp only [poolStep?, allocBuf] at h
    cases hcap : memCap? n with
    | none =>
      rw [hcap] at h
      cases h
      exact Or.inl ⟨rfl, rfl⟩
    | some index =>
      rw [hcap] at h
      dsimp only at h
      cases hentry : s.entry index with
      | some target =>
        rw [hentry] at h
        cases h
        exact Or.inl ⟨rfl, rfl⟩
      | none =>
        rw [hentry] at h
        dsimp only at h
        by_cases hlimit : extraMemLimit ≤ s.totalMem + index.toInt.toNat / 1024
        · rw [if_pos hlimit] at h
          cases h
        · rw [if_neg hlimit] at h
          cases h
          exact Or.inr ⟨n, index, hcap, bytes_newBuf (s.setEntry index none) index, rfl,
            Nat.lt_of_not_le hlimit⟩

/-- Only the size that is no multiple of 1024 is accounted for with too little. -/
theorem memCap?_kb {n index : Int32} (h : memCap? n = some index) :
    index.toInt.toNat = 1024 * (index.toInt.toNat / 1024) ∨
      (index.toInt.toNat = 65526 ∧ index.toInt.toNat / 1024 = 63) := by
  unfold memCap? at h
  split_ifs at h <;> cases h <;> decide

/-- `k` buffers of 65526 bytes were made after the start, each accounted for with 63 KB. At the
start too much was accounted for: 30 buffers of 4 MB, and 10 bytes for each of the first 500. -/
structure WithinBudget (s : BufPool) (k : ℕ) : Prop where
  bytes : s.bytes + 125834120 ≤ 1024 * s.totalMem + 1014 * k
  made : 375200 + 63 * k ≤ s.totalMem
  limit : s.totalMem < extraMemLimit

theorem WithinBudget.create : WithinBudget (create raw) 0 := by
  constructor
  · rw [bytes_create, totalMem_create]
  · rw [totalMem_create]
  · rw [totalMem_create]
    decide

theorem WithinBudget.step {k : ℕ} {op : PoolOp} (h : WithinBudget s k)
    (hstep : s.poolStep? raw op = some t) : ∃ k, WithinBudget t k := by
  have hbytes := h.bytes
  have hmade := h.made
  rcases poolStep?_cases hstep with ⟨hb, hm⟩ | ⟨n, index, hcap, hb, hm, hlimit⟩
  · exact ⟨k, by rwa [hb, hm], by rwa [hm], by rw [hm]; exact h.limit⟩
  · rcases memCap?_kb hcap with hkb | ⟨hsize, hkb⟩
    · exact ⟨k, by omega, by omega, hlimit⟩
    · exact ⟨k + 1, by omega, by omega, hlimit⟩

/-- The limit leaves room for too few of those buffers to use up what was accounted for at the
start. -/
theorem WithinBudget.bytes_le {k : ℕ} (h : WithinBudget s k) : s.bytes ≤ 1024 * s.totalMem := by
  have hbytes := h.bytes
  have hmade := h.made
  have hlimit := h.limit
  have hkb : extraMemLimit = 5242880 := rfl
  omega

theorem memory_accounted (raw : BufPtr → ℤ → UInt8) (ops : List PoolOp) :
    ∀ s ∈ visited (poolStep? raw) (create raw) ops,
      s.bytes ≤ 1024 * s.totalMem ∧ s.totalMem < extraMemLimit ∧ s.bytes < 5 * 1024 ^ 3 := by
  have hkeep : ∀ s op t, (∃ k, WithinBudget s k) → True → s.poolStep? raw op = some t →
      ∃ k, WithinBudget t k := by
    intro s op t hs _ hstep
    obtain ⟨k, hk⟩ := hs
    exact hk.step hstep
  have hinv := forall_visited hkeep (create raw) ops ⟨0, WithinBudget.create⟩ (fun _ _ => trivial)
  intro s hs
  obtain ⟨k, hk⟩ := hinv s hs
  have hle := hk.bytes_le
  have hlimit := hk.limit
  have hkb : extraMemLimit = 5242880 := rfl
  exact ⟨hle, hlimit, by omega⟩

/-- One request of 4 MB more than the pool has buffers for. -/
def largestClassRun : List PoolOp := List.replicate 21 (.allocBuf 4194304)

theorem memory_accounted_largestClassRun :
    ∃ s, run? (poolStep? fun _ _ => 0) (create fun _ _ => 0) largestClassRun = some s ∧
      s.count = 6771 ∧ s.totalMem = 379296 ∧ s.bytes ≤ 1024 * s.totalMem ∧
      s.totalMem < extraMemLimit ∧ s.bytes < 5 * 1024 ^ 3 := by
  have heval : (run? (poolStep? fun _ _ => 0) (create fun _ _ => 0) largestClassRun).map (fun s =>
      (s.count, s.totalMem)) = some (6771, 379296) := by decide +kernel
  obtain ⟨s, hs, hfields⟩ := Option.map_eq_some_iff.mp heval
  simp only [Prod.mk.injEq] at hfields
  exact ⟨s, hs, hfields.1, hfields.2,
    memory_accounted (fun _ _ => 0) largestClassRun s (mem_visited_of_run? hs)⟩

end BufPool

end Lrlb.Reactor
