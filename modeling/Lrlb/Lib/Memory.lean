import Mathlib.Tactic

/-! Blocks of memory addressed relative to the start of an object. Addresses outside the
object are addresses of other memory, so that a stray access has a meaning too. -/
namespace Lrlb.Lib

variable {β : Type*}

def readMem (data : ℤ → β) (pos : ℤ) (n : ℕ) : List β := (List.range n).map fun i : ℕ => data (pos + i)

def writeMem (data : ℤ → β) (pos : ℤ) (bs : List β) : ℤ → β := fun i =>
  if h : pos ≤ i ∧ i < pos + bs.length then bs.get ⟨(i - pos).toNat, by omega⟩ else data i

@[simp] theorem length_readMem (data : ℤ → β) (pos : ℤ) (n : ℕ) :
    (readMem data pos n).length = n := by simp [readMem]

theorem readMem_add (data : ℤ → β) (pos : ℤ) (m n : ℕ) :
    readMem data pos (m + n) = readMem data pos m ++ readMem data (pos + m) n := by
  simp only [readMem, List.range_add, List.map_append, List.map_map]
  congr 1
  apply List.map_congr_left
  intro i _
  simp [add_assoc]

theorem take_readMem (data : ℤ → β) (pos : ℤ) {k n : ℕ} (h : k ≤ n) :
    (readMem data pos n).take k = readMem data pos k := by
  obtain ⟨m, rfl⟩ := Nat.exists_eq_add_of_le h
  rw [readMem_add, List.take_left' (length_readMem ..)]

theorem drop_readMem (data : ℤ → β) (pos : ℤ) {k n : ℕ} (h : k ≤ n) :
    (readMem data pos n).drop k = readMem data (pos + k) (n - k) := by
  obtain ⟨m, rfl⟩ := Nat.exists_eq_add_of_le h
  rw [readMem_add, List.drop_left' (length_readMem ..), Nat.add_sub_cancel_left]

theorem readMem_writeMem (data : ℤ → β) (pos : ℤ) (bs : List β) :
    readMem (writeMem data pos bs) pos bs.length = bs := by
  apply List.ext_getElem (by simp)
  intro i hi hi'
  simp only [readMem, List.getElem_map, List.getElem_range, writeMem]
  rw [dif_pos ⟨by omega, by omega⟩]
  simp

theorem readMem_writeMem_before (data : ℤ → β) {pos pos' : ℤ} {n : ℕ} (h : pos' + n ≤ pos)
    (bs : List β) : readMem (writeMem data pos bs) pos' n = readMem data pos' n := by
  apply List.map_congr_left
  intro i hi
  have := List.mem_range.mp hi
  rw [writeMem, dif_neg (by omega)]

end Lrlb.Lib
