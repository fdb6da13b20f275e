import Lrlb.Lib.Memory
import Lrlb.Lib.Word

/-! The buffer that all connections read into and write from. -/
namespace Lrlb.Reactor
open Lib

structure IoBuf where
  capacity : Int32
  length : Int32
  head : Int32
  data : ℤ → UInt8

namespace IoBuf

def new (size : Int32) (raw : ℤ → UInt8) : IoBuf := ⟨size, 0, 0, raw⟩

/-- Moving the unread bytes to the front. -/
def adjust (b : IoBuf) : IoBuf :=
  if b.head ≠ 0 then
    if b.length ≠ 0 then
      { b with
        data := writeMem b.data 0 (readMem b.data b.head.toInt b.length.toInt.toNat), head := 0 }
    else { b with head := 0 }
  else b

def copy (b other : IoBuf) : IoBuf :=
  { b with
    data := writeMem b.data 0 (readMem other.data 0 other.length.toInt.toNat)
    head := 0
    length := other.length }

def pop (b : IoBuf) (len : Int32) : IoBuf :=
  let len := if b.length < len then b.length else len
  { b with length := b.length - len, head := b.head + len }

/-- Bytes that are put after the unread ones of a buffer whose head is at the front. -/
def write (b : IoBuf) (bs : List UInt8) : IoBuf :=
  { b with
    data := writeMem b.data b.length.toInt bs, length := b.length + Int32.ofNat bs.length }

/-- The unread bytes. -/
def content (b : IoBuf) : List UInt8 := readMem b.data b.head.toInt b.length.toInt.toNat

structure Valid (b : IoBuf) : Prop where
  head : 0 ≤ b.head.toInt
  length : 0 ≤ b.length.toInt
  capacity : b.head.toInt + b.length.toInt ≤ b.capacity.toInt

theorem Valid.new {size : Int32} (h : 0 ≤ size.toInt) (raw : ℤ → UInt8) : Valid (new size raw) :=
  ⟨le_rfl, le_rfl, by simpa [IoBuf.new] using h⟩

theorem Valid.length_content {b : IoBuf} (h : Valid b) :
    (b.content.length : ℤ) = b.length.toInt := by
  rw [content, length_readMem]
  exact Int.toNat_of_nonneg h.length

@[simp] theorem adjust_capacity (b : IoBuf) : b.adjust.capacity = b.capacity := by
  unfold adjust; split_ifs <;> rfl

@[simp] theorem adjust_length (b : IoBuf) : b.adjust.length = b.length := by
  unfold adjust; split_ifs <;> rfl

@[simp] theorem adjust_head (b : IoBuf) : b.adjust.head = 0 := by
  unfold adjust
  split_ifs with hh hl
  · rfl
  · rfl
  · exact not_not.mp hh

@[simp] theorem adjust_content (b : IoBuf) : b.adjust.content = b.content := by
  unfold adjust
  split_ifs with hh hl
  · have hr := readMem_writeMem b.data 0 (readMem b.data b.head.toInt b.length.toInt.toNat)
    rw [length_readMem] at hr
    exact hr
  · have hl : b.length = 0 := not_not.mp hl
    simp [content, hl, readMem]
  · rfl

theorem Valid.adjust {b : IoBuf} (h : Valid b) : Valid b.adjust := by
  refine ⟨?_, ?_, ?_⟩
  · simp
  · simpa using h.length
  · have := h.head; have := h.capacity
    simp only [adjust_head, adjust_length, adjust_capacity, Int32.toInt_zero]
    omega

variable {b : IoBuf} {len : Int32}

theorem pop_length (h0 : 0 ≤ len.toInt) (hle : len.toInt ≤ b.length.toInt) :
    (b.pop len).length.toInt = b.length.toInt - len.toInt := by
  have hlt : ¬ b.length < len := by rw [Int32.lt_iff_toInt_lt]; omega
  have := b.length.toInt_lt
  simp only [pop, hlt, if_false]
  exact toInt_sub_of_range (by omega) (by omega)

theorem Valid.pop_head (h : Valid b) (h0 : 0 ≤ len.toInt) (hle : len.toInt ≤ b.length.toInt) :
    (b.pop len).head.toInt = b.head.toInt + len.toInt := by
  have hlt : ¬ b.length < len := by rw [Int32.lt_iff_toInt_lt]; omega
  have := b.capacity.toInt_lt; have := h.head; have := h.capacity
  simp only [pop, hlt, if_false]
  exact toInt_add_of_range (by omega) (by omega)

theorem Valid.pop (h : Valid b) (h0 : 0 ≤ len.toInt) (hle : len.toInt ≤ b.length.toInt) :
    Valid (b.pop len) := by
  have hl := pop_length h0 hle
  have hh := h.pop_head h0 hle
  have := h.head; have := h.capacity
  refine ⟨by omega, by omega, ?_⟩
  change _ ≤ b.capacity.toInt
  omega

theorem Valid.pop_content (h : Valid b) (h0 : 0 ≤ len.toInt) (hle : len.toInt ≤ b.length.toInt) :
    (b.pop len).content = b.content.drop len.toInt.toNat := by
  rw [content, content, pop_length h0 hle, h.pop_head h0 hle, drop_readMem _ _ (by omega)]
  change readMem b.data _ _ = _
  congr 1 <;> omega

theorem Valid.write_length (h : Valid b) {bs : List UInt8}
    (hfit : b.length.toInt + bs.length ≤ b.capacity.toInt) :
    (b.write bs).length.toInt = b.length.toInt + bs.length := by
  have := b.capacity.toInt_lt; have := h.length
  have hbs : (Int32.ofNat bs.length).toInt = bs.length := Int32.toInt_ofNat_of_lt (by omega)
  simp only [IoBuf.write]
  rw [toInt_add_of_range (by omega) (by omega), hbs]

theorem Valid.write (h : Valid b) (hh : b.head = 0) {bs : List UInt8}
    (hfit : b.length.toInt + bs.length ≤ b.capacity.toInt) : Valid (b.write bs) := by
  have hl := h.write_length hfit
  have := h.length
  refine ⟨h.head, by omega, ?_⟩
  change b.head.toInt + _ ≤ b.capacity.toInt
  rw [hl, hh]
  simpa using hfit

theorem Valid.write_content (h : Valid b) (hh : b.head = 0) {bs : List UInt8}
    (hfit : b.length.toInt + bs.length ≤ b.capacity.toInt) :
    (b.write bs).content = b.content ++ bs := by
  have hl := h.write_length hfit
  have := h.length
  have hn : (b.write bs).length.toInt.toNat = b.length.toInt.toNat + bs.length := by omega
  have hhead : (b.write bs).head.toInt = 0 := by simp [IoBuf.write, hh]
  have hpos : (0 : ℤ) + b.length.toInt.toNat = b.length.toInt := by omega
  rw [content, hn, hhead, readMem_add, hpos]
  congr 1
  · rw [content, hh]
    exact readMem_writeMem_before b.data (by omega) bs
  · exact readMem_writeMem b.data b.length.toInt bs

theorem Valid.copy {newBuf : IoBuf} (h : Valid b) (hh : b.head = 0)
    (hfit : b.length.toInt ≤ newBuf.capacity.toInt) :
    Valid (newBuf.copy b) ∧ (newBuf.copy b).content = b.content := by
  refine ⟨⟨le_rfl, h.length, ?_⟩, ?_⟩
  · simpa [IoBuf.copy] using hfit
  · have hr := readMem_writeMem newBuf.data 0 (readMem b.data 0 b.length.toInt.toNat)
    rw [length_readMem] at hr
    rw [content, content, hh]
    exact hr

end IoBuf

end Lrlb.Reactor
