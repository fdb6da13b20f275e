import Mathlib.Tactic

/-! Machine words: two signed 32-bit integers packed into one unsigned 64-bit word by a shift
and a sign-extending addition, as C computes `((uint64_t)hi << 32) + lo`, and the bytes of an
integer on a little-endian machine. -/
namespace Lrlb.Lib

/-- C's conversion of `int` to `uint64_t`: sign extension. -/
def signExtend (x : Int32) : UInt64 := x.toInt64.toUInt64

def packInts (hi lo : Int32) : UInt64 := (signExtend hi <<< 32) + signExtend lo

/-- C's `int(w >> 32)`. -/
def highInt (w : UInt64) : Int32 := (w >>> 32).toUInt32.toInt32

/-- C's `int(w)`. -/
def lowInt (w : UInt64) : Int32 := w.toUInt32.toInt32

theorem toNat_signExtend (x : Int32) : ((signExtend x).toNat : ℤ) = x.toInt % 2 ^ 64 := by
  have h : (signExtend x).toBitVec.toInt = x.toInt := x.toInt_toInt64
  have hlt : (signExtend x).toNat < 2 ^ 64 := (signExtend x).toNat_lt
  rw [BitVec.toInt_eq_toNat_cond] at h
  change (if 2 * (signExtend x).toNat < 2 ^ 64 then ((signExtend x).toNat : ℤ)
    else ((signExtend x).toNat : ℤ) - ((2 ^ 64 : ℕ) : ℤ)) = x.toInt at h
  split_ifs at h <;> omega

theorem toNat_packInts (hi lo : Int32) :
    ((packInts hi lo).toNat : ℤ) = (hi.toInt * 2 ^ 32 + lo.toInt) % 2 ^ 64 := by
  have hh := toNat_signExtend hi
  have hl := toNat_signExtend lo
  unfold packInts
  rw [UInt64.toNat_add, UInt64.toNat_shiftLeft, show (32 : UInt64).toNat % 64 = 32 from rfl,
    Nat.shiftLeft_eq]
  push_cast
  rw [hh, hl]
  omega

/-- The borrow of a negative low half never makes two different pairs collide. -/
theorem packInts_injective {a b c d : Int32} (h : packInts a b = packInts c d) :
    a = c ∧ b = d := by
  have hab := toNat_packInts a b
  have hcd := toNat_packInts c d
  rw [h] at hab
  have := a.le_toInt; have := a.toInt_lt
  have := b.le_toInt; have := b.toInt_lt
  have := c.le_toInt; have := c.toInt_lt
  have := d.le_toInt; have := d.toInt_lt
  constructor <;> apply Int32.toInt_inj.mp <;> omega

theorem toInt_ofUInt32 (w : UInt32) :
    w.toInt32.toInt = if w.toNat < 2 ^ 31 then (w.toNat : ℤ) else w.toNat - 2 ^ 32 := by
  change w.toBitVec.toInt = _
  rw [BitVec.toInt_eq_toNat_cond]
  change (if 2 * w.toNat < 2 ^ 32 then (w.toNat : ℤ) else (w.toNat : ℤ) - ((2 ^ 32 : ℕ) : ℤ)) = _
  split_ifs <;> omega

/-- Every word is packed from a pair. -/
theorem exists_packInts_eq (w : UInt64) : ∃ hi lo, packInts hi lo = w := by
  have hw := w.toNat_lt
  refine ⟨Int32.ofInt ((w.toNat + 2 ^ 31) / 2 ^ 32), lowInt w, UInt64.toNat_inj.mp ?_⟩
  have hp := toNat_packInts (Int32.ofInt ((w.toNat + 2 ^ 31) / 2 ^ 32)) (lowInt w)
  unfold lowInt at hp ⊢
  rw [toInt_ofUInt32, UInt64.toNat_toUInt32, Int32.toInt_ofInt] at hp
  have hb := Int.bmod_emod (x := ((w.toNat : ℤ) + 2 ^ 31) / 2 ^ 32) (m := Int32.size)
  rw [show ((Int32.size : ℕ) : ℤ) = 2 ^ 32 from rfl] at hb
  split_ifs at hp <;> omega

/-- Truncation gives the low half back whatever its sign. -/
theorem lowInt_packInts (hi lo : Int32) : lowInt (packInts hi lo) = lo := by
  have hp := toNat_packInts hi lo
  have := lo.le_toInt; have := lo.toInt_lt
  apply Int32.toInt_inj.mp
  unfold lowInt
  rw [toInt_ofUInt32, UInt64.toNat_toUInt32]
  split_ifs <;> omega

/-- The high half survives only when the low half borrows nothing from it. -/
theorem highInt_packInts (hi lo : Int32) (hlo : 0 ≤ lo.toInt) :
    highInt (packInts hi lo) = hi := by
  have hp := toNat_packInts hi lo
  have := hi.le_toInt; have := hi.toInt_lt
  have := lo.toInt_lt
  apply Int32.toInt_inj.mp
  unfold highInt
  rw [toInt_ofUInt32, UInt64.toNat_toUInt32, UInt64.toNat_shiftRight,
    show (32 : UInt64).toNat % 64 = 32 from rfl, Nat.shiftRight_eq_div_pow]
  split_ifs <;> omega

theorem highInt_packInts_iff (hi lo : Int32) : highInt (packInts hi lo) = hi ↔ 0 ≤ lo.toInt := by
  refine ⟨?_, highInt_packInts hi lo⟩
  intro h
  by_contra hneg
  have hp := toNat_packInts hi lo
  have := hi.le_toInt; have := hi.toInt_lt
  have := lo.le_toInt
  -- a negative low half takes one from the upper half
  have hh := congrArg Int32.toInt h
  unfold highInt at hh
  rw [toInt_ofUInt32, UInt64.toNat_toUInt32, UInt64.toNat_shiftRight,
    show (32 : UInt64).toNat % 64 = 32 from rfl, Nat.shiftRight_eq_div_pow] at hh
  split_ifs at hh <;> omega

theorem lowInt_signExtend (x : Int32) : lowInt (signExtend x) = x := by
  have hs := toNat_signExtend x
  have := x.le_toInt; have := x.toInt_lt
  apply Int32.toInt_inj.mp
  unfold lowInt
  rw [toInt_ofUInt32, UInt64.toNat_toUInt32]
  split_ifs <;> omega

theorem toNat_toUInt32 {x : Int32} (h : 0 ≤ x.toInt) : x.toUInt32.toNat = x.toInt.toNat := by
  have hw := toInt_ofUInt32 x.toUInt32
  rw [Int32.toInt32_toUInt32] at hw
  have := x.toUInt32.toNat_lt
  split_ifs at hw <;> omega

/-- The sum of two lengths overflows at most once. -/
theorem toInt_add_of_nonneg {a b : Int32} (ha : 0 ≤ a.toInt) (hb : 0 ≤ b.toInt) :
    (a + b).toInt = if a.toInt + b.toInt < 2 ^ 31 then a.toInt + b.toInt
      else a.toInt + b.toInt - 2 ^ 32 := by
  have := a.toInt_lt; have := b.toInt_lt
  rw [Int32.toInt_add, Int.bmod_def]
  split_ifs <;> omega

theorem toInt_add_of_range {a b : Int32} (hl : -2 ^ 31 ≤ a.toInt + b.toInt)
    (hu : a.toInt + b.toInt < 2 ^ 31) : (a + b).toInt = a.toInt + b.toInt := by
  rw [Int32.toInt_add]
  exact Int.bmod_eq_of_le (by omega) (by omega)

theorem toInt_sub_of_range {a b : Int32} (hl : -2 ^ 31 ≤ a.toInt - b.toInt)
    (hu : a.toInt - b.toInt < 2 ^ 31) : (a - b).toInt = a.toInt - b.toInt := by
  rw [Int32.toInt_sub]
  exact Int.bmod_eq_of_le (by omega) (by omega)

/-- C's remainder takes the sign of the dividend. -/
theorem tmod_nonneg_iff (x k : ℤ) : 0 ≤ x.tmod k ↔ 0 ≤ x ∨ k ∣ x := by
  obtain hx | hx := le_or_gt 0 x
  · exact iff_of_true (Int.tmod_nonneg k hx) (Or.inl hx)
  · have hneg : x.tmod k ≤ 0 := by
      have h := Int.tmod_nonneg k (show 0 ≤ -x by omega)
      rw [Int.neg_tmod] at h
      omega
    constructor
    · intro h
      exact Or.inr (Int.dvd_of_tmod_eq_zero (le_antisymm hneg h))
    · rintro (h | h)
      · omega
      · exact (Int.tmod_eq_zero_of_dvd h).ge

/-- An `int` that indexes an array of `n` elements; `none` is an access outside the array. -/
def arrayIndex? (n : ℕ) (index : Int32) : Option (Fin n) :=
  if h : 0 ≤ index.toInt ∧ index.toInt < n then some ⟨index.toInt.toNat, by omega⟩ else none

theorem arrayIndex?_isSome_iff {n : ℕ} {index : Int32} :
    (arrayIndex? n index).isSome ↔ 0 ≤ index.toInt ∧ index.toInt < n := by
  unfold arrayIndex?
  split_ifs with h <;> simp [h]

/-- The `k` low bytes of `n`, least significant first. -/
def littleEndian : ℕ → ℕ → List UInt8
  | 0, _ => []
  | k + 1, n => UInt8.ofNat (n % 256) :: littleEndian k (n / 256)

def ofLittleEndian : List UInt8 → ℕ
  | [] => 0
  | b :: bs => b.toNat + 256 * ofLittleEndian bs

@[simp] theorem length_littleEndian (k n : ℕ) : (littleEndian k n).length = k := by
  induction k generalizing n with
  | zero => rfl
  | succ k ih => simp [littleEndian, ih]

theorem ofLittleEndian_littleEndian {k n : ℕ} (h : n < 256 ^ k) :
    ofLittleEndian (littleEndian k n) = n := by
  induction k generalizing n with
  | zero => simp at h; simp [littleEndian, ofLittleEndian, h]
  | succ k ih =>
    have hb : (UInt8.ofNat (n % 256)).toNat = n % 256 := by simp
    have hdiv : n / 256 < 256 ^ k := by
      rw [pow_succ] at h
      omega
    rw [littleEndian, ofLittleEndian, hb, ih hdiv]
    omega

/-- The four bytes of an `int` in memory. -/
def intBytes (x : Int32) : List UInt8 := littleEndian 4 x.toUInt32.toNat

def bytesInt (bs : List UInt8) : Int32 := (UInt32.ofNat (ofLittleEndian bs)).toInt32

@[simp] theorem length_intBytes (x : Int32) : (intBytes x).length = 4 := length_littleEndian 4 _

@[simp] theorem bytesInt_intBytes (x : Int32) : bytesInt (intBytes x) = x := by
  have hlt : x.toUInt32.toNat < 256 ^ 4 := x.toUInt32.toNat_lt
  rw [bytesInt, intBytes, ofLittleEndian_littleEndian hlt]
  simp

end Lrlb.Lib
