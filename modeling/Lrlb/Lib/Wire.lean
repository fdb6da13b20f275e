import Mathlib.Tactic

/-! The protobuf wire format: base-128 numbers, and messages as sequences of tagged values. -/
namespace Lrlb.Lib

/-- At most `k` groups of seven bits, least significant first; every byte but the last has its
high bit set. -/
def encodeVarint : ℕ → ℕ → List UInt8
  | 0, _ => []
  | k + 1, n =>
    if n < 128 then [UInt8.ofNat n] else UInt8.ofNat (n % 128 + 128) :: encodeVarint k (n / 128)

/-- The number and the bytes after it; `none` when it is cut short or longer than `k` bytes. -/
def decodeVarint? : ℕ → List UInt8 → Option (ℕ × List UInt8)
  | 0, _ => none
  | _ + 1, [] => none
  | k + 1, b :: bs =>
    if b.toNat < 128 then some (b.toNat, bs)
    else (decodeVarint? k bs).map fun r => (b.toNat - 128 + 128 * r.1, r.2)

theorem decodeVarint?_encodeVarint {k n : ℕ} (hk : 0 < k) (hn : n < 128 ^ k) (rest : List UInt8) :
    decodeVarint? k (encodeVarint k n ++ rest) = some (n, rest) := by
  induction k generalizing n with
  | zero => omega
  | succ k ih =>
    rw [encodeVarint]
    split_ifs with hlast
    · have hb : (UInt8.ofNat n).toNat = n := by simp; omega
      simp [decodeVarint?, hb, hlast]
    · have hb : (UInt8.ofNat (n % 128 + 128)).toNat = n % 128 + 128 := by simp; omega
      have hdiv : n / 128 < 128 ^ k := by
        rw [pow_succ] at hn
        omega
      have hpos : 0 < k := by
        rcases Nat.eq_zero_or_pos k with rfl | hpos
        · omega
        · exact hpos
      have hbig : ¬ n % 128 + 128 < 128 := by omega
      simp only [List.cons_append, decodeVarint?, hb, hbig, if_false, ih hpos hdiv,
        Option.map_some, Option.some.injEq, Prod.mk.injEq, and_true]
      omega

theorem length_encodeVarint_le (k n : ℕ) : (encodeVarint k n).length ≤ k := by
  induction k generalizing n with
  | zero => simp [encodeVarint]
  | succ k ih =>
    rw [encodeVarint]
    split_ifs
    · simp
    · simpa using ih (n / 128)

theorem encodeVarint_ne_nil {k : ℕ} (hk : 0 < k) (n : ℕ) : encodeVarint k n ≠ [] := by
  obtain ⟨k, rfl⟩ := Nat.exists_eq_succ_of_ne_zero hk.ne'
  rw [encodeVarint]
  split_ifs <;> simp

abbrev FieldNumber := { n : ℕ // 0 < n ∧ n < 2 ^ 29 }

inductive WireValue where
  | varint (w : UInt64)
  | bytes (bs : List UInt8)
deriving DecidableEq, Repr

structure Field where
  number : FieldNumber
  value : WireValue
deriving DecidableEq, Repr

namespace Field

def encode (f : Field) : List UInt8 :=
  match f.value with
  | .varint w => encodeVarint 5 (f.number.val * 8) ++ encodeVarint 10 w.toNat
  | .bytes bs => encodeVarint 5 (f.number.val * 8 + 2) ++ encodeVarint 5 bs.length ++ bs

/-- A byte string that the format can carry. -/
def Fits (f : Field) : Prop :=
  match f.value with
  | .varint _ => True
  | .bytes bs => bs.length < 2 ^ 31

end Field

def encodeFields (fs : List Field) : List UInt8 := fs.flatMap Field.encode

/-- What stands after a tag. Values of a fixed width and the contents of groups are only ever
skipped. -/
inductive Token where
  | field (f : Field)
  | fixed
  | startGroup (number : ℕ)
  | endGroup (number : ℕ)

def skipBytes? (n : ℕ) (bs : List UInt8) : Option (Token × List UInt8) :=
  if n ≤ bs.length then some (.fixed, bs.drop n) else none

def readToken? (bs : List UInt8) : Option (Token × List UInt8) := do
  let (tag, bs) ← decodeVarint? 5 bs
  let number := tag % 2 ^ 32 / 8
  if h : number = 0 then none
  else
    let n : FieldNumber := ⟨number, Nat.pos_of_ne_zero h, by omega⟩
    match tag % 8 with
    | 0 => do
      let (w, bs) ← decodeVarint? 10 bs
      some (.field ⟨n, .varint (UInt64.ofNat w)⟩, bs)
    | 1 => skipBytes? 8 bs
    | 2 => do
      let (len, bs) ← decodeVarint? 5 bs
      if len < 2 ^ 31 ∧ len ≤ bs.length then
        some (.field ⟨n, .bytes (bs.take len)⟩, bs.drop len)
      else none
    | 3 => some (.startGroup number, bs)
    | 4 => some (.endGroup number, bs)
    | 5 => skipBytes? 4 bs
    | _ => none

/-- The fields outside groups up to the first malformed byte, and whether there was none. The
second argument is the stack of open groups. -/
def decodeFieldsAux : ℕ → List ℕ → List UInt8 → List Field × Bool
  | _, stack, [] => ([], stack.isEmpty)
  | 0, _, _ :: _ => ([], false)
  | fuel + 1, stack, b :: bs =>
    match readToken? (b :: bs) with
    | none => ([], false)
    | some (.field f, rest) =>
      let (fs, ok) := decodeFieldsAux fuel stack rest
      (if stack.isEmpty then f :: fs else fs, ok)
    | some (.fixed, rest) => decodeFieldsAux fuel stack rest
    | some (.startGroup number, rest) => decodeFieldsAux fuel (number :: stack) rest
    | some (.endGroup number, rest) =>
      match stack with
      | top :: stack => if top = number then decodeFieldsAux fuel stack rest else ([], false)
      | [] => ([], false)

def decodeFields (bs : List UInt8) : List Field × Bool := decodeFieldsAux bs.length [] bs

theorem readToken?_encode (f : Field) (hf : f.Fits) (rest : List UInt8) :
    readToken? (f.encode ++ rest) = some (.field f, rest) := by
  obtain ⟨⟨n, hpos, hlt⟩, v⟩ := f
  cases v with
  | varint w =>
    have htag := decodeVarint?_encodeVarint (k := 5) (n := n * 8) (by omega) (by omega)
      (encodeVarint 10 w.toNat ++ rest)
    have hval := decodeVarint?_encodeVarint (k := 10) (n := w.toNat) (by omega)
      (by have := w.toNat_lt; omega) rest
    have hnum : n * 8 % 2 ^ 32 / 8 = n := by omega
    have hne : n ≠ 0 := by omega
    have hty : n * 8 % 8 = 0 := by omega
    simp only [Field.encode, readToken?, List.append_assoc, htag, Option.bind_eq_bind,
      Option.bind_some, hnum, hne, dite_false, hty, hval, UInt64.ofNat_toNat]
  | bytes bs =>
    have htag := decodeVarint?_encodeVarint (k := 5) (n := n * 8 + 2) (by omega) (by omega)
      (encodeVarint 5 bs.length ++ (bs ++ rest))
    have hlen : bs.length < 2 ^ 31 := hf
    have hval := decodeVarint?_encodeVarint (k := 5) (n := bs.length) (by omega) (by omega)
      (bs ++ rest)
    have hnum : (n * 8 + 2) % 2 ^ 32 / 8 = n := by omega
    have hne : n ≠ 0 := by omega
    have hty : (n * 8 + 2) % 8 = 2 := by omega
    have hle : bs.length < 2 ^ 31 ∧ bs.length ≤ (bs ++ rest).length := ⟨hlen, by simp⟩
    simp only [Field.encode, readToken?, List.append_assoc, htag, Option.bind_eq_bind,
      Option.bind_some, hnum, hne, dite_false, hty, hval, hle, and_self, if_true,
      List.take_left', List.drop_left']

theorem encode_ne_nil (f : Field) : f.encode ≠ [] := by
  unfold Field.encode
  split <;> simp [encodeVarint_ne_nil]

theorem length_le_encodeFields (fs : List Field) : fs.length ≤ (encodeFields fs).length := by
  induction fs with
  | nil => simp
  | cons f fs ih =>
    have := List.length_pos_of_ne_nil (encode_ne_nil f)
    simp only [encodeFields, List.flatMap_cons, List.length_append, List.length_cons] at ih ⊢
    omega

theorem decodeFieldsAux_encodeFields (fs : List Field) (hfs : ∀ f ∈ fs, f.Fits) {fuel : ℕ}
    (hfuel : fs.length ≤ fuel) : decodeFieldsAux fuel [] (encodeFields fs) = (fs, true) := by
  induction fs generalizing fuel with
  | nil => cases fuel <;> rfl
  | cons f fs ih =>
    obtain ⟨fuel, rfl⟩ : ∃ m, fuel = m + 1 := ⟨fuel - 1, by simp at hfuel; omega⟩
    have htok := readToken?_encode f (hfs f (by simp)) (encodeFields fs)
    have hle : fs.length ≤ fuel := by simpa using hfuel
    have ihfs := ih (fun g hg => hfs g (by simp [hg])) hle
    obtain ⟨b, bs, hb⟩ := List.exists_cons_of_ne_nil (encode_ne_nil f)
    change decodeFieldsAux (fuel + 1) [] (f.encode ++ encodeFields fs) = _
    rw [hb, List.cons_append] at htok ⊢
    rw [decodeFieldsAux, htok]
    simp [ihfs]

theorem decodeFields_encodeFields (fs : List Field) (hfs : ∀ f ∈ fs, f.Fits) :
    decodeFields (encodeFields fs) = (fs, true) :=
  decodeFieldsAux_encodeFields fs hfs (length_le_encodeFields fs)

/-- A message type: the fields that a value is written as, and what a field that has been read
does to a value. The flag is false where an embedded message is malformed. -/
class Message (M : Type) where
  init : M
  fields : M → List Field
  merge : M → Field → M × Bool

namespace Message

variable {M : Type} [Message M]

def mergeFields : M → List Field → M × Bool
  | m, [] => (m, true)
  | m, f :: fs =>
    match merge m f with
    | (m, true) => mergeFields m fs
    | (m, false) => (m, false)

/-- Reading stops at the first error and leaves what it has read so far. -/
def mergeFrom (m : M) (bs : List UInt8) : M × Bool :=
  let (fs, ok) := decodeFields bs
  let (m, ok') := mergeFields m fs
  (m, ok && ok')

def parse (bs : List UInt8) : M × Bool := mergeFrom init bs

def serialize (m : M) : List UInt8 := encodeFields (fields m)

theorem mergeFields_append (m : M) (fs gs : List Field) {m' : M}
    (h : mergeFields m fs = (m', true)) : mergeFields m (fs ++ gs) = mergeFields m' gs := by
  induction fs generalizing m with
  | nil => cases h; rfl
  | cons f fs ih =>
    rw [List.cons_append]
    rcases hm : merge m f with ⟨m₁, ok⟩
    cases ok with
    | false => simp [mergeFields, hm] at h
    | true =>
      simp only [mergeFields, hm] at h ⊢
      exact ih m₁ h

theorem mergeFrom_encodeFields (m : M) {fs : List Field} (hfs : ∀ f ∈ fs, f.Fits) :
    mergeFrom m (encodeFields fs) = mergeFields m fs := by
  simp [mergeFrom, decodeFields_encodeFields fs hfs]

end Message

end Lrlb.Lib
