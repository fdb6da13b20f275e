import Lrlb.Lib.Word

/-! IPv4 addresses on a little-endian machine: byte order and the dotted notation. -/
namespace Lrlb.Lib

theorem ofLittleEndian_lt (bs : List UInt8) : ofLittleEndian bs < 256 ^ bs.length := by
  induction bs with
  | nil => simp [ofLittleEndian]
  | cons b bs ih =>
    have hb : b.toNat < 256 := b.toNat_lt
    rw [ofLittleEndian, List.length_cons, pow_succ]
    omega

theorem littleEndian_ofLittleEndian (bs : List UInt8) :
    littleEndian bs.length (ofLittleEndian bs) = bs := by
  induction bs with
  | nil => rfl
  | cons b bs ih =>
    have hb : b.toNat < 256 := b.toNat_lt
    have hlow : (b.toNat + 256 * ofLittleEndian bs) % 256 = b.toNat := by omega
    have hhigh : (b.toNat + 256 * ofLittleEndian bs) / 256 = ofLittleEndian bs := by omega
    rw [List.length_cons, ofLittleEndian, littleEndian, hlow, hhigh, ih, UInt8.ofNat_toNat]

/-- Numbers in decimal with dots between them. -/
def dotted (parts : List ℕ) : String := String.intercalate "." (parts.map Nat.repr)

theorem dot_notMem_repr (n : ℕ) : '.' ∉ n.repr.toList := by
  rw [Nat.repr_eq_ofList_toDigits, String.toList_ofList]
  intro h
  exact absurd (Nat.isDigit_of_mem_toDigits (by decide) (by decide) h) (by decide)

theorem ofDigitChars_repr (n : ℕ) : Nat.ofDigitChars 10 n.repr.toList 0 = n := by
  rw [Nat.repr_eq_ofList_toDigits, String.toList_ofList, Nat.ofDigitChars_ten_toDigits]

/-- The parts can be read off the text. -/
theorem dotted_injective {l l' : List ℕ} (hl : l ≠ []) (hl' : l' ≠ []) (h : dotted l = dotted l') :
    l = l' := by
  have hsplit : ∀ l : List ℕ, l ≠ [] →
      ((dotted l).split '.').toList.map (fun x => x.copy) = l.map Nat.repr := by
    intro l hne
    have hdots : ∀ s ∈ l.map Nat.repr, '.' ∉ s.toList := by
      intro s hs
      obtain ⟨n, -, rfl⟩ := List.mem_map.mp hs
      exact dot_notMem_repr n
    refine (String.toList_split_intercalate hdots).trans ?_
    rw [if_neg (by simpa using hne)]
  have hrepr := (hsplit l hl).symm.trans (h ▸ hsplit l' hl')
  have hinj : Function.Injective Nat.repr :=
    Function.LeftInverse.injective (g := fun s : String => Nat.ofDigitChars 10 s.toList 0)
      ofDigitChars_repr
  exact List.map_injective_iff.mpr hinj hrepr

/-- Swaps the byte order: the bytes lie in memory the other way round. -/
def htonl (x : UInt32) : UInt32 :=
  UInt32.ofNat (ofLittleEndian (littleEndian 4 x.toNat).reverse)

/-- Prints the bytes of an address in the order in which they lie in memory. -/
def inetNtoa (addr : UInt32) : String := dotted ((littleEndian 4 addr.toNat).map UInt8.toNat)

/-- The dotted notation of a number, from the most significant byte on. -/
def dottedQuad (n : UInt32) : String :=
  dotted [n.toNat / 2 ^ 24, n.toNat / 2 ^ 16 % 2 ^ 8, n.toNat / 2 ^ 8 % 2 ^ 8, n.toNat % 2 ^ 8]

theorem littleEndian_htonl (x : UInt32) :
    littleEndian 4 (htonl x).toNat = (littleEndian 4 x.toNat).reverse := by
  have hlt := ofLittleEndian_lt (littleEndian 4 x.toNat).reverse
  have hinv := littleEndian_ofLittleEndian (littleEndian 4 x.toNat).reverse
  rw [List.length_reverse, length_littleEndian] at hlt hinv
  rw [htonl, UInt32.toNat_ofNat_of_lt' hlt, hinv]

theorem toNat_littleEndian (x : UInt32) : (littleEndian 4 x.toNat).map UInt8.toNat =
    [x.toNat % 2 ^ 8, x.toNat / 2 ^ 8 % 2 ^ 8, x.toNat / 2 ^ 16 % 2 ^ 8, x.toNat / 2 ^ 24] := by
  have hx := x.toNat_lt
  simp only [littleEndian, List.map_cons, List.map_nil, UInt8.toNat_ofNat', List.cons.injEq, and_true]
  omega

/-- An address in network byte order prints as the number it stands for. -/
theorem inetNtoa_htonl (n : UInt32) : inetNtoa (htonl n) = dottedQuad n := by
  rw [inetNtoa, littleEndian_htonl, List.map_reverse, toNat_littleEndian]
  rfl

theorem dottedQuad_injective {n m : UInt32} (h : dottedQuad n = dottedQuad m) : n = m := by
  have hparts := dotted_injective (by simp) (by simp) h
  simp only [List.cons.injEq, and_true] at hparts
  apply UInt32.toNat_inj.mp
  omega

/-- The bytes read the same in both directions. -/
def BytePalindrome (n : UInt32) : Prop :=
  n.toNat / 2 ^ 24 = n.toNat % 2 ^ 8 ∧ n.toNat / 2 ^ 16 % 2 ^ 8 = n.toNat / 2 ^ 8 % 2 ^ 8

/-- Without the swap of the byte order the text is right for the palindromes only. -/
theorem inetNtoa_eq_dottedQuad_iff (n : UInt32) :
    inetNtoa n = dottedQuad n ↔ BytePalindrome n := by
  constructor
  · intro h
    rw [inetNtoa, toNat_littleEndian] at h
    have hparts := dotted_injective (by simp) (by simp) h
    simp only [List.cons.injEq, and_true] at hparts
    exact ⟨hparts.1.symm, hparts.2.1.symm⟩
  · rintro ⟨houter, hinner⟩
    rw [inetNtoa, toNat_littleEndian, dottedQuad, houter, hinner]

end Lrlb.Lib
