import Mathlib.Data.Int.CardIntervalMod
import Mathlib.Data.List.Rotate
import Mathlib.Tactic

/-! Taking turns: a queue whose front goes to its back when it is taken, a counter that starts
again after a fixed number of steps, lists that are dealt out, and lists that repeat one block. -/
namespace Lrlb.Lib

variable {α : Type*}

/-- The elements of `l` taken in turn. -/
def InTurn (l taken : List α) : Prop := ∀ k < taken.length, taken[k]? = l[k % l.length]?

namespace InTurn

variable {l taken : List α}

theorem nil (l : List α) : InTurn l [] := by simp [InTurn]

/-- The front is taken and goes to the back. -/
theorem cons {x : α} (h : InTurn (l ++ [x]) taken) : InTurn (x :: l) (x :: taken) := by
  intro k hk
  cases k with
  | zero => simp
  | succ k =>
    have hrotate : (x :: l).rotate 1 = l ++ [x] := by simp
    have hlt : k % (x :: l).length < (x :: l).length := Nat.mod_lt _ (by simp)
    have hk' := h k (by simpa using hk)
    rw [← hrotate, List.length_rotate, List.getElem?_rotate hlt, Nat.mod_add_mod] at hk'
    simpa using hk'

variable [DecidableEq α]

/-- How often an element of a duplicate-free list has been taken: one residue of the turns. -/
theorem count_eq (h : InTurn l taken) (hl : l.Nodup) {i : ℕ} (hi : i < l.length) :
    taken.count l[i] = taken.length.count (· ≡ i [MOD l.length]) := by
  have hpos : 0 < l.length := by omega
  induction taken using List.reverseRecOn with
  | nil => simp
  | append_singleton taken x ih =>
    have hprev : InTurn l taken := by
      intro k hk
      have hk' := h k (by simp; omega)
      rwa [List.getElem?_append_left hk] at hk'
    have hlast := h taken.length (by simp)
    have hlt : taken.length % l.length < l.length := Nat.mod_lt _ hpos
    simp only [List.getElem?_concat_length, List.getElem?_eq_getElem hlt, Option.some_inj] at hlast
    rw [List.count_append, ih hprev, List.length_append, List.length_singleton, Nat.count_succ,
      hlast, List.count_singleton]
    congr 1
    have hiff : l[taken.length % l.length] = l[i] ↔ taken.length ≡ i [MOD l.length] := by
      rw [hl.getElem_inj_iff, Nat.ModEq, Nat.mod_eq_of_lt hi]
    by_cases hmod : taken.length ≡ i [MOD l.length]
    · simp [hmod, hiff.mpr hmod]
    · rw [if_neg hmod, if_neg]
      simpa using fun he => hmod (hiff.mp he)

/-- Nobody is ahead of another by more than one turn. -/
theorem count_le (h : InTurn l taken) (hl : l.Nodup) {x y : α} (hx : x ∈ l) (hy : y ∈ l) :
    taken.count x ≤ taken.count y + 1 := by
  obtain ⟨i, hi, rfl⟩ := List.getElem_of_mem hx
  obtain ⟨j, hj, rfl⟩ := List.getElem_of_mem hy
  have hpos : 0 < l.length := by omega
  rw [h.count_eq hl hi, h.count_eq hl hj, Nat.count_modEq_card _ hpos, Nat.count_modEq_card _ hpos]
  split_ifs <;> omega

end InTurn

/-- A counter modulo `m` meets a value at exactly one of `m` consecutive steps. -/
theorem existsUnique_mod_eq {m r : ℕ} (hr : r < m) (c i : ℕ) :
    ∃! j, (i ≤ j ∧ j < i + m) ∧ (c + j) % m = r := by
  have hm : 0 < m := by omega
  have hlt : (c + i) % m < m := Nat.mod_lt _ hm
  have hstep : ∀ d, (c + (i + d)) % m = ((c + i) % m + d) % m := fun d => by
    rw [← add_assoc, Nat.mod_add_mod]
  have hfirst : ∀ d < m, (c + (i + d)) % m = r ↔
      d = if (c + i) % m ≤ r then r - (c + i) % m else r + m - (c + i) % m := by
    intro d hd
    rw [hstep]
    by_cases hwrap : (c + i) % m + d < m
    · rw [Nat.mod_eq_of_lt hwrap]
      split_ifs <;> omega
    · rw [Nat.mod_eq_sub_mod (by omega), Nat.mod_eq_of_lt (by omega)]
      split_ifs <;> omega
  refine ⟨i + if (c + i) % m ≤ r then r - (c + i) % m else r + m - (c + i) % m, ?_, ?_⟩
  · have hd : (if (c + i) % m ≤ r then r - (c + i) % m else r + m - (c + i) % m) < m := by
      split_ifs <;> omega
    exact ⟨⟨by omega, by omega⟩, (hfirst _ hd).mpr rfl⟩
  · rintro j ⟨⟨hij, hji⟩, hj⟩
    obtain ⟨d, rfl⟩ := Nat.exists_eq_add_of_le hij
    rw [(hfirst d (by omega)).mp hj]

section Dealing

/-- The elements that come to hand `t` of `n` when a list is dealt out in turn. -/
def dealtTo (n t : ℕ) (l : List α) : List α :=
  (l.zipIdx.filter fun x => x.2 % n = t).map Prod.fst

theorem dealtTo_concat (n t : ℕ) (l : List α) (x : α) :
    dealtTo n t (l ++ [x]) = dealtTo n t l ++ if l.length % n = t then [x] else [] := by
  unfold dealtTo
  rw [List.zipIdx_append, List.filter_append, List.map_append]
  by_cases ht : l.length % n = t <;> simp [ht]

theorem length_dealtTo (n : ℕ) {t : ℕ} (ht : t < n) (l : List α) :
    (dealtTo n t l).length = l.length.count (· ≡ t [MOD n]) := by
  induction l using List.reverseRecOn with
  | nil => simp [dealtTo]
  | append_singleton l x ih =>
    have hturn : l.length ≡ t [MOD n] ↔ l.length % n = t := by
      rw [Nat.ModEq, Nat.mod_eq_of_lt ht]
    rw [dealtTo_concat, List.length_append, ih, List.length_append, List.length_singleton,
      Nat.count_succ]
    simp only [hturn]
    split_ifs <;> rfl

/-- No hand is ahead of another by more than one. -/
theorem length_dealtTo_le {n t u : ℕ} (ht : t < n) (hu : u < n) (l : List α) :
    (dealtTo n t l).length ≤ (dealtTo n u l).length + 1 := by
  have hpos : 0 < n := Nat.zero_lt_of_lt ht
  rw [length_dealtTo n ht, length_dealtTo n hu, Nat.count_modEq_card _ hpos,
    Nat.count_modEq_card _ hpos]
  split_ifs <;> omega

end Dealing

section Repetition

variable {block : List α}

theorem replicate_flatten_comm (k : ℕ) (block : List α) :
    (List.replicate k block).flatten ++ block = block ++ (List.replicate k block).flatten := by
  rw [← List.flatten_cons, ← List.replicate_succ, List.replicate_succ', List.flatten_append,
    List.flatten_singleton]

/-- Putting a block behind a list and taking as much from its front gives the list back exactly if
it is the end of a repetition of the block. -/
theorem drop_append_eq_self_iff (hblock : block ≠ []) (l : List α) :
    (l ++ block).drop block.length = l ↔ ∃ k, l <:+ (List.replicate k block).flatten := by
  have hpos : 0 < block.length := List.length_pos_iff.mpr hblock
  constructor
  · intro h
    induction hn : l.length using Nat.strong_induction_on generalizing l with
    | _ n ih =>
      by_cases hle : l.length ≤ block.length
      · refine ⟨1, ?_⟩
        rw [List.drop_append, List.drop_eq_nil_of_le hle, List.nil_append] at h
        simpa [h] using List.drop_suffix (block.length - l.length) block
      · -- the list ends with the block, and so does what is before it
        rw [List.drop_append_of_le_length (by omega)] at h
        have hdrop : (l.drop block.length ++ block).drop block.length = l.drop block.length := by
          rw [h]
        obtain ⟨k, p, hp⟩ := ih _ (by rw [List.length_drop]; omega) _ hdrop rfl
        refine ⟨k + 1, p, ?_⟩
        rw [← h, ← List.append_assoc, hp, List.replicate_succ', List.flatten_append,
          List.flatten_singleton]
  · rintro ⟨k, p, hp⟩
    have hcomm := replicate_flatten_comm k block
    rw [← hp] at hcomm
    have hdrop := congrArg (List.drop (p.length + block.length)) hcomm
    rw [List.append_assoc, List.drop_length_add_append, ← List.append_assoc] at hdrop
    rw [hdrop, List.drop_left' (by rw [List.length_append, Nat.add_comm])]

end Repetition

end Lrlb.Lib
