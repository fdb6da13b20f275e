import Mathlib.Data.List.DropRight
import Mathlib.Tactic

/-! Lists as texts: taking a kind of character off both ends, and splitting at it. -/
namespace Lrlb.Lib

variable {α : Type*} (p : α → Bool)

/-- The list without what `p` holds for at either end. -/
def strip (xs : List α) : List α := (xs.rdropWhile p).dropWhile p

/-- Neither end is one that `strip` takes off. -/
structure Stripped (xs : List α) : Prop where
  head : ∀ a ∈ xs.head?, p a = false
  last : ∀ a ∈ xs.getLast?, p a = false

/-- The maximal runs of elements for which `p` does not hold. -/
def tokens (xs : List α) : List (List α) := (xs.splitOnP p).filter fun t => !t.isEmpty

variable {p}

theorem rdropWhile_append_cons {a : α} (ha : p a = false) (xs ys : List α) :
    (xs ++ a :: ys).rdropWhile p = xs ++ a :: ys.rdropWhile p := by
  induction ys using List.reverseRecOn with
  | nil => simp [ha]
  | append_singleton ys b ih =>
    rw [← List.cons_append, ← List.append_assoc, List.rdropWhile_concat, List.rdropWhile_concat]
    split_ifs with hb
    · exact ih
    · simp

/-- The first element that stays is the first for which `p` does not hold. -/
theorem strip_append_cons {w : List α} (hw : ∀ b ∈ w, p b = true) {a : α} (ha : p a = false)
    (xs : List α) : strip p (w ++ a :: xs) = a :: xs.rdropWhile p := by
  rw [strip, rdropWhile_append_cons ha, List.dropWhile_append_of_pos hw,
    List.dropWhile_cons_of_neg (by simp [ha])]

theorem strip_of_forall {w : List α} (hw : ∀ b ∈ w, p b = true) : strip p w = [] := by
  rw [strip, List.rdropWhile_eq_nil_iff.mpr hw, List.dropWhile_nil]

theorem rdropWhile_append_of_forall {w : List α} (hw : ∀ b ∈ w, p b = true) (xs : List α) :
    (xs ++ w).rdropWhile p = xs.rdropWhile p := by
  rw [List.rdropWhile, List.reverse_append, List.dropWhile_append_of_pos (by simpa using hw)]
  rfl

/-- What is put around a stripped list is taken off again. -/
theorem strip_around {w w' xs : List α} (hw : ∀ b ∈ w, p b = true) (hw' : ∀ b ∈ w', p b = true)
    (hxs : Stripped p xs) : strip p (w ++ xs ++ w') = xs := by
  have hlast : xs.rdropWhile p = xs := by
    rw [List.rdropWhile_eq_self_iff]
    intro hne
    simp [hxs.last _ (List.getLast?_eq_getLast_of_ne_nil hne)]
  cases xs with
  | nil =>
    rw [strip, rdropWhile_append_of_forall hw', List.append_nil]
    exact strip_of_forall hw
  | cons a xs =>
    have ha : p a = false := hxs.head a rfl
    have hrest : xs.rdropWhile p = xs := by
      have hcons := rdropWhile_append_cons ha [] xs
      rw [List.nil_append, hlast] at hcons
      exact (List.cons.inj hcons).2.symm
    rw [strip, rdropWhile_append_of_forall hw']
    exact (strip_append_cons hw ha xs).trans (by rw [hrest])

section Search

variable {ws : List α} (hws : ∀ b ∈ ws, p b = false) {a : α} (ha : p a = true)

include hws ha

theorem takeWhile_not_append_cons (xs : List α) :
    (ws ++ a :: xs).takeWhile (fun b => !p b) = ws := by
  rw [List.takeWhile_append_of_pos (by simpa using hws), List.takeWhile_cons_of_neg (by simp [ha]),
    List.append_nil]

theorem dropWhile_not_append_cons (xs : List α) :
    (ws ++ a :: xs).dropWhile (fun b => !p b) = a :: xs := by
  rw [List.dropWhile_append_of_pos (by simpa using hws), List.dropWhile_cons_of_neg (by simp [ha])]

theorem findIdx?_append_cons (xs : List α) : (ws ++ a :: xs).findIdx? p = some ws.length := by
  rw [List.findIdx?_append, List.findIdx?_eq_none_iff.mpr hws, List.findIdx?_cons]
  simp [ha]

end Search

/-- A search splits the list at the first element that it looks for. -/
theorem exists_of_findIdx? {xs : List α} {i : ℕ} (h : xs.findIdx? p = some i) :
    ∃ ws a ys, xs = ws ++ a :: ys ∧ ws.length = i ∧ (∀ b ∈ ws, p b = false) ∧ p a = true := by
  obtain ⟨hi, ha, hbefore⟩ := List.findIdx?_eq_some_iff_getElem.mp h
  refine ⟨xs.take i, xs[i], xs.drop (i + 1), by simp, by simp [hi.le], ?_, ha⟩
  intro b hb
  obtain ⟨j, hj, rfl⟩ := List.mem_take_iff_getElem.mp hb
  simpa using hbefore j (by omega)

/-- The first element of the stripped list. -/
theorem head?_strip (xs : List α) : (strip p xs).head? = xs.find? fun a => !p a := by
  have hfind : (xs.find? fun a => !p a) = (xs.dropWhile p).head? := by
    simp [List.find?_eq_head?_dropWhile_not]
  have hsplit := List.takeWhile_append_dropWhile (p := p) (l := xs)
  have hw : ∀ b ∈ xs.takeWhile p, p b = true := fun b hb => List.mem_takeWhile_imp hb
  rw [hfind]
  cases hrest : xs.dropWhile p with
  | nil =>
    rw [hrest, List.append_nil] at hsplit
    rw [← hsplit, strip_of_forall hw]
  | cons a ys =>
    have ha : p a = false := by
      have hhead := List.head?_dropWhile_not p xs
      rw [hrest] at hhead
      exact hhead
    rw [hrest] at hsplit
    rw [← hsplit, strip_append_cons hw ha]
    rfl

@[simp] theorem tokens_nil : tokens p [] = [] := by simp [tokens, List.splitOnP_nil]

theorem tokens_append_cons {a : α} (ha : p a = true) (xs ys : List α) :
    tokens p (xs ++ a :: ys) = tokens p xs ++ tokens p ys := by
  rw [tokens, List.splitOnP_append_cons xs ys ha, List.filter_append]
  rfl

theorem tokens_of_forall {xs : List α} (hne : xs ≠ []) (hxs : ∀ a ∈ xs, p a = false) :
    tokens p xs = [xs] := by
  rw [tokens, List.splitOnP_eq_singleton hxs]
  simp [hne]

/-- Leading separators do not matter. -/
theorem tokens_dropWhile (xs : List α) : tokens p (xs.dropWhile p) = tokens p xs := by
  induction xs with
  | nil => rfl
  | cons a xs ih =>
    cases ha : p a with
    | true =>
      rw [List.dropWhile_cons_of_pos ha, ih]
      exact (tokens_append_cons ha [] xs).symm
    | false => rw [List.dropWhile_cons_of_neg (by simp [ha])]

theorem tokens_append_of_forall {w : List α} (hw : ∀ b ∈ w, p b = true) (xs : List α) :
    tokens p (w ++ xs) = tokens p xs := by
  rw [← tokens_dropWhile (w ++ xs), List.dropWhile_append_of_pos hw, tokens_dropWhile]

theorem tokens_eq_nil {w : List α} (hw : ∀ b ∈ w, p b = true) : tokens p w = [] := by
  simpa using tokens_append_of_forall hw []

/-- The first token, if the list starts with one. -/
theorem tokens_eq_cons {xs : List α} (hne : xs.takeWhile (fun a => !p a) ≠ []) :
    tokens p xs = xs.takeWhile (fun a => !p a) :: tokens p (xs.dropWhile fun a => !p a) := by
  have hnone : ∀ a ∈ xs.takeWhile (fun a => !p a), p a = false := by
    intro a ha
    simpa using List.mem_takeWhile_imp ha
  conv_lhs => rw [← List.takeWhile_append_dropWhile (p := fun a => !p a) (l := xs)]
  cases hrest : xs.dropWhile fun a => !p a with
  | nil => rw [List.append_nil, tokens_of_forall hne hnone, tokens_nil]
  | cons a ys =>
    have ha : p a = true := by
      have hhead := List.head?_dropWhile_not (fun a => !p a) xs
      rw [hrest] at hhead
      simpa using hhead
    rw [tokens_append_cons ha, tokens_of_forall hne hnone, ← tokens_append_of_forall (w := [a])]
    · rfl
    · simpa using ha

theorem mem_tokens {xs t : List α} (h : t ∈ tokens p xs) : t ≠ [] ∧ ∀ a ∈ t, p a = false := by
  obtain ⟨hpiece, hne⟩ := List.mem_filter.mp h
  refine ⟨by simpa using hne, ?_⟩
  clear h hne
  induction xs generalizing t with
  | nil => simp_all [List.splitOnP_nil]
  | cons a xs ih =>
    rw [List.splitOnP_cons_eq_if_modifyHead] at hpiece
    split_ifs at hpiece with ha
    · obtain rfl | hpiece := List.mem_cons.mp hpiece
      · simp
      · exact ih hpiece
    · obtain ⟨u, us, hus⟩ := List.exists_cons_of_ne_nil (List.splitOnP_ne_nil p xs)
      rw [hus] at hpiece ih
      obtain rfl | hpiece := List.mem_cons.mp hpiece
      · simpa [ha] using ih List.mem_cons_self
      · exact ih (List.mem_cons_of_mem u hpiece)

/-- Tokens that are joined by separators are found again. -/
theorem tokens_intercalate {sep : List α} (hsep : sep ≠ []) (hall : ∀ a ∈ sep, p a = true)
    {ts : List (List α)} (hts : ∀ t ∈ ts, t ≠ [] ∧ ∀ a ∈ t, p a = false) :
    tokens p (sep.intercalate ts) = ts := by
  induction ts with
  | nil => exact tokens_nil
  | cons t ts ih =>
    obtain ⟨⟨hne, ht⟩, hrest⟩ := List.forall_mem_cons.mp hts
    cases ts with
    | nil => rw [List.intercalate_singleton, tokens_of_forall hne ht]
    | cons u us =>
      obtain ⟨a, sep', rfl⟩ := List.exists_cons_of_ne_nil hsep
      obtain ⟨ha, hall'⟩ := List.forall_mem_cons.mp hall
      rw [List.intercalate_cons_cons, List.append_assoc, List.cons_append, tokens_append_cons ha,
        tokens_append_of_forall hall', tokens_of_forall hne ht, ih hrest]
      rfl

end Lrlb.Lib
