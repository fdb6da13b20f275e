import Mathlib.Tactic

/-! Two queues that split a set between them: each element of the set is in exactly one of
the queues, once. -/
namespace Lrlb.Lib

variable {α : Type*}

structure Split (l r : List α) (S : α → Prop) : Prop where
  left_nodup : l.Nodup
  right_nodup : r.Nodup
  disjoint : ∀ x ∈ l, x ∉ r
  mem_iff : ∀ x, x ∈ l ∨ x ∈ r ↔ S x

/-- `std::list::remove`: every occurrence goes. -/
def remove [DecidableEq α] (x : α) (l : List α) : List α := l.filter (· ≠ x)

@[simp] theorem mem_remove [DecidableEq α] (x y : α) (l : List α) :
    y ∈ remove x l ↔ y ∈ l ∧ y ≠ x := by
  simp [remove]

theorem nodup_remove [DecidableEq α] {x : α} {l : List α} (h : l.Nodup) : (remove x l).Nodup :=
  h.filter _

theorem nodup_concat {x : α} {l : List α} (h : l.Nodup) (hx : x ∉ l) : (l ++ [x]).Nodup := by
  simpa only [List.concat_eq_append] using h.concat hx

theorem nodup_rotate {x : α} {l : List α} (h : (x :: l).Nodup) : (l ++ [x]).Nodup :=
  List.nodup_append_comm.mp h

namespace Split

variable {l r : List α} {S : α → Prop}

theorem empty : Split ([] : List α) [] fun _ => False :=
  ⟨List.nodup_nil, List.nodup_nil, by simp, by simp⟩

theorem swap (h : Split l r S) : Split r l S :=
  ⟨h.right_nodup, h.left_nodup, fun x hr hl => h.disjoint x hl hr,
    fun x => Or.comm.trans (h.mem_iff x)⟩

theorem congr {T : α → Prop} (h : Split l r S) (hST : ∀ x, S x ↔ T x) : Split l r T :=
  ⟨h.left_nodup, h.right_nodup, h.disjoint, fun x => (h.mem_iff x).trans (hST x)⟩

theorem rotate_left {x : α} (h : Split (x :: l) r S) : Split (l ++ [x]) r S := by
  refine ⟨nodup_rotate h.left_nodup, h.right_nodup, ?_, ?_⟩
  · intro y hy
    exact h.disjoint y (by simpa [or_comm] using hy)
  · intro y
    rw [← h.mem_iff y]
    simp [or_comm]

theorem rotate_right {x : α} (h : Split l (x :: r) S) : Split l (r ++ [x]) S :=
  h.swap.rotate_left.swap

theorem push_left {x : α} (h : Split l r S) (hx : ¬ S x) :
    Split (l ++ [x]) r fun y => S y ∨ y = x := by
  have hxl : x ∉ l := fun hm => hx ((h.mem_iff x).mp (Or.inl hm))
  have hxr : x ∉ r := fun hm => hx ((h.mem_iff x).mp (Or.inr hm))
  refine ⟨nodup_concat h.left_nodup hxl, h.right_nodup, ?_, ?_⟩
  · intro y hy hyr
    rcases List.mem_append.mp hy with hy | hy
    · exact h.disjoint y hy hyr
    · exact hxr (List.mem_singleton.mp hy ▸ hyr)
  · intro y
    rw [← h.mem_iff y]
    simp only [List.mem_append, List.mem_singleton]
    tauto

variable [DecidableEq α]

theorem move_right {x : α} (h : Split l r S) (hx : x ∈ l) :
    Split (remove x l) (r ++ [x]) S := by
  have hxr : x ∉ r := h.disjoint x hx
  refine ⟨nodup_remove h.left_nodup, nodup_concat h.right_nodup hxr, ?_, ?_⟩
  · intro y hy hyr
    obtain ⟨hyl, hne⟩ := (mem_remove x y l).mp hy
    rcases List.mem_append.mp hyr with hyr | hyr
    · exact h.disjoint y hyl hyr
    · exact hne (List.mem_singleton.mp hyr)
  · intro y
    rw [← h.mem_iff y]
    simp only [mem_remove, List.mem_append, List.mem_singleton]
    by_cases hyx : y = x
    · subst y; simp [hx]
    · simp [hyx]

theorem move_left {x : α} (h : Split l r S) (hx : x ∈ r) :
    Split (l ++ [x]) (remove x r) S :=
  (h.swap.move_right hx).swap

theorem remove_left {x : α} (h : Split l r S) (hx : x ∈ l) :
    Split (remove x l) r fun y => S y ∧ y ≠ x := by
  refine ⟨nodup_remove h.left_nodup, h.right_nodup, ?_, ?_⟩
  · intro y hy
    exact h.disjoint y ((mem_remove x y l).mp hy).1
  · intro y
    rw [← h.mem_iff y]
    by_cases hyx : y = x
    · subst y; simp [h.disjoint x hx]
    · simp [hyx]

theorem remove_right {x : α} (h : Split l r S) (hx : x ∈ r) :
    Split l (remove x r) fun y => S y ∧ y ≠ x :=
  (h.swap.remove_left hx).swap

end Split

end Lrlb.Lib
