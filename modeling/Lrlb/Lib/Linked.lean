import Mathlib.Tactic

/-! Singly linked lists whose links are stored in the elements. -/
namespace Lrlb.Lib

variable {α : Type*}

/-- Following the links from `head` gives the elements of the list and then the end. -/
def Linked (next : α → Option α) : Option α → List α → Prop
  | head, [] => head = none
  | head, a :: l => head = some a ∧ Linked next (next a) l

namespace Linked

variable {next : α → Option α} {head : Option α} {a b : α} {l l' : List α}

/-- The links determine the list. -/
theorem unique (h : Linked next head l) (h' : Linked next head l') : l = l' := by
  induction l generalizing head l' with
  | nil =>
    cases l' with
    | nil => rfl
    | cons b l' => exact nomatch h.symm.trans h'.1
  | cons a l ih =>
    cases l' with
    | nil => exact nomatch h'.symm.trans h.1
    | cons b l' =>
      cases h.1.symm.trans h'.1
      rw [ih h.2 h'.2]

theorem suffix (h : Linked next head (l ++ a :: l')) : Linked next (next a) l' := by
  induction l generalizing head with
  | nil => exact h.2
  | cons b l ih => exact ih h.2

/-- A list that comes to an end passes no element twice. -/
theorem nodup (h : Linked next head l) : l.Nodup := by
  induction l generalizing head with
  | nil => exact List.nodup_nil
  | cons a l ih =>
    refine List.nodup_cons.mpr ⟨fun ha => ?_, ih h.2⟩
    -- what follows the second occurrence would be what follows the first
    obtain ⟨l₁, l₂, rfl⟩ := List.append_of_mem ha
    have hlen := congrArg List.length (h.2.unique (suffix h.2))
    simp at hlen
    omega

variable [DecidableEq α]

/-- A link of an element outside the list can be set to anything. -/
theorem frame (h : Linked next head l) (ha : a ∉ l) (v : Option α) :
    Linked (Function.update next a v) head l := by
  induction l generalizing head with
  | nil => exact h
  | cons b l ih =>
    have hne : b ≠ a := by
      rintro rfl
      exact ha List.mem_cons_self
    refine ⟨h.1, ?_⟩
    rw [Function.update_of_ne hne]
    exact ih h.2 fun hmem => ha (List.mem_cons_of_mem b hmem)

theorem push (h : Linked next head l) (ha : a ∉ l) :
    Linked (Function.update next a head) (some a) (a :: l) := by
  refine ⟨rfl, ?_⟩
  rw [Function.update_self]
  exact h.frame ha head

/-- A new last element behind the old one. -/
theorem snoc (h : Linked next head (l ++ [a])) (hb : b ∉ l ++ [a]) (hend : next b = none) :
    Linked (Function.update next a (some b)) head (l ++ [a] ++ [b]) := by
  induction l generalizing head with
  | nil =>
    have hne : b ≠ a := by simpa using hb
    refine ⟨h.1, ?_, ?_⟩
    · rw [Function.update_self]
    · rw [Function.update_of_ne hne]
      exact hend
  | cons c l ih =>
    have hc : c ≠ a := by
      rintro rfl
      exact (List.nodup_cons.mp h.nodup).1 (by simp)
    refine ⟨h.1, ?_⟩
    rw [Function.update_of_ne hc]
    exact ih h.2 fun hmem => hb (List.mem_cons_of_mem c hmem)

end Linked

end Lrlb.Lib
