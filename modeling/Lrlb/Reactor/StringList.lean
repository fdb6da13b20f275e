import Lrlb.Reactor.ConfigFile

/-! The elements of a list in a configuration. -/
namespace Lrlb.Reactor
open Lib

/-- One round: what comes before the next separator, and whether there is more behind the
separators that follow. -/
theorem splitBody_cases (str : Str) (start : ℕ) :
    let first := (str.drop start).takeWhile fun c => !isSep c
    let rest := (str.drop start).dropWhile fun c => !isSep c
    (splitBody str start = .inl [first] ∧ tokens isSep rest = []) ∨
      ∃ next, splitBody str start = .inr (first, next) ∧
        tokens isSep rest = tokens isSep (str.drop next) ∧
        ((str.drop next).takeWhile fun c => !isSep c) ≠ [] ∧
        (str.drop next).length < (str.drop start).length := by
  intro first rest
  unfold splitBody findFirstOf? findFirstNotOf?
  cases hsep : (str.drop start).findIdx? isSep with
  | none =>
    left
    have hnone : ∀ c ∈ str.drop start, (!isSep c) = true := by
      simpa using List.findIdx?_eq_none_iff.mp hsep
    have hfirst : first = str.drop start := List.takeWhile_eq_self_iff.mpr hnone
    have hrest : rest = [] := List.dropWhile_eq_nil_iff.mpr hnone
    simp [hfirst, hrest]
  | some i =>
    obtain ⟨ws, a, ys, hsplit, hi, hws, ha⟩ := exists_of_findIdx? hsep
    have hfirst : first = ws := by
      rw [← takeWhile_not_append_cons hws ha ys, ← hsplit]
    have hrest : rest = a :: ys := by
      rw [← dropWhile_not_append_cons hws ha ys, ← hsplit]
    have htake : (str.drop start).take i = ws := by simp [hsplit, ← hi]
    have hdrop : str.drop (start + i) = a :: ys := by rw [← List.drop_drop, hsplit]; simp [← hi]
    rw [Option.map_some]
    dsimp only
    rw [Nat.add_sub_cancel_left, htake, hdrop, hfirst, hrest]
    cases hnot : (a :: ys).findIdx? fun c => !isSep c with
    | none =>
      left
      have hall : ∀ c ∈ a :: ys, isSep c = true := by
        simpa using List.findIdx?_eq_none_iff.mp hnot
      exact ⟨rfl, tokens_eq_nil hall⟩
    | some j =>
      right
      obtain ⟨us, b, zs, hsplit', hj, hus, hb⟩ := exists_of_findIdx? hnot
      have hnext : str.drop (start + i + j) = b :: zs := by
        rw [← List.drop_drop, hdrop, hsplit']
        simp [← hj]
      refine ⟨start + i + j, rfl, ?_, ?_, ?_⟩
      · rw [hnext, hsplit', tokens_append_of_forall (by simpa using hus)]
      · simpa [hnext] using hb
      · have hlen : 0 < us.length := by
          -- the separator that was found is not what is looked for next
          apply List.length_pos_of_ne_nil
          intro hnil
          rw [hnil, List.nil_append] at hsplit'
          rw [← (List.cons.inj hsplit').1, ha] at hb
          simp at hb
        rw [hnext, hsplit, hsplit']
        simp only [List.length_append]
        omega

/-- What is before the first separator, empty or not, and then all that follows. -/
theorem loop_splitBody (str : Str) (n start : ℕ) (hn : (str.drop start).length < n) :
    ∃ r, loop (splitBody str) n start = some r ∧
      r.1 ++ r.2 = (str.drop start).takeWhile (fun c => !isSep c) ::
        tokens isSep ((str.drop start).dropWhile fun c => !isSep c) := by
  induction n generalizing start with
  | zero => omega
  | succ n ih =>
    obtain ⟨hbody, htokens⟩ | ⟨next, hbody, htokens, hne, hlt⟩ := splitBody_cases str start
    · exact ⟨([], [_]), by rw [loop, hbody], by rw [htokens]; rfl⟩
    · obtain ⟨r, hr, helems⟩ := ih next (by omega)
      refine ⟨(_ :: r.1, r.2), by rw [loop, hbody]; dsimp only; rw [hr]; rfl, ?_⟩
      rw [List.cons_append, helems, htokens, tokens_eq_cons hne]

theorem splitList?_eq (str : Str) : splitList? (str.length + 1) str =
    some (str.takeWhile (fun c => !isSep c) :: tokens isSep (str.dropWhile fun c => !isSep c)) := by
  obtain ⟨r, hr, helems⟩ := loop_splitBody str (str.length + 1) 0 (by simp)
  rw [splitList?, hr, Option.map_some, helems]
  rfl

/-- The value starts with an element. -/
def StartsElement (value : Str) : Prop := ∃ c ∈ value.head?, isSep c = false

theorem startsElement_iff (value : Str) :
    StartsElement value ↔ (value.takeWhile fun c => !isSep c) ≠ [] := by
  cases value with
  | nil => simp [StartsElement]
  | cons c value => simp [StartsElement, List.takeWhile_cons]

/-- The elements of a value that starts with one. -/
theorem StartsElement.splitList? {value : Str} (h : StartsElement value) :
    splitList? (value.length + 1) value = some (tokens isSep value) := by
  rw [splitList?_eq, ← tokens_eq_cons ((startsElement_iff value).mp h)]

theorem splitList?_unique {n m : ℕ} {str : Str} {list list' : List Str}
    (hn : splitList? n str = some list) (hm : splitList? m str = some list') : list = list' := by
  obtain ⟨r, hr, rfl⟩ := Option.map_eq_some_iff.mp hn
  obtain ⟨r', hr', rfl⟩ := Option.map_eq_some_iff.mp hm
  rw [loop_unique hr hr']

/-- Elements that are joined start with the first of them. -/
theorem StartsElement.intercalate {value : Str} (h : StartsElement value) (sep : Str) :
    StartsElement (sep.intercalate (tokens isSep value)) := by
  have hfirst := (startsElement_iff value).mp h
  rw [tokens_eq_cons hfirst]
  obtain ⟨c, first, hc⟩ := List.exists_cons_of_ne_nil hfirst
  have hsep : isSep c = false := by
    have hmem : c ∈ value.takeWhile fun c => !isSep c := by simp [hc]
    simpa using List.mem_takeWhile_imp hmem
  rw [hc]
  refine ⟨c, ?_, hsep⟩
  cases tokens isSep (value.dropWhile fun c => !isSep c) with
  | nil => rfl
  | cons t ts => rfl

namespace ConfigFile

/-- `GetStringList` returns the maximal runs of characters that are not separators, of which none
is empty, and joined by any separator they are split into the same list again. -/
def ListsElements (c : ConfigFile) (name key : Str) : Prop :=
  ∃ n list, c.getStringList? n name key = some list ∧
    list = tokens isSep (c.getString name key []) ∧ [] ∉ list ∧
    ∀ sep : Str, sep ≠ [] → (∀ ch ∈ sep, isSep ch = true) →
      ∃ m, splitList? m (sep.intercalate list) = some list

theorem ListsElements.startsElement {c : ConfigFile} {name key : Str}
    (h : c.ListsElements name key) : StartsElement (c.getString name key []) := by
  obtain ⟨n, list, hlist, -, hnone, -⟩ := h
  rw [splitList?_unique hlist (splitList?_eq _)] at hnone
  rw [startsElement_iff]
  intro hempty
  simp [hempty] at hnone

/-- What is before the first separator becomes an element even if it is empty, so that the value
has to start with an element. -/
theorem lists_elements_iff (c : ConfigFile) (name key : Str) :
    c.ListsElements name key ↔ StartsElement (c.getString name key []) := by
  constructor
  · exact ListsElements.startsElement
  · intro h
    refine ⟨_, _, h.splitList?, rfl, fun hmem => (mem_tokens hmem).1 rfl, ?_⟩
    intro sep hne hsep
    have hagain := (h.intercalate sep).splitList?
    rw [tokens_intercalate hne hsep fun t ht => mem_tokens ht] at hagain
    exact ⟨_, hagain⟩

/-- A key that is missing has one element, which is empty, and a value that starts with a separator
has one too many. -/
theorem missing_key_one_element :
    (ConfigFile.mk fun _ => none).getStringList? 1 ['a'] ['b'] = some [[]] ∧
      splitList? 3 [',', ' ', 'x'] = some [[], ['x']] ∧ tokens isSep [',', ' ', 'x'] = [['x']] ∧
      ¬ (ConfigFile.mk fun _ => none).ListsElements ['a'] ['b'] := by
  refine ⟨by decide, by decide, by decide, ?_⟩
  intro h
  obtain ⟨c, hc, -⟩ := h.startsElement
  cases hc

end ConfigFile

end Lrlb.Reactor
