import Mathlib.Data.List.AList
import Mathlib.Tactic

/-! Hash sets and maps from keys to hash sets. A set is the list of its elements in iteration
order, and a key that is absent from a map stands for the empty set. -/
namespace Lrlb.Lib

variable {κ α : Type*}

structure HashSet (α : Type*) where
  elems : List α
  nodup : elems.Nodup
deriving DecidableEq

namespace HashSet

instance : EmptyCollection (HashSet α) := ⟨⟨[], List.nodup_nil⟩⟩

instance : Membership α (HashSet α) := ⟨fun s a => a ∈ s.elems⟩

/-- The same elements, in whatever order the two sets are iterated. -/
def Same (s t : HashSet α) : Prop := s.elems.Perm t.elems

@[simp] theorem notMem_empty (a : α) : a ∉ (∅ : HashSet α) := List.not_mem_nil

variable [DecidableEq α]

instance (a : α) (s : HashSet α) : Decidable (a ∈ s) := inferInstanceAs (Decidable (a ∈ s.elems))

instance (s t : HashSet α) : Decidable (s.Same t) :=
  inferInstanceAs (Decidable (s.elems.Perm t.elems))

def insert (s : HashSet α) (a : α) : HashSet α := ⟨s.elems.insert a, s.nodup.insert⟩

def erase (s : HashSet α) (a : α) : HashSet α := ⟨s.elems.erase a, s.nodup.erase a⟩

@[simp] theorem mem_insert {s : HashSet α} {a b : α} : b ∈ s.insert a ↔ b = a ∨ b ∈ s :=
  List.mem_insert_iff

@[simp] theorem mem_erase {s : HashSet α} {a b : α} : b ∈ s.erase a ↔ b ≠ a ∧ b ∈ s :=
  s.nodup.mem_erase_iff

end HashSet

/-- A map whose values are sets. -/
abbrev SetMap (κ α : Type*) := AList fun _ : κ => HashSet α

namespace SetMap

variable [DecidableEq κ]

def find (m : SetMap κ α) (k : κ) : HashSet α := (m.lookup k).getD ∅

@[simp] theorem find_empty (k : κ) : (∅ : SetMap κ α).find k = ∅ := rfl

theorem find_insert (m : SetMap κ α) (k j : κ) (s : HashSet α) :
    find (m.insert k s) j = if j = k then s else m.find j := by
  unfold find
  split_ifs with h
  · subst j; rw [AList.lookup_insert]; rfl
  · rw [AList.lookup_insert_ne h]

theorem find_erase (m : SetMap κ α) (k j : κ) :
    find (m.erase k) j = if j = k then ∅ else m.find j := by
  unfold find
  split_ifs with h
  · subst j; rw [AList.lookup_erase]; rfl
  · rw [AList.lookup_erase_ne h]

theorem find_of_notMem {m : SetMap κ α} {k : κ} (h : k ∉ m) : m.find k = ∅ := by
  rw [find, AList.lookup_eq_none.mpr h]
  rfl

/-- Moves the sets at the keys that satisfy `p` into a map of their own, key by key. -/
def extract (m : SetMap κ α) (p : κ → Bool) : SetMap κ α × SetMap κ α :=
  m.keys.foldl (fun (taken, rest) k =>
    if p k then (taken.insert k (rest.find k), rest.erase k) else (taken, rest)) (∅, m)

/-- All pairs of a key and an element of its set, in iteration order. -/
def pairs (m : SetMap κ α) : List (κ × α) :=
  m.entries.flatMap fun e => e.2.elems.map fun a => (e.1, a)

theorem mem_pairs {m : SetMap κ α} {k : κ} {a : α} : (k, a) ∈ m.pairs ↔ a ∈ m.find k := by
  have hlookup : ∀ s, (⟨k, s⟩ : (_ : κ) × HashSet α) ∈ m.entries ↔ m.lookup k = some s :=
    fun _ => AList.mem_lookup_iff.symm
  constructor
  · intro h
    obtain ⟨⟨j, s⟩, hs, hp⟩ := List.mem_flatMap.mp h
    obtain ⟨b, hb, he⟩ := List.mem_map.mp hp
    cases he
    rw [find, (hlookup s).mp hs]
    exact hb
  · intro h
    cases hk : m.lookup k with
    | none => simp [find, hk] at h
    | some s =>
      rw [find, hk] at h
      exact List.mem_flatMap.mpr ⟨⟨k, s⟩, (hlookup s).mpr hk, List.mem_map.mpr ⟨a, h, rfl⟩⟩

omit [DecidableEq κ] in
theorem nodup_pairs (m : SetMap κ α) : m.pairs.Nodup := by
  refine List.nodup_flatMap.mpr ⟨fun e _ => ?_, ?_⟩
  · exact e.2.nodup.map fun a b h => congrArg Prod.snd h
  · refine (List.pairwise_map.mp m.nodupKeys).imp fun {e f} hne => ?_
    intro x hx hy
    obtain ⟨a, -, rfl⟩ := List.mem_map.mp hx
    obtain ⟨b, -, he⟩ := List.mem_map.mp hy
    exact hne (congrArg Prod.fst he).symm

/-- The loop of `extract` has moved exactly the keys it has passed. -/
theorem extract_foldl (m : SetMap κ α) (p : κ → Bool) (ks : List κ) (hks : ks.Nodup)
    (taken rest : SetMap κ α) (hrest : ∀ k ∈ ks, rest.find k = m.find k) (j : κ) :
    let r := ks.foldl (fun (taken, rest) k =>
      if p k then (taken.insert k (rest.find k), rest.erase k) else (taken, rest)) (taken, rest)
    r.1.find j = (if p j ∧ j ∈ ks then m.find j else taken.find j) ∧
      r.2.find j = (if p j ∧ j ∈ ks then ∅ else rest.find j) := by
  induction ks generalizing taken rest with
  | nil => simp
  | cons k ks ih =>
    obtain ⟨hk, hnodup⟩ := List.nodup_cons.mp hks
    dsimp only
    rw [List.foldl_cons]
    by_cases hp : p k
    · rw [if_pos hp]
      have hrest' : ∀ i ∈ ks, find (rest.erase k) i = m.find i := by
        intro i hi
        have hik : i ≠ k := fun h => hk (h ▸ hi)
        rw [find_erase, if_neg hik]
        exact hrest i (List.mem_cons_of_mem _ hi)
      obtain ⟨h1, h2⟩ := ih hnodup (taken.insert k (rest.find k)) (rest.erase k) hrest'
      rw [h1, h2, find_insert, find_erase]
      by_cases hj : j = k
      · subst j
        simp [hk, hp, hrest k (List.mem_cons_self ..)]
      · simp [hj]
    · rw [if_neg hp]
      obtain ⟨h1, h2⟩ := ih hnodup taken rest fun i hi => hrest i (List.mem_cons_of_mem _ hi)
      rw [h1, h2]
      by_cases hj : j = k
      · subst j
        simp [hp]
      · simp [hj]

theorem find_extract (m : SetMap κ α) (p : κ → Bool) (j : κ) :
    (m.extract p).1.find j = (if p j then m.find j else ∅) ∧
      (m.extract p).2.find j = (if p j then ∅ else m.find j) := by
  obtain ⟨h1, h2⟩ := extract_foldl m p m.keys m.keys_nodup ∅ m (fun _ _ => rfl) j
  have hkeys : j ∉ m.keys → m.find j = ∅ := fun h => find_of_notMem fun hm => h hm
  refine ⟨h1.trans ?_, h2.trans ?_⟩
  · by_cases hj : j ∈ m.keys
    · simp [hj]
    · simp [hj, hkeys hj]
  · by_cases hj : j ∈ m.keys
    · simp [hj]
    · simp [hj, hkeys hj]

/-- No key of the map has an empty set. -/
def NoEmpty (m : SetMap κ α) : Prop := ∀ k s, m.lookup k = some s → s ≠ ∅

theorem NoEmpty.insert {m : SetMap κ α} (h : m.NoEmpty) {k : κ} {s : HashSet α} (hs : s ≠ ∅) :
    NoEmpty (m.insert k s) := by
  intro j t hj
  by_cases hk : j = k
  · subst j
    rw [AList.lookup_insert] at hj
    exact Option.some.inj hj ▸ hs
  · rw [AList.lookup_insert_ne hk] at hj
    exact h j t hj

variable [DecidableEq α]

/-- C++'s `m[k].insert(a)`. -/
def insertAt (m : SetMap κ α) (k : κ) (a : α) : SetMap κ α := m.insert k ((m.find k).insert a)

/-- Removes one element, and the key with its last element. -/
def eraseAt (m : SetMap κ α) (k : κ) (a : α) : SetMap κ α :=
  if k ∈ m then
    if (m.find k).erase a = ∅ then m.erase k else m.insert k ((m.find k).erase a)
  else m

@[simp] theorem mem_find_insertAt (m : SetMap κ α) (k j : κ) (a b : α) :
    b ∈ (m.insertAt k a).find j ↔ (j = k ∧ b = a) ∨ b ∈ m.find j := by
  rw [insertAt, find_insert]
  split_ifs with h
  · subst j; simp
  · simp [h]

theorem NoEmpty.insertAt {m : SetMap κ α} (h : m.NoEmpty) (k : κ) (a : α) :
    (m.insertAt k a).NoEmpty := by
  refine h.insert fun he => ?_
  have ha : a ∈ (m.find k).insert a := HashSet.mem_insert.mpr (Or.inl rfl)
  exact HashSet.notMem_empty a (he ▸ ha)

theorem NoEmpty.eraseAt {m : SetMap κ α} (h : m.NoEmpty) (k : κ) (a : α) :
    (m.eraseAt k a).NoEmpty := by
  unfold SetMap.eraseAt
  split_ifs with hm he
  · intro j t hj
    by_cases hk : j = k
    · subst j
      rw [AList.lookup_erase] at hj
      cases hj
    · rw [AList.lookup_erase_ne hk] at hj
      exact h j t hj
  · exact h.insert he
  · exact h

theorem find_eraseAt (m : SetMap κ α) (k j : κ) (a : α) :
    (m.eraseAt k a).find j = if j = k then (m.find k).erase a else m.find j := by
  unfold eraseAt
  split_ifs with hm he hj hj hj
  · rw [find_erase, if_pos hj, he]
  · rw [find_erase, if_neg hj]
  · rw [find_insert, if_pos hj]
  · rw [find_insert, if_neg hj]
  · subst j
    rw [find_of_notMem hm]
    rfl
  · rfl

end SetMap

end Lrlb.Lib
