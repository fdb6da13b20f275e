import Mathlib.Tactic

/-! Finite runs of a partial labelled step function. An impossible action ends the run,
so that `none` stands for a program that aborts or leaves its defined behaviour. -/
namespace Lrlb.Lib

variable {S A : Type*}

def run? (step : S → A → Option S) : S → List A → Option S
  | s, [] => some s
  | s, a :: as => (step s a).bind fun t => run? step t as

/-- The states a run passes through, the start included. -/
def visited (step : S → A → Option S) : S → List A → List S
  | s, [] => [s]
  | s, a :: as => s :: match step s a with
    | none => []
    | some t => visited step t as

/-- The actions a run attempts, each with the state it is attempted in. -/
def attempted (step : S → A → Option S) : S → List A → List (S × A)
  | _, [] => []
  | s, a :: as => (s, a) :: match step s a with
    | none => []
    | some t => attempted step t as

def Reachable (step : S → A → Option S) (s t : S) : Prop :=
  ∃ as, run? step s as = some t

variable {step : S → A → Option S}

theorem mem_visited_start (s : S) (as : List A) : s ∈ visited step s as := by
  cases as <;> simp [visited]

theorem mem_visited_of_run? {s t : S} {as : List A} (h : run? step s as = some t) :
    t ∈ visited step s as := by
  induction as generalizing s with
  | nil =>
    cases h
    exact mem_visited_start _ []
  | cons a as ih =>
    obtain ⟨u, hu, hr⟩ := Option.bind_eq_some_iff.mp h
    simp only [visited, hu]
    exact List.mem_cons_of_mem s (ih hr)

/-- An action is attempted in a state that the run visits. -/
theorem mem_visited_of_mem_attempted {s : S} {as : List A} {x : S × A}
    (h : x ∈ attempted step s as) : x.1 ∈ visited step s as := by
  induction as generalizing s with
  | nil => simp [attempted] at h
  | cons a as ih =>
    simp only [attempted, List.mem_cons] at h
    obtain rfl | h := h
    · exact mem_visited_start _ _
    · simp only [visited]
      refine List.mem_cons_of_mem s ?_
      cases ht : step s a with
      | none => simp [ht] at h
      | some t =>
        rw [ht] at h
        exact ih h

theorem forall_attempted_cons {G : S × A → Prop} (s : S) (a : A) (as : List A) :
    (∀ x ∈ attempted step s (a :: as), G x) ↔
      G (s, a) ∧ ∀ t, step s a = some t → ∀ x ∈ attempted step t as, G x := by
  rw [attempted]
  cases step s a with
  | none => simp
  | some t => simp

theorem run?_append (s : S) (as bs : List A) :
    run? step s (as ++ bs) = (run? step s as).bind fun t => run? step t bs := by
  induction as generalizing s with
  | nil => rfl
  | cons a as ih =>
    simp only [List.cons_append, run?, ih, Option.bind_assoc]

theorem attempted_append {s t : S} {as : List A} (h : run? step s as = some t) (bs : List A) :
    attempted step s (as ++ bs) = attempted step s as ++ attempted step t bs := by
  induction as generalizing s with
  | nil =>
    cases h
    rfl
  | cons a as ih =>
    obtain ⟨u, hu, hr⟩ := Option.bind_eq_some_iff.mp h
    simp only [List.cons_append, attempted, hu, ih hr]

theorem length_attempted {s t : S} {as : List A} (h : run? step s as = some t) :
    (attempted step s as).length = as.length := by
  induction as generalizing s with
  | nil => rfl
  | cons a as ih =>
    obtain ⟨u, hu, hr⟩ := Option.bind_eq_some_iff.mp h
    simp only [attempted, hu, List.length_cons, ih hr]

/-- A run that attempts something outside the guard does so for the first time at some point. -/
theorem exists_first_unguarded {G : S × A → Prop} {s : S} {as : List A}
    (h : ¬ ∀ x ∈ attempted step s as, G x) :
    ∃ bs a cs t, as = bs ++ a :: cs ∧ run? step s bs = some t ∧
      (∀ x ∈ attempted step s bs, G x) ∧ ¬ G (t, a) := by
  induction as generalizing s with
  | nil => exact absurd (by simp [attempted]) h
  | cons a as ih =>
    by_cases ha : G (s, a)
    · rw [forall_attempted_cons, not_and] at h
      obtain ⟨t, ht, hrest⟩ : ∃ t, step s a = some t ∧ ¬ ∀ x ∈ attempted step t as, G x := by
        simpa using h ha
      obtain ⟨bs, b, cs, u, rfl, hrun, hG, hb⟩ := ih hrest
      refine ⟨a :: bs, b, cs, u, rfl, by simpa [run?, ht] using hrun, ?_, hb⟩
      refine (forall_attempted_cons s a bs).mpr ⟨ha, fun t' ht' => ?_⟩
      cases ht.symm.trans ht'
      exact hG
    · exact ⟨[], a, as, s, rfl, rfl, by simp [attempted], ha⟩

/-- What a run attempts, a longer one attempts too. -/
theorem mem_attempted_append {s : S} {as : List A} {x : S × A} (h : x ∈ attempted step s as)
    (bs : List A) : x ∈ attempted step s (as ++ bs) := by
  induction as generalizing s with
  | nil => simp [attempted] at h
  | cons a as ih =>
    simp only [List.cons_append, attempted, List.mem_cons] at h ⊢
    refine h.imp_right fun h => ?_
    cases ht : step s a with
    | none => simp [ht] at h
    | some t =>
      rw [ht] at h
      exact ih h

theorem Reachable.refl (s : S) : Reachable step s s := ⟨[], rfl⟩

theorem Reachable.tail {s t u : S} {a : A} (h : Reachable step s t) (ht : step t a = some u) :
    Reachable step s u := by
  obtain ⟨as, has⟩ := h
  refine ⟨as ++ [a], ?_⟩
  rw [run?_append, has, Option.bind_some, run?, ht]
  rfl

theorem Reachable.trans {s t u : S} (h : Reachable step s t) (h' : Reachable step t u) :
    Reachable step s u := by
  obtain ⟨as, has⟩ := h
  obtain ⟨bs, hbs⟩ := h'
  refine ⟨as ++ bs, ?_⟩
  rw [run?_append, has]
  exact hbs

/-- What every step preserves holds in every reachable state. -/
theorem Reachable.invariant {P : S → Prop} (hstep : ∀ s a t, P s → step s a = some t → P t)
    {s t : S} (hs : P s) (h : Reachable step s t) : P t := by
  obtain ⟨as, has⟩ := h
  induction as generalizing s with
  | nil => cases has; exact hs
  | cons a as ih =>
    obtain ⟨u, hu, hr⟩ := Option.bind_eq_some_iff.mp has
    exact ih (hstep s a u hs hu) hr

/-- An invariant that also speaks of the actions taken so far. -/
theorem run?_history {P : List A → S → Prop} {G : A → Prop}
    (hstep : ∀ as s a t, P as s → G a → step s a = some t → P (as ++ [a]) t) {s t : S}
    {as : List A} (hs : P [] s) (hG : ∀ a ∈ as, G a) (h : run? step s as = some t) : P as t := by
  suffices hpast : ∀ past, P past s → P (past ++ as) t from hpast [] hs
  intro past hpast
  clear hs
  induction as generalizing s past with
  | nil =>
    cases h
    rwa [List.append_nil]
  | cons a as ih =>
    obtain ⟨u, hu, hr⟩ := Option.bind_eq_some_iff.mp h
    rw [List.append_cons]
    exact ih (fun b hb => hG b (List.mem_cons_of_mem a hb)) hr _
      (hstep past s a u hpast (hG a List.mem_cons_self) hu)

theorem mem_of_mem_attempted {s : S} {as : List A} {x : S × A} (h : x ∈ attempted step s as) :
    x.2 ∈ as := by
  induction as generalizing s with
  | nil => simp [attempted] at h
  | cons a as ih =>
    simp only [attempted, List.mem_cons] at h
    obtain rfl | h := h
    · exact List.mem_cons_self
    · cases ht : step s a with
      | none => simp [ht] at h
      | some t =>
        rw [ht] at h
        exact List.mem_cons_of_mem a (ih h)

/-- What the guarded steps preserve holds in every state that a guarded run visits. -/
theorem forall_visited {P : S → Prop} {G : S → A → Prop}
    (hstep : ∀ s a t, P s → G s a → step s a = some t → P t)
    (s : S) (as : List A) (hs : P s) (hG : ∀ x ∈ attempted step s as, G x.1 x.2) :
    ∀ t ∈ visited step s as, P t := by
  induction as generalizing s with
  | nil => simpa [visited] using hs
  | cons a as ih =>
    obtain ⟨hGa, hGas⟩ := (forall_attempted_cons s a as).mp hG
    intro u hu
    simp only [visited, List.mem_cons] at hu
    obtain rfl | hu := hu
    · exact hs
    · cases ht : step s a with
      | none => simp [ht] at hu
      | some t =>
        rw [ht] at hu
        exact ih t (hstep s a t hs hGa ht) (hGas t ht) u hu

/-- Where every step can go on with a label that is not smaller, the states that a run visits have
labels that never decrease. -/
theorem exists_labels {L : Type*} [Preorder L] {P : S → L → Prop}
    (hstep : ∀ s l a t, P s l → step s a = some t → ∃ l', l ≤ l' ∧ P t l') {s : S} {l : L}
    (hs : P s l) (as : List A) :
    ∃ ls, List.Forall₂ P (visited step s as) ls ∧ (l :: ls).Pairwise (· ≤ ·) := by
  induction as generalizing s l with
  | nil => exact ⟨[l], .cons hs .nil, by simp⟩
  | cons a as ih =>
    cases ht : step s a with
    | none => exact ⟨[l], by simpa [visited, ht] using hs, by simp⟩
    | some t =>
      obtain ⟨l', hle, hP⟩ := hstep s l a t hs ht
      obtain ⟨ls, hls, hsorted⟩ := ih hP
      have hrest : ∀ x ∈ ls, l ≤ x :=
        fun x hx => hle.trans (List.rel_of_pairwise_cons hsorted hx)
      refine ⟨l :: ls, ?_, ?_⟩
      · rw [visited, ht]
        exact .cons hs hls
      · have htail := hsorted.of_cons
        exact .cons (by simpa using hrest) (.cons hrest htail)

/-- A run whose guarded steps are all possible also comes to its end. -/
theorem guarded_run {P : S → Prop} {G : S → A → Prop}
    (hstep : ∀ s a, P s → G s a → ∃ t, step s a = some t ∧ P t)
    (s : S) (as : List A) (hs : P s) (hG : ∀ x ∈ attempted step s as, G x.1 x.2) :
    (∀ t ∈ visited step s as, P t) ∧ (run? step s as).isSome := by
  have hkeep : ∀ s a t, P s → G s a → step s a = some t → P t := by
    intro s a t hPs hGs ht
    obtain ⟨u, hu, hPu⟩ := hstep s a hPs hGs
    cases hu.symm.trans ht
    exact hPu
  refine ⟨forall_visited hkeep s as hs hG, ?_⟩
  induction as generalizing s with
  | nil => rfl
  | cons a as ih =>
    obtain ⟨hGa, hGas⟩ := (forall_attempted_cons s a as).mp hG
    obtain ⟨t, ht, hPt⟩ := hstep s a hs hGa
    simpa [run?, ht] using ih t hPt (hGas t ht)

/-- The converse: where a step outside the guard breaks the property at once, a run that
keeps the property to its end attempted guarded steps only. The guarded steps may rely on an
invariant of their own. -/
theorem guard_of_invariant_run {P Q : S → Prop} {G : S → A → Prop}
    (hstep : ∀ s a t, Q s → G s a → step s a = some t → Q t)
    (hbreak : ∀ s a t, Q s → P s → step s a = some t → P t → G s a)
    (s : S) (as : List A) (hs : Q s) (hv : ∀ t ∈ visited step s as, P t)
    (hr : (run? step s as).isSome) : ∀ x ∈ attempted step s as, G x.1 x.2 := by
  induction as generalizing s with
  | nil => simp [attempted]
  | cons a as ih =>
    cases ht : step s a with
    | none => simp [run?, ht] at hr
    | some t =>
      have hvt : ∀ u ∈ visited step t as, P u := fun u hu => hv u (by simp [visited, ht, hu])
      have hG : G s a :=
        hbreak s a t hs (hv s (mem_visited_start s _)) ht (hvt t (mem_visited_start t as))
      intro x hx
      simp only [attempted, ht, List.mem_cons] at hx
      rcases hx with rfl | hx
      · exact hG
      · exact ih t (hstep s a t hs hG ht) hvt (by simpa [run?, ht] using hr) x hx

theorem guard_of_run {P : S → Prop} {G : S → A → Prop}
    (hbreak : ∀ s a t, P s → step s a = some t → P t → G s a)
    (s : S) (as : List A) (hv : ∀ t ∈ visited step s as, P t) (hr : (run? step s as).isSome) :
    ∀ x ∈ attempted step s as, G x.1 x.2 :=
  guard_of_invariant_run (Q := fun _ => True) (fun _ _ _ _ _ _ => trivial)
    (fun s a t _ => hbreak s a t) s as trivial hv hr

end Lrlb.Lib
