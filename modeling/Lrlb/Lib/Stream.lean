import Mathlib.Tactic

/-! Incremental parsing: a parser that takes items off the front of what has arrived, fed with
a stream in chunks, and the loops of programs that implement one. -/
namespace Lrlb.Lib

/-- What stands at the front: an item and what follows it, not yet enough, or an error. -/
inductive Front (M β : Type*) where
  | more
  | item (m : M) (rest : List β)
  | fail

variable {M β : Type*}

/-- More input changes neither an item nor an error, and an item uses some input up. -/
structure Incremental (next : List β → Front M β) : Prop where
  item_append : ∀ {bs m r} cs, next bs = .item m r → next (bs ++ cs) = .item m (r ++ cs)
  fail_append : ∀ {bs} cs, next bs = .fail → next (bs ++ cs) = .fail
  shrink : ∀ {bs m r}, next bs = .item m r → r.length < bs.length

def parseFuel (next : List β → Front M β) : ℕ → List β → List M × Option (List β)
  | 0, bs => ([], some bs)
  | n + 1, bs =>
    match next bs with
    | .more => ([], some bs)
    | .fail => ([], none)
    | .item m r => (m :: (parseFuel next n r).1, (parseFuel next n r).2)

/-- All items at the front and the rest, which is `none` after an error. -/
def parseAll (next : List β → Front M β) (bs : List β) : List M × Option (List β) :=
  parseFuel next (bs.length + 1) bs

section Parse

variable {next : List β → Front M β} (h : Incremental next)

include h in
theorem parseFuel_eq {n : ℕ} {bs : List β} (hn : bs.length < n) :
    parseFuel next n bs = parseAll next bs := by
  have key : ∀ n m (bs : List β), bs.length < n → bs.length < m →
      parseFuel next n bs = parseFuel next m bs := by
    intro n
    induction n with
    | zero => intro m bs hn; omega
    | succ n ih =>
      intro m bs hn hm
      obtain ⟨m, rfl⟩ : ∃ k, m = k + 1 := ⟨m - 1, by omega⟩
      cases hb : next bs with
      | more => simp [parseFuel, hb]
      | fail => simp [parseFuel, hb]
      | item x r =>
        have hr := h.shrink hb
        simp [parseFuel, hb, ih m r (by omega) (by omega)]
  exact key n _ bs hn (by omega)

theorem parseAll_more {bs : List β} (hb : next bs = .more) : parseAll next bs = ([], some bs) := by
  simp [parseAll, parseFuel, hb]

theorem parseAll_fail {bs : List β} (hb : next bs = .fail) : parseAll next bs = ([], none) := by
  simp [parseAll, parseFuel, hb]

include h

theorem parseAll_item {bs r : List β} {m : M} (hb : next bs = .item m r) :
    parseAll next bs = (m :: (parseAll next r).1, (parseAll next r).2) := by
  rw [parseAll, parseFuel, hb]
  dsimp only
  rw [parseFuel_eq h (h.shrink hb)]

/-- Parsing follows the items off the front. -/
theorem parse_induction {P : List β → Prop}
    (more : ∀ bs, next bs = .more → P bs) (fail : ∀ bs, next bs = .fail → P bs)
    (item : ∀ bs m r, next bs = .item m r → P r → P bs) (bs : List β) : P bs := by
  generalize hn : bs.length = n
  induction n using Nat.strong_induction_on generalizing bs with
  | _ n ih =>
    cases hb : next bs with
    | more => exact more bs hb
    | fail => exact fail bs hb
    | item m r => exact item bs m r hb (ih r.length (hn ▸ h.shrink hb) r rfl)

/-- Parsing a stream in two pieces: the rest of the first is put before the second. -/
theorem parseAll_append {bs r : List β} (hr : (parseAll next bs).2 = some r) (cs : List β) :
    parseAll next (bs ++ cs) =
      ((parseAll next bs).1 ++ (parseAll next (r ++ cs)).1, (parseAll next (r ++ cs)).2) := by
  induction bs using parse_induction h with
  | more bs hb =>
    rw [parseAll_more hb] at hr ⊢
    cases hr
    rfl
  | fail bs hb => simp [parseAll_fail hb] at hr
  | item bs m r' hb ih =>
    rw [parseAll_item h hb] at hr ⊢
    rw [parseAll_item h (h.item_append cs hb), ih hr]
    rfl

/-- After an error more input makes no difference. -/
theorem parseAll_append_of_fail {bs : List β} (hr : (parseAll next bs).2 = none) (cs : List β) :
    parseAll next (bs ++ cs) = parseAll next bs := by
  induction bs using parse_induction h with
  | more bs hb => simp [parseAll_more hb] at hr
  | fail bs hb => rw [parseAll_fail (h.fail_append cs hb), parseAll_fail hb]
  | item bs m r' hb ih =>
    rw [parseAll_item h hb] at hr ⊢
    rw [parseAll_item h (h.item_append cs hb), ih hr]

theorem parseAll_append_fail {bs : List β} (hr : (parseAll next bs).2 = none) (cs : List β) :
    (parseAll next (bs ++ cs)).2 = none := by
  rw [parseAll_append_of_fail h hr, hr]

/-- What is left over is not enough for an item. -/
theorem parseAll_rest {bs r : List β} (hr : (parseAll next bs).2 = some r) : next r = .more := by
  induction bs using parse_induction h with
  | more bs hb =>
    rw [parseAll_more hb] at hr
    cases hr
    exact hb
  | fail bs hb => simp [parseAll_fail hb] at hr
  | item bs m r' hb ih =>
    rw [parseAll_item h hb] at hr
    exact ih hr

end Parse

variable {S E T : Type*}

/-- A loop whose body either leaves with a result or emits an event and goes round again;
`none` when it has not left within the given number of rounds. -/
def loop (body : S → T ⊕ (E × S)) : ℕ → S → Option (List E × T)
  | 0, _ => none
  | n + 1, s =>
    match body s with
    | .inl t => some ([], t)
    | .inr (e, s') => (loop body n s').map fun r => (e :: r.1, r.2)

/-- The states at the head of the loop, in at most the given number of rounds. -/
def loopStates (body : S → T ⊕ (E × S)) : ℕ → S → List S
  | 0, _ => []
  | n + 1, s => s :: match body s with
    | .inl _ => []
    | .inr (_, s') => loopStates body n s'

section Loop

variable {next : List β → Front M β} (h : Incremental next) {body : S → T ⊕ (E × S)}
  {I : S → Prop} {content : S → List β} {event : E → M} {Q : T → Option (List β) → Prop}

include h in
/-- A loop that takes the items off the front of its buffer leaves, emits the items that the
parser finds and ends with the parser's rest. -/
theorem loop_parseAll
    (hmore : ∀ s, I s → next (content s) = .more →
      ∃ t, body s = .inl t ∧ Q t (some (content s)))
    (hfail : ∀ s, I s → next (content s) = .fail → ∃ t, body s = .inl t ∧ Q t none)
    (hitem : ∀ s m r, I s → next (content s) = .item m r →
      ∃ e s', body s = .inr (e, s') ∧ event e = m ∧ content s' = r ∧ I s')
    {n : ℕ} {s : S} (hs : I s) (hn : (content s).length < n) :
    ∃ es t, loop body n s = some (es, t) ∧
      es.map event = (parseAll next (content s)).1 ∧ Q t (parseAll next (content s)).2 := by
  induction n generalizing s with
  | zero => omega
  | succ n ih =>
    cases hb : next (content s) with
    | more =>
      obtain ⟨t, ht, hq⟩ := hmore s hs hb
      rw [parseAll_more hb]
      exact ⟨[], t, by simp [loop, ht], rfl, hq⟩
    | fail =>
      obtain ⟨t, ht, hq⟩ := hfail s hs hb
      rw [parseAll_fail hb]
      exact ⟨[], t, by simp [loop, ht], rfl, hq⟩
    | item m r =>
      obtain ⟨e, s', hbody, he, hc, hs'⟩ := hitem s m r hs hb
      have hlt := h.shrink hb
      obtain ⟨es, t, hloop, hev, hq⟩ := ih hs' (by rw [hc]; omega)
      rw [parseAll_item h hb]
      rw [hc] at hev hq
      exact ⟨e :: es, t, by simp [loop, hbody, hloop], by simp [he, hev], hq⟩

include h in
/-- A loop that goes on at an error with a bad event emits a bad event whenever it leaves. -/
theorem loop_bad {J : E → Prop}
    (hfail : ∀ s, I s → next (content s) = .fail → ∃ e s', body s = .inr (e, s') ∧ ¬ J e)
    (hitem : ∀ s m r, I s → next (content s) = .item m r →
      ∃ e s', body s = .inr (e, s') ∧ content s' = r ∧ I s')
    {n : ℕ} {s : S} (hs : I s) (hbad : (parseAll next (content s)).2 = none)
    {es : List E} {t : T} (hloop : loop body n s = some (es, t)) : ∃ e ∈ es, ¬ J e := by
  induction n generalizing s es with
  | zero => cases hloop
  | succ n ih =>
    cases hb : next (content s) with
    | more => simp [parseAll_more hb] at hbad
    | fail =>
      obtain ⟨e, s', hbody, he⟩ := hfail s hs hb
      simp only [loop, hbody] at hloop
      obtain ⟨r, -, hr⟩ := Option.map_eq_some_iff.mp hloop
      cases hr
      exact ⟨e, by simp, he⟩
    | item m r =>
      obtain ⟨e, s', hbody, hc, hs'⟩ := hitem s m r hs hb
      rw [parseAll_item h hb] at hbad
      simp only [loop, hbody] at hloop
      obtain ⟨q, hq, hr⟩ := Option.map_eq_some_iff.mp hloop
      cases hr
      obtain ⟨e', he', hJ⟩ := ih hs' (by rw [hc]; exact hbad) hq
      exact ⟨e', by simp [he'], hJ⟩

/-- What every round keeps holds at the head of every round and of every event. -/
theorem loop_invariant {J : E → Prop} (hstep : ∀ s e s', I s → body s = .inr (e, s') → J e ∧ I s')
    (n : ℕ) {s : S} (hs : I s) :
    (∀ t ∈ loopStates body n s, I t) ∧
      ∀ es t, loop body n s = some (es, t) → ∀ e ∈ es, J e := by
  induction n generalizing s with
  | zero => exact ⟨by simp [loopStates], nofun⟩
  | succ n ih =>
    cases hbody : body s with
    | inl t => simpa [loopStates, loop, hbody] using hs
    | inr r =>
      obtain ⟨e, s'⟩ := r
      obtain ⟨he, hs'⟩ := hstep s e s' hs hbody
      obtain ⟨hst, hev⟩ := ih hs'
      refine ⟨?_, ?_⟩
      · simpa [loopStates, hbody] using ⟨hs, hst⟩
      · intro es t hloop e' he'
        simp only [loop, hbody] at hloop
        obtain ⟨⟨es', t'⟩, hq, hr⟩ := Option.map_eq_some_iff.mp hloop
        cases hr
        rcases List.mem_cons.mp he' with rfl | he'
        · exact he
        · exact hev es' t' hq e' he'

/-- A loop that always goes on from the states of an invariant never leaves. -/
theorem loop_diverges (hstep : ∀ s, I s → ∃ e s', body s = .inr (e, s') ∧ I s') (n : ℕ) {s : S}
    (hs : I s) : loop body n s = none := by
  induction n generalizing s with
  | zero => rfl
  | succ n ih =>
    obtain ⟨e, s', hbody, hs'⟩ := hstep s hs
    simp [loop, hbody, ih hs']

/-- A round that leads back to its own start is repeated for ever. -/
theorem loop_stuck {s : S} {e : E} (hbody : body s = .inr (e, s)) (n : ℕ) :
    loop body n s = none := by
  apply loop_diverges (I := fun t => t = s) ?_ n rfl
  intro t ht
  exact ⟨e, s, ht ▸ hbody, rfl⟩

/-- A round that leaves the loop ends it. -/
theorem loop_ends {s : S} {t : T} (hbody : body s = .inl t) : ∃ n r, loop body n s = some r :=
  ⟨1, ([], t), by simp [loop, hbody]⟩

/-- A loop ends if it ends from the next round on. -/
theorem loop_ends_next {s s' : S} {e : E} (hbody : body s = .inr (e, s'))
    (hnext : ∃ n r, loop body n s' = some r) : ∃ n r, loop body n s = some r := by
  obtain ⟨n, r, hr⟩ := hnext
  exact ⟨n + 1, (e :: r.1, r.2), by simp [loop, hbody, hr]⟩

theorem loop_unique {n m : ℕ} {s : S} {r r' : List E × T} (hn : loop body n s = some r)
    (hm : loop body m s = some r') : r = r' := by
  induction n generalizing m s r r' with
  | zero => cases hn
  | succ n ih =>
    cases m with
    | zero => cases hm
    | succ m =>
      cases hbody : body s with
      | inl t =>
        simp only [loop, hbody] at hn hm
        exact Option.some.inj (hn.symm.trans hm)
      | inr p =>
        simp only [loop, hbody] at hn hm
        obtain ⟨q, hq, rfl⟩ := Option.map_eq_some_iff.mp hn
        obtain ⟨q', hq', rfl⟩ := Option.map_eq_some_iff.mp hm
        rw [ih hq hq']

end Loop

end Lrlb.Lib
