import Lrlb.Reactor.BufOwners

/-! Connections that share the pool do not see each other. What is done for one connection leaves
the buffers of the others as they are, and a read or a send in two halves has the outcome that it
has on a connection by itself. -/
namespace Lrlb.Reactor

/-- The `reactor_buf` that a slot belongs to. -/
def BufSlot.index : BufSlot → ℕ
  | .buf i | .newBuf i => i

def BufAction.index : BufAction → ℕ
  | .readData i _ _ | .sendData i _ | .pop i _ | .adjust i | .write2fd i _ | .clear i
  | .resume i => i

namespace BufSystem

variable {raw : BufPtr → ℤ → UInt8} {s t : BufSystem} {x : BufSlot} {p q : BufPtr} {i j : ℕ}

/-- The buffers of all other connections are where they were, with what was in them. -/
structure LocalTo (i : ℕ) (s t : BufSystem) : Prop where
  slot : ∀ y, y.index ≠ i → t.slot y = s.slot y
  bufs : ∀ y q, y.index ≠ i → s.slot y = some q → t.pool.bufs q = s.pool.bufs q
  task : ∀ j, j ≠ i → t.task j = s.task j

namespace LocalTo

theorem refl (i : ℕ) (s : BufSystem) : LocalTo i s s :=
  ⟨fun _ _ => rfl, fun _ _ _ _ => rfl, fun _ _ => rfl⟩

theorem trans {u : BufSystem} (h : LocalTo i s t) (h' : LocalTo i t u) : LocalTo i s u := by
  refine ⟨fun y hy => (h'.slot y hy).trans (h.slot y hy), fun y q hy hq => ?_,
    fun j hj => (h'.task j hj).trans (h.task j hj)⟩
  rw [h'.bufs y q hy ((h.slot y hy).trans hq), h.bufs y q hy hq]

/-- What is done to one of the connection's own buffers. -/
theorem of_bufs (h : s.Inv) (hx : s.slot x = some p) (hi : x.index = i)
    (hslot : ∀ y, y.index ≠ i → t.slot y = s.slot y)
    (hbufs : ∀ q, q ≠ p → t.pool.bufs q = s.pool.bufs q) (htask : t.task = s.task) :
    LocalTo i s t := by
  refine ⟨hslot, fun y q hy hq => hbufs q ?_, fun j _ => congrFun htask j⟩
  rintro rfl
  obtain ⟨free, hacc⟩ := h.accounted
  exact hy (hacc.unique y x q hq hx ▸ hi)

theorem write (h : s.Inv) (hx : s.slot x = some p) (hi : x.index = i) {b : Option IoBuf}
    (hs : s.write p b = .ok t) : LocalTo i s t := by
  cases b with
  | none => cases hs
  | some b =>
    cases hs
    exact of_bufs h hx hi (fun _ _ => rfl) (fun _ hq => s.pool.bufs_modify_ne hq fun _ => b) rfl

theorem toFront (h : s.Inv) (hx : s.slot x = some p) (hi : x.index = i) :
    LocalTo i s (s.toFront p) :=
  of_bufs h hx hi (fun _ _ => rfl) (fun _ hq => s.pool.bufs_modify_ne hq _) rfl

theorem of_alloc (hslot : t.slot = Function.update s.slot x (some p)) (hi : x.index = i)
    (hnew : ∀ y, s.slot y ≠ some p) (hbufs : ∀ q, q ≠ p → t.pool.bufs q = s.pool.bufs q)
    (htask : ∀ j, j ≠ i → t.task j = s.task j) : LocalTo i s t := by
  refine ⟨fun y hy => ?_, fun y q hy hq => hbufs q fun he => hnew y (he ▸ hq), htask⟩
  have hne : y ≠ x := by
    rintro rfl
    exact hy hi
  rw [hslot, Function.update_of_ne hne]

theorem revert (h : s.Inv) (hx : s.slot x = some p) (hi : x.index = i)
    (hs : s.revert p x = .ok t) : LocalTo i s t := by
  obtain ⟨u, hu, -, hslot, htask, hbufs⟩ := revert_eq h.accounted hx
  cases hu.symm.trans hs
  refine of_bufs h hx hi (fun y hy => ?_) hbufs htask
  have hne : y ≠ x := by
    rintro rfl
    exact hy hi
  rw [hslot, Function.update_of_ne hne]

theorem resume (h : s.Inv) (hs : s.resume i = .ok t) : LocalTo i s t := by
  unfold BufSystem.resume at hs
  cases hp : s.slot (.buf i) with
  | none =>
    rw [hp] at hs
    cases hs
  | some p =>
    cases hq : s.slot (.newBuf i) with
    | none =>
      rw [hp, hq] at hs
      cases hs
    | some q =>
      rw [hp, hq] at hs
      obtain ⟨u, he, hfree, hslot, htask, -, hbufs⟩ := exchange_eq h hp hq
      have hinv := h.of_exchange hfree hslot htask
      have hx : (u.setTask i .idle).slot (.buf i) = some q := by
        change u.slot (.buf i) = some q
        rw [hslot, Function.update_self]
      have hu : LocalTo i s (u.setTask i .idle) := by
        obtain ⟨free, hacc⟩ := h.accounted
        refine ⟨fun y hy => ?_, fun y r hy hr => hbufs r ?_ ?_, fun j hj => ?_⟩
        · change u.slot y = s.slot y
          have hbuf : y ≠ .buf i := fun he => hy (congrArg BufSlot.index he)
          have hnew : y ≠ .newBuf i := fun he => hy (congrArg BufSlot.index he)
          rw [hslot, Function.update_of_ne hbuf, Function.update_of_ne hnew]
        · rintro rfl
          exact hy (congrArg BufSlot.index (hacc.unique y _ r hr hp))
        · rintro rfl
          exact hy (congrArg BufSlot.index (hacc.unique y _ r hr hq))
        · change Function.update u.task i .idle j = s.task j
          rw [Function.update_of_ne hj, htask]
      dsimp only at hs
      cases htask' : s.task i with
      | idle =>
        rw [htask'] at hs
        cases hs
      | reading needRead got =>
        rw [htask'] at hs
        dsimp only at hs
        rw [he] at hs
        exact hu.trans (write (x := .buf i) hinv hx rfl hs)
      | sending data =>
        rw [htask'] at hs
        dsimp only at hs
        rw [he] at hs
        exact hu.trans (write (x := .buf i) hinv hx rfl hs)

theorem readData (h : s.Inv) (hidle : s.task i = .idle) {needRead : Int32}
    {got : Option (List UInt8)} (hs : s.readData raw i needRead got = .ok t) : LocalTo i s t := by
  unfold BufSystem.readData at hs
  cases hx : s.slot (.buf i) with
  | none =>
    rw [hx] at hs
    dsimp only at hs
    rcases alloc_cases raw h hx needRead with he | ⟨he, -⟩ |
      ⟨u, p, he, hfree, hslot, htask, -, hnew, hbufs⟩ <;> rw [he] at hs
    · cases hs
    · cases hs
      exact refl i s
    · have hu : u.slot (.buf i) = some p := by
        rw [hslot, Function.update_self]
      exact (of_alloc hslot rfl hnew hbufs fun j _ => congrFun htask j).trans
        (write (x := .buf i) (h.of_alloc_buf hfree hslot htask) hu rfl hs)
  | some p =>
    rw [hx] at hs
    dsimp only at hs
    have hfront := h.toFront hx
    have hlocal : LocalTo i s (s.toFront p) := toFront (x := .buf i) h hx rfl
    split_ifs at hs with hgrow
    · rcases alloc_cases raw hfront (h.task i hidle)
        (needRead + ((s.toFront p).pool.bufs p).length) with he | ⟨he, -⟩ |
        ⟨u, q, he, hfree, hslot, htask, -, hnew, hbufs⟩ <;> rw [he] at hs
      · cases hs
      · cases hs
      · cases hs
        refine hlocal.trans (of_alloc (x := .newBuf i) hslot rfl hnew hbufs fun j hj => ?_)
        exact (Function.update_of_ne hj ..).trans (congrFun htask j)
    · exact hlocal.trans (write (x := .buf i) hfront hx rfl hs)

theorem sendData (h : s.Inv) (hidle : s.task i = .idle) {data : List UInt8}
    (hs : s.sendData raw i data = .ok t) : LocalTo i s t := by
  unfold BufSystem.sendData at hs
  cases hx : s.slot (.buf i) with
  | none =>
    rw [hx] at hs
    dsimp only at hs
    rcases alloc_cases raw h hx (Int32.ofNat data.length) with he | ⟨he, -⟩ |
      ⟨u, p, he, hfree, hslot, htask, -, hnew, hbufs⟩ <;> rw [he] at hs
    · cases hs
    · cases hs
      exact refl i s
    · have hu : u.slot (.buf i) = some p := by
        rw [hslot, Function.update_self]
      exact (of_alloc hslot rfl hnew hbufs fun j _ => congrFun htask j).trans
        (write (x := .buf i) (h.of_alloc_buf hfree hslot htask) hu rfl hs)
  | some p =>
    rw [hx] at hs
    dsimp only at hs
    have hfront := h.toFront hx
    have hlocal : LocalTo i s (s.toFront p) := toFront (x := .buf i) h hx rfl
    split_ifs at hs with hgrow
    · rcases alloc_cases raw hfront (h.task i hidle)
        (Int32.ofNat data.length + ((s.toFront p).pool.bufs p).length) with he | ⟨he, -⟩ |
        ⟨u, q, he, hfree, hslot, htask, -, hnew, hbufs⟩ <;> rw [he] at hs
      · cases hs
      · cases hs
        exact hlocal
      · cases hs
        refine hlocal.trans (of_alloc (x := .newBuf i) hslot rfl hnew hbufs fun j hj => ?_)
        exact (Function.update_of_ne hj ..).trans (congrFun htask j)
    · exact hlocal.trans (write (x := .buf i) hfront hx rfl hs)

theorem update (h : s.Inv) {f : IoBuf → Option IoBuf} (hs : s.update i f = .ok t) :
    LocalTo i s t := by
  unfold BufSystem.update at hs
  cases hx : s.slot (.buf i) with
  | none =>
    rw [hx] at hs
    cases hs
  | some p =>
    rw [hx] at hs
    exact write (x := .buf i) h hx rfl hs

theorem step (h : s.Inv) {a : BufAction} (hs : s.step raw a = .ok t) : LocalTo a.index s t := by
  unfold BufSystem.step at hs
  cases a with
  | readData i needRead got =>
    dsimp only at hs
    split_ifs at hs with hidle
    exact readData h hidle hs
  | sendData i data =>
    dsimp only at hs
    split_ifs at hs with hidle
    exact sendData h hidle hs
  | pop i len =>
    dsimp only at hs
    split_ifs at hs
    exact update h hs
  | adjust i =>
    dsimp only at hs
    split_ifs at hs
    unfold BufSystem.adjust at hs
    cases hx : s.slot (.buf i) with
    | none =>
      rw [hx] at hs
      cases hs
      exact refl i _
    | some p =>
      rw [hx] at hs
      exact write (x := .buf i) h hx rfl hs
  | write2fd i r =>
    dsimp only at hs
    split_ifs at hs
    exact update h hs
  | clear i =>
    dsimp only at hs
    split_ifs at hs
    unfold BufSystem.clear at hs
    cases hx : s.slot (.buf i) with
    | none =>
      rw [hx] at hs
      cases hs
      exact refl i _
    | some p =>
      rw [hx] at hs
      exact revert (x := .buf i) h hx rfl hs
  | resume i => exact resume h hs

end LocalTo

/-- What is done for one connection never touches what another one has buffered. -/
theorem value_eq_of_step (h : s.Inv) {a : BufAction} (hs : s.step raw a = .ok t)
    (hj : a.index ≠ j) : t.value j = s.value j := by
  have hlocal := LocalTo.step h hs
  have hslot := hlocal.slot (.buf j) hj.symm
  unfold value
  rw [hslot]
  cases hx : s.slot (.buf j) with
  | none => rfl
  | some p => exact congrArg some (hlocal.bufs (.buf j) p hj.symm hx)

/-- What a connection has buffered once the operation on it that is under way, if any, has
ended; `none` if that fails. -/
def outcome? (s : BufSystem) (i : ℕ) : Option (Option IoBuf) :=
  match s.task i, s.slot (.buf i), s.slot (.newBuf i) with
  | .reading needRead got, some p, some q =>
    (finishRead? needRead got ((s.pool.bufs q).copy (s.pool.bufs p))).map Prod.fst
  | .sending data, some p, some q =>
    let b := (s.pool.bufs q).copy (s.pool.bufs p)
    if b.capacity.toInt < b.length.toInt + data.length then none else some (some (b.write data))
  | _, _, _ => some (s.value i)

theorem outcome?_idle (h : s.task i = .idle) : s.outcome? i = some (s.value i) := by
  unfold outcome?
  rw [h]

theorem value_write {b : IoBuf} (hx : s.slot (.buf i) = some p)
    (hs : s.write p (some b) = .ok t) : t.value i = some b ∧ t.task = s.task := by
  cases hs
  refine ⟨?_, rfl⟩
  change (s.slot (.buf i)).map (s.pool.modify p fun _ => b).bufs = some b
  rw [hx, Option.map_some, BufPool.bufs_modify_self]

theorem outcome?_finishRead {needRead : Int32} {got : Option (List UInt8)}
    (hidle : s.task i = .idle) (hx : s.slot (.buf i) = some p)
    (hs : s.finishRead p needRead got = .ok t) :
    t.task i = .idle ∧
      t.outcome? i = (finishRead? needRead got (s.pool.bufs p)).map Prod.fst := by
  unfold BufSystem.finishRead at hs
  cases hfin : finishRead? needRead got (s.pool.bufs p) with
  | none =>
    rw [hfin] at hs
    cases hs
  | some out =>
    obtain ⟨o, ret⟩ := out
    obtain ⟨b, rfl, -⟩ := finishRead?_capacity hfin
    rw [hfin] at hs
    obtain ⟨hvalue, htask⟩ := value_write hx hs
    have hidle' : t.task i = .idle := (congrFun htask i).trans hidle
    refine ⟨hidle', ?_⟩
    rw [outcome?_idle hidle', hvalue]
    rfl

theorem outcome?_append {data : List UInt8} (hidle : s.task i = .idle)
    (hx : s.slot (.buf i) = some p) (hs : s.append p data = .ok t) :
    t.task i = .idle ∧ t.outcome? i = some (some ((s.pool.bufs p).write data)) ∧
      ¬ (s.pool.bufs p).capacity.toInt < (s.pool.bufs p).length.toInt + data.length := by
  unfold BufSystem.append at hs
  dsimp only at hs
  split_ifs at hs with hfull
  · cases hs
  · obtain ⟨hvalue, htask⟩ := value_write hx hs
    have hidle' : t.task i = .idle := (congrFun htask i).trans hidle
    exact ⟨hidle', by rw [outcome?_idle hidle', hvalue], hfull⟩

theorem bufs_toFront (s : BufSystem) (p : BufPtr) :
    (s.toFront p).pool.bufs p =
      if (s.pool.bufs p).head ≠ 0 then (s.pool.bufs p).adjust else s.pool.bufs p :=
  s.pool.bufs_modify_self p _

/-- With other operations in between or not, a read that leaves at most 4 MB unread does to its
connection what the read of one connection does. -/
theorem outcome?_readData (h : s.Inv) (hidle : s.task i = .idle) {needRead : Int32}
    {got : Option (List UInt8)} (hdom : s.InDomain (.readData i needRead got))
    (hs : s.readData raw i needRead got = .ok t) :
    ∃ garbage, (readData? garbage needRead got (s.value i)).map Prod.fst = t.outcome? i := by
  unfold BufSystem.readData at hs
  cases hx : s.slot (.buf i) with
  | none =>
    have hvalue : s.value i = none := by rw [value, hx, Option.map_none]
    rw [hx] at hs
    dsimp only at hs
    rcases alloc_cases raw h hx needRead with he | ⟨he, hnull⟩ |
      ⟨u, p, he, -, hslot, htask, ⟨garbage, hfresh⟩, -⟩ <;> rw [he] at hs
    · cases hs
    · cases hs
      refine ⟨fun _ => 0, ?_⟩
      rw [outcome?_idle hidle, hvalue, readData?, readOutcome, allocBuf?, hnull]
      rfl
    · have hu : u.slot (.buf i) = some p := by
        rw [hslot, Function.update_self]
      obtain ⟨-, hout⟩ := outcome?_finishRead ((congrFun htask i).trans hidle) hu hs
      refine ⟨garbage, ?_⟩
      rw [hout, hvalue, readData?, readOutcome_new garbage hfresh]
      rfl
  | some p =>
    have hvalue : s.value i = some (s.pool.bufs p) := by rw [value, hx, Option.map_some]
    have hfront : (s.toFront p).pool.bufs p = (s.pool.bufs p).adjust :=
      (s.bufs_toFront p).trans (adjust_if_moved _)
    rw [hx] at hs
    dsimp only at hs
    rw [hfront] at hs
    split_ifs at hs with hgrow
    · rcases alloc_cases raw (h.toFront hx) (h.task i hidle)
        (needRead + (s.pool.bufs p).adjust.length) with he | ⟨he, -⟩ |
        ⟨u, q, he, -, hslot, -, ⟨garbage, hfresh⟩, hnew, hbufs⟩ <;> rw [he] at hs
      · cases hs
      · cases hs
      · cases hs
        have hp : u.slot (.buf i) = some p := by
          rw [hslot, Function.update_of_ne (by simp)]
          exact hx
        have hq : u.slot (.newBuf i) = some q := by rw [hslot, Function.update_self]
        have hne : p ≠ q := by
          rintro rfl
          exact hnew _ hx
        have hfit : (s.pool.bufs p).adjust.length.toInt ≤ (u.pool.bufs q).capacity.toInt := by
          obtain ⟨-, -, -, hcap⟩ := allocBuf?_spec hfresh
          obtain ⟨hn, hsum⟩ := hdom
          rw [hvalue] at hsum
          change (s.pool.bufs p).length.toInt + needRead.toInt ≤ maxCap at hsum
          have hmax : maxCap = 4194304 := rfl
          have := (s.pool.bufs p).length.le_toInt
          rw [IoBuf.adjust_length] at hcap ⊢
          rw [Lib.toInt_add_of_range (by omega) (by omega)] at hcap
          omega
        refine ⟨garbage, ?_⟩
        simp only [outcome?, setTask, Function.update_self, hp, hq, hbufs p hne]
        rw [hvalue, hfront, readData?, readOutcome_grown garbage hgrow hfresh hfit]
        rfl
    · obtain ⟨-, hout⟩ := outcome?_finishRead (s := s.toFront p) hidle hx hs
      refine ⟨fun _ => 0, ?_⟩
      rw [hout, hvalue, hfront, readData?, readOutcome_kept (fun _ => 0) hgrow]
      rfl

/-- The same for a message that is sent, when there is room for it in the end. -/
theorem outcome?_sendData (h : s.Inv) (hidle : s.task i = .idle) {data : List UInt8}
    (hs : s.sendData raw i data = .ok t) :
    ∃ garbage, ∀ v, t.outcome? i = some v → v = (Reactor.sendData garbage (s.value i) data).1 := by
  unfold BufSystem.sendData at hs
  cases hx : s.slot (.buf i) with
  | none =>
    have hvalue : s.value i = none := by rw [value, hx, Option.map_none]
    rw [hx] at hs
    dsimp only at hs
    rcases alloc_cases raw h hx (Int32.ofNat data.length) with he | ⟨he, hnull⟩ |
      ⟨u, p, he, -, hslot, htask, ⟨garbage, hfresh⟩, -⟩ <;> rw [he] at hs
    · cases hs
    · cases hs
      refine ⟨fun _ => 0, fun v hv => ?_⟩
      rw [outcome?_idle hidle, hvalue] at hv
      cases hv
      rw [hvalue, Reactor.sendData, allocBuf?, hnull]
      rfl
    · have hu : u.slot (.buf i) = some p := by
        rw [hslot, Function.update_self]
      obtain ⟨-, hout, -⟩ := outcome?_append ((congrFun htask i).trans hidle) hu hs
      refine ⟨garbage, fun v hv => ?_⟩
      cases hout.symm.trans hv
      rw [hvalue, Reactor.sendData, hfresh]
  | some p =>
    have hvalue : s.value i = some (s.pool.bufs p) := by rw [value, hx, Option.map_some]
    have hfront := s.bufs_toFront p
    rw [hx] at hs
    dsimp only at hs
    split_ifs at hs with hgrow
    · rcases alloc_cases raw (h.toFront hx) (h.task i hidle)
        (Int32.ofNat data.length + ((s.toFront p).pool.bufs p).length) with he | ⟨he, hnull⟩ |
        ⟨u, q, he, -, hslot, -, ⟨garbage, hfresh⟩, hnew, hbufs⟩ <;> rw [he] at hs
      · cases hs
      · cases hs
        refine ⟨fun _ => 0, fun v hv => ?_⟩
        rw [outcome?_idle (s := s.toFront p) hidle, value,
          show (s.toFront p).slot (.buf i) = some p from hx] at hv
        cases hv
        rw [hvalue, Reactor.sendData, ← hfront, if_pos hgrow, allocBuf?, hnull]
        rfl
      · cases hs
        have hp : u.slot (.buf i) = some p := by
          rw [hslot, Function.update_of_ne (by simp)]
          exact hx
        have hq : u.slot (.newBuf i) = some q := by rw [hslot, Function.update_self]
        have hne : p ≠ q := by
          rintro rfl
          exact hnew _ hx
        refine ⟨garbage, fun v hv => ?_⟩
        simp only [outcome?, setTask, Function.update_self, hp, hq, hbufs p hne] at hv
        split_ifs at hv
        cases hv
        rw [hvalue, Reactor.sendData, ← hfront, if_pos hgrow, hfresh]
    · obtain ⟨-, hout, -⟩ := outcome?_append (s := s.toFront p) hidle hx hs
      refine ⟨fun _ => 0, fun v hv => ?_⟩
      cases hout.symm.trans hv
      rw [hvalue, Reactor.sendData, ← hfront, if_neg hgrow]

/-- The second half of an operation ends it as was settled by the first. -/
theorem outcome?_resume (h : s.Inv) (hs : s.resume i = .ok t) :
    t.task i = .idle ∧ t.outcome? i = s.outcome? i := by
  unfold BufSystem.resume at hs
  cases hp : s.slot (.buf i) with
  | none =>
    rw [hp] at hs
    cases hs
  | some p =>
    cases hq : s.slot (.newBuf i) with
    | none =>
      rw [hp, hq] at hs
      cases hs
    | some q =>
      obtain ⟨u, he, -, hslot, -, hcopy, -⟩ := exchange_eq h hp hq
      have hx : (u.setTask i .idle).slot (.buf i) = some q := by
        change u.slot (.buf i) = some q
        rw [hslot, Function.update_self]
      have hidle : (u.setTask i .idle).task i = .idle := Function.update_self ..
      rw [hp, hq] at hs
      dsimp only at hs
      cases htask : s.task i with
      | idle =>
        rw [htask] at hs
        cases hs
      | reading needRead got =>
        rw [htask] at hs
        dsimp only at hs
        rw [he] at hs
        obtain ⟨hdone, hout⟩ := outcome?_finishRead hidle hx hs
        refine ⟨hdone, hout.trans ?_⟩
        simp only [outcome?, htask, hp, hq, setTask, hcopy]
      | sending data =>
        rw [htask] at hs
        dsimp only at hs
        rw [he] at hs
        obtain ⟨hdone, hout, hroom⟩ := outcome?_append hidle hx hs
        refine ⟨hdone, hout.trans ?_⟩
        simp only [setTask, hcopy] at hroom
        simp only [outcome?, htask, hp, hq, setTask, hcopy, if_neg hroom]

/-- An operation on another connection, before the second half or after it, changes nothing
of that. -/
theorem outcome?_of_ne (h : s.Inv) {a : BufAction} (hs : s.step raw a = .ok t)
    (hj : a.index ≠ j) : t.outcome? j = s.outcome? j := by
  have hlocal := LocalTo.step h hs
  have hvalue := value_eq_of_step h hs hj
  unfold outcome?
  rw [hlocal.task j hj.symm, hlocal.slot (.buf j) hj.symm, hlocal.slot (.newBuf j) hj.symm, hvalue]
  cases hp : s.slot (.buf j) with
  | none => cases s.task j <;> rfl
  | some p =>
    cases hq : s.slot (.newBuf j) with
    | none => cases s.task j <;> rfl
    | some q =>
      have hbuf := hlocal.bufs (.buf j) p hj.symm hp
      have hnew := hlocal.bufs (.newBuf j) q hj.symm hq
      cases s.task j with
      | idle => rfl
      | reading needRead got =>
        dsimp only
        rw [hbuf, hnew]
      | sending data =>
        dsimp only
        rw [hbuf, hnew]

end BufSystem

end Lrlb.Reactor
