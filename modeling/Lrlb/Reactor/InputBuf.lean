import Lrlb.Reactor.IoBuf

/-! The input buffer of a connection: a pool buffer that grows with what arrives. -/
namespace Lrlb.Reactor
open Lib

/-- The size class that `alloc_buf` serves a request from; the largest is 4 MB. -/
def memCap? (n : Int32) : Option Int32 :=
  if n ≤ 4096 then some 4096
  else if n ≤ 16384 then some 16384
  else if n ≤ 65526 then some 65526
  else if n ≤ 262144 then some 262144
  else if n ≤ 1048576 then some 1048576
  else if n ≤ 4194304 then some 4194304
  else none

abbrev maxCap : ℕ := 4194304

/-- A pool buffer still holds the bytes of its last use. -/
def allocBuf? (raw : ℤ → UInt8) (n : Int32) : Option IoBuf := (memCap? n).map (IoBuf.new · raw)

/-- How a call of `read_data` can end: with a return value, or in one of the ways that no caller
sees. `missing` is the use of a buffer that the pool did not have, `overrun` a copy or a read past
the end of one. -/
inductive ReadOutcome where
  | returned (buf : Option IoBuf) (ret : Int32)
  | missing
  | assertion
  | overrun

def ReadOutcome.toOption : ReadOutcome → Option (Option IoBuf × Int32)
  | .returned buf ret => some (buf, ret)
  | .missing | .assertion | .overrun => none

/-- The end of `read_data`, with what `read` returned (`none` is an error). The kernel writes the
bytes before the code looks at their number. -/
def finishRead (needRead : Int32) (got : Option (List UInt8)) (b : IoBuf) : ReadOutcome :=
  match got with
  | none => .returned (some b) (-1)
  | some [] => .returned (some b) 0
  | some (x :: bs) =>
    if b.capacity.toInt < b.length.toInt + (x :: bs).length then .overrun
    else if needRead ≠ 0 ∧ Int32.ofNat (x :: bs).length ≠ needRead then .assertion
    else .returned (some (b.write (x :: bs))) (Int32.ofNat (x :: bs).length)

/-- `input_buf::read_data` for `needRead` bytes reported by `FIONREAD`. The pool has no buffer for
a request above 4 MB: a connection without a buffer then gets -1, one whose buffer must grow uses
the missing one. -/
def readOutcome (raw : ℤ → UInt8) (needRead : Int32) (got : Option (List UInt8))
    (buf : Option IoBuf) : ReadOutcome :=
  match buf with
  | none =>
    match allocBuf? raw needRead with
    | none => .returned none (-1)
    | some b => finishRead needRead got b
  | some b =>
    let b := if b.head ≠ 0 then b.adjust else b
    if b.capacity - b.length < needRead then
      match allocBuf? raw (needRead + b.length) with
      | none => .missing
      | some newBuf =>
        if newBuf.capacity < b.length then .overrun else finishRead needRead got (newBuf.copy b)
    else finishRead needRead got b

/-- The reads that come back to their caller. -/
def finishRead? (needRead : Int32) (got : Option (List UInt8)) (b : IoBuf) :
    Option (Option IoBuf × Int32) :=
  (finishRead needRead got b).toOption

def readData? (raw : ℤ → UInt8) (needRead : Int32) (got : Option (List UInt8))
    (buf : Option IoBuf) : Option (Option IoBuf × Int32) :=
  (readOutcome raw needRead got buf).toOption

/-- `reactor_buf::pop` with its assertion. -/
def reactorPop? (b : IoBuf) (len : Int32) : Option IoBuf :=
  if b.length < len then none else some (b.pop len)

theorem memCap?_spec {n c : Int32} (h : memCap? n = some c) :
    n.toInt ≤ c.toInt ∧ 4096 ≤ c.toInt ∧ c.toInt ≤ maxCap := by
  unfold memCap? at h
  split_ifs at h with h1 h2 h3 h4 h5 h6 <;> cases h <;>
    rw [Int32.le_iff_toInt_le] at * <;> refine ⟨by assumption, by decide, by decide⟩

theorem memCap?_isSome {n : Int32} (h : n.toInt ≤ maxCap) : ∃ c, memCap? n = some c := by
  have h6 : n ≤ 4194304 := Int32.le_iff_toInt_le.mpr h
  unfold memCap?
  split_ifs <;> exact ⟨_, rfl⟩

/-- What a connection keeps of its buffer between events. -/
structure BufOk (b : IoBuf) : Prop where
  valid : b.Valid
  cap : b.capacity.toInt ≤ maxCap

def unread (buf : Option IoBuf) : List UInt8 := (buf.map IoBuf.content).getD []

theorem BufOk.sub_length {b : IoBuf} (hb : BufOk b) :
    (b.capacity - b.length).toInt = b.capacity.toInt - b.length.toInt := by
  have hmax : (maxCap : ℤ) = 4194304 := rfl
  have := hb.cap; have := hb.valid.length; have := hb.valid.capacity; have := hb.valid.head
  exact toInt_sub_of_range (by omega) (by omega)

theorem BufOk.add_length {b : IoBuf} (hb : BufOk b) {n : Int32} (h0 : 0 ≤ n.toInt) (hn : n.toInt ≤ 2 ^ 30) :
    (n + b.length).toInt = n.toInt + b.length.toInt := by
  have hmax : (maxCap : ℤ) = 4194304 := rfl
  have := hb.cap; have := hb.valid.length; have := hb.valid.capacity; have := hb.valid.head
  exact toInt_add_of_range (by omega) (by omega)

theorem BufOk.write_fits {b : IoBuf} (hb : BufOk b) (hh : b.head = 0) (data : List UInt8)
    (hfit : b.length.toInt + data.length ≤ b.capacity.toInt) :
    BufOk (b.write data) ∧ (b.write data).content = b.content ++ data :=
  ⟨⟨hb.valid.write hh hfit, hb.cap⟩, hb.valid.write_content hh hfit⟩

theorem allocBuf?_spec {raw : ℤ → UInt8} {n : Int32} {b : IoBuf} (h : allocBuf? raw n = some b) :
    BufOk b ∧ b.head = 0 ∧ b.length = 0 ∧ n.toInt ≤ b.capacity.toInt := by
  obtain ⟨c, hc, rfl⟩ := Option.map_eq_some_iff.mp h
  obtain ⟨hn, hl, hu⟩ := memCap?_spec hc
  exact ⟨⟨IoBuf.Valid.new (by omega) raw, hu⟩, rfl, rfl, hn⟩

/-- The pool has a buffer for every request up to its largest chunk. -/
theorem allocBuf?_fits (raw : ℤ → UInt8) {n : Int32} (h : n.toInt ≤ maxCap) :
    ∃ b, allocBuf? raw n = some b := by
  obtain ⟨c, hc⟩ := memCap?_isSome h
  exact ⟨IoBuf.new c raw, by simp [allocBuf?, hc]⟩

theorem allocBuf?_eq_none_iff (raw : ℤ → UInt8) (n : Int32) :
    allocBuf? raw n = none ↔ maxCap < n.toInt := by
  constructor
  · intro h
    by_contra hle
    obtain ⟨b, hb⟩ := allocBuf?_fits raw (not_lt.mp hle)
    exact nomatch h.symm.trans hb
  · intro hlt
    by_contra hne
    obtain ⟨b, hb⟩ := Option.ne_none_iff_exists'.mp hne
    obtain ⟨hok, -, -, hle⟩ := allocBuf?_spec hb
    have := hok.cap
    omega

theorem reactorPop?_eq_some {b : IoBuf} {n : Int32} (h : n.toInt ≤ b.length.toInt) :
    reactorPop? b n = some (b.pop n) :=
  if_neg (by rw [Int32.lt_iff_toInt_lt]; omega)

/-- A header of `m` bytes and its payload of `n`, popped one after the other. -/
theorem BufOk.pop_pop {b : IoBuf} (hb : BufOk b) {m n : Int32} (hm : 0 ≤ m.toInt)
    (hn : 0 ≤ n.toInt) (hle : m.toInt + n.toInt ≤ b.length.toInt) :
    readMem (b.pop m).data (b.pop m).head.toInt n.toInt.toNat =
        (b.content.drop m.toInt.toNat).take n.toInt.toNat ∧
      BufOk ((b.pop m).pop n) ∧
      ((b.pop m).pop n).content = b.content.drop (m.toInt.toNat + n.toInt.toNat) := by
  have hv := hb.valid
  have hpop : (b.pop m).Valid := hv.pop hm (by omega)
  have hlen := IoBuf.pop_length hm (show m.toInt ≤ b.length.toInt by omega)
  have hcon := hv.pop_content hm (show m.toInt ≤ b.length.toInt by omega)
  refine ⟨?_, ⟨hpop.pop hn (by omega), hb.cap⟩, ?_⟩
  · rw [← hcon, IoBuf.content, take_readMem _ _ (by omega)]
  · rw [hpop.pop_content hn (by omega), hcon, List.drop_drop]

theorem finishRead?_fits {b : IoBuf} (hb : BufOk b) (hh : b.head = 0) {bs : List UInt8}
    (hne : bs ≠ []) (hfit : b.length.toInt + bs.length ≤ b.capacity.toInt) :
    ∃ b', finishRead? (Int32.ofNat bs.length) (some bs) b =
        some (some b', Int32.ofNat bs.length) ∧
      BufOk b' ∧ b'.content = b.content ++ bs := by
  obtain ⟨x, bs, rfl⟩ := List.exists_cons_of_ne_nil hne
  refine ⟨b.write (x :: bs), ?_, hb.write_fits hh _ hfit⟩
  rw [finishRead?, finishRead, if_neg (by omega), if_neg (by simp)]
  rfl

theorem finishRead?_overrun {b : IoBuf} (hcap : b.capacity.toInt ≤ maxCap) {needRead : Int32}
    {bs : List UInt8} (hne : bs ≠ []) (hbig : maxCap < b.length.toInt + bs.length) :
    finishRead? needRead (some bs) b = none := by
  obtain ⟨x, bs, rfl⟩ := List.exists_cons_of_ne_nil hne
  rw [finishRead?, finishRead, if_pos (by omega)]
  rfl

theorem adjust_ok {b : IoBuf} (hb : BufOk b) : BufOk b.adjust :=
  ⟨hb.valid.adjust, by simpa using hb.cap⟩

/-- Taking `k` bytes off the front, as a write of `k` bytes does. -/
theorem BufOk.take_off {b : IoBuf} (hb : BufOk b) {k : ℕ} (hk : k ≤ b.content.length) :
    BufOk (b.pop (Int32.ofNat k)).adjust ∧
      (b.pop (Int32.ofNat k)).adjust.content = b.content.drop k := by
  have hlc := hb.valid.length_content
  have hmax : (maxCap : ℤ) = 4194304 := rfl
  have hcap := hb.cap; have := hb.valid.capacity; have := hb.valid.head
  have hlen : (Int32.ofNat k).toInt = k := Int32.toInt_ofNat_of_lt (by omega)
  have hpop : (b.pop (Int32.ofNat k)).Valid := hb.valid.pop (by omega) (by omega)
  refine ⟨adjust_ok ⟨hpop, hcap⟩, ?_⟩
  rw [IoBuf.adjust_content, hb.valid.pop_content (by omega) (by omega), hlen]
  rfl

/-- The test before `adjust` in `read_data` is the one that `adjust` makes itself. -/
theorem adjust_if_moved (b : IoBuf) : (if b.head ≠ 0 then b.adjust else b) = b.adjust := by
  unfold IoBuf.adjust
  split_ifs <;> rfl

theorem copy_ok {b newBuf : IoBuf} (hb : BufOk b) (hh : b.head = 0) (hn : BufOk newBuf)
    (hfit : b.length.toInt ≤ newBuf.capacity.toInt) :
    BufOk (newBuf.copy b) ∧ (newBuf.copy b).content = b.content := by
  obtain ⟨hv, hcon⟩ := hb.valid.copy hh hfit
  exact ⟨⟨hv, hn.cap⟩, hcon⟩

section ReadData

variable (raw : ℤ → UInt8) {needRead : Int32} {got : Option (List UInt8)} {b newBuf : IoBuf}

theorem readOutcome_new (h : allocBuf? raw needRead = some b) :
    readOutcome raw needRead got none = finishRead needRead got b := by
  rw [readOutcome, h]

theorem readOutcome_kept (h : ¬ b.adjust.capacity - b.adjust.length < needRead) :
    readOutcome raw needRead got (some b) = finishRead needRead got b.adjust := by
  rw [readOutcome, adjust_if_moved]
  exact if_neg h

theorem readOutcome_missing (h : b.adjust.capacity - b.adjust.length < needRead)
    (halloc : allocBuf? raw (needRead + b.adjust.length) = none) :
    readOutcome raw needRead got (some b) = .missing := by
  rw [readOutcome, adjust_if_moved, if_pos h, halloc]

theorem readOutcome_copied (h : b.adjust.capacity - b.adjust.length < needRead)
    (halloc : allocBuf? raw (needRead + b.adjust.length) = some newBuf) :
    readOutcome raw needRead got (some b) =
      if newBuf.capacity < b.adjust.length then .overrun
      else finishRead needRead got (newBuf.copy b.adjust) := by
  rw [readOutcome, adjust_if_moved, if_pos h, halloc]

theorem readOutcome_grown (h : b.adjust.capacity - b.adjust.length < needRead)
    (halloc : allocBuf? raw (needRead + b.adjust.length) = some newBuf)
    (hfit : b.adjust.length.toInt ≤ newBuf.capacity.toInt) :
    readOutcome raw needRead got (some b) = finishRead needRead got (newBuf.copy b.adjust) := by
  have hnot : ¬ newBuf.capacity < b.adjust.length := by
    rw [Int32.lt_iff_toInt_lt]
    omega
  rw [readOutcome_copied raw h halloc, if_neg hnot]

end ReadData

/-- Bytes that fit the largest pool buffer together with the unread ones are appended. -/
theorem readData?_fits (raw : ℤ → UInt8) {buf : Option IoBuf} (hbuf : ∀ b, buf = some b → BufOk b)
    {bs : List UInt8} (hne : bs ≠ []) (hfit : (unread buf).length + bs.length ≤ maxCap) :
    ∃ b, readData? raw (Int32.ofNat bs.length) (some bs) buf =
        some (some b, Int32.ofNat bs.length) ∧ BufOk b ∧ b.content = unread buf ++ bs := by
  have hlen : (Int32.ofNat bs.length).toInt = bs.length :=
    Int32.toInt_ofNat_of_lt (by simp only [maxCap] at hfit; omega)
  cases buf with
  | none =>
    obtain ⟨b, halloc⟩ := allocBuf?_fits raw (n := Int32.ofNat bs.length)
      (by simp [unread] at hfit; omega)
    obtain ⟨hok, hh, hl, hcap⟩ := allocBuf?_spec halloc
    obtain ⟨b', hfin, hok', hcon⟩ := finishRead?_fits hok hh hne (by rw [hl]; simp; omega)
    have hempty : b.content = [] := by
      rw [IoBuf.content, hl]
      rfl
    refine ⟨b', ?_, hok', by simpa [unread, hempty] using hcon⟩
    rw [readData?, readOutcome_new raw halloc]
    exact hfin
  | some b₀ =>
    have hok := adjust_ok (hbuf b₀ rfl)
    have hh : b₀.adjust.head = 0 := by simp
    have hu : unread (some b₀) = b₀.adjust.content := by simp [unread]
    set b := b₀.adjust
    have hlc := hok.valid.length_content
    rw [hu] at hfit ⊢
    have hmax : maxCap = 4194304 := rfl
    have hsub := hok.sub_length
    have hadd := hok.add_length (n := Int32.ofNat bs.length) (by omega) (by omega)
    by_cases hgrow : b.capacity - b.length < Int32.ofNat bs.length
    · obtain ⟨newBuf, halloc⟩ :=
        allocBuf?_fits raw (n := Int32.ofNat bs.length + b.length) (by omega)
      obtain ⟨hok', hh', -, hcap'⟩ := allocBuf?_spec halloc
      have hcopied : b.length.toInt ≤ newBuf.capacity.toInt := by omega
      obtain ⟨hcopy, hcc⟩ := copy_ok hok hh hok' hcopied
      have hfit' : (newBuf.copy b).length.toInt + bs.length ≤ (newBuf.copy b).capacity.toInt := by
        change b.length.toInt + bs.length ≤ newBuf.capacity.toInt
        omega
      rw [readData?, readOutcome_grown raw hgrow halloc hcopied]
      obtain ⟨b', hfin, hok'', hcon'⟩ := finishRead?_fits hcopy rfl hne hfit'
      exact ⟨b', hfin, hok'', hcc ▸ hcon'⟩
    · rw [readData?, readOutcome_kept raw hgrow]
      rw [Int32.lt_iff_toInt_lt] at hgrow
      exact finishRead?_fits hok hh hne (by omega)

/-- Bytes that do not fit are lost with the connection, or crash the server. -/
theorem readData?_overrun (raw : ℤ → UInt8) (needRead : Int32) {buf : Option IoBuf}
    (hbuf : ∀ b, buf = some b → BufOk b) {bs : List UInt8} (hne : bs ≠ [])
    (hbig : maxCap < (unread buf).length + bs.length) :
    readData? raw needRead (some bs) buf = none ∨
      readData? raw needRead (some bs) buf = some (none, -1) := by
  cases buf with
  | none =>
    rw [readData?]
    cases halloc : allocBuf? raw needRead with
    | none =>
      rw [readOutcome, halloc]
      exact Or.inr rfl
    | some b =>
      obtain ⟨hok, -, hl, -⟩ := allocBuf?_spec halloc
      rw [readOutcome_new raw halloc]
      refine Or.inl (finishRead?_overrun hok.cap hne ?_)
      rw [hl]
      simpa [unread] using hbig
  | some b₀ =>
    have hok := adjust_ok (hbuf b₀ rfl)
    have hu : unread (some b₀) = b₀.adjust.content := by simp [unread]
    set b := b₀.adjust
    have hlc := hok.valid.length_content
    rw [hu] at hbig
    left
    by_cases hgrow : b.capacity - b.length < needRead
    · cases halloc : allocBuf? raw (needRead + b.length) with
      | none =>
        rw [readData?, readOutcome_missing raw hgrow halloc]
        rfl
      | some newBuf =>
        obtain ⟨hok', -, -, -⟩ := allocBuf?_spec halloc
        have hbig' : (maxCap : ℤ) < (newBuf.copy b).length.toInt + bs.length := by
          change (maxCap : ℤ) < b.length.toInt + bs.length
          omega
        have hcap' : (newBuf.copy b).capacity.toInt ≤ maxCap := hok'.cap
        rw [readData?, readOutcome_copied raw hgrow halloc]
        split_ifs
        · rfl
        · exact finishRead?_overrun hcap' hne hbig'
    · rw [readData?, readOutcome_kept raw hgrow]
      exact finishRead?_overrun hok.cap hne (by omega)

end Lrlb.Reactor
