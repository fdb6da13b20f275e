import Lrlb.Reactor.InputBuf

/-! When a call of `read_data` stays within its buffer, and when it does what its caller relies
on. -/
namespace Lrlb.Reactor
open Lib

/-- The number of bytes that `read` is asked for. -/
def requested (needRead : Int32) : ℕ := if needRead = 0 then 4096 else needRead.toInt.toNat

theorem allocBuf?_smallest {raw : ℤ → UInt8} {n : Int32} {b : IoBuf}
    (h : allocBuf? raw n = some b) : 4096 ≤ b.capacity.toInt := by
  obtain ⟨c, hc, rfl⟩ := Option.map_eq_some_iff.mp h
  exact (memCap?_spec hc).2.1

section Prepared

variable {buf : Option IoBuf} {needRead : Int32}

/-- Before it reads, `read_data` has a buffer with the unread bytes at its front and room for
`needRead` more. -/
structure Prepared (needRead : Int32) (buf : Option IoBuf) (b : IoBuf) : Prop where
  valid : b.Valid
  front : b.head = 0
  content : b.content = unread buf
  room : b.length.toInt + needRead.toInt ≤ b.capacity.toInt
  new : buf = none → 4096 ≤ b.capacity.toInt
  kept : ∀ b₀, buf = some b₀ → needRead = 0 → b.capacity = b₀.capacity
  cap : b.capacity.toInt ≤ maxCap ∨ ∃ b₀, buf = some b₀ ∧ b.capacity = b₀.capacity

/-- Everything `read_data` can do before it reads. The sum that it asks the pool for can overflow
to a negative number, and the pool then gives its smallest buffer. -/
theorem readOutcome_cases (raw : ℤ → UInt8) (hbuf : ∀ b, buf = some b → b.Valid)
    (hn : 0 ≤ needRead.toInt) :
    (buf = none ∧ maxCap < needRead.toInt ∧
      ∀ got, readOutcome raw needRead got buf = .returned none (-1)) ∨
    (∃ b, buf = some b ∧ b.capacity.toInt - b.length.toInt < needRead.toInt ∧
      maxCap < b.length.toInt + needRead.toInt ∧ b.length.toInt + needRead.toInt < 2 ^ 31 ∧
      ∀ got, readOutcome raw needRead got buf = .missing) ∨
    (∃ b, buf = some b ∧ b.capacity.toInt - b.length.toInt < needRead.toInt ∧
      2 ^ 31 ≤ b.length.toInt + needRead.toInt ∧
      ∀ got, readOutcome raw needRead got buf = if 4096 < b.length then .overrun
        else finishRead needRead got ((IoBuf.new 4096 raw).copy b.adjust)) ∨
    ∃ b, Prepared needRead buf b ∧
      ∀ got, readOutcome raw needRead got buf = finishRead needRead got b := by
  cases buf with
  | none =>
    cases halloc : allocBuf? raw needRead with
    | none =>
      refine Or.inl ⟨rfl, (allocBuf?_eq_none_iff raw needRead).mp halloc, fun got => ?_⟩
      rw [readOutcome, halloc]
    | some b =>
      obtain ⟨hok, hh, hl, hcap⟩ := allocBuf?_spec halloc
      have hempty : b.content = [] := by
        rw [IoBuf.content, hl]
        rfl
      refine Or.inr (Or.inr (Or.inr ⟨b, ⟨hok.valid, hh, hempty, ?_, fun _ => ?_, by simp, Or.inl hok.cap⟩,
        fun got => ?_⟩))
      · rw [hl]
        simpa using hcap
      · exact allocBuf?_smallest halloc
      · exact readOutcome_new raw halloc
  | some b₀ =>
    right
    have hv := (hbuf b₀ rfl).adjust
    have hh : b₀.adjust.head = 0 := b₀.adjust_head
    have hadd := toInt_add_of_nonneg hn hv.length
    have hsub : (b₀.adjust.capacity - b₀.adjust.length).toInt =
        b₀.adjust.capacity.toInt - b₀.adjust.length.toInt := by
      have := hv.length; have := hv.capacity; have := hv.head; have := b₀.adjust.capacity.toInt_lt
      exact toInt_sub_of_range (by omega) (by omega)
    have hlen := hv.length
    have hlength : b₀.adjust.length = b₀.length := b₀.adjust_length
    have hcapacity : b₀.adjust.capacity = b₀.capacity := b₀.adjust_capacity
    have hsame : b₀.adjust.length.toInt = b₀.length.toInt := congrArg Int32.toInt hlength
    by_cases hgrow : b₀.adjust.capacity - b₀.adjust.length < needRead
    · have hless : b₀.capacity.toInt - b₀.length.toInt < needRead.toInt := by
        rw [Int32.lt_iff_toInt_lt, hsub, hlength, hcapacity] at hgrow
        exact hgrow
      by_cases hsum : b₀.length.toInt + needRead.toInt < 2 ^ 31
      · rw [if_pos (by omega)] at hadd
        cases halloc : allocBuf? raw (needRead + b₀.adjust.length) with
        | none =>
          have hbig := (allocBuf?_eq_none_iff raw _).mp halloc
          exact Or.inl ⟨b₀, rfl, hless, by omega, hsum, fun got =>
            readOutcome_missing raw hgrow halloc⟩
        | some newBuf =>
          obtain ⟨hok, -, -, hcap⟩ := allocBuf?_spec halloc
          have hfit : b₀.adjust.length.toInt ≤ newBuf.capacity.toInt := by omega
          obtain ⟨hcopy, hcon⟩ := hv.copy hh hfit
          refine Or.inr (Or.inr ⟨newBuf.copy b₀.adjust,
            ⟨hcopy, rfl, ?_, ?_, by simp, ?_, Or.inl hok.cap⟩, fun got =>
              readOutcome_grown raw hgrow halloc hfit⟩)
          · rw [hcon]
            simp [unread]
          · change b₀.adjust.length.toInt + _ ≤ newBuf.capacity.toInt
            omega
          · -- with nothing to read there is no need for another buffer
            rintro b ⟨⟩ rfl
            have := (hbuf b₀ rfl).capacity; have := (hbuf b₀ rfl).head
            rw [Int32.toInt_zero] at hless
            omega
      · rw [if_neg (by omega)] at hadd
        have hneg : needRead + b₀.adjust.length ≤ 4096 := by
          have := needRead.toInt_lt; have := b₀.length.toInt_lt
          rw [Int32.le_iff_toInt_le, hadd, show (4096 : Int32).toInt = 4096 from rfl]
          omega
        have halloc : allocBuf? raw (needRead + b₀.adjust.length) = some (IoBuf.new 4096 raw) := by
          rw [allocBuf?, memCap?, if_pos hneg]
          rfl
        refine Or.inr (Or.inl ⟨b₀, rfl, hless, by omega, fun got => ?_⟩)
        rw [readOutcome_copied raw hgrow halloc, hlength]
        rfl
    · refine Or.inr (Or.inr ⟨b₀.adjust, ⟨hv, hh, ?_, ?_, by simp, ?_, Or.inr ⟨b₀, rfl, hcapacity⟩⟩,
        fun got => readOutcome_kept raw hgrow⟩)
      · simp [unread]
      · rw [Int32.lt_iff_toInt_lt, hsub] at hgrow
        omega
      · rintro b ⟨⟩ -
        exact hcapacity

variable {b : IoBuf} {got : Option (List UInt8)}

theorem Prepared.length_eq (h : Prepared needRead buf b) :
    b.length.toInt = (unread buf).length := by
  rw [← h.valid.length_content, h.content]

/-- What may be asked for fits, but for bytes that were not announced. -/
theorem Prepared.fits (h : Prepared needRead buf b) (hbuf : ∀ b, buf = some b → b.Valid) {k : ℕ}
    (hk : k ≤ requested needRead)
    (hfree : needRead = 0 → ∀ b₀, buf = some b₀ → b₀.length.toInt + k ≤ b₀.capacity.toInt) :
    b.length.toInt + k ≤ b.capacity.toInt := by
  have hlen := h.length_eq
  unfold requested at hk
  split_ifs at hk with hzero
  · cases buf with
    | none =>
      have := h.new rfl
      rw [show unread none = [] from rfl, List.length_nil] at hlen
      omega
    | some b₀ =>
      rw [hlen, h.kept b₀ rfl hzero]
      exact (hbuf b₀ rfl).length_content ▸ hfree hzero b₀ rfl
  · have := h.room; have := h.valid.head; have := h.valid.capacity
    omega

/-- A buffer that is copied to the smallest one of the pool. -/
theorem valid_smallest (hv : b.Valid) (hshort : ¬ 4096 < b.length) (raw : ℤ → UInt8) :
    ((IoBuf.new 4096 raw).copy b.adjust).Valid := by
  have hfit : b.adjust.length.toInt ≤ (IoBuf.new 4096 raw).capacity.toInt := by
    rw [IoBuf.adjust_length]
    exact Int32.le_iff_toInt_le.mp (Int32.not_lt.mp hshort)
  exact (hv.adjust.copy b.adjust_head hfit).1

theorem finishRead_overrun {bs : List UInt8} (hv : b.Valid)
    (hbig : b.capacity.toInt < b.length.toInt + bs.length) :
    finishRead needRead (some bs) b = .overrun := by
  have := hv.head; have := hv.capacity
  cases bs with
  | nil =>
    rw [List.length_nil] at hbig
    omega
  | cons x bs => exact if_pos hbig

theorem returned_within (hle : b.length.toInt ≤ b.capacity.toInt) (ret : Int32) :
    ReadOutcome.returned (some b) ret ≠ .overrun ∧
      ∀ b' ret', ReadOutcome.returned (some b) ret = .returned (some b') ret' →
        b'.length.toInt ≤ b'.capacity.toInt := by
  constructor
  · intro hover
    cases hover
  · intro b' ret' hsame
    cases hsame
    exact hle

/-- Bytes that fit do not leave the buffer, whatever their number. -/
theorem finishRead_within (hv : b.Valid)
    (hfit : ∀ bs, got = some bs → b.length.toInt + bs.length ≤ b.capacity.toInt) :
    finishRead needRead got b ≠ .overrun ∧
      ∀ b' ret, finishRead needRead got b = .returned (some b') ret →
        b'.length.toInt ≤ b'.capacity.toInt := by
  have hle : b.length.toInt ≤ b.capacity.toInt := by
    have := hv.head; have := hv.capacity
    omega
  rcases got with _ | _ | ⟨x, bs⟩
  · exact returned_within hle (-1)
  · exact returned_within hle 0
  · have hbs := hfit _ rfl
    rw [finishRead, if_neg (by omega)]
    split_ifs
    · simp
    · apply returned_within
      rw [hv.write_length hbs]
      exact hbs

end Prepared

/-- Whatever `read` returns of the bytes that it was asked for, they fit the buffer. -/
def StaysWithin (needRead : Int32) (buf : Option IoBuf) : Prop :=
  ∀ raw got, (∀ bs, got = some bs → bs.length ≤ requested needRead) →
    readOutcome raw needRead got buf ≠ .overrun ∧
      ∀ b ret, readOutcome raw needRead got buf = .returned (some b) ret →
        b.length.toInt ≤ b.capacity.toInt

theorem requested_of_ne {needRead : Int32} (h : needRead ≠ 0) :
    requested needRead = needRead.toInt.toNat := if_neg h

section StaysWithin

variable {needRead : Int32} {buf : Option IoBuf} {b : IoBuf}

/-- A buffer never grows for nothing. -/
theorem ne_zero_of_grows (hv : b.Valid)
    (hgrow : b.capacity.toInt - b.length.toInt < needRead.toInt) : needRead ≠ 0 := by
  rintro rfl
  have := hv.head; have := hv.capacity
  rw [Int32.toInt_zero] at hgrow
  omega

/-- Bytes whose number overflows the sum do not fit the smallest buffer. -/
theorem smallest_overrun (hv : b.Valid) (hsum : 2 ^ 31 ≤ b.length.toInt + needRead.toInt)
    (raw : ℤ → UInt8) :
    (if 4096 < b.length then .overrun
      else finishRead needRead (some (List.replicate needRead.toInt.toNat 0))
        ((IoBuf.new 4096 raw).copy b.adjust)) = ReadOutcome.overrun := by
  split_ifs with hlong
  · rfl
  · refine finishRead_overrun (valid_smallest hv hlong raw) ?_
    have hcap : ((IoBuf.new 4096 raw).copy b.adjust).capacity.toInt = 4096 := rfl
    have hlen : ((IoBuf.new 4096 raw).copy b.adjust).length = b.length := b.adjust_length
    rw [hcap, hlen, List.length_replicate]
    omega

theorem StaysWithin.room (hbuf : ∀ b, buf = some b → b.Valid) (hn : 0 ≤ needRead.toInt)
    (hwithin : StaysWithin needRead buf) (hb : buf = some b) :
    if needRead = 0 then b.length.toInt + 4096 ≤ b.capacity.toInt
    else needRead.toInt ≤ b.capacity.toInt - b.length.toInt ∨
      b.length.toInt + needRead.toInt < 2 ^ 31 := by
  have hv := hbuf b hb
  have hlc : ((unread buf).length : ℤ) = b.length.toInt := by
    rw [hb]
    exact hv.length_content
  rcases readOutcome_cases (fun _ => 0) hbuf hn with ⟨hnone, -⟩ | ⟨b₁, hb₁, hgrow, -, hsum, -⟩ |
    ⟨b₁, hb₁, hgrow, hsum, hout⟩ | ⟨b', hprep, hout⟩
  · rw [hb] at hnone
    cases hnone
  · cases Option.some.inj (hb.symm.trans hb₁)
    rw [if_neg (ne_zero_of_grows hv hgrow)]
    exact Or.inr hsum
  · cases Option.some.inj (hb.symm.trans hb₁)
    refine absurd ((hout _).trans (smallest_overrun hv hsum fun _ => 0)) (hwithin _ _ ?_).1
    rintro _ ⟨⟩
    rw [List.length_replicate, requested_of_ne (ne_zero_of_grows hv hgrow)]
  · have hlen := hprep.length_eq
    split_ifs with hzero
    · by_contra hbig
      -- `read` may return all of the 4 KB that it is asked for
      refine (hwithin (fun _ => 0) (some (List.replicate 4096 0)) ?_).1 ?_
      · rintro _ ⟨⟩
        rw [List.length_replicate, requested, if_pos hzero]
      · rw [hout]
        refine finishRead_overrun hprep.valid ?_
        rw [hprep.kept b hb hzero, List.length_replicate]
        omega
    · right
      have := hprep.room; have := b'.capacity.toInt_lt
      omega

theorem staysWithin_of_room (hbuf : ∀ b, buf = some b → b.Valid) (hn : 0 ≤ needRead.toInt)
    (hroom : ∀ b, buf = some b →
      if needRead = 0 then b.length.toInt + 4096 ≤ b.capacity.toInt
      else needRead.toInt ≤ b.capacity.toInt - b.length.toInt ∨
        b.length.toInt + needRead.toInt < 2 ^ 31) : StaysWithin needRead buf := by
  intro raw got hgot
  rcases readOutcome_cases raw hbuf hn with ⟨-, -, hout⟩ | ⟨_, -, -, -, -, hout⟩ |
    ⟨b, hb, hgrow, hsum, -⟩ | ⟨b, hprep, hout⟩
  · rw [hout]
    simp
  · rw [hout]
    simp
  · have hc := hroom b hb
    rw [if_neg (ne_zero_of_grows (hbuf b hb) hgrow)] at hc
    omega
  · rw [hout]
    refine finishRead_within hprep.valid fun bs hbs => ?_
    refine hprep.fits hbuf (hgot bs hbs) fun hzero b₀ hb₀ => ?_
    have hc := hroom b₀ hb₀
    have hle := hgot bs hbs
    rw [if_pos hzero] at hc
    rw [requested, if_pos hzero] at hle
    omega

/-- The bytes fit exactly if a read that `FIONREAD` announced nothing for finds 4 KB free, and the
sum of the announced and the unread bytes does not overflow when the buffer must grow. -/
theorem stays_within_iff (hbuf : ∀ b, buf = some b → b.Valid) (hn : 0 ≤ needRead.toInt) :
    StaysWithin needRead buf ↔ ∀ b, buf = some b →
      if needRead = 0 then b.length.toInt + 4096 ≤ b.capacity.toInt
      else needRead.toInt ≤ b.capacity.toInt - b.length.toInt ∨
        b.length.toInt + needRead.toInt < 2 ^ 31 := by
  constructor
  · intro hwithin b hb
    exact hwithin.room hbuf hn hb
  · exact staysWithin_of_room hbuf hn

end StaysWithin

/-- A buffer of the smallest class with one byte free. -/
def nearlyFull : IoBuf := ⟨4096, 4095, 0, fun _ => 0⟩

theorem nearlyFull_valid : nearlyFull.Valid := by
  refine ⟨?_, ?_, ?_⟩ <;> decide

theorem stays_within_announced : StaysWithin 2 (some nearlyFull) := by
  refine (stays_within_iff ?_ (by decide)).mpr ?_
  · rintro _ ⟨⟩
    exact nearlyFull_valid
  · rintro _ ⟨⟩
    decide

/-- Nothing is announced and two bytes are read. -/
theorem unannounced_read_overruns :
    nearlyFull.Valid ∧
      readOutcome (fun _ => 0) 0 (some [1, 2]) (some nearlyFull) = .overrun ∧
      ¬ StaysWithin 0 (some nearlyFull) := by
  have hover : readOutcome (fun _ => 0) 0 (some [1, 2]) (some nearlyFull) = .overrun := rfl
  refine ⟨nearlyFull_valid, hover, fun hwithin => (hwithin (fun _ => 0) (some [1, 2]) ?_).1 hover⟩
  rintro _ ⟨⟩
  decide

/-- What a caller of `read_data` relies on: the bytes that were read are behind the unread ones
and counted, or nothing has changed. A request that is too large for the pool is refused. -/
def AsPromised (needRead : Int32) (got : Option (List UInt8)) (buf : Option IoBuf) : Prop :=
  ∀ raw, ∃ buf' ret, readOutcome raw needRead got buf = .returned buf' ret ∧
    ((∃ bs, got = some bs ∧ bs ≠ [] ∧ ret = Int32.ofNat bs.length ∧
        unread buf' = unread buf ++ bs) ∨
      (ret = 0 ∨ ret = -1) ∧ unread buf' = unread buf) ∧
    (maxCap < (unread buf).length + needRead.toInt → ret = -1 ∧ buf' = buf.map IoBuf.adjust)

section AsPromised

variable {needRead : Int32} {got : Option (List UInt8)} {buf : Option IoBuf} {b : IoBuf}

/-- A new buffer is not the one that it was copied from: what is behind its unread bytes was there
before. -/
theorem copy_ne_adjust {newBuf : IoBuf} (hv : b.Valid) {i : ℤ} (hi : b.length.toInt ≤ i)
    (hdiff : newBuf.data i ≠ b.adjust.data i) : newBuf.copy b.adjust ≠ b.adjust := by
  intro he
  have := hv.length
  have hdata := congrFun (congrArg IoBuf.data he) i
  change writeMem newBuf.data 0 _ i = _ at hdata
  rw [writeMem, dif_neg (by rw [length_readMem, IoBuf.adjust_length]; omega)] at hdata
  exact hdiff hdata

/-- A finished read returns -1 only if `read` did, with the buffer it was given. -/
theorem finishRead_failed {buf' : Option IoBuf} (hgot : ∀ bs, got = some bs → bs.length < 2 ^ 31)
    (h : finishRead needRead got b = .returned buf' (-1)) : buf' = some b := by
  rcases got with _ | _ | ⟨x, bs⟩
  · cases h
    rfl
  · cases h
  · rw [finishRead] at h
    split_ifs at h
    injection h with _ hret
    have hlen : (Int32.ofNat (x :: bs).length).toInt = (x :: bs).length :=
      Int32.toInt_ofNat_of_lt (hgot _ rfl)
    rw [hret] at hlen
    exact absurd hlen (by simp; omega)

/-- Bytes whose read returns fit the buffer and are those that were announced, if any were. -/
theorem finishRead_returned {bs : List UInt8} (hne : bs ≠ []) {buf' : Option IoBuf} {ret : Int32}
    (h : finishRead needRead (some bs) b = .returned buf' ret) :
    b.length.toInt + bs.length ≤ b.capacity.toInt ∧
      (needRead = 0 ∨ Int32.ofNat bs.length = needRead) := by
  obtain ⟨x, bs, rfl⟩ := List.exists_cons_of_ne_nil hne
  rw [finishRead] at h
  split_ifs at h with hbig hpart
  refine ⟨by omega, ?_⟩
  by_contra hnot
  exact hpart (not_or.mp hnot)

theorem Prepared.finishRead_fits (h : Prepared needRead buf b) {bs : List UInt8} (hne : bs ≠ [])
    (hfit : b.length.toInt + bs.length ≤ b.capacity.toInt)
    (hall : needRead = 0 ∨ Int32.ofNat bs.length = needRead) :
    ∃ b', finishRead needRead (some bs) b = .returned (some b') (Int32.ofNat bs.length) ∧
      b'.content = unread buf ++ bs := by
  obtain ⟨x, bs, rfl⟩ := List.exists_cons_of_ne_nil hne
  refine ⟨b.write (x :: bs), ?_, by rw [h.valid.write_content h.front hfit, h.content]⟩
  rw [finishRead, if_neg (by omega), if_neg (by tauto)]

/-- A request within the pool is always prepared for. -/
theorem exists_prepared (raw : ℤ → UInt8) (hbuf : ∀ b, buf = some b → b.Valid)
    (hn : 0 ≤ needRead.toInt) (hfits : (unread buf).length + needRead.toInt ≤ maxCap) :
    ∃ b, Prepared needRead buf b ∧
      ∀ got, readOutcome raw needRead got buf = finishRead needRead got b := by
  have hmax : maxCap = 4194304 := rfl
  have hlen : ∀ b, buf = some b → ((unread buf).length : ℤ) = b.length.toInt := by
    rintro b rfl
    exact (hbuf b rfl).length_content
  rcases readOutcome_cases raw hbuf hn with ⟨-, hbig, -⟩ | ⟨b, hb, -, hbig, -⟩ | ⟨b, hb, -, hsum, -⟩ |
    hprep
  · omega
  · have := hlen b hb
    omega
  · have := hlen b hb
    omega
  · exact hprep

theorem length_lt_of_requested (hgot : ∀ bs, got = some bs → bs.length ≤ requested needRead) :
    ∀ bs, got = some bs → bs.length < 2 ^ 31 := by
  intro bs hbs
  have hle := hgot bs hbs
  have := needRead.toInt_lt
  unfold requested at hle
  split_ifs at hle <;> omega

/-- The check for a missing buffer looks at the old one: it finds a buffer that was never there,
not one that cannot grow. -/
theorem asPromised_too_large_iff (hbuf : ∀ b, buf = some b → BufOk b) (hn : 0 ≤ needRead.toInt)
    (hgot : ∀ bs, got = some bs → bs.length ≤ requested needRead)
    (hbig : maxCap < (unread buf).length + needRead.toInt) :
    AsPromised needRead got buf ↔ buf = none := by
  have hvalid : ∀ b, buf = some b → b.Valid := fun b hb => (hbuf b hb).valid
  -- no prepared buffer has room for the request
  have hroom : ∀ b, ¬ Prepared needRead buf b := by
    intro b hprep
    have hroom := hprep.room
    rw [hprep.length_eq] at hroom
    rcases hprep.cap with hcap | ⟨b₁, hb₁, hcap⟩
    · omega
    · have := (hbuf b₁ hb₁).cap
      rw [hcap] at hroom
      omega
  constructor
  · intro hpromised
    by_contra hsome
    obtain ⟨b₀, rfl⟩ := Option.ne_none_iff_exists'.mp hsome
    obtain ⟨buf', ret, hret, -, hrefuse⟩ := hpromised fun _ => b₀.adjust.data 4096 + 1
    obtain ⟨rfl, rfl⟩ := hrefuse hbig
    rcases readOutcome_cases (fun _ => b₀.adjust.data 4096 + 1) hvalid hn with
      ⟨hb, -⟩ | ⟨_, -, -, -, -, hout⟩ | ⟨_, hb, -, -, hout⟩ | ⟨b, hprep, -⟩
    · cases hb
    · rw [hout] at hret
      cases hret
    · cases hb
      rw [hout] at hret
      split_ifs at hret with hshort
      have hsame := Option.some.inj (finishRead_failed (length_lt_of_requested hgot) hret)
      have hle : b₀.length.toInt ≤ 4096 := Int32.le_iff_toInt_le.mp (Int32.not_lt.mp hshort)
      exact copy_ne_adjust (hvalid b₀ rfl) hle (by simp [IoBuf.new]) hsame.symm
    · exact hroom b hprep
  · rintro rfl raw
    rcases readOutcome_cases raw hvalid hn with ⟨-, -, hout⟩ | ⟨_, ⟨⟩, -⟩ | ⟨_, ⟨⟩, -⟩ | ⟨b, hprep, -⟩
    · exact ⟨none, -1, hout got, Or.inr ⟨Or.inr rfl, rfl⟩, fun _ => ⟨rfl, rfl⟩⟩
    · exact absurd hprep (hroom b)

theorem asPromised_within_iff (hvalid : ∀ b, buf = some b → b.Valid) (hn : 0 ≤ needRead.toInt)
    (hgot : ∀ bs, got = some bs → bs.length ≤ requested needRead)
    (hfits : (unread buf).length + needRead.toInt ≤ maxCap) :
    AsPromised needRead got buf ↔ ∀ bs, got = some bs → bs ≠ [] →
      if needRead = 0 then ∀ b, buf = some b → b.length.toInt + bs.length ≤ b.capacity.toInt
      else (bs.length : ℤ) = needRead.toInt := by
  have hlen : ∀ b, buf = some b → ((unread buf).length : ℤ) = b.length.toInt := by
    rintro b rfl
    exact (hvalid b rfl).length_content
  have hcount : ∀ bs, got = some bs → (Int32.ofNat bs.length).toInt = bs.length := fun bs hbs =>
    Int32.toInt_ofNat_of_lt (length_lt_of_requested hgot bs hbs)
  constructor
  · intro hpromised bs hbs hne
    obtain ⟨buf', ret, hret, -⟩ := hpromised fun _ => 0
    obtain ⟨b, hprep, hout⟩ := exists_prepared (fun _ => 0) hvalid hn hfits
    rw [hout, hbs] at hret
    obtain ⟨hfit, hall⟩ := finishRead_returned hne hret
    split_ifs with hzero
    · intro b₀ hb₀
      rw [hprep.length_eq, hlen b₀ hb₀, hprep.kept b₀ hb₀ hzero] at hfit
      exact hfit
    · rw [← hall.resolve_left hzero]
      exact (hcount bs hbs).symm
  · intro hcond raw
    obtain ⟨b, hprep, hout⟩ := exists_prepared raw hvalid hn hfits
    have hsmall : ¬ maxCap < (unread buf).length + needRead.toInt := not_lt.mpr hfits
    rw [hout]
    rcases got with _ | bs
    · exact ⟨some b, -1, rfl, Or.inr ⟨Or.inr rfl, hprep.content⟩, fun h => absurd h hsmall⟩
    · by_cases hne : bs = []
      · subst bs
        exact ⟨some b, 0, rfl, Or.inr ⟨Or.inl rfl, hprep.content⟩, fun h => absurd h hsmall⟩
      · have hc := hcond bs rfl hne
        have hfit : b.length.toInt + bs.length ≤ b.capacity.toInt := by
          refine hprep.fits hvalid (hgot bs rfl) fun hzero => ?_
          rw [if_pos hzero] at hc
          exact hc
        have hall : needRead = 0 ∨ Int32.ofNat bs.length = needRead := by
          by_cases hzero : needRead = 0
          · exact Or.inl hzero
          · rw [if_neg hzero, ← hcount bs rfl] at hc
            exact Or.inr (Int32.toInt_inj.mp hc)
        obtain ⟨b', hfin, hcon⟩ := hprep.finishRead_fits hne hfit hall
        exact ⟨some b', _, hfin, Or.inl ⟨bs, rfl, hne, rfl, hcon⟩, fun h => absurd h hsmall⟩

/-- `read_data` does what it promises exactly if a request that is too large for the pool finds no
buffer yet, and any other read gets the bytes that were announced, or without an announcement bytes
that fit behind the unread ones. -/
theorem read_as_promised_iff (hbuf : ∀ b, buf = some b → BufOk b) (hn : 0 ≤ needRead.toInt)
    (hgot : ∀ bs, got = some bs → bs.length ≤ requested needRead) :
    AsPromised needRead got buf ↔
      if maxCap < (unread buf).length + needRead.toInt then buf = none
      else ∀ bs, got = some bs → bs ≠ [] →
        if needRead = 0 then ∀ b, buf = some b → b.length.toInt + bs.length ≤ b.capacity.toInt
        else (bs.length : ℤ) = needRead.toInt := by
  by_cases hbig : maxCap < (unread buf).length + needRead.toInt
  · rw [if_pos hbig]
    exact asPromised_too_large_iff hbuf hn hgot hbig
  · rw [if_neg hbig]
    exact asPromised_within_iff (fun b hb => (hbuf b hb).valid) hn hgot (not_lt.mp hbig)

/-- A buffer with one unread byte. -/
def oneUnread : IoBuf := ⟨4096, 1, 0, fun _ => 9⟩

theorem oneUnread_ok : BufOk oneUnread := by
  refine ⟨⟨?_, ?_, ?_⟩, ?_⟩ <;> decide

theorem read_as_promised_announced : AsPromised 2 (some [7, 8]) (some oneUnread) := by
  refine (read_as_promised_iff ?_ (by decide) ?_).mpr ?_
  · rintro _ ⟨⟩
    exact oneUnread_ok
  · rintro _ ⟨⟩
    decide
  · rw [if_neg (by decide)]
    rintro _ ⟨⟩ -
    decide

/-- 4 MB are announced: the larger buffer is missing, and used. -/
theorem growing_uses_missing :
    BufOk oneUnread ∧ maxCap < (unread (some oneUnread)).length + (4194304 : Int32).toInt ∧
      readOutcome (fun _ => 0) 4194304 none (some oneUnread) = .missing ∧
      ¬ AsPromised 4194304 none (some oneUnread) := by
  have hmissing : readOutcome (fun _ => 0) 4194304 none (some oneUnread) = .missing := rfl
  refine ⟨oneUnread_ok, by decide, hmissing, fun hpromised => ?_⟩
  obtain ⟨buf', ret, hret, -⟩ := hpromised fun _ => 0
  rw [hmissing] at hret
  cases hret

end AsPromised

end Lrlb.Reactor
