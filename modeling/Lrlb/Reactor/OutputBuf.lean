import Lrlb.Reactor.InputBuf
import Lrlb.Reactor.Message

/-! The output buffer of a connection: a pool buffer that grows with what is sent and shrinks with
what the socket takes. -/
namespace Lrlb.Reactor
open Lib

/-- `reactor_buf::length`. -/
def bufLength (buf : Option IoBuf) : Int32 :=
  match buf with
  | none => 0
  | some b => b.length

/-- `output_buf::send_data`, with the return value. -/
def sendData (raw : ℤ → UInt8) (buf : Option IoBuf) (data : List UInt8) : Option IoBuf × Int32 :=
  let datalen := Int32.ofNat data.length
  match buf with
  | none =>
    match allocBuf? raw datalen with
    | none => (none, -1)
    | some b => (some (b.write data), 0)
  | some b =>
    let b := if b.head ≠ 0 then b.adjust else b
    if b.capacity - b.length < datalen then
      match allocBuf? raw (datalen + b.length) with
      | none => (some b, -1)
      | some newBuf => (some ((newBuf.copy b).write data), 0)
    else (some (b.write data), 0)

/-- What `write` does in the end: it takes some bytes, would block, or fails. -/
inductive WriteResult where
  | wrote (k : ℕ)
  | again
  | error
deriving DecidableEq, Repr

/-- `output_buf::write2fd` with the bytes that the socket has taken and the return value. `none`
is the failed assertion, or a `write` that takes more than it was given. -/
def write2fd? (buf : Option IoBuf) (r : WriteResult) : Option (Option IoBuf × List UInt8 × Int32) :=
  buf.bind fun b =>
    let b := if b.head ≠ 0 then b.adjust else b
    match r with
    | .wrote k =>
      if b.length.toInt < k then none
      else if 0 < k then
        some (some (b.pop (Int32.ofNat k)).adjust, readMem b.data 0 k, Int32.ofNat k)
      else some (some b, [], 0)
    | .again => some (some b, [], 0)
    | .error => some (some b, [], -1)

/-- The loop of `tcp_conn::do_write`, with the bytes that the socket has taken and whether an
error ended it. `none` is also a list of results that is too short. -/
def writeLoop? : List WriteResult → Option IoBuf → Option (Option IoBuf × List UInt8 × Bool)
  | rs, buf =>
    if bufLength buf = 0 then some (buf, [], false)
    else match rs with
      | [] => none
      | r :: rs => do
        let (buf, bytes, ret) ← write2fd? buf r
        if ret = -1 then some (buf, bytes, true)
        else if ret = 0 then some (buf, bytes, false)
        else
          let (buf, more, failed) ← writeLoop? rs buf
          some (buf, bytes ++ more, failed)

/-- `tcp_conn::send_message` up to the event loop: the buffer, the return value and whether the
write event is to be activated. `none` is the failed assertion of `pop`. -/
def queueMessage? (rawHead rawBody : ℤ → UInt8) (obuf : Option IoBuf) (msgid : Int32)
    (data : List UInt8) : Option (Option IoBuf × Int32 × Bool) :=
  let activeEpollout := decide (bufLength obuf = 0)
  let (obuf, ret) := sendData rawHead obuf (MsgHead.bytes ⟨msgid, Int32.ofNat data.length⟩)
  if ret ≠ 0 then some (obuf, -1, false)
  else
    let (obuf, ret) := sendData rawBody obuf data
    if ret ≠ 0 then obuf.bind fun b => (reactorPop? b 8).map fun b => (some b, -1, false)
    else some (obuf, 0, activeEpollout)

/-- A call of `send_message`, with the old contents of the memory that it may allocate. -/
structure SendCall where
  msgid : Int32
  data : List UInt8
  rawHead : ℤ → UInt8
  rawBody : ℤ → UInt8
  short : data.length ≤ 2 ^ 30

def sendMessage? (obuf : Option IoBuf) (m : SendCall) : Option (Option IoBuf × Int32 × Bool) :=
  queueMessage? m.rawHead m.rawBody obuf m.msgid m.data

def OutOk (buf : Option IoBuf) : Prop := ∀ b, buf = some b → BufOk b

section Spec

variable {buf : Option IoBuf} {b : IoBuf}

theorem OutOk.none : OutOk none := nofun

theorem BufOk.outOk (hb : BufOk b) : OutOk (some b) := fun _ h => Option.some.inj h ▸ hb

theorem OutOk.length_unread (h : OutOk buf) : ((unread buf).length : ℤ) = (bufLength buf).toInt := by
  cases buf with
  | none => rfl
  | some b => exact (h b rfl).valid.length_content

theorem OutOk.bufLength_eq_zero_iff (h : OutOk buf) : bufLength buf = 0 ↔ unread buf = [] := by
  rw [← Int32.toInt_inj, ← h.length_unread, Int32.toInt_zero, Int.natCast_eq_zero,
    List.length_eq_zero_iff]

/-- Data is appended to what is unsent, or refused and nothing is changed. -/
theorem sendData_spec (raw : ℤ → UInt8) (h : OutOk buf) {data : List UInt8}
    (hdata : data.length ≤ 2 ^ 30) :
    OutOk (sendData raw buf data).1 ∧
      (((sendData raw buf data).2 = 0 ∧ unread (sendData raw buf data).1 = unread buf ++ data) ∨
        ((sendData raw buf data).2 = -1 ∧ unread (sendData raw buf data).1 = unread buf)) := by
  have hlen : (Int32.ofNat data.length).toInt = data.length := Int32.toInt_ofNat_of_lt (by omega)
  unfold sendData
  cases buf with
  | none =>
    dsimp only
    cases halloc : allocBuf? raw (Int32.ofNat data.length) with
    | none => exact ⟨OutOk.none, Or.inr ⟨rfl, rfl⟩⟩
    | some b =>
      obtain ⟨hok, hh, hl, hcap⟩ := allocBuf?_spec halloc
      obtain ⟨hok', hcon⟩ := hok.write_fits hh data (by rw [hl]; simp; omega)
      have hempty : b.content = [] := by
        rw [IoBuf.content, hl]
        rfl
      exact ⟨hok'.outOk, Or.inl ⟨rfl, by rw [hempty] at hcon; exact hcon⟩⟩
  | some b₀ =>
    have hok := adjust_ok (h b₀ rfl)
    have hh : b₀.adjust.head = 0 := by simp
    have hu : unread (some b₀) = b₀.adjust.content := by simp [unread]
    rw [hu]
    dsimp only
    rw [adjust_if_moved]
    generalize b₀.adjust = b at hok hh
    have hadd := hok.add_length (n := Int32.ofNat data.length) (by omega) (by omega)
    have hsub := hok.sub_length
    split_ifs with hgrow
    · cases halloc : allocBuf? raw (Int32.ofNat data.length + b.length) with
      | none => exact ⟨hok.outOk, Or.inr ⟨rfl, rfl⟩⟩
      | some newBuf =>
        obtain ⟨hnew, -, -, hcap⟩ := allocBuf?_spec halloc
        obtain ⟨hcopy, hcc⟩ := copy_ok hok hh hnew (by omega)
        have hfit : (newBuf.copy b).length.toInt + data.length ≤ (newBuf.copy b).capacity.toInt := by
          change b.length.toInt + data.length ≤ newBuf.capacity.toInt
          omega
        obtain ⟨hok', hcon⟩ := hcopy.write_fits rfl data hfit
        exact ⟨hok'.outOk, Or.inl ⟨rfl, hcc ▸ hcon⟩⟩
    · rw [Int32.lt_iff_toInt_lt] at hgrow
      obtain ⟨hok', hcon⟩ := hok.write_fits hh data (by omega)
      exact ⟨hok'.outOk, Or.inl ⟨rfl, hcon⟩⟩

/-- A refused send has moved the unsent bytes to the front and done nothing else. -/
theorem sendData_of_refused {raw : ℤ → UInt8} {data : List UInt8}
    (hret : (sendData raw buf data).2 ≠ 0) :
    (sendData raw buf data).1 = buf.map IoBuf.adjust := by
  unfold sendData at hret ⊢
  cases buf with
  | none =>
    dsimp only at hret ⊢
    cases halloc : allocBuf? raw (Int32.ofNat data.length) with
    | none => rfl
    | some b =>
      rw [halloc] at hret
      exact absurd rfl hret
  | some b =>
    dsimp only at hret ⊢
    rw [adjust_if_moved] at hret ⊢
    split_ifs at hret ⊢
    · cases halloc : allocBuf? raw (Int32.ofNat data.length + b.adjust.length) with
      | none => rfl
      | some newBuf =>
        rw [halloc] at hret
        exact absurd rfl hret
    · exact absurd rfl hret

theorem OutOk.adjust (h : OutOk buf) :
    OutOk (buf.map IoBuf.adjust) ∧ unread (buf.map IoBuf.adjust) = unread buf := by
  cases buf with
  | none => exact ⟨h, rfl⟩
  | some b => exact ⟨(adjust_ok (h b rfl)).outOk, by simp [unread]⟩

/-- The rollback of a header takes its 8 bytes off the front. -/
theorem OutOk.rollback (h : OutOk buf) (h8 : 8 ≤ (unread buf).length) :
    ∃ b, (buf.bind fun b => (reactorPop? b 8).map fun b => (some b, (-1 : Int32), false)) =
        some (some b, -1, false) ∧ BufOk b ∧ b.content = (unread buf).drop 8 := by
  have hlen := h.length_unread
  cases buf with
  | none => simp [unread] at h8
  | some b =>
    have hb := h b rfl
    have height : (8 : Int32).toInt = 8 := rfl
    change _ = b.length.toInt at hlen
    refine ⟨b.pop 8, ?_, ⟨hb.valid.pop (by omega) (by omega), hb.cap⟩, ?_⟩
    · rw [Option.bind_some, reactorPop?_eq_some (by omega)]
      rfl
    · exact hb.valid.pop_content (by omega) (by omega)

/-- A message is appended as a whole, or refused; the refusal of its body takes 8 bytes off the
front for the header at the end. -/
theorem sendMessage?_spec (h : OutOk buf) (m : SendCall) :
    ∃ buf', OutOk buf' ∧
      ((sendMessage? buf m = some (buf', 0, decide (bufLength buf = 0)) ∧
          unread buf' = unread buf ++ frame m.msgid m.data) ∨
        (sendMessage? buf m = some (buf', -1, false) ∧
          (unread buf').length = (unread buf).length)) := by
  set head := MsgHead.bytes ⟨m.msgid, Int32.ofNat m.data.length⟩ with hhead
  have hlen : head.length = 8 := MsgHead.length_bytes _
  obtain ⟨hok, hsend⟩ := sendData_spec m.rawHead h (show head.length ≤ 2 ^ 30 by omega)
  unfold sendMessage? queueMessage?
  dsimp only
  rw [← hhead]
  generalize sendData m.rawHead buf head = r at hok hsend
  obtain ⟨buf₁, ret⟩ := r
  dsimp only at hok hsend ⊢
  obtain ⟨rfl, hcon⟩ | ⟨rfl, hcon⟩ := hsend
  · obtain ⟨hok₂, hbody⟩ := sendData_spec m.rawBody hok m.short
    generalize sendData m.rawBody buf₁ m.data = r at hok₂ hbody
    obtain ⟨buf₂, ret⟩ := r
    dsimp only at hok₂ hbody ⊢
    rw [if_neg (by decide)]
    obtain ⟨rfl, hcon₂⟩ | ⟨rfl, hcon₂⟩ := hbody
    · refine ⟨buf₂, hok₂, Or.inl ⟨rfl, ?_⟩⟩
      rw [hcon₂, hcon, List.append_assoc]
      rfl
    · have h8 : (unread buf₂).length = (unread buf).length + 8 := by
        rw [hcon₂, hcon, List.length_append, hlen]
      obtain ⟨b, hpop, hb, hbcon⟩ := hok₂.rollback (by omega)
      refine ⟨some b, hb.outOk, Or.inr ⟨(if_pos (by decide)).trans hpop, ?_⟩⟩
      change b.content.length = _
      rw [hbcon, List.length_drop]
      omega
  · exact ⟨buf₁, hok, Or.inr ⟨if_pos (by decide), by rw [hcon]⟩⟩

theorem write2fd?_spec (h : OutOk buf) {r : WriteResult} {buf' : Option IoBuf} {bytes : List UInt8}
    {ret : Int32} (hw : write2fd? buf r = some (buf', bytes, ret)) :
    OutOk buf' ∧ bytes ++ unread buf' = unread buf := by
  cases buf with
  | none => cases hw
  | some b₀ =>
    have hok := adjust_ok (h b₀ rfl)
    have hh : b₀.adjust.head = 0 := by simp
    have hu : unread (some b₀) = b₀.adjust.content := by simp [unread]
    simp only [write2fd?, Option.bind_some, adjust_if_moved] at hw
    rw [hu]
    generalize b₀.adjust = b at hok hh hw
    cases r with
    | again =>
      cases hw
      exact ⟨hok.outOk, rfl⟩
    | error =>
      cases hw
      exact ⟨hok.outOk, rfl⟩
    | wrote k =>
      dsimp only at hw
      split_ifs at hw with hmany hpos
      · cases hw
        have hlc := hok.valid.length_content
        obtain ⟨hok', hcon⟩ := hok.take_off (k := k) (by omega)
        have htake : readMem b.data 0 k = b.content.take k := by
          rw [IoBuf.content, hh, take_readMem _ _ (by omega)]
          rfl
        refine ⟨hok'.outOk, ?_⟩
        change _ ++ (b.pop (Int32.ofNat k)).adjust.content = _
        rw [hcon, htake, List.take_append_drop]
      · cases hw
        exact ⟨hok.outOk, rfl⟩

/-- What the socket takes comes off the front of what is unsent. -/
theorem writeLoop?_spec {rs : List WriteResult} (h : OutOk buf) {buf' : Option IoBuf}
    {bytes : List UInt8} {failed : Bool} (hw : writeLoop? rs buf = some (buf', bytes, failed)) :
    OutOk buf' ∧ bytes ++ unread buf' = unread buf := by
  induction rs generalizing buf bytes with
  | nil =>
    unfold writeLoop? at hw
    split_ifs at hw
    cases hw
    exact ⟨h, rfl⟩
  | cons r rs ih =>
    unfold writeLoop? at hw
    split_ifs at hw
    · cases hw
      exact ⟨h, rfl⟩
    · obtain ⟨⟨buf₁, bytes₁, ret⟩, hw₁, hw⟩ := Option.bind_eq_some_iff.mp hw
      obtain ⟨hok, hcon⟩ := write2fd?_spec h hw₁
      dsimp only at hw
      split_ifs at hw
      · cases hw
        exact ⟨hok, hcon⟩
      · cases hw
        exact ⟨hok, hcon⟩
      · obtain ⟨⟨buf₂, more, failed₂⟩, hw₂, hw⟩ := Option.bind_eq_some_iff.mp hw
        cases hw
        obtain ⟨hok₂, hcon₂⟩ := ih hok hw₂
        exact ⟨hok₂, by rw [List.append_assoc, hcon₂, hcon]⟩

end Spec

end Lrlb.Reactor
