import Lrlb.Lib.Memory
import Lrlb.Reactor.UdpServer

/-! Datagrams between the UDP server and the UDP client: which messages fit, and what the buffer
of an earlier datagram has to do with the next one. -/
namespace Lrlb.Reactor
open Lib

/-- What a call of `recvfrom` comes to. It stores no more than `_read_buf` has room for. -/
inductive RecvResult where
  | datagram (bytes : List UInt8) (stored : bytes.length ≤ messageLengthLimit)
  | interrupted
  | again
  | error

/-- The datagrams that a loop of calls gets before it has to stop. -/
def recvDatagrams : List RecvResult → List (List UInt8)
  | [] => []
  | .interrupted :: rs => recvDatagrams rs
  | .again :: _ => []
  | .error :: _ => []
  | .datagram d _ :: rs => d :: recvDatagrams rs

/-- `udp_server::do_read`: what the router is called with for each datagram, `none` where a data
error is reported, and `_read_buf` afterwards. -/
def udpDoRead (readBuf : List UInt8) :
    List RecvResult → List (Option (Int32 × List UInt8)) × List UInt8
  | [] => ([], readBuf)
  | .interrupted :: rs => udpDoRead readBuf rs
  | .again :: _ => ([], readBuf)
  | .error :: _ => ([], readBuf)
  | .datagram d _ :: rs =>
    let (log, buf) := udpDoRead (recvInto readBuf d) rs
    (udpMessage? readBuf d :: log, buf)

/-- The calls of `do_read` that the read events of a server make. -/
def udpDoReads (readBuf : List UInt8) :
    List (List RecvResult) → List (Option (Int32 × List UInt8)) × List UInt8
  | [] => ([], readBuf)
  | rs :: events =>
    let (log, buf) := udpDoRead readBuf rs
    let (more, buf) := udpDoReads buf events
    (log ++ more, buf)

/-- `do_read` of the client, with the same checks on a buffer of the same size. -/
def udpClientMessage? (readBuf datagram : List UInt8) : Option (Int32 × List UInt8) :=
  udpMessage? readBuf datagram

/-- `send_message` with the two copies into a buffer of `writeBuf` bytes. The length of the second
one is converted to `size_t`. -/
def udpSendFrom (writeBuf : ℕ) (data : ℤ → UInt8) (msglen msgid : Int32) : SendResult :=
  if messageLengthLimit < msglen.toInt then .rejected
  else if writeBuf < messageHeadLen + (signExtend msglen).toNat then .overflow
  else .sent (MsgHead.bytes ⟨msgid, msglen⟩ ++ readMem data 0 msglen.toInt.toNat)

def udpServerSendMessage : (ℤ → UInt8) → Int32 → Int32 → SendResult := udpSendFrom messageLengthLimit

def udpClientSendMessage : (ℤ → UInt8) → Int32 → Int32 → SendResult := udpSendFrom messageLengthLimit

section Receiving

/-- The message that a datagram carries on its own. -/
def ownMessage? (d : List UInt8) : Option (Int32 × List UInt8) :=
  let head := MsgHead.ofBytes d
  if messageHeadLen ≤ d.length ∧ head.msglen.toInt = d.length - messageHeadLen then
    some (head.msgid, d.drop messageHeadLen)
  else none

/-- The checks of `do_read` leave nothing of the earlier buffer: a datagram that is too short for
a header would need a negative length. -/
theorem udpMessage?_eq_own (readBuf : List UInt8) {d : List UInt8}
    (hd : d.length ≤ messageLengthLimit) : udpMessage? readBuf d = ownMessage? d := by
  have hlimit : messageLengthLimit = 65527 := rfl
  have hhead : messageHeadLen = 8 := rfl
  have htake : d.take messageLengthLimit = d := List.take_of_length_le hd
  unfold udpMessage? ownMessage?
  dsimp only
  rw [recvInto, htake]
  by_cases hshort : messageHeadLen ≤ d.length
  · rw [ofBytes_append hshort]
    by_cases hlen : (MsgHead.ofBytes d).msglen.toInt = d.length - messageHeadLen
    · rw [if_neg (by omega), if_pos ⟨hshort, hlen⟩, List.drop_append_of_le_length hshort,
        List.take_append_of_le_length (by rw [List.length_drop]; omega), List.take_of_length_le]
      rw [List.length_drop]
      omega
    · rw [if_pos (by omega), if_neg (fun h => hlen h.2)]
  · rw [if_pos (by omega), if_neg (fun h => hshort h.1)]

theorem udpDoRead_log (readBuf : List UInt8) (rs : List RecvResult) :
    (udpDoRead readBuf rs).1 = (recvDatagrams rs).map ownMessage? := by
  induction rs generalizing readBuf with
  | nil => rfl
  | cons r rs ih =>
    cases r with
    | datagram d stored =>
      simp only [udpDoRead, recvDatagrams, List.map_cons, udpMessage?_eq_own readBuf stored, ih]
    | interrupted => exact ih readBuf
    | again => rfl
    | error => rfl

theorem udpDoReads_log (readBuf : List UInt8) (events : List (List RecvResult)) :
    (udpDoReads readBuf events).1 = (events.flatMap recvDatagrams).map ownMessage? := by
  induction events generalizing readBuf with
  | nil => rfl
  | cons rs events ih =>
    simp only [udpDoReads, List.flatMap_cons, List.map_append, udpDoRead_log, ih]

theorem ownMessage?_eq_some_iff (d : List UInt8) (m : Int32 × List UInt8) :
    ownMessage? d = some m ↔ messageHeadLen ≤ d.length ∧
      (MsgHead.ofBytes d).msglen.toInt = d.length - messageHeadLen ∧
      m = ((MsgHead.ofBytes d).msgid, d.drop messageHeadLen) := by
  unfold ownMessage?
  dsimp only
  rw [Option.ite_none_right_eq_some, and_assoc, Option.some_inj, eq_comm (a := m)]

theorem datagrams_dispatched_iff (readBuf : List UInt8) (events : List (List RecvResult)) :
    List.Forall₂ (fun d out => ∀ m, out = some m ↔ messageHeadLen ≤ d.length ∧
        (MsgHead.ofBytes d).msglen.toInt = d.length - messageHeadLen ∧
        m = ((MsgHead.ofBytes d).msgid, d.drop messageHeadLen))
      (events.flatMap recvDatagrams) (udpDoReads readBuf events).1 ∧
    ∀ readBuf', (udpDoReads readBuf' events).1 = (udpDoReads readBuf events).1 := by
  constructor
  · rw [udpDoReads_log, List.forall₂_map_right_iff, List.forall₂_same]
    intro d _ m
    exact ownMessage?_eq_some_iff d m
  · intro readBuf'
    rw [udpDoReads_log, udpDoReads_log]

/-- Three bytes after a message of ten: with what the message left behind they would make a
header, and nothing is dispatched. -/
example : (udpDoReads [] [[.datagram (frame 7 [1, 2]) (by decide), .datagram [7, 0, 0] (by decide),
    .again]]).1 = [some (7, [1, 2]), none] := by decide

end Receiving

section Sending

/-- What was given to `send_message`, unless it was rejected, fits the buffer and is what the
peer's router is called with. -/
def SendsIntact (send : (ℤ → UInt8) → Int32 → Int32 → SendResult)
    (message? : List UInt8 → List UInt8 → Option (Int32 × List UInt8)) (data : ℤ → UInt8)
    (msglen msgid : Int32) : Prop :=
  send data msglen msgid ≠ .rejected → ∃ datagram, send data msglen msgid = .sent datagram ∧
    datagram.length ≤ messageLengthLimit ∧
    ∀ readBuf, message? readBuf datagram = some (msgid, readMem data 0 msglen.toInt.toNat)

/-- On lengths that an `int` has, this is the sending of the agent's replies. -/
theorem udpServerSendMessage_eq (data : List UInt8) (msgid : Int32) (hlen : data.length < 2 ^ 31) :
    udpServerSendMessage (fun i => data.getD i.toNat 0) (Int32.ofNat data.length) msgid =
      udpSendMessage data msgid := by
  have hint : (Int32.ofNat data.length).toInt = data.length := Int32.toInt_ofNat_of_lt hlen
  have hsize : (signExtend (Int32.ofNat data.length)).toNat = data.length := by
    have hword := toNat_signExtend (Int32.ofNat data.length)
    rw [hint] at hword
    omega
  have hdata : readMem (fun i : ℤ => data.getD i.toNat 0) 0 data.length = data := by
    apply List.ext_getElem
    · simp
    · intro i hi hi'
      simp [readMem, hi']
  unfold udpServerSendMessage udpSendFrom udpSendMessage frame
  rw [hint, hsize, Int.toNat_natCast, hdata]
  simp only [Nat.cast_lt]

theorem frame_readMem {msglen : Int32} (h : 0 ≤ msglen.toInt) (data : ℤ → UInt8) (msgid : Int32) :
    MsgHead.bytes ⟨msgid, msglen⟩ ++ readMem data 0 msglen.toInt.toNat =
      frame msgid (readMem data 0 msglen.toInt.toNat) := by
  have hlen : Int32.ofNat msglen.toInt.toNat = msglen := by
    apply Int32.toInt_inj.mp
    have hlt := msglen.toInt_lt
    rw [Int32.toInt_ofNat_of_lt (by omega), Int.toNat_of_nonneg h]
  rw [frame, length_readMem, hlen]

/-- The second copy of a negative length is larger than any buffer. -/
theorem udpSendFrom_negative {writeBuf : ℕ} (hbuf : writeBuf < 2 ^ 63) {msglen : Int32}
    (h : msglen.toInt < 0) (data : ℤ → UInt8) (msgid : Int32) :
    udpSendFrom writeBuf data msglen msgid = .overflow := by
  have hword := toNat_signExtend msglen
  have hle := msglen.le_toInt
  unfold udpSendFrom
  rw [if_neg (by omega), if_pos (by omega)]

theorem sendsIntact_iff (data : ℤ → UInt8) (msglen msgid : Int32) :
    SendsIntact (udpSendFrom messageLengthLimit) udpMessage? data msglen msgid ↔
      messageLengthLimit < msglen.toInt ∨
        (0 ≤ msglen.toInt ∧ messageHeadLen + msglen.toInt ≤ messageLengthLimit) := by
  have hlimit : messageLengthLimit = 65527 := rfl
  have hhead : messageHeadLen = 8 := rfl
  have hword := toNat_signExtend msglen
  unfold SendsIntact
  by_cases hneg : msglen.toInt < 0
  · rw [udpSendFrom_negative (by omega) hneg]
    apply iff_of_false
    · intro h
      obtain ⟨datagram, hsent, -⟩ := h (by decide)
      cases hsent
    · omega
  · unfold udpSendFrom
    by_cases hlarge : messageLengthLimit < msglen.toInt
    · rw [if_pos hlarge]
      exact iff_of_true (fun h => absurd rfl h) (Or.inl hlarge)
    · rw [if_neg hlarge]
      by_cases hover : messageLengthLimit < messageHeadLen + (signExtend msglen).toNat
      · rw [if_pos hover]
        apply iff_of_false
        · intro h
          obtain ⟨datagram, hsent, -⟩ := h (by decide)
          cases hsent
        · omega
      · rw [if_neg hover, frame_readMem (by omega)]
        apply iff_of_true
        · intro _
          refine ⟨_, rfl, ?_, fun readBuf => ?_⟩
          · rw [length_frame, length_readMem]
            omega
          · apply udpMessage?_frame
            rw [length_readMem]
            omega
        · omega

theorem messages_cross_intact_iff (data : ℤ → UInt8) (msglen msgid : Int32) :
    (SendsIntact udpServerSendMessage udpClientMessage? data msglen msgid ∧
      SendsIntact udpClientSendMessage udpMessage? data msglen msgid) ↔
    messageLengthLimit < msglen.toInt ∨
      (0 ≤ msglen.toInt ∧ messageHeadLen + msglen.toInt ≤ messageLengthLimit) := by
  have hiff := sendsIntact_iff data msglen msgid
  constructor
  · intro h
    exact hiff.mp h.1
  · intro h
    exact ⟨hiff.mpr h, hiff.mpr h⟩

/-- The longest payload that the check lets pass is written eight bytes past the end of the
buffer, and so is much more for a negative length. -/
theorem longest_payload_overflows :
    udpServerSendMessage (fun _ => 0) 65527 7 = .overflow ∧
      udpClientSendMessage (fun _ => 0) 65520 7 = .overflow ∧
      udpServerSendMessage (fun _ => 0) (-1) 7 = .overflow := by
  decide

end Sending

end Lrlb.Reactor
