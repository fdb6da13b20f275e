import Lrlb.Reactor.Message

/-! The UDP server: one datagram in, at most one message for the router, one datagram out. -/
namespace Lrlb.Reactor
open Lib

/-- What `_read_buf` holds after `recvfrom`: the datagram, cut to the buffer's size, over the
bytes of the one before. -/
def recvInto (readBuf datagram : List UInt8) : List UInt8 :=
  datagram.take messageLengthLimit ++ readBuf.drop (datagram.take messageLengthLimit).length

/-- The message that `do_read` finds in a datagram, or `none` where it reports a data error. -/
def udpMessage? (readBuf datagram : List UInt8) : Option (Int32 × List UInt8) :=
  let pkgLen := (datagram.take messageLengthLimit).length
  let buf := recvInto readBuf datagram
  let head := MsgHead.ofBytes buf
  let msglen := head.msglen.toInt
  if messageLengthLimit < msglen ∨ msglen < 0 ∨ msglen + messageHeadLen ≠ pkgLen then none
  else some (head.msgid, (buf.drop messageHeadLen).take msglen.toNat)

/-- What becomes of a message to send. `overflow` writes past the end of `_write_buf`. -/
inductive SendResult where
  | rejected
  | overflow
  | sent (datagram : List UInt8)
deriving DecidableEq, Repr

def udpSendMessage (data : List UInt8) (msgid : Int32) : SendResult :=
  if messageLengthLimit < data.length then .rejected
  else if messageLengthLimit < messageHeadLen + data.length then .overflow
  else .sent (frame msgid data)

/-- A framed message that fits the buffer is dispatched as it is, whatever was there before. -/
theorem udpMessage?_frame (readBuf : List UInt8) (msgid : Int32) (payload : List UInt8)
    (h : messageHeadLen + payload.length ≤ messageLengthLimit) :
    udpMessage? readBuf (frame msgid payload) = some (msgid, payload) := by
  have hlimit : messageLengthLimit = 65527 := rfl
  have htake : (frame msgid payload).take messageLengthLimit = frame msgid payload :=
    List.take_of_length_le (by rw [length_frame]; exact h)
  have hlen : (Int32.ofNat payload.length).toInt = payload.length :=
    Int32.toInt_ofNat_of_lt (by omega)
  have hdrop : (recvInto readBuf (frame msgid payload)).drop messageHeadLen =
      payload ++ readBuf.drop (frame msgid payload).length := by
    rw [recvInto, htake, frame, List.append_assoc, List.drop_left' (MsgHead.length_bytes _)]
  have hhead : MsgHead.ofBytes (recvInto readBuf (frame msgid payload)) =
      ⟨msgid, Int32.ofNat payload.length⟩ := by
    rw [recvInto, htake, frame, List.append_assoc, MsgHead.ofBytes_bytes]
  unfold udpMessage?
  dsimp only
  rw [hhead, htake, length_frame]
  dsimp only
  rw [hlen, if_neg (by push_cast; omega), hdrop, Int.toNat_natCast, List.take_left]

theorem udpSendMessage_of_le (data : List UInt8) (msgid : Int32)
    (h : messageHeadLen + data.length ≤ messageLengthLimit) :
    udpSendMessage data msgid = .sent (frame msgid data) := by
  unfold udpSendMessage
  rw [if_neg (by omega), if_neg (by omega)]

end Lrlb.Reactor
