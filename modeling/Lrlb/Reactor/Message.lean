import Lrlb.Lib.Stream
import Lrlb.Lib.Word
import Lrlb.Reactor.IoBuf

/-! The message header of the reactor's protocol, the stream of messages that it frames, and
the router that dispatches by message id. -/
namespace Lrlb.Reactor
open Lib

structure MsgHead where
  msgid : Int32
  msglen : Int32
deriving DecidableEq, Repr

abbrev messageHeadLen : ℕ := 8
abbrev messageLengthLimit : ℕ := 65535 - messageHeadLen

namespace MsgHead

/-- The header as `memcpy` writes it. -/
def bytes (h : MsgHead) : List UInt8 := intBytes h.msgid ++ intBytes h.msglen

/-- The header as `memcpy` reads it. -/
def ofBytes (bs : List UInt8) : MsgHead := ⟨bytesInt (bs.take 4), bytesInt ((bs.drop 4).take 4)⟩

@[simp] theorem length_bytes (h : MsgHead) : h.bytes.length = messageHeadLen := by
  simp [bytes]

@[simp] theorem ofBytes_bytes (h : MsgHead) (rest : List UInt8) : ofBytes (h.bytes ++ rest) = h := by
  have ht : (h.bytes ++ rest).take 4 = intBytes h.msgid := by
    rw [bytes, List.append_assoc, List.take_left' (length_intBytes _)]
  have hd : ((h.bytes ++ rest).drop 4).take 4 = intBytes h.msglen := by
    rw [bytes, List.append_assoc, List.drop_left' (length_intBytes _),
      List.take_left' (length_intBytes _)]
  simp [ofBytes, ht, hd]

end MsgHead

/-- A message on the wire. -/
def frame (msgid : Int32) (payload : List UInt8) : List UInt8 :=
  MsgHead.bytes ⟨msgid, Int32.ofNat payload.length⟩ ++ payload

theorem length_frame (msgid : Int32) (payload : List UInt8) :
    (frame msgid payload).length = messageHeadLen + payload.length := by
  simp [frame]

@[simp] theorem MsgHead.ofBytes_take (bs : List UInt8) :
    MsgHead.ofBytes (bs.take messageHeadLen) = MsgHead.ofBytes bs := by
  simp [MsgHead.ofBytes, List.take_take, List.drop_take, messageHeadLen]

/-- The header that the loops copy out of a buffer. -/
theorem IoBuf.head_eq_ofBytes {b : IoBuf} (hlen : messageHeadLen ≤ b.content.length) :
    MsgHead.ofBytes (readMem b.data b.head.toInt messageHeadLen) = MsgHead.ofBytes b.content := by
  rw [← MsgHead.ofBytes_take b.content, IoBuf.content, take_readMem]
  rwa [IoBuf.content, length_readMem] at hlen

/-- The message at the front of a stream, for a receiver that looks at a header once it has
`least` bytes and takes lengths from 0 to `bound`. -/
def frameFront (least : ℕ) (bound : ℤ) (bs : List UInt8) : Front (Int32 × List UInt8) UInt8 :=
  let head := MsgHead.ofBytes bs
  let len := head.msglen.toInt.toNat
  if bs.length < least then .more
  else if head.msglen.toInt < 0 ∨ bound < head.msglen.toInt then .fail
  else if bs.length < messageHeadLen + len then .more
  else .item (head.msgid, (bs.drop messageHeadLen).take len) (bs.drop (messageHeadLen + len))

theorem ofBytes_append {bs : List UInt8} (h : messageHeadLen ≤ bs.length) (cs : List UInt8) :
    MsgHead.ofBytes (bs ++ cs) = MsgHead.ofBytes bs := by
  rw [← MsgHead.ofBytes_take, List.take_append_of_le_length h, MsgHead.ofBytes_take]

theorem frameFront_incremental {least : ℕ} (hleast : messageHeadLen ≤ least) (bound : ℤ) :
    Incremental (frameFront least bound) := by
  refine ⟨?_, ?_, ?_⟩
  · intro bs m r cs h
    simp only [frameFront] at h ⊢
    split_ifs at h with h1 h2 h3
    rw [ofBytes_append (by omega), if_neg (by rw [List.length_append]; omega), if_neg h2,
      if_neg (by rw [List.length_append]; omega)]
    cases h
    rw [List.drop_append_of_le_length (by omega), List.drop_append_of_le_length (by omega),
      List.take_append_of_le_length (by rw [List.length_drop]; omega)]
  · intro bs cs h
    simp only [frameFront] at h ⊢
    split_ifs at h with h1 h2 h3
    rw [ofBytes_append (by omega), if_neg (by rw [List.length_append]; omega), if_pos h2]
  · intro bs m r h
    simp only [frameFront] at h
    split_ifs at h with h1 h2 h3
    cases h
    simp only [List.length_drop]
    have : messageHeadLen = 8 := rfl
    omega

theorem frameFront_frame {least : ℕ} {bound : ℤ} {msgid : Int32} {payload rest : List UInt8}
    (hbound : (payload.length : ℤ) ≤ bound) (hlt : payload.length < 2 ^ 31)
    (hleast : least ≤ messageHeadLen + payload.length + rest.length) :
    frameFront least bound (frame msgid payload ++ rest) = .item (msgid, payload) rest := by
  have hlen : (Int32.ofNat payload.length).toInt = payload.length := Int32.toInt_ofNat_of_lt hlt
  have hhead : MsgHead.ofBytes (frame msgid payload ++ rest) =
      ⟨msgid, Int32.ofNat payload.length⟩ := by
    rw [frame, List.append_assoc, MsgHead.ofBytes_bytes]
  have hdrop : (frame msgid payload ++ rest).drop messageHeadLen = payload ++ rest := by
    rw [frame, List.append_assoc, List.drop_left' (MsgHead.length_bytes _)]
  have hall : (frame msgid payload ++ rest).drop (messageHeadLen + payload.length) = rest := by
    rw [← length_frame msgid payload, List.drop_left]
  simp only [frameFront, hhead, hlen, Int.toNat_natCast, List.length_append, length_frame]
  rw [if_neg (by omega), if_neg (by omega), if_neg (by omega), hdrop, hall, List.take_left]

/-- What is registered for each message id. -/
structure MsgRouter (C : Type) where
  router : Int32 → Option C

namespace MsgRouter

variable {C : Type}

def empty : MsgRouter C := ⟨fun _ => none⟩

/-- An id that already has a callback keeps it. -/
def registerMsgRouter (r : MsgRouter C) (msgid : Int32) (cb : C) : MsgRouter C :=
  if (r.router msgid).isSome then r else ⟨Function.update r.router msgid (some cb)⟩

end MsgRouter

end Lrlb.Reactor
