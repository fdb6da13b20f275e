import Lrlb.Reactor.InputBuf
import Lrlb.Reactor.Message

/-! The server side of a connection: reading what has arrived and dispatching the messages. -/
namespace Lrlb.Reactor
open Lib

/-- A connection with the calls it has made to the router. -/
structure TcpConn where
  ibuf : Option IoBuf
  closed : Bool
  dispatched : List (Int32 × List UInt8)

def TcpConn.new : TcpConn := ⟨none, false, []⟩

/-- One round of the unpacking loop of `tcp_conn::do_read`. It leaves with the buffer and
whether the connection was closed, or with `none` where an assertion fails. -/
def unpackBody (b : IoBuf) : Option (IoBuf × Bool) ⊕ ((Int32 × List UInt8) × IoBuf) :=
  if (8 : Int32) < b.length then
    let head := MsgHead.ofBytes (readMem b.data b.head.toInt messageHeadLen)
    if 65527 < head.msglen ∨ head.msglen < 0 then .inl (some (b, true))
    else if b.length < 8 + head.msglen then .inl (some (b, false))
    else
      match reactorPop? b 8 with
      | none => .inl none
      | some b =>
        let call := (head.msgid, readMem b.data b.head.toInt head.msglen.toUInt32.toNat)
        match reactorPop? b head.msglen with
        | none => .inl none
        | some b => .inr (call, b)
  else .inl (some (b, false))

/-- `tcp_conn::do_read` when `FIONREAD` and `read` give the bytes of one chunk. The loop gets a
round for each byte, which `unpack_spec` shows to be enough. -/
def TcpConn.doRead? (raw : ℤ → UInt8) (c : TcpConn) (chunk : List UInt8) : Option TcpConn := do
  let (ibuf, ret) ← readData? raw (Int32.ofNat chunk.length) (some chunk) c.ibuf
  if ret = -1 ∨ ret = 0 then some { c with ibuf := none, closed := true }
  else
    let b ← ibuf
    let (calls, out) ← loop unpackBody (b.length.toInt.toNat + 1) b
    let (b, closed) ← out
    let dispatched := c.dispatched ++ calls
    if closed then some ⟨none, true, dispatched⟩ else some ⟨some b.adjust, false, dispatched⟩

/-- The messages as this loop sees them: it waits for one byte more than a header. -/
abbrev connFront : List UInt8 → Front (Int32 × List UInt8) UInt8 :=
  frameFront (messageHeadLen + 1) messageLengthLimit

theorem connFront_incremental : Incremental connFront :=
  frameFront_incremental (by omega) _

/-- How the loop leaves: with the parser's rest unread, or with the connection closed. -/
def LeftWith (out : Option (IoBuf × Bool)) : Option (List UInt8) → Prop
  | some r => ∃ b, out = some (b, false) ∧ BufOk b ∧ b.content = r
  | none => ∃ b, out = some (b, true)

variable {b : IoBuf}

/-- Taking a whole message off the buffer: header, call, payload. -/
theorem pop_message (hb : BufOk b) {msgid len : Int32} (h0 : 0 ≤ len.toInt)
    (hlen : 8 + len.toInt ≤ b.length.toInt) :
    ∃ b', (match reactorPop? b 8 with
        | none => .inl none
        | some b =>
          let call := (msgid, readMem b.data b.head.toInt len.toUInt32.toNat)
          match reactorPop? b len with
          | none => .inl none
          | some b => .inr (call, b) : Option (IoBuf × Bool) ⊕ ((Int32 × List UInt8) × IoBuf)) =
        .inr ((msgid, (b.content.drop messageHeadLen).take len.toInt.toNat), b') ∧
      BufOk b' ∧ b'.content = b.content.drop (messageHeadLen + len.toInt.toNat) := by
  have h8 : (8 : Int32).toInt = 8 := rfl
  have hlen8 : (b.pop 8).length.toInt = b.length.toInt - (8 : Int32).toInt :=
    IoBuf.pop_length (by omega) (by omega)
  obtain ⟨hpay, hok, hcon⟩ := hb.pop_pop (m := 8) (n := len) (by omega) h0 (by omega)
  refine ⟨(b.pop 8).pop len, ?_, hok, hcon⟩
  rw [reactorPop?_eq_some (n := 8) (by omega)]
  dsimp only
  rw [reactorPop?_eq_some (by omega), toNat_toUInt32 h0, hpay]
  rfl

/-- One round is one step of the parser on the unread bytes. -/
theorem unpackBody_spec (hb : BufOk b) :
    (connFront b.content = .more → unpackBody b = .inl (some (b, false))) ∧
    (connFront b.content = .fail → unpackBody b = .inl (some (b, true))) ∧
    ∀ m r, connFront b.content = .item m r →
      ∃ b', unpackBody b = .inr (m, b') ∧ BufOk b' ∧ b'.content = r := by
  have hlc := hb.valid.length_content
  have h8 : (8 : Int32).toInt = 8 := rfl
  have hh : messageHeadLen = 8 := rfl
  unfold connFront frameFront unpackBody
  dsimp only
  by_cases hlong : (8 : Int32) < b.length
  · have hlong' := Int32.lt_iff_toInt_lt.mp hlong
    rw [if_pos hlong, if_neg (by omega), IoBuf.head_eq_ofBytes (by omega)]
    set head := MsgHead.ofBytes b.content
    by_cases hbad : 65527 < head.msglen ∨ head.msglen < 0
    · have hbad' : head.msglen.toInt < 0 ∨ (messageLengthLimit : ℤ) < head.msglen.toInt := by
        rw [Int32.lt_iff_toInt_lt, Int32.lt_iff_toInt_lt] at hbad
        exact hbad.symm
      rw [if_pos hbad, if_pos hbad']
      exact ⟨nofun, fun _ => rfl, nofun⟩
    · have hok : 0 ≤ head.msglen.toInt ∧ head.msglen.toInt ≤ 65527 := by
        rw [Int32.lt_iff_toInt_lt, Int32.lt_iff_toInt_lt] at hbad
        have h1 : (65527 : Int32).toInt = 65527 := rfl
        have h2 : (0 : Int32).toInt = 0 := rfl
        omega
      have hsum : (8 + head.msglen).toInt = 8 + head.msglen.toInt :=
        toInt_add_of_range (by omega) (by omega)
      have hlim : (messageLengthLimit : ℤ) = 65527 := rfl
      rw [if_neg hbad, if_neg (by omega)]
      by_cases hshort : b.length < 8 + head.msglen
      · have hshort' := Int32.lt_iff_toInt_lt.mp hshort
        rw [if_pos hshort, if_pos (by omega)]
        exact ⟨fun _ => rfl, nofun, nofun⟩
      · have hshort' : 8 + head.msglen.toInt ≤ b.length.toInt := by
          rw [Int32.lt_iff_toInt_lt] at hshort
          omega
        rw [if_neg hshort, if_neg (by omega)]
        refine ⟨nofun, nofun, fun m r hm => ?_⟩
        cases hm
        exact pop_message hb hok.1 hshort'
  · rw [if_neg hlong, if_pos (by rw [Int32.lt_iff_toInt_lt] at hlong; omega)]
    exact ⟨fun _ => rfl, nofun, nofun⟩

/-- The loop leaves within a round for each unread byte, with the parser's messages called. -/
theorem unpack_spec (hb : BufOk b) :
    ∃ out, loop unpackBody (b.length.toInt.toNat + 1) b =
        some ((parseAll connFront b.content).1, out) ∧
      LeftWith out (parseAll connFront b.content).2 := by
  have hrounds : b.content.length < b.length.toInt.toNat + 1 := by
    rw [IoBuf.content, length_readMem]
    omega
  obtain ⟨es, out, hloop, hes, hq⟩ : ∃ es out,
      loop unpackBody (b.length.toInt.toNat + 1) b = some (es, out) ∧
        es.map id = (parseAll connFront b.content).1 ∧
        LeftWith out (parseAll connFront b.content).2 := by
    refine loop_parseAll connFront_incremental (I := BufOk) ?_ ?_ ?_ hb hrounds
    · intro s hs h
      exact ⟨_, (unpackBody_spec hs).1 h, s, rfl, hs, rfl⟩
    · intro s hs h
      exact ⟨_, (unpackBody_spec hs).2.1 h, s, rfl⟩
    · intro s m r hs h
      obtain ⟨b', hbody, hok, hcon⟩ := (unpackBody_spec hs).2.2 m r h
      exact ⟨m, b', hbody, rfl, hcon, hok⟩
  rw [List.map_id] at hes
  exact ⟨out, hes ▸ hloop, hq⟩

namespace TcpConn

variable (raw : ℤ → UInt8) {c c' : TcpConn} {chunk : List UInt8}

def InputOk (c : TcpConn) : Prop := ∀ b, c.ibuf = some b → BufOk b

/-- The number of bytes of a chunk is not taken for an error or the end of the stream. -/
theorem read_succeeds (hne : chunk ≠ []) (hle : chunk.length ≤ maxCap) :
    ¬ (Int32.ofNat chunk.length = -1 ∨ Int32.ofNat chunk.length = 0) := by
  have hlen : (Int32.ofNat chunk.length).toInt = chunk.length :=
    Int32.toInt_ofNat_of_lt (by simp only [maxCap] at hle; omega)
  have hpos := List.length_pos_of_ne_nil hne
  rintro (h | h) <;> rw [h] at hlen
  · have : (-1 : Int32).toInt = -1 := rfl
    omega
  · have : (0 : Int32).toInt = 0 := rfl
    omega

/-- What a read does while the bytes fit: it feeds the parser. -/
theorem doRead?_fits (hc : c.InputOk) (hne : chunk ≠ [])
    (hfit : (unread c.ibuf).length + chunk.length ≤ maxCap) :
    ∃ c', c.doRead? raw chunk = some c' ∧ c'.InputOk ∧
      c'.dispatched = c.dispatched ++ (parseAll connFront (unread c.ibuf ++ chunk)).1 ∧
      c'.closed = (parseAll connFront (unread c.ibuf ++ chunk)).2.isNone ∧
      ∀ r, (parseAll connFront (unread c.ibuf ++ chunk)).2 = some r → unread c'.ibuf = r := by
  obtain ⟨b, hread, hok, hcon⟩ := readData?_fits raw hc hne hfit
  obtain ⟨out, hloop, hleft⟩ := unpack_spec hok
  have hret := read_succeeds hne (show chunk.length ≤ maxCap by omega)
  rw [hcon] at hloop hleft
  unfold doRead?
  simp only [hread, Option.bind_eq_bind, Option.bind_some, if_neg hret, hloop]
  cases hrest : (parseAll connFront (unread c.ibuf ++ chunk)).2 with
  | none =>
    rw [hrest] at hleft
    obtain ⟨b', rfl⟩ := hleft
    exact ⟨_, rfl, nofun, rfl, rfl, nofun⟩
  | some r =>
    rw [hrest] at hleft
    obtain ⟨b', rfl, hok', hr⟩ := hleft
    refine ⟨_, rfl, ?_, rfl, rfl, ?_⟩
    · rintro b'' ⟨⟩
      exact adjust_ok hok'
    · rintro r' ⟨⟩
      simpa [unread] using hr

/-- Bytes that do not fit dispatch nothing and cost the connection. -/
theorem doRead?_overrun (hc : c.InputOk) (hne : chunk ≠ [])
    (hbig : maxCap < (unread c.ibuf).length + chunk.length)
    (h : c.doRead? raw chunk = some c') : c'.dispatched = c.dispatched ∧ c'.closed = true := by
  unfold doRead? at h
  rcases readData?_overrun raw (Int32.ofNat chunk.length) hc hne hbig with hread | hread
  · simp [hread] at h
  · simp only [hread, Option.bind_eq_bind, Option.bind_some, true_or, if_true] at h
    cases h
    exact ⟨rfl, rfl⟩

end TcpConn

end Lrlb.Reactor
