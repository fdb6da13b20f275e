import Lrlb.Lib.Channel
import Lrlb.Reactor.Chunking
import Lrlb.Reactor.Replies

/-! Both directions of one connection between a `tcp_client` and a `tcp_conn`, with the bytes that
are on their way. Whatever is sent, written and read, in whatever pieces and order, each direction
moves like a queue of whole messages. -/
namespace Lrlb.Reactor
open Lib

/-- `asked`, `answered` and `calls` are no data of the program: they record the messages that the two
sides took for sending and the calls of the client's router. -/
structure Duplex where
  client : TcpClient
  asked : List Msg
  /-- bytes that the client has written and the connection has not read -/
  toConn : List UInt8
  conn : TcpConn
  obuf : Option IoBuf
  answered : List Msg
  /-- bytes that the connection has written and the client has not read -/
  toClient : List UInt8
  calls : List Msg

inductive DuplexOp where
  /-- `tcp_client::send_message` -/
  | send (msgid : Int32) (data : List UInt8)
  /-- a `write` of `tcp_client::do_write` that takes `k` bytes -/
  | write (k : ℕ)
  /-- `tcp_conn::do_read` with `n` bytes to read -/
  | read (raw : ℤ → UInt8) (n : ℕ)
  /-- `tcp_conn::do_read` when `read_data` finds the end of the stream or an error of the socket -/
  | hangUp
  /-- `tcp_conn::send_message` -/
  | reply (m : SendCall)
  /-- `tcp_conn::do_write` -/
  | flush (results : List WriteResult)
  /-- `tcp_client::do_read` with `n` bytes to read -/
  | receive (n : ℕ)

namespace Duplex

def new (rawIn rawOut : ℤ → UInt8) : Duplex :=
  ⟨TcpClient.new rawIn rawOut, [], [], TcpConn.new, none, [], [], []⟩

/-- The way from the client, and the way back. -/
def up (s : Duplex) : Channel Msg := ⟨s.asked, s.conn.dispatched⟩
def down (s : Duplex) : Channel Msg := ⟨s.answered, s.calls⟩

/-- `clean_conn`: both buffers of the connection go back to the pool. -/
def cleanConn (s : Duplex) : Duplex :=
  { s with conn := { s.conn with ibuf := none, closed := true }, obuf := none }

/-- `none` is what cannot happen, an abort, or a copy past the end of the client's buffer. -/
def step? (s : Duplex) : DuplexOp → Option Duplex
  | .send msgid data =>
    let (client, ret) := s.client.sendMessage data msgid
    if ret = 0 ∧ s.client.obuf.capacity.toInt < s.client.obuf.length.toInt + 8 + data.length then none
    else some { s with
      client := client
      asked := if ret = 0 then s.asked ++ [(msgid, data)] else s.asked }
  | .write k =>
    if k ≤ s.client.obuf.content.length then
      some { s with
        client := s.client.wrote (Int32.ofNat k)
        toConn := s.toConn ++ s.client.obuf.content.take k }
    else none
  | .read raw n =>
    if s.conn.closed = false ∧ 0 < n ∧ n ≤ s.toConn.length then
      (s.conn.doRead? raw (s.toConn.take n)).map fun conn =>
        { s with
          conn := conn
          toConn := s.toConn.drop n
          obuf := if conn.closed then none else s.obuf }
    else none
  | .hangUp => if s.conn.closed then none else some s.cleanConn
  | .reply m =>
    if s.conn.closed then none
    else (sendMessage? s.obuf m).map fun (obuf, ret, _) =>
      { s with
        obuf := obuf
        answered := if ret = 0 then s.answered ++ [(m.msgid, m.data)] else s.answered }
  | .flush results =>
    if s.conn.closed then none
    else (writeLoop? results s.obuf).map fun (obuf, bytes, failed) =>
      { s with
        obuf := if failed then none else obuf
        conn := if failed then { s.conn with ibuf := none, closed := true } else s.conn
        toClient := s.toClient ++ bytes }
  | .receive n =>
    if 0 < n ∧ n ≤ s.toClient.length ∧ n < 2 ^ 31 then
      (s.client.doRead? TcpClient.maxRounds (s.toClient.take n)).map fun (client, ds, _) =>
        { s with
          client := client
          toClient := s.toClient.drop n
          calls := s.calls ++ ds.map fun d => (d.msgid, d.payload) }
    else none

/-- The connection has room for every reply. -/
def Allows (s : Duplex) : DuplexOp → Prop
  | .reply m => (sendMessage? s.obuf m).map (fun r => r.2.1) = some 0
  | _ => True

end Duplex

section Prefixes

variable {m : Msg} {ms : List Msg} {p : List UInt8}

/-- The first bytes of a stream hold its first message, or the connection waits for more, or it has
seen the header of a message that is too long. -/
theorem connFront_stream (hsize : m.2.length ≤ maxCap) (hp : p <+: stream (m :: ms)) :
    (connFront p = .more ∧ (p.length ≤ messageHeadLen ∨
        m.2.length ≤ messageLengthLimit ∧ p.length < messageHeadLen + m.2.length)) ∨
      (connFront p = .fail ∧ messageLengthLimit < m.2.length ∧ messageHeadLen < p.length) ∨
      ∃ p', connFront p = .item m p' ∧ m.2.length ≤ messageLengthLimit ∧
        p = frame m.1 m.2 ++ p' ∧ p' <+: stream ms := by
  have hlim : messageLengthLimit = 65527 := rfl
  have hhead : messageHeadLen = 8 := rfl
  have hmax : maxCap = 4194304 := rfl
  by_cases hlong : messageLengthLimit < m.2.length
  · by_cases hshort : p.length ≤ messageHeadLen
    · refine Or.inl ⟨?_, Or.inl hshort⟩
      unfold connFront frameFront
      dsimp only
      rw [if_pos (by omega)]
    · refine Or.inr (Or.inl ⟨?_, hlong, by omega⟩)
      have htake : p.take (messageHeadLen + 1) =
          (frame m.1 m.2 ++ stream ms).take (messageHeadLen + 1) := by
        obtain ⟨later, hlater⟩ := hp
        rw [← stream_cons, ← hlater, List.take_append_of_le_length (by omega)]
      have hfail := connFront_long hlong hsize (stream ms)
      rw [← htake] at hfail
      have happ := connFront_incremental.fail_append (p.drop (messageHeadLen + 1)) hfail
      rwa [List.take_append_drop] at happ
  · obtain ⟨hlt, hpre⟩ | ⟨p', rfl, hp'⟩ := stream_cons_cases hp
    · exact Or.inl ⟨frameFront_unfinished (by omega) hpre (by omega) (by omega) hlt,
        Or.inr ⟨by omega, hlt⟩⟩
    · by_cases hlast : m.2.length + p'.length = 0
      · have hempty : m.2 = [] := List.length_eq_zero_iff.mp (by omega)
        have hend : p' = [] := List.length_eq_zero_iff.mp (by omega)
        rw [hempty, hend, List.append_nil]
        exact Or.inl ⟨connFront_empty, Or.inl (length_frame m.1 []).le⟩
      · exact Or.inr (Or.inr ⟨p', frameFront_frame (by omega) (by omega) (by omega), by omega, rfl, hp'⟩)

/-- What the connection's parser finds in the first bytes of a stream are its first messages. -/
theorem parseAll_connFront (hsize : ∀ m ∈ ms, m.2.length ≤ maxCap) (hp : p <+: stream ms) :
    (parseAll connFront p).1 <+: ms := by
  induction ms generalizing p with
  | nil =>
    obtain rfl : p = [] := List.prefix_nil.mp hp
    exact List.prefix_rfl
  | cons m ms ih =>
    obtain ⟨hmore, -⟩ | ⟨hfail, -⟩ | ⟨p', hitem, -, -, hp'⟩ := connFront_stream (hsize m (by simp)) hp
    · rw [parseAll_more hmore]
      exact List.nil_prefix
    · rw [parseAll_fail hfail]
      exact List.nil_prefix
    · rw [parseAll_item connFront_incremental hitem]
      exact (List.prefix_cons_inj m).mpr (ih (fun x hx => hsize x (by simp [hx])) hp')

theorem exists_split_cons {P : List Msg → Msg → Prop} :
    (∃ pre x post, m :: ms = pre ++ x :: post ∧ P pre x) ↔
      P [] m ∨ ∃ pre x post, ms = pre ++ x :: post ∧ P (m :: pre) x := by
  constructor
  · intro h
    obtain ⟨pre, x, post, hms, hP⟩ := h
    cases pre with
    | nil =>
      obtain ⟨rfl, -⟩ := List.cons_eq_cons.mp hms
      exact Or.inl hP
    | cons y pre =>
      obtain ⟨rfl, rfl⟩ := List.cons_eq_cons.mp hms
      exact Or.inr ⟨pre, x, post, rfl, hP⟩
  · intro h
    obtain hP | ⟨pre, x, post, rfl, hP⟩ := h
    · exact ⟨[], m, ms, rfl, hP⟩
    · exact ⟨m :: pre, x, post, rfl, hP⟩

/-- The connection meets a bad header as soon as it has one byte more than the header of a message
that is too long. -/
theorem badHeader_iff (hsize : ∀ m ∈ ms, m.2.length ≤ maxCap) (hp : p <+: stream ms) :
    BadHeader p ↔ ∃ pre m post, ms = pre ++ m :: post ∧ messageLengthLimit < m.2.length ∧
      (stream pre).length + messageHeadLen < p.length := by
  induction ms generalizing p with
  | nil =>
    obtain rfl : p = [] := List.prefix_nil.mp hp
    refine iff_of_false not_badHeader_nil ?_
    intro h
    obtain ⟨pre, m, post, hms, -⟩ := h
    simp at hms
  | cons x ms ih =>
    have hnil : (stream []).length = 0 := rfl
    rw [exists_split_cons (P := fun pre m => messageLengthLimit < m.2.length ∧
      (stream pre).length + messageHeadLen < p.length)]
    simp only [length_stream_cons, hnil, Nat.zero_add]
    obtain ⟨hmore, hshort⟩ | ⟨hfail, hlong, hseen⟩ | ⟨p', hitem, hfits, rfl, hp'⟩ :=
      connFront_stream (hsize x (by simp)) hp
    · rw [BadHeader, parseAll_more hmore]
      refine iff_of_false (Option.some_ne_none p) ?_
      intro h
      obtain hfirst | ⟨pre, m, post, -, -, hseen⟩ := h
      · omega
      · omega
    · rw [BadHeader, parseAll_fail hfail]
      exact iff_of_true rfl (Or.inl ⟨hlong, hseen⟩)
    · have hrest := ih (fun y hy => hsize y (by simp [hy])) hp'
      have hfirst : ¬ messageLengthLimit < x.2.length := not_lt.mpr hfits
      unfold BadHeader at hrest ⊢
      rw [parseAll_item connFront_incremental hitem, hrest]
      -- the rest of the bytes and of the messages both begin behind the frame of the first message
      simp only [hfirst, false_and, false_or, List.length_append, length_frame, Nat.add_assoc,
        Nat.add_lt_add_iff_left]

theorem completed_prefix (ms : List Msg) (n : ℕ) : completed ms n <+: ms := by
  induction ms generalizing n with
  | nil => exact List.prefix_rfl
  | cons m ms ih =>
    unfold completed
    split_ifs
    · exact (List.prefix_cons_inj m).mpr (ih _)
    · exact List.nil_prefix

theorem completed_stream (ms : List Msg) : completed ms (stream ms).length = ms := by
  induction ms with
  | nil => rfl
  | cons m ms ih => rw [stream_cons, completed_frame_append, ih]

/-- Where the last message has a payload, the stream does not end with an empty message. -/
theorem not_endsEmpty_length (hlast : ∀ m ∈ ms.getLast?, m.2 ≠ []) :
    ¬ EndsEmpty ms (stream ms).length := by
  intro hends
  obtain ⟨pre, m, post, rfl, hm, hlen⟩ := hends
  have hhead : messageHeadLen = 8 := rfl
  cases post with
  | nil => exact hlast m (by simp) hm
  | cons x post =>
    rw [show pre ++ m :: x :: post = (pre ++ [m]) ++ (x :: post) by simp, stream_append,
      List.length_append, length_stream_cons] at hlen
    omega

end Prefixes

theorem TcpConn.dispatched_prefix {raw : ℤ → UInt8} {c c' : TcpConn} {chunk : List UInt8}
    (h : c.doRead? raw chunk = some c') : c.dispatched <+: c'.dispatched := by
  obtain ⟨⟨ibuf, ret⟩, -, h⟩ := Option.bind_eq_some_iff.mp h
  dsimp only at h
  split_ifs at h
  · cases h
    exact List.prefix_rfl
  · obtain ⟨b, -, h⟩ := Option.bind_eq_some_iff.mp h
    obtain ⟨⟨calls, out⟩, -, h⟩ := Option.bind_eq_some_iff.mp h
    obtain ⟨⟨b', closed⟩, -, h⟩ := Option.bind_eq_some_iff.mp h
    dsimp only at h
    split_ifs at h
    · cases h
      exact List.prefix_append ..
    · cases h
      exact List.prefix_append ..

/-- `tcp_client::do_read` gets past its assertions only where there is room. -/
theorem TcpClient.doRead?_room {c : TcpClient} {n : ℕ} {chunk : List UInt8} (hb : BufOk c.ibuf)
    (hlen : chunk.length < 2 ^ 31) {r : TcpClient × List Dispatch × Int32}
    (h : c.doRead? n chunk = some r) : c.connected = true ∧ c.FreeSpace chunk := by
  unfold TcpClient.doRead? at h
  dsimp only at h
  have hsub := hb.sub_length
  have hint : (Int32.ofNat chunk.length).toInt = chunk.length := Int32.toInt_ofNat_of_lt hlen
  by_cases hconn : c.connected = false
  · rw [if_pos hconn] at h
    cases h
  · by_cases hroom : c.ibuf.capacity - c.ibuf.length < Int32.ofNat chunk.length
    · rw [if_neg hconn, if_pos hroom] at h
      cases h
    · rw [Int32.lt_iff_toInt_lt] at hroom
      refine ⟨by simpa using hconn, ?_⟩
      unfold FreeSpace
      omega

namespace Duplex

/-- Where the two sides are: the connection has read `p` and the client has read `q`. A client that
is not connected keeps its buffers. -/
structure At (s : Duplex) (p q : List UInt8) : Prop where
  sending : Framed ⟨s.client, p ++ s.toConn, s.asked⟩
  conn : s.conn.closed = false → Parsed s.conn p
  dispatched : s.conn.dispatched <+: s.asked
  replying : Replier.Replying ⟨s.obuf, s.conn.closed, q ++ s.toClient, s.answered⟩
  client : { s.client with connected := true }.Reading q
  calls : s.calls = (parseAll clientFront q).1

variable {s t : Duplex} {p q : List UInt8}

theorem At.new (rawIn rawOut : ℤ → UInt8) : At (new rawIn rawOut) [] [] where
  sending := .new rawIn rawOut
  conn _ := .new
  dispatched := List.prefix_rfl
  replying := .new
  client := .new rawIn rawOut
  calls := rfl

/-- The bytes that the client has read are the first of what was answered. -/
theorem At.client_prefix (h : At s p q) : q <+: stream s.answered :=
  (List.prefix_append q s.toClient).trans h.replying.wire

theorem At.conn_prefix (h : At s p q) : p <+: stream s.asked := by
  have hbytes : p ++ s.toConn ++ s.client.obuf.content = stream s.asked := h.sending.bytes
  rw [← hbytes, List.append_assoc]
  exact List.prefix_append ..

/-- How many bytes the connection has read. -/
def bytesRead (s : Duplex) : ℕ :=
  (stream s.asked).length - s.client.obuf.content.length - s.toConn.length

theorem At.bytesRead (h : At s p q) : s.bytesRead = p.length := by
  have hbytes : p ++ s.toConn ++ s.client.obuf.content = stream s.asked := h.sending.bytes
  rw [Duplex.bytesRead, ← hbytes, List.length_append, List.length_append]
  omega

/-- Nothing comes out of order in either direction. -/
theorem At.up_fifo (h : At s p q) : s.up.Fifo := h.dispatched

theorem At.down_fifo (h : At s p q) : s.down.Fifo := by
  change s.calls <+: s.answered
  rw [h.calls, (parseAll_clientFront h.replying.limit h.client_prefix).1]
  exact completed_prefix ..

/-- A message is refused and nothing changes, or it is taken. -/
theorem send_cases {msgid : Int32} {data : List UInt8} (hs : s.step? (.send msgid data) = some t) :
    t = s ∨ ∃ obuf, t = { s with
      client := { s.client with obuf := obuf }
      asked := s.asked ++ [(msgid, data)] } := by
  simp only [step?, Option.ite_none_left_eq_some] at hs
  obtain ⟨-, hs⟩ := hs
  obtain hrej | ⟨-, hacc⟩ := s.client.sendMessage_cases data msgid
  · left
    rw [hrej] at hs
    cases hs
    rfl
  · right
    rw [hacc] at hs
    cases hs
    exact ⟨_, rfl⟩

theorem At.send (h : At s p q) {msgid : Int32} {data : List UInt8}
    (hs : s.step? (.send msgid data) = some t) : At t p q := by
  have hsender : sendAnyStep? ⟨s.client, p ++ s.toConn, s.asked⟩ (.send msgid data) =
      some ⟨t.client, p ++ s.toConn, t.asked⟩ := by
    simp only [step?, Option.ite_none_left_eq_some] at hs
    obtain ⟨hroom, hs⟩ := hs
    cases hs
    exact if_neg hroom
  have hframed := h.sending.step hsender
  obtain rfl | ⟨obuf, rfl⟩ := send_cases hs
  · exact h
  · exact ⟨hframed, h.conn, h.dispatched.trans (List.prefix_append ..), h.replying,
      ⟨rfl, h.client.buf, h.client.head, h.client.rest⟩, h.calls⟩

/-- A message within the limit never leaves the client's buffer. -/
theorem At.send_short (h : At s p q) (msgid : Int32) {data : List UInt8}
    (hdata : data.length ≤ messageLengthLimit) : ∃ t, s.step? (.send msgid data) = some t := by
  simp only [step?]
  rw [if_neg]
  · exact ⟨_, rfl⟩
  · intro hover
    obtain hrej | ⟨hroom, -⟩ := s.client.sendMessage_cases data msgid
    · rw [hrej] at hover
      exact absurd hover.1 (show ¬ (-1 : Int32) = 0 by decide)
    · have hfits := h.sending.buf.room hdata hroom
      dsimp only at hfits
      omega

theorem At.write (h : At s p q) {k : ℕ} (hs : s.step? (.write k) = some t) : At t p q := by
  simp only [step?, Option.ite_none_right_eq_some] at hs
  obtain ⟨hk, hs⟩ := hs
  cases hs
  have hsender : sendAnyStep? ⟨s.client, p ++ s.toConn, s.asked⟩ (.write k) =
      some ⟨s.client.wrote (Int32.ofNat k), p ++ (s.toConn ++ s.client.obuf.content.take k), s.asked⟩ := by
    simp only [sendAnyStep?, sendStep?, hk, if_true, List.append_assoc]
  exact ⟨h.sending.step hsender, h.conn, h.dispatched, h.replying,
    ⟨rfl, h.client.buf, h.client.head, h.client.rest⟩, h.calls⟩

/-- A chunk is parsed behind what was read before, unless it is too large: then the connection is
closed and nothing is dispatched. -/
theorem At.read (h : At s p q) {raw : ℤ → UInt8} {n : ℕ} (hs : s.step? (.read raw n) = some t) :
    At t (p ++ s.toConn.take n) q ∧
      (t.conn.closed = true ↔ maxCap < (unread s.conn.ibuf).length + n ∨
        BadHeader (p ++ s.toConn.take n)) := by
  simp only [step?, Option.ite_none_right_eq_some] at hs
  obtain ⟨⟨hopen, hpos, hn⟩, hs⟩ := hs
  obtain ⟨conn, hread, rfl⟩ := Option.map_eq_some_iff.mp hs
  have hat := h.conn hopen
  have hne : s.toConn.take n ≠ [] := by
    rw [← List.length_pos_iff, List.length_take]
    omega
  have hsplit : p ++ s.toConn.take n ++ s.toConn.drop n = p ++ s.toConn := by
    rw [List.append_assoc, List.take_append_drop]
  have hlen : (s.toConn.take n).length = n := by rw [List.length_take, Nat.min_eq_left hn]
  have hframed : Framed ⟨s.client, p ++ s.toConn.take n ++ s.toConn.drop n, s.asked⟩ := by
    rw [hsplit]
    exact h.sending
  have hpre : p ++ s.toConn.take n <+: stream s.asked := by
    have hbytes : p ++ s.toConn ++ s.client.obuf.content = stream s.asked := h.sending.bytes
    rw [← hbytes, ← hsplit, List.append_assoc]
    exact List.prefix_append ..
  by_cases hfit : (unread s.conn.ibuf).length + (s.toConn.take n).length ≤ maxCap
  · have hfed : ∃ c', chunkStep? s.conn (raw, s.toConn.take n) = some c' ∧
        Parsed c' (p ++ s.toConn.take n) := hat.step hne fun _ => hfit
    obtain ⟨c', hstep, hc'⟩ := hfed
    rw [chunkStep?, hopen] at hstep
    cases hread.symm.trans hstep
    have hbad : conn.closed = true ↔ BadHeader (p ++ s.toConn.take n) := by
      rw [hc'.closed]
      exact Option.isNone_iff_eq_none
    refine ⟨⟨hframed, fun _ => hc', ?_, ?_, h.client, h.calls⟩, ?_⟩
    · dsimp only
      rw [hc'.calls]
      exact parseAll_connFront h.sending.size hpre
    · have hreplying := h.replying
      rw [hopen] at hreplying
      dsimp only
      cases conn.closed with
      | true => exact ⟨OutOk.none, hreplying.limit, by simp, hreplying.wire⟩
      | false => exact hreplying
    · dsimp only
      rw [hbad]
      constructor
      · exact Or.inr
      · intro hor
        refine hor.resolve_left ?_
        omega
  · obtain ⟨hcalls', hclosed⟩ := TcpConn.doRead?_overrun raw hat.ok hne (by omega) hread
    refine ⟨⟨hframed, ?_, ?_, ?_, h.client, h.calls⟩, ?_⟩
    · intro hfalse
      cases hclosed.symm.trans hfalse
    · dsimp only
      rw [hcalls']
      exact h.dispatched
    · dsimp only
      rw [hclosed]
      exact ⟨OutOk.none, h.replying.limit, by simp, h.replying.wire⟩
    · exact iff_of_true hclosed (Or.inl (by omega))

theorem At.reply (h : At s p q) {m : SendCall} (hacc : s.Allows (.reply m))
    (hs : s.step? (.reply m) = some t) : At t p q := by
  simp only [step?, Option.ite_none_left_eq_some] at hs
  obtain ⟨hopen, hs⟩ := hs
  obtain ⟨⟨obuf, ret, active⟩, hsend, rfl⟩ := Option.map_eq_some_iff.mp hs
  refine ⟨h.sending, h.conn, h.dispatched, ?_, h.client, h.calls⟩
  refine h.replying.sendMessage hacc ?_
  rw [Replier.step?, hsend]
  rfl

theorem At.flush (h : At s p q) {results : List WriteResult}
    (hs : s.step? (.flush results) = some t) : At t p q := by
  simp only [step?, Option.ite_none_left_eq_some] at hs
  obtain ⟨hopen, hs⟩ := hs
  obtain ⟨⟨obuf, bytes, failed⟩, hwrite, rfl⟩ := Option.map_eq_some_iff.mp hs
  have hstep : Replier.step? ⟨s.obuf, s.conn.closed, q ++ s.toClient, s.answered⟩ (.doWrite results) =
      some ⟨if failed then none else obuf, failed, q ++ s.toClient ++ bytes, s.answered⟩ := by
    rw [Replier.step?, if_neg hopen, hwrite]
    rfl
  have hreplying := h.replying.doWrite hstep
  rw [List.append_assoc] at hreplying
  cases failed with
  | true =>
    exact ⟨h.sending, by simp, h.dispatched, hreplying, h.client, h.calls⟩
  | false =>
    have hclosed : s.conn.closed = false := by simpa using hopen
    refine ⟨h.sending, h.conn, h.dispatched, ?_, h.client, h.calls⟩
    dsimp only
    rw [if_neg (by simp), if_neg (by simp), hclosed]
    exact hreplying

theorem At.receive (h : At s p q) {n : ℕ} (hs : s.step? (.receive n) = some t) :
    ∃ q', At t p q' := by
  simp only [step?, Option.ite_none_right_eq_some] at hs
  obtain ⟨⟨hpos, hn, hint⟩, hs⟩ := hs
  obtain ⟨⟨client, ds, ret⟩, hread, rfl⟩ := Option.map_eq_some_iff.mp hs
  have hlen : (s.toClient.take n).length = n := by rw [List.length_take, Nat.min_eq_left hn]
  have hne : s.toClient.take n ≠ [] := by
    rw [← List.length_pos_iff, hlen]
    exact hpos
  have hsplit : q ++ s.toClient.take n ++ s.toClient.drop n = q ++ s.toClient := by
    rw [List.append_assoc, List.take_append_drop]
  have hpre : q ++ s.toClient.take n <+: stream s.answered := by
    have hwire := h.replying.wire
    dsimp only at hwire
    rw [← hsplit] at hwire
    exact (List.prefix_append ..).trans hwire
  have hbuf : BufOk s.client.ibuf := h.client.buf
  obtain ⟨hconn, hfree⟩ := TcpClient.doRead?_room hbuf (hlen.trans_lt hint) hread
  have hsame : { s.client with connected := true } = s.client := by rw [← hconn]
  have hreading := h.client
  rw [hsame] at hreading
  obtain ⟨c', ds', hread', hreading', hcalls⟩ := hreading.receive hne hfree
    (parseAll_clientFront h.replying.limit hpre).2 (Nat.lt_succ_self maxCap)
  cases hread.symm.trans hread'
  refine ⟨q ++ s.toClient.take n, ?_, h.conn, h.dispatched, ?_, ?_, ?_⟩
  · have hobuf : client.obuf = s.client.obuf := by
      rw [hreading.doRead? hne hfree] at hread
      obtain ⟨r, -, hr⟩ := Option.map_eq_some_iff.mp hread
      cases hr
      rfl
    have hframed := h.sending
    refine ⟨?_, ?_, hframed.size, ?_⟩ <;> dsimp only <;> rw [hobuf]
    · exact hframed.buf
    · exact hframed.head
    · exact hframed.bytes
  · rw [hsplit]
    exact h.replying
  · exact ⟨rfl, hreading'.buf, hreading'.head, hreading'.rest⟩
  · dsimp only
    rw [hcalls, h.calls]

/-- What has been sent and what has come out only grows. -/
structure Grows (s t : Duplex) : Prop where
  asked : s.asked <+: t.asked
  dispatched : s.conn.dispatched <+: t.conn.dispatched
  answered : s.answered <+: t.answered
  calls : s.calls <+: t.calls

theorem Grows.refl (s : Duplex) : Grows s s :=
  ⟨List.prefix_rfl, List.prefix_rfl, List.prefix_rfl, List.prefix_rfl⟩

theorem Grows.trans {u : Duplex} (h : Grows s t) (h' : Grows t u) : Grows s u :=
  ⟨h.asked.trans h'.asked, h.dispatched.trans h'.dispatched, h.answered.trans h'.answered,
    h.calls.trans h'.calls⟩

theorem Grows.step {op : DuplexOp} (hs : s.step? op = some t) : Grows s t := by
  cases op with
  | send msgid data =>
    obtain rfl | ⟨obuf, rfl⟩ := send_cases hs
    · exact .refl t
    · exact ⟨List.prefix_append .., List.prefix_rfl, List.prefix_rfl, List.prefix_rfl⟩
  | write k =>
    simp only [step?, Option.ite_none_right_eq_some, Option.some.injEq] at hs
    obtain ⟨-, rfl⟩ := hs
    exact ⟨List.prefix_rfl, List.prefix_rfl, List.prefix_rfl, List.prefix_rfl⟩
  | read raw n =>
    simp only [step?, Option.ite_none_right_eq_some] at hs
    obtain ⟨conn, hread, rfl⟩ := Option.map_eq_some_iff.mp hs.2
    exact ⟨List.prefix_rfl, TcpConn.dispatched_prefix hread, List.prefix_rfl, List.prefix_rfl⟩
  | hangUp =>
    simp only [step?, Option.ite_none_left_eq_some, Option.some.injEq] at hs
    obtain ⟨-, rfl⟩ := hs
    exact ⟨List.prefix_rfl, List.prefix_rfl, List.prefix_rfl, List.prefix_rfl⟩
  | reply m =>
    simp only [step?, Option.ite_none_left_eq_some] at hs
    obtain ⟨⟨obuf, ret, active⟩, -, rfl⟩ := Option.map_eq_some_iff.mp hs.2
    refine ⟨List.prefix_rfl, List.prefix_rfl, ?_, List.prefix_rfl⟩
    dsimp only
    split_ifs
    · exact List.prefix_append ..
    · exact List.prefix_rfl
  | flush results =>
    simp only [step?, Option.ite_none_left_eq_some] at hs
    obtain ⟨⟨obuf, bytes, failed⟩, -, rfl⟩ := Option.map_eq_some_iff.mp hs.2
    refine ⟨List.prefix_rfl, ?_, List.prefix_rfl, List.prefix_rfl⟩
    dsimp only
    split_ifs <;> exact List.prefix_rfl
  | receive n =>
    simp only [step?, Option.ite_none_right_eq_some] at hs
    obtain ⟨⟨client, ds, ret⟩, -, rfl⟩ := Option.map_eq_some_iff.mp hs.2
    exact ⟨List.prefix_rfl, List.prefix_rfl, List.prefix_rfl, List.prefix_append ..⟩

theorem At.cleanConn (h : At s p q) : At s.cleanConn p q where
  sending := h.sending
  conn := by simp [Duplex.cleanConn]
  dispatched := h.dispatched
  replying := ⟨OutOk.none, h.replying.limit, by simp [Duplex.cleanConn], h.replying.wire⟩
  client := h.client
  calls := h.calls

theorem At.step (h : At s p q) {op : DuplexOp} (hop : s.Allows op) (hs : s.step? op = some t) :
    ∃ p' q', At t p' q' := by
  cases op with
  | send msgid data => exact ⟨p, q, h.send hs⟩
  | write k => exact ⟨p, q, h.write hs⟩
  | read raw n => exact ⟨_, q, (h.read hs).1⟩
  | hangUp =>
    simp only [step?, Option.ite_none_left_eq_some, Option.some.injEq] at hs
    obtain ⟨-, rfl⟩ := hs
    exact ⟨p, q, h.cleanConn⟩
  | reply m => exact ⟨p, q, h.reply hop hs⟩
  | flush results => exact ⟨p, q, h.flush hs⟩
  | receive n =>
    obtain ⟨q', hq'⟩ := h.receive hs
    exact ⟨p, q', hq'⟩

/-- A client that reads is connected, and stays so. -/
theorem receive_inv {n : ℕ} (hs : s.step? (.receive n) = some t) :
    s.client.connected = true ∧ ∃ client calls, client.connected = true ∧
      t = { s with client := client, toClient := s.toClient.drop n, calls := calls } := by
  simp only [step?, Option.ite_none_right_eq_some] at hs
  obtain ⟨⟨hpos, hn, -⟩, hs⟩ := hs
  obtain ⟨⟨client, ds, ret⟩, hread, rfl⟩ := Option.map_eq_some_iff.mp hs
  have hne : s.toClient.take n ≠ [] := by
    rw [← List.length_pos_iff, List.length_take]
    omega
  unfold TcpClient.doRead? at hread
  dsimp only at hread
  split_ifs at hread with hconn
  obtain ⟨r, -, hr⟩ := Option.map_eq_some_iff.mp hread
  cases hr
  have hconnected : s.client.connected = true := by simpa using hconn
  refine ⟨hconnected, { s.client with ibuf := r.2.adjust }, _, ?_, rfl⟩
  exact hconnected

theorem At.run (h : At s p q) {ops : List DuplexOp}
    (hok : ∀ x ∈ attempted step? s ops, x.1.Allows x.2) (hrun : run? step? s ops = some t) :
    ∃ p' q', At t p' q' := by
  refine forall_visited (P := fun s => ∃ p q, At s p q) ?_ s ops ⟨p, q, h⟩ hok t
    (mem_visited_of_run? hrun)
  intro s op t hs hop hstep
  obtain ⟨p, q, hat⟩ := hs
  exact hat.step hop hstep

/-- The client's flag does not touch its buffers. -/
theorem At.setConnected (h : At s p q) (connected : Bool) :
    At { s with client := { s.client with connected := connected } } p q where
  sending := ⟨h.sending.buf, h.sending.head, h.sending.size, h.sending.bytes⟩
  conn := h.conn
  dispatched := h.dispatched
  replying := h.replying
  client := h.client
  calls := h.calls

/-- Replies for which there is room are all taken, and nothing else changes. -/
theorem run_reply {ms : List SendCall}
    (hok : ∀ x ∈ attempted step? s (ms.map .reply), x.1.Allows x.2)
    (hrun : run? step? s (ms.map .reply) = some t) :
    ∃ obuf, t = { s with
      obuf := obuf
      answered := s.answered ++ ms.map fun m => (m.msgid, m.data) } := by
  induction ms generalizing s with
  | nil =>
    cases hrun
    exact ⟨t.obuf, by simp⟩
  | cons m ms ih =>
    obtain ⟨hnow, hlater⟩ := (forall_attempted_cons s _ _).mp hok
    obtain ⟨u, hu, hrun⟩ := Option.bind_eq_some_iff.mp hrun
    obtain ⟨obuf', rfl⟩ := ih (hlater u hu) hrun
    simp only [step?, Option.ite_none_left_eq_some] at hu
    obtain ⟨⟨obuf, ret, active⟩, hsend, rfl⟩ := Option.map_eq_some_iff.mp hu.2
    obtain rfl : ret = 0 := by simpa [Allows, hsend] using hnow
    refine ⟨obuf', ?_⟩
    dsimp only
    rw [if_pos rfl, List.append_assoc, List.singleton_append, List.map_cons]

/-- Everything that the client took for sending has been read by an open connection. -/
def UpDrained (s : Duplex) : Prop :=
  s.conn.closed = false ∧ s.toConn = [] ∧ s.client.obuf.content = []

/-- Everything that the connection took for sending has been read by the client. -/
def DownDrained (s : Duplex) : Prop :=
  s.conn.closed = false ∧ s.toClient = [] ∧ unread s.obuf = []

theorem At.up_drained (h : At s p q) (hd : s.UpDrained) (hlast : ∀ m ∈ s.asked.getLast?, m.2 ≠ []) :
    s.conn.dispatched = s.asked := by
  obtain ⟨hopen, hwire, hbuf⟩ := hd
  have hbytes : p ++ s.toConn ++ s.client.obuf.content = stream s.asked := h.sending.bytes
  rw [hwire, hbuf, List.append_nil, List.append_nil] at hbytes
  have hrest := (h.conn hopen).open_rest hopen
  have hlimit : ∀ m ∈ s.asked, m.2.length ≤ messageLengthLimit := by
    intro m hm
    by_contra hlong
    obtain ⟨pre, post, hasked⟩ := List.append_of_mem hm
    have hbad : BadHeader p := by
      refine (badHeader_iff h.sending.size h.conn_prefix).mpr ⟨pre, m, post, hasked, by omega, ?_⟩
      rw [hbytes, hasked, stream_append, List.length_append, length_stream_cons]
      omega
    rw [BadHeader, hrest] at hbad
    cases hbad
  obtain ⟨r, -, hgood, -⟩ := parse_prefix hlimit h.conn_prefix
  have hends : ¬ EndsEmpty s.asked p.length := by
    rw [hbytes]
    exact not_endsEmpty_length hlast
  rw [(h.conn hopen).calls, (hgood hends).1, hbytes, completed_stream]

theorem At.down_drained (h : At s p q) (hd : s.DownDrained) : s.calls = s.answered := by
  obtain ⟨hopen, hwire, hbuf⟩ := hd
  have hbytes : q ++ s.toClient ++ unread s.obuf = stream s.answered := h.replying.bytes hopen
  rw [hwire, hbuf, List.append_nil, List.append_nil] at hbytes
  rw [h.calls, (parseAll_clientFront h.replying.limit h.client_prefix).1, hbytes, completed_stream]

/-- Between any two moments of a run, each direction has moved like a queue of whole messages.
Once nothing is left in the buffers and on the way, the queues are empty, except that a message
without payload at the end of the way up waits for the next byte. -/
theorem duplex_queues (rawIn rawOut : ℤ → UInt8) (as bs : List DuplexOp) (s t : Duplex)
    (hs : run? step? (new rawIn rawOut) as = some s) (ht : run? step? s bs = some t)
    (hok : ∀ x ∈ attempted step? (new rawIn rawOut) (as ++ bs), x.1.Allows x.2) :
    (s.up.Steps t.up ∧ s.down.Steps t.down) ∧
      (t.UpDrained → (∀ m ∈ t.asked.getLast?, m.2 ≠ []) → t.conn.dispatched = t.asked) ∧
      (t.DownDrained → t.calls = t.answered) := by
  have hrun : run? step? (new rawIn rawOut) (as ++ bs) = some t := by
    rw [run?_append, hs]
    exact ht
  obtain ⟨p, q, hat⟩ := (At.new rawIn rawOut).run hok hrun
  have hgrows : Grows s t := by
    refine Reachable.invariant (P := Grows s) ?_ (.refl s) ⟨bs, ht⟩
    intro u op v hu hstep
    exact hu.trans (.step hstep)
  refine ⟨⟨?_, ?_⟩, hat.up_drained, hat.down_drained⟩
  · exact Channel.steps_of_prefix hgrows.asked hgrows.dispatched hat.up_fifo
  · exact Channel.steps_of_prefix hgrows.answered hgrows.calls hat.down_fifo

/-- A request and its reply, each in two pieces. -/
def exchange : List DuplexOp :=
  [.send 5 [1], .write 4, .read (fun _ => 0) 4, .write 5, .read (fun _ => 0) 5,
    .reply ⟨6, [9], fun _ => 0, fun _ => 0, by decide⟩, .flush [.wrote 3, .again], .receive 3,
    .flush [.wrote 6, .again], .receive 6]

instance (s : Duplex) (op : DuplexOp) : Decidable (s.Allows op) :=
  match op with
  | .reply _ => inferInstanceAs (Decidable (_ = some 0))
  | .send _ _ => .isTrue trivial
  | .write _ => .isTrue trivial
  | .read _ _ => .isTrue trivial
  | .hangUp => .isTrue trivial
  | .flush _ => .isTrue trivial
  | .receive _ => .isTrue trivial

theorem duplex_queues_exchange :
    ∃ t, run? step? (new (fun _ => 0) fun _ => 0) exchange = some t ∧
      t.conn.dispatched = [(5, [1])] ∧ t.calls = [(6, [9])] := by
  have hrun : (run? step? (new (fun _ => 0) fun _ => 0) exchange).map (fun t =>
      decide (t.asked = [(5, [1])] ∧ t.answered = [(6, [9])] ∧ t.conn.closed = false ∧ t.toConn = [] ∧
        t.client.obuf.content = [] ∧ t.toClient = [] ∧ unread t.obuf = [])) = some true := by
    decide +kernel
  obtain ⟨t, ht, hends⟩ := Option.map_eq_some_iff.mp hrun
  obtain ⟨hasked, hanswered, hopen, hup, hobuf, hdown, hout⟩ := of_decide_eq_true hends
  have hok : ∀ x ∈ attempted step? (new (fun _ => 0) fun _ => 0) ([] ++ exchange),
      x.1.Allows x.2 := by
    decide +kernel
  obtain ⟨-, hdispatched, hcalls⟩ := duplex_queues (fun _ => 0) (fun _ => 0) [] exchange _ t rfl ht hok
  refine ⟨t, ht, ?_, ?_⟩
  · rw [hdispatched ⟨hopen, hup, hobuf⟩ (by simp [hasked]), hasked]
  · rw [hcalls ⟨hopen, hdown, hout⟩, hanswered]

end Duplex

end Lrlb.Reactor
