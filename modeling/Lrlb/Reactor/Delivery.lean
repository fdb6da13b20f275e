import Lrlb.Reactor.TcpClient
import Lrlb.Reactor.TcpConn

/-! Messages from `tcp_client::send_message` to the router behind `tcp_conn::do_read`, over a
byte stream that arrives in chunks. -/
namespace Lrlb.Reactor
open Lib

abbrev Msg := Int32 × List UInt8

def stream (ms : List Msg) : List UInt8 := ms.flatMap fun m => frame m.1 m.2

/-- The messages that lie within the first `n` bytes of the stream. -/
def completed : List Msg → ℕ → List Msg
  | [], _ => []
  | m :: ms, n =>
    if messageHeadLen + m.2.length ≤ n then
      m :: completed ms (n - (messageHeadLen + m.2.length))
    else []

/-- How many of the first `n` bytes belong to an unfinished message. -/
def pending (ms : List Msg) (n : ℕ) : ℕ := n - (stream (completed ms n)).length

/-- A message without payload ends at byte `n`. -/
def EndsEmpty (ms : List Msg) (n : ℕ) : Prop :=
  ∃ pre m post, ms = pre ++ m :: post ∧ m.2 = [] ∧ n = (stream (pre ++ [m])).length

section Stream

variable {m : Msg} {ms : List Msg} {n : ℕ}

theorem stream_cons : stream (m :: ms) = frame m.1 m.2 ++ stream ms := rfl

theorem length_stream_cons :
    (stream (m :: ms)).length = messageHeadLen + m.2.length + (stream ms).length := by
  rw [stream_cons, List.length_append, length_frame]

theorem completed_cons_of_le (h : messageHeadLen + m.2.length ≤ n) :
    completed (m :: ms) n = m :: completed ms (n - (messageHeadLen + m.2.length)) := if_pos h

theorem completed_cons_of_lt (h : n < messageHeadLen + m.2.length) :
    completed (m :: ms) n = [] := if_neg (by omega)

theorem pending_cons_of_le (h : messageHeadLen + m.2.length ≤ n) :
    pending (m :: ms) n = pending ms (n - (messageHeadLen + m.2.length)) := by
  rw [pending, pending, completed_cons_of_le h, length_stream_cons]
  omega

theorem pending_cons_of_lt (h : n < messageHeadLen + m.2.length) : pending (m :: ms) n = n := by
  rw [pending, completed_cons_of_lt h]
  rfl

theorem length_completed_le (ms : List Msg) (n : ℕ) : (stream (completed ms n)).length ≤ n := by
  induction ms generalizing n with
  | nil => simp [completed, stream]
  | cons m ms ih =>
    rcases Nat.lt_or_ge n (messageHeadLen + m.2.length) with h | h
    · simp [completed_cons_of_lt h, stream]
    · have := ih (n - (messageHeadLen + m.2.length))
      rw [completed_cons_of_le h, length_stream_cons]
      omega

/-- An unfinished message is shorter than the longest message. -/
theorem pending_lt (hms : ∀ m ∈ ms, m.2.length ≤ messageLengthLimit)
    (hn : n ≤ (stream ms).length) : pending ms n < messageHeadLen + messageLengthLimit + 1 := by
  induction ms generalizing n with
  | nil =>
    simp only [stream, List.flatMap_nil, List.length_nil] at hn
    simp only [pending]
    omega
  | cons m ms ih =>
    have hm := hms m (by simp)
    rw [length_stream_cons] at hn
    rcases Nat.lt_or_ge n (messageHeadLen + m.2.length) with h | h
    · rw [pending_cons_of_lt h]
      omega
    · rw [pending_cons_of_le h]
      exact ih (fun x hx => hms x (by simp [hx])) (by omega)

theorem endsEmpty_cons_iff :
    EndsEmpty (m :: ms) n ↔ (m.2 = [] ∧ n = messageHeadLen) ∨
      (messageHeadLen + m.2.length ≤ n ∧ EndsEmpty ms (n - (messageHeadLen + m.2.length))) := by
  constructor
  · rintro ⟨pre, x, post, hms, hx, rfl⟩
    cases pre with
    | nil =>
      obtain ⟨rfl, -⟩ := List.cons_eq_cons.mp hms
      exact Or.inl ⟨hx, by rw [List.nil_append, length_stream_cons, hx]; rfl⟩
    | cons y pre =>
      obtain ⟨rfl, rfl⟩ := List.cons_eq_cons.mp hms
      refine Or.inr ⟨?_, pre, x, post, rfl, hx, ?_⟩ <;>
        rw [List.cons_append, length_stream_cons] <;> omega
  · rintro (⟨hm, rfl⟩ | ⟨hle, pre, x, post, rfl, hx, hn⟩)
    · exact ⟨[], m, ms, rfl, hm, by rw [List.nil_append, length_stream_cons, hm]; rfl⟩
    · refine ⟨m :: pre, x, post, rfl, hx, ?_⟩
      rw [List.cons_append, length_stream_cons]
      omega

theorem not_endsEmpty_of_lt (h : n < messageHeadLen + m.2.length) : ¬ EndsEmpty (m :: ms) n := by
  rw [endsEmpty_cons_iff]
  rintro (⟨hm, rfl⟩ | ⟨hle, -⟩)
  · rw [hm, List.length_nil] at h
    omega
  · omega

/-- Behind a whole message, the ends of the empty messages are those of the messages after it,
unless it is empty and the last to arrive. -/
theorem endsEmpty_frame_append {p : List UInt8} (h : 0 < m.2.length + p.length) :
    EndsEmpty (m :: ms) (frame m.1 m.2 ++ p).length ↔ EndsEmpty ms p.length := by
  have hlen : (frame m.1 m.2 ++ p).length = messageHeadLen + m.2.length + p.length := by
    rw [List.length_append, length_frame]
  rw [endsEmpty_cons_iff, hlen, Nat.add_sub_cancel_left]
  constructor
  · rintro (⟨-, h'⟩ | ⟨-, hends⟩)
    · omega
    · exact hends
  · intro hends
    exact Or.inr ⟨Nat.le_add_right _ _, hends⟩

/-- The first bytes of a message that is not there as a whole. -/
theorem frameFront_unfinished {least : ℕ} {bound : ℤ} (hleast : messageHeadLen ≤ least)
    {p : List UInt8} (hp : p <+: frame m.1 m.2) (hbound : (m.2.length : ℤ) ≤ bound)
    (hm : m.2.length < 2 ^ 31) (hlt : p.length < messageHeadLen + m.2.length) :
    frameFront least bound p = .more := by
  unfold frameFront
  dsimp only
  by_cases hshort : p.length < least
  · rw [if_pos hshort]
  · obtain ⟨q, hq⟩ := hp
    have hhead : MsgHead.ofBytes p = ⟨m.1, Int32.ofNat m.2.length⟩ := by
      rw [← ofBytes_append (by omega) q, hq, frame, MsgHead.ofBytes_bytes]
    have hlen : (Int32.ofNat m.2.length).toInt = m.2.length :=
      Int32.toInt_ofNat_of_lt (by omega)
    rw [if_neg hshort, hhead]
    dsimp only
    rw [hlen, if_neg (by omega), if_pos (by omega)]

/-- A message without payload is not seen before a byte follows it. -/
theorem connFront_empty {msgid : Int32} : connFront (frame msgid []) = .more := by
  have hlen : (frame msgid []).length = messageHeadLen := length_frame msgid []
  unfold connFront frameFront
  dsimp only
  rw [if_pos (by omega)]

/-- The first bytes of a stream stop inside its first message or behind it. -/
theorem stream_cons_cases {p : List UInt8} (hp : p <+: stream (m :: ms)) :
    (p.length < messageHeadLen + m.2.length ∧ p <+: frame m.1 m.2) ∨
      ∃ p', p = frame m.1 m.2 ++ p' ∧ p' <+: stream ms := by
  rw [stream_cons] at hp
  rcases Nat.lt_or_ge p.length (messageHeadLen + m.2.length) with hlt | hge
  · refine Or.inl ⟨hlt, List.prefix_of_prefix_length_le hp (List.prefix_append _ _) ?_⟩
    rw [length_frame]
    omega
  · obtain ⟨p', rfl⟩ : frame m.1 m.2 <+: p :=
      List.prefix_of_prefix_length_le (List.prefix_append _ _) hp (by rw [length_frame]; exact hge)
    exact Or.inr ⟨p', rfl, (List.prefix_append_right_inj _).mp hp⟩

/-- Behind a whole message, what is completed are the message and what is completed after it. -/
theorem completed_frame_append (p : List UInt8) :
    completed (m :: ms) (frame m.1 m.2 ++ p).length = m :: completed ms p.length := by
  have hlen : (frame m.1 m.2 ++ p).length = messageHeadLen + m.2.length + p.length := by
    rw [List.length_append, length_frame]
  rw [hlen, completed_cons_of_le (by omega), Nat.add_sub_cancel_left]

theorem pending_frame_append (p : List UInt8) :
    pending (m :: ms) (frame m.1 m.2 ++ p).length = pending ms p.length := by
  rw [pending, pending, completed_frame_append, length_stream_cons, List.length_append, length_frame,
    Nat.add_sub_add_left]

/-- What the receiver's parser finds in the first bytes of a stream: the completed messages,
unless the last of them is empty and ends there. -/
theorem parse_prefix (hms : ∀ m ∈ ms, m.2.length ≤ messageLengthLimit) {p : List UInt8}
    (hp : p <+: stream ms) :
    ∃ r, (parseAll connFront p).2 = some r ∧
      (¬ EndsEmpty ms p.length →
        (parseAll connFront p).1 = completed ms p.length ∧ r.length = pending ms p.length) ∧
      (EndsEmpty ms p.length → (parseAll connFront p).1 ≠ completed ms p.length) := by
  induction ms generalizing p with
  | nil =>
    obtain rfl : p = [] := List.prefix_nil.mp hp
    exact ⟨[], rfl, fun _ => ⟨rfl, rfl⟩, by rintro ⟨pre, m, post, h, -⟩; simp at h⟩
  | cons m ms ih =>
    have hm := hms m (by simp)
    have hlim : messageLengthLimit = 65527 := rfl
    obtain ⟨hlt, hpre⟩ | ⟨p', rfl, hp'⟩ := stream_cons_cases hp
    · -- the first message has not arrived as a whole
      rw [parseAll_more (frameFront_unfinished (by omega) hpre (by omega) (by omega) hlt),
        completed_cons_of_lt hlt, pending_cons_of_lt hlt]
      exact ⟨p, rfl, fun _ => ⟨rfl, rfl⟩, fun h => absurd h (not_endsEmpty_of_lt hlt)⟩
    · rw [completed_frame_append, pending_frame_append]
      by_cases hlast : m.2 = [] ∧ p' = []
      · -- it is empty and nothing follows it yet
        obtain ⟨hempty, rfl⟩ := hlast
        rw [List.append_nil]
        have hmore : connFront (frame m.1 m.2) = .more := hempty ▸ connFront_empty
        have hends : EndsEmpty (m :: ms) (frame m.1 m.2).length :=
          endsEmpty_cons_iff.mpr (Or.inl ⟨hempty, by rw [length_frame, hempty]; rfl⟩)
        rw [parseAll_more hmore]
        exact ⟨_, rfl, fun h => absurd hends h, fun _ => (List.cons_ne_nil _ _).symm⟩
      · -- it is taken, and the rest is the stream of the other messages
        have hpos : 0 < m.2.length + p'.length := by
          rcases not_and_or.mp hlast with h | h <;>
            have := List.length_pos_of_ne_nil h <;> omega
        have hitem : connFront (frame m.1 m.2 ++ p') = .item (m.1, m.2) p' :=
          frameFront_frame (by omega) (by omega) (by omega)
        obtain ⟨r, hr, hgood, hbad⟩ := ih (fun x hx => hms x (by simp [hx])) hp'
        rw [parseAll_item connFront_incremental hitem, endsEmpty_frame_append hpos]
        exact ⟨r, hr, fun h => ⟨by rw [(hgood h).1], (hgood h).2⟩, fun h => by simpa using hbad h⟩

end Stream

/-- A chunk that arrives, with the old contents of the memory that the reader may allocate. -/
abbrev Chunk := (ℤ → UInt8) × List UInt8

def received (cs : List Chunk) : List UInt8 := cs.flatMap Prod.snd

/-- Reading a chunk on a connection that is still open. -/
def connStep? (c : TcpConn) (ch : Chunk) : Option TcpConn :=
  if c.closed then none else c.doRead? ch.1 ch.2

/-- After each chunk the router has been called with exactly the messages that have arrived. -/
def Delivers (ms : List Msg) (c : TcpConn) (p : List UInt8) (chunks : List Chunk) : Prop :=
  ∀ cs, cs <+: chunks →
    ∃ c', run? connStep? c cs = some c' ∧ c'.dispatched = completed ms (p ++ received cs).length

/-- Each chunk fits the largest buffer together with the unfinished message before it, and none
ends with a message without payload. -/
def ChunksOk (ms : List Msg) (p : List UInt8) (chunks : List Chunk) : Prop :=
  ∀ cs ch, cs ++ [ch] <+: chunks →
    pending ms (p ++ received cs).length + ch.2.length ≤ maxCap ∧
      ¬ EndsEmpty ms (p ++ received (cs ++ [ch])).length

/-- A connection that has read `p` and keeps what its parser leaves of it. -/
structure ConnAt (c : TcpConn) (p : List UInt8) : Prop where
  ok : c.InputOk
  opened : c.closed = false
  calls : c.dispatched = (parseAll connFront p).1
  rest : (parseAll connFront p).2 = some (unread c.ibuf)

theorem ConnAt.new : ConnAt TcpConn.new [] := ⟨nofun, rfl, rfl, rfl⟩

section Receive

variable {c : TcpConn} {p : List UInt8} {ms : List Msg} {ch : Chunk}

theorem ConnAt.step (h : ConnAt c p) (hne : ch.2 ≠ [])
    (hfit : (unread c.ibuf).length + ch.2.length ≤ maxCap) {r : List UInt8}
    (hr : (parseAll connFront (p ++ ch.2)).2 = some r) :
    ∃ c', connStep? c ch = some c' ∧ ConnAt c' (p ++ ch.2) := by
  obtain ⟨c', hread, hok, hcalls, hclosed, hrest⟩ := TcpConn.doRead?_fits ch.1 h.ok hne hfit
  have happ := parseAll_append connFront_incremental h.rest ch.2
  have hr' : (parseAll connFront (unread c.ibuf ++ ch.2)).2 = some r := by
    rw [happ] at hr
    exact hr
  refine ⟨c', ?_, hok, ?_, ?_, ?_⟩
  · rw [connStep?, h.opened]
    exact hread
  · rw [hclosed, hr']
    rfl
  · rw [hcalls, h.calls, happ]
  · rw [hr, hrest r hr']

/-- One chunk: it is delivered in full exactly when the two conditions hold. -/
theorem ConnAt.delivers_one (h : ConnAt c p) (hms : ∀ m ∈ ms, m.2.length ≤ messageLengthLimit)
    (hp : p ++ ch.2 <+: stream ms) (hne : ch.2 ≠ []) (hnow : ¬ EndsEmpty ms p.length) {c' : TcpConn}
    (hstep : connStep? c ch = some c')
    (hcalls : c'.dispatched = completed ms (p ++ ch.2).length) :
    pending ms p.length + ch.2.length ≤ maxCap ∧ ¬ EndsEmpty ms (p ++ ch.2).length := by
  obtain ⟨r, hr, hgood, -⟩ := parse_prefix hms ((List.prefix_append _ _).trans hp)
  obtain ⟨hdone, hlen⟩ := hgood hnow
  have hunread : (unread c.ibuf).length = pending ms p.length := by
    rw [← hlen, ← Option.some.inj (hr.symm.trans h.rest)]
  have hfit : pending ms p.length + ch.2.length ≤ maxCap := by
    by_contra hbig
    have hsame : c'.dispatched = c.dispatched := by
      rw [connStep?, h.opened] at hstep
      exact (TcpConn.doRead?_overrun ch.1 h.ok hne (by omega) hstep).1
    rw [hcalls, h.calls, hdone] at hsame
    have hlt := pending_lt hms hp.length_le
    have hle := length_completed_le ms p.length
    rw [pending, hsame, List.length_append] at hlt
    rw [pending] at hbig
    have hlim : messageHeadLen + messageLengthLimit = 65535 := rfl
    have hmax : maxCap = 4194304 := rfl
    omega
  refine ⟨hfit, fun hends => ?_⟩
  obtain ⟨r', hr', -, hbad⟩ := parse_prefix hms hp
  obtain ⟨c'', hstep', hc''⟩ := h.step hne (by omega) hr'
  cases Option.some.inj (hstep.symm.trans hstep')
  exact hbad hends (hc''.calls.symm.trans hcalls)

theorem delivers_cons {c' : TcpConn} {chunks : List Chunk} (hstep : connStep? c ch = some c') :
    Delivers ms c p (ch :: chunks) ↔
      c.dispatched = completed ms p.length ∧ Delivers ms c' (p ++ ch.2) chunks := by
  constructor
  · intro h
    refine ⟨?_, fun cs hcs => ?_⟩
    · obtain ⟨c₀, hrun, hcalls⟩ := h [] (List.nil_prefix)
      cases hrun
      simpa [received] using hcalls
    · obtain ⟨c₁, hrun, hcalls⟩ := h (ch :: cs) (by simpa using hcs)
      exact ⟨c₁, by simpa [run?, hstep] using hrun, by simpa [received] using hcalls⟩
  · rintro ⟨hnow, h⟩ cs hcs
    rcases List.prefix_cons_iff.mp hcs with rfl | ⟨cs', rfl, hcs'⟩
    · exact ⟨c, rfl, by simpa [received] using hnow⟩
    · obtain ⟨c₁, hrun, hcalls⟩ := h cs' hcs'
      exact ⟨c₁, by simpa [run?, hstep] using hrun, by simpa [received] using hcalls⟩

theorem chunksOk_cons {chunks : List Chunk} :
    ChunksOk ms p (ch :: chunks) ↔
      (pending ms p.length + ch.2.length ≤ maxCap ∧ ¬ EndsEmpty ms (p ++ ch.2).length) ∧
        ChunksOk ms (p ++ ch.2) chunks := by
  constructor
  · intro h
    refine ⟨by simpa [received] using h [] ch (by simp), fun cs x hcs => ?_⟩
    simpa [received] using h (ch :: cs) x (by simpa using hcs)
  · rintro ⟨hnow, h⟩ cs x hcs
    cases cs with
    | nil =>
      obtain rfl : x = ch := by simpa using hcs
      simpa [received] using hnow
    | cons y cs =>
      obtain ⟨rfl, hcs'⟩ : y = ch ∧ cs ++ [x] <+: chunks := by simpa using hcs
      simpa [received] using h cs x hcs'

theorem ConnAt.delivers_iff (h : ConnAt c p) (hms : ∀ m ∈ ms, m.2.length ≤ messageLengthLimit)
    (chunks : List Chunk) (hne : ∀ ch ∈ chunks, ch.2 ≠ []) (hp : p ++ received chunks <+: stream ms)
    (hnow : ¬ EndsEmpty ms p.length) : Delivers ms c p chunks ↔ ChunksOk ms p chunks := by
  induction chunks generalizing c p with
  | nil =>
    obtain ⟨r, -, hgood, -⟩ := parse_prefix hms ((List.prefix_append _ _).trans hp)
    refine iff_of_true (fun cs hcs => ?_) (fun cs ch hcs => by simp at hcs)
    obtain rfl := List.prefix_nil.mp hcs
    exact ⟨c, rfl, by rw [h.calls, (hgood hnow).1]; simp [received]⟩
  | cons ch chunks ih =>
    have hcons : received (ch :: chunks) = ch.2 ++ received chunks := rfl
    rw [hcons, ← List.append_assoc] at hp
    have hp' := (List.prefix_append _ _).trans hp
    obtain ⟨r, hr, hgood, -⟩ := parse_prefix hms ((List.prefix_append _ _).trans hp')
    obtain ⟨hdone, hlen⟩ := hgood hnow
    have hchunk := hne ch (by simp)
    by_cases hfirst : pending ms p.length + ch.2.length ≤ maxCap ∧
        ¬ EndsEmpty ms (p ++ ch.2).length
    · obtain ⟨r', hr', -⟩ := parse_prefix hms hp'
      have hunread : (unread c.ibuf).length = pending ms p.length := by
        rw [← hlen, ← Option.some.inj (hr.symm.trans h.rest)]
      obtain ⟨c', hstep, hc'⟩ := h.step hchunk (by omega) hr'
      rw [delivers_cons hstep, chunksOk_cons, h.calls, hdone,
        ih hc' (fun x hx => hne x (by simp [hx])) hp hfirst.2]
      exact ⟨fun hd => ⟨hfirst, hd.2⟩, fun hd => ⟨rfl, hd.2⟩⟩
    · rw [chunksOk_cons]
      refine iff_of_false (fun hdel => ?_) (fun hok => hfirst hok.1)
      obtain ⟨c₁, hrun, hcalls⟩ := hdel [ch] (by simp)
      have hstep : connStep? c ch = some c₁ := by
        obtain ⟨c₂, hc₂, hrun⟩ := Option.bind_eq_some_iff.mp hrun
        cases hrun
        exact hc₂
      exact hfirst (h.delivers_one hms hp' hchunk hnow hstep (by simpa [received] using hcalls))

end Receive

/-- What the sending side does: a call of `send_message`, or a `write` that takes `k` bytes. -/
inductive SendOp where
  | send (msgid : Int32) (data : List UInt8)
  | write (k : ℕ)

/-- A client with the bytes it has written to the socket and the messages it has accepted. -/
structure Sender where
  client : TcpClient
  wire : List UInt8
  accepted : List Msg

def sendStep? (s : Sender) : SendOp → Option Sender
  | .send msgid data =>
    let (client, ret) := s.client.sendMessage data msgid
    some ⟨client, s.wire, if ret = 0 then s.accepted ++ [(msgid, data)] else s.accepted⟩
  | .write k =>
    if k ≤ s.client.obuf.content.length then
      some ⟨s.client.wrote (Int32.ofNat k), s.wire ++ s.client.obuf.content.take k, s.accepted⟩
    else none

def Sender.new (rawIn rawOut : ℤ → UInt8) : Sender := ⟨TcpClient.new rawIn rawOut, [], []⟩

/-- The bytes on the wire and those still buffered are the accepted messages. -/
structure Sending (s : Sender) : Prop where
  buf : BufOk s.client.obuf
  head : s.client.obuf.head = 0
  limit : ∀ m ∈ s.accepted, m.2.length ≤ messageLengthLimit
  bytes : s.wire ++ s.client.obuf.content = stream s.accepted

theorem Sending.new (rawIn rawOut : ℤ → UInt8) : Sending (Sender.new rawIn rawOut) :=
  ⟨⟨IoBuf.Valid.new (by decide) rawOut, le_rfl⟩, rfl, nofun, rfl⟩

section Send

variable {s s' : Sender}

/-- A message for which there is room is appended to the output buffer. -/
theorem BufOk.write_frame {b : IoBuf} (hb : BufOk b) (hh : b.head = 0) (msgid : Int32)
    {data : List UInt8} (hroom : b.length.toInt + 8 + data.length ≤ b.capacity.toInt) :
    BufOk ((b.write (MsgHead.bytes ⟨msgid, Int32.ofNat data.length⟩)).write data) ∧
      ((b.write (MsgHead.bytes ⟨msgid, Int32.ofNat data.length⟩)).write data).content =
        b.content ++ frame msgid data := by
  set head := MsgHead.bytes ⟨msgid, Int32.ofNat data.length⟩
  have hhead : head.length = 8 := MsgHead.length_bytes _
  have hfit : b.length.toInt + head.length ≤ b.capacity.toInt := by omega
  have hv := hb.valid.write hh hfit
  have hl := hb.valid.write_length hfit
  have hfit' : (b.write head).length.toInt + data.length ≤ (b.write head).capacity.toInt := by
    change _ ≤ b.capacity.toInt
    omega
  refine ⟨⟨hv.write hh hfit', hb.cap⟩, ?_⟩
  rw [hv.write_content hh hfit', hb.valid.write_content hh hfit, List.append_assoc]
  rfl

/-- The test of `send_message` leaves room for a message whose length is no overflow. -/
theorem BufOk.room {b : IoBuf} (hb : BufOk b) {data : List UInt8}
    (hdata : data.length ≤ messageLengthLimit)
    (hroom : ¬ b.capacity - b.length < Int32.ofNat data.length + 8) :
    b.length.toInt + 8 + data.length ≤ b.capacity.toInt := by
  have hlim : messageLengthLimit = 65527 := rfl
  have h8 : (8 : Int32).toInt = 8 := rfl
  have hlen : (Int32.ofNat data.length).toInt = data.length :=
    Int32.toInt_ofNat_of_lt (by omega)
  have hsub := hb.sub_length
  have hadd : (Int32.ofNat data.length + 8).toInt = data.length + 8 := by
    rw [toInt_add_of_range] <;> omega
  rw [Int32.lt_iff_toInt_lt] at hroom
  omega

/-- A send that is accepted with room for it appends a message to the wire and the buffer. -/
theorem sendStep?_send {msgid : Int32} {data : List UInt8} (hb : BufOk s.client.obuf)
    (hh : s.client.obuf.head = 0)
    (hroom : (s.client.sendMessage data msgid).2 = 0 →
      s.client.obuf.length.toInt + 8 + data.length ≤ s.client.obuf.capacity.toInt)
    (hs : sendStep? s (.send msgid data) = some s') :
    s' = s ∨ data.length ≤ maxCap ∧ BufOk s'.client.obuf ∧ s'.client.obuf.head = 0 ∧
      s'.accepted = s.accepted ++ [(msgid, data)] ∧
      s'.wire ++ s'.client.obuf.content =
        s.wire ++ s.client.obuf.content ++ stream [(msgid, data)] := by
  unfold sendStep? at hs
  dsimp only at hs
  rcases s.client.sendMessage_cases data msgid with hrej | ⟨-, hacc⟩
  · rw [hrej] at hs
    cases hs
    exact Or.inl rfl
  · rw [hacc] at hs hroom
    cases hs
    have hfit := hroom rfl
    have hcap := hb.cap; have := hb.valid.length
    obtain ⟨hok, hcon⟩ := hb.write_frame hh msgid hfit
    refine Or.inr ⟨by omega, hok, hh, rfl, ?_⟩
    dsimp only
    rw [hcon, ← List.append_assoc]
    simp [stream]

/-- A write moves bytes from the buffer to the wire. -/
theorem sendStep?_write {k : ℕ} (hb : BufOk s.client.obuf)
    (hs : sendStep? s (.write k) = some s') :
    BufOk s'.client.obuf ∧ s'.client.obuf.head = 0 ∧ s'.accepted = s.accepted ∧
      s'.wire ++ s'.client.obuf.content = s.wire ++ s.client.obuf.content := by
  simp only [sendStep?] at hs
  split_ifs at hs with hk
  cases hs
  obtain ⟨hok, hcon⟩ := hb.take_off hk
  refine ⟨hok, by simp [TcpClient.wrote], rfl, ?_⟩
  rw [TcpClient.wrote]
  dsimp only
  rw [hcon, List.append_assoc, List.take_append_drop]

theorem stream_append (ms ms' : List Msg) : stream (ms ++ ms') = stream ms ++ stream ms' :=
  List.flatMap_append

theorem Sending.send (h : Sending s) (msgid : Int32) {data : List UInt8}
    (hdata : data.length ≤ messageLengthLimit)
    (hs : sendStep? s (.send msgid data) = some s') : Sending s' := by
  have hroom (hret : (s.client.sendMessage data msgid).2 = 0) :
      s.client.obuf.length.toInt + 8 + data.length ≤ s.client.obuf.capacity.toInt := by
    rcases s.client.sendMessage_cases data msgid with hrej | ⟨hfit, -⟩
    · rw [hrej] at hret
      exact absurd hret (show ¬ (-1 : Int32) = 0 by decide)
    · exact h.buf.room hdata hfit
  obtain rfl | ⟨-, hok, hh, hacc, hbytes⟩ := sendStep?_send h.buf h.head hroom hs
  · exact h
  · refine ⟨hok, hh, ?_, ?_⟩
    · intro m hm
      rw [hacc] at hm
      rcases List.mem_append.mp hm with hm | hm
      · exact h.limit m hm
      · rw [List.mem_singleton.mp hm]
        exact hdata
    · rw [hbytes, h.bytes, hacc, stream_append]

theorem Sending.write (h : Sending s) {k : ℕ} (hs : sendStep? s (.write k) = some s') :
    Sending s' := by
  obtain ⟨hok, hh, hacc, hbytes⟩ := sendStep?_write h.buf hs
  exact ⟨hok, hh, hacc ▸ h.limit, by rw [hbytes, h.bytes, hacc]⟩

/-- Every message that a run of the sender offers is at most as long as the limit. -/
def WithinLimit (ops : List SendOp) : Prop :=
  ∀ msgid data, SendOp.send msgid data ∈ ops → data.length ≤ messageLengthLimit

theorem Sending.run (h : Sending s) {ops : List SendOp} (hops : WithinLimit ops)
    (hrun : run? sendStep? s ops = some s') : Sending s' := by
  induction ops generalizing s with
  | nil => cases hrun; exact h
  | cons op ops ih =>
    obtain ⟨t, ht, hrun⟩ := Option.bind_eq_some_iff.mp hrun
    refine ih ?_ (fun msgid data hmem => hops msgid data (by simp [hmem])) hrun
    cases op with
    | send msgid data => exact h.send msgid (hops msgid data (by simp)) ht
    | write k => exact h.write ht

end Send

/-- Over any run of the sender and any chunks of what it has written, each read delivers exactly
the messages that have arrived if and only if each chunk fits the largest buffer with the
unfinished message before it and none ends with a message without payload. -/
theorem delivery_iff (rawIn rawOut : ℤ → UInt8) {ops : List SendOp} {s : Sender}
    (hops : WithinLimit ops) (hrun : run? sendStep? (Sender.new rawIn rawOut) ops = some s)
    (chunks : List Chunk) (hne : ∀ ch ∈ chunks, ch.2 ≠ []) (hchunks : received chunks <+: s.wire) :
    Delivers s.accepted TcpConn.new [] chunks ↔ ChunksOk s.accepted [] chunks := by
  have hsend := (Sending.new rawIn rawOut).run hops hrun
  have hp : [] ++ received chunks <+: stream s.accepted := by
    rw [← hsend.bytes]
    exact hchunks.trans (List.prefix_append _ _)
  refine ConnAt.new.delivers_iff hsend.limit chunks hne hp ?_
  rintro ⟨pre, m, post, -, -, hn⟩
  have hhead : messageHeadLen = 8 := rfl
  rw [stream, List.flatMap_append, List.length_append, List.flatMap_singleton, length_frame,
    List.length_nil] at hn
  omega

/-- One message of one byte, written in one piece and received in two. -/
theorem delivery_two_chunks :
    ∃ s, run? sendStep? (Sender.new (fun _ => 0) (fun _ => 0)) [.send 5 [1], .write 9] = some s ∧
      s.accepted = [(5, [1])] ∧
      Delivers s.accepted TcpConn.new []
        [(fun _ => 0, [5, 0, 0, 0, 1, 0]), (fun _ => 0, [0, 0, 1])] := by
  obtain ⟨s, hrun, hacc, hwire⟩ : ∃ s,
      run? sendStep? (Sender.new (fun _ => 0) (fun _ => 0)) [.send 5 [1], .write 9] = some s ∧
        s.accepted = [(5, [1])] ∧ s.wire = frame 5 [1] := ⟨_, rfl, by decide, by decide +kernel⟩
  have hops : WithinLimit [.send 5 [1], .write 9] := by
    intro msgid data hmem
    obtain ⟨-, rfl⟩ : msgid = 5 ∧ data = [1] := by simpa using hmem
    decide
  refine ⟨s, hrun, hacc, (delivery_iff _ _ hops hrun _ (by simp) ?_).mpr ?_⟩
  · rw [hwire]
    decide
  · have hends : ∀ n, ¬ EndsEmpty [(5, [1])] n := by
      intro n
      rw [endsEmpty_cons_iff]
      rintro (⟨h, -⟩ | ⟨-, pre, m, post, h, -⟩) <;> simp at h
    rw [hacc, chunksOk_cons, chunksOk_cons]
    refine ⟨⟨by decide, hends _⟩, ⟨by decide, hends _⟩, fun cs ch hcs => by simp at hcs⟩

/-- A message without payload that arrives whole is not dispatched. -/
theorem empty_message_not_delivered :
    ∃ s, run? sendStep? (Sender.new (fun _ => 0) (fun _ => 0)) [.send 7 [], .write 8] = some s ∧
      s.accepted = [(7, [])] ∧ s.wire = frame 7 [] ∧
      ¬ Delivers s.accepted TcpConn.new [] [(fun _ => 0, frame 7 [])] := by
  refine ⟨_, rfl, by decide, by decide +kernel, fun h => ?_⟩
  obtain ⟨c, hrun, hcalls⟩ := h [(fun _ => 0, frame 7 [])] (List.prefix_refl _)
  have hnone : (run? connStep? TcpConn.new [(fun _ => 0, frame 7 [])]).map
      (fun c => c.dispatched) = some [] := by decide +kernel
  rw [hrun, Option.map_some, hcalls] at hnone
  revert hnone
  decide +kernel

end Lrlb.Reactor
