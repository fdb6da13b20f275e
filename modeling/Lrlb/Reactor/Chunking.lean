import Lrlb.Reactor.Delivery

/-! What a connection makes of a byte stream, whoever sends it and however it is cut into
chunks. -/
namespace Lrlb.Reactor
open Lib

/-- Reading a chunk; after it has been closed a connection reads nothing more. -/
def chunkStep? (c : TcpConn) (ch : Chunk) : Option TcpConn :=
  if c.closed then some c else c.doRead? ch.1 ch.2

/-- On an open connection the chunk and the unread bytes are at most 4 MB. -/
def ChunkFits (c : TcpConn) (ch : Chunk) : Prop :=
  c.closed = false → (unread c.ibuf).length + ch.2.length ≤ maxCap

instance (c : TcpConn) (ch : Chunk) : Decidable (ChunkFits c ch) :=
  inferInstanceAs (Decidable (_ → _))

/-- The framing of the stream comes to a header with a length outside 0 to 65527. -/
def BadHeader (stream : List UInt8) : Prop := (parseAll connFront stream).2 = none

/-- A connection that has been given `p`: open with the parser's rest unread, or closed at a bad
header. -/
structure Parsed (c : TcpConn) (p : List UInt8) : Prop where
  ok : c.InputOk
  calls : c.dispatched = (parseAll connFront p).1
  closed : c.closed = (parseAll connFront p).2.isNone
  rest : ∀ r, (parseAll connFront p).2 = some r → unread c.ibuf = r

theorem Parsed.new : Parsed TcpConn.new [] := ⟨nofun, rfl, rfl, by rintro r ⟨⟩; rfl⟩

section Read

variable {c : TcpConn} {p : List UInt8} {ch : Chunk}

theorem Parsed.open_rest (h : Parsed c p) (ho : c.closed = false) :
    (parseAll connFront p).2 = some (unread c.ibuf) := by
  have hc := h.closed
  rw [ho] at hc
  cases hr : (parseAll connFront p).2 with
  | none => simp [hr] at hc
  | some r => rw [h.rest r hr]

theorem Parsed.fail (h : Parsed c p) (hclosed : c.closed = true) : BadHeader p := by
  have hc := h.closed
  rw [hclosed] at hc
  exact Option.isNone_iff_eq_none.mp hc.symm

/-- What one read does to the parse of the stream. -/
theorem Parsed.step (h : Parsed c p) (hne : ch.2 ≠ []) (hfit : ChunkFits c ch) :
    ∃ c', chunkStep? c ch = some c' ∧ Parsed c' (p ++ ch.2) := by
  unfold chunkStep?
  cases ho : c.closed with
  | true =>
    have hsame := parseAll_append_of_fail connFront_incremental (h.fail ho) ch.2
    exact ⟨c, rfl, h.ok, by rw [hsame, h.calls], by rw [hsame, h.closed], by rw [hsame]; exact h.rest⟩
  | false =>
    obtain ⟨c', hread, hok, hcalls, hclosed, hrest⟩ := TcpConn.doRead?_fits ch.1 h.ok hne (hfit ho)
    have happ := parseAll_append connFront_incremental (h.open_rest ho) ch.2
    refine ⟨c', hread, hok, ?_, ?_, ?_⟩
    · rw [hcalls, h.calls, happ]
    · rw [hclosed, happ]
    · rw [happ]
      exact hrest

/-- Every run over chunks that fit comes to its end. -/
theorem Parsed.run (h : Parsed c p) (chunks : List Chunk) (hne : ∀ ch ∈ chunks, ch.2 ≠ [])
    (hfit : ∀ x ∈ attempted chunkStep? c chunks, ChunkFits x.1 x.2) :
    ∃ c', run? chunkStep? c chunks = some c' ∧ Parsed c' (p ++ received chunks) := by
  induction chunks generalizing c p with
  | nil => exact ⟨c, rfl, by simpa [received] using h⟩
  | cons ch chunks ih =>
    obtain ⟨hnow, hlater⟩ := (forall_attempted_cons c ch chunks).mp hfit
    obtain ⟨c₁, hstep, h₁⟩ := h.step (hne ch List.mem_cons_self) hnow
    obtain ⟨c', hrun, h'⟩ := ih h₁ (fun x hx => hne x (List.mem_cons_of_mem ch hx)) (hlater c₁ hstep)
    have hreceived : received (ch :: chunks) = ch.2 ++ received chunks := rfl
    refine ⟨c', by simpa [run?, hstep] using hrun, ?_⟩
    rw [hreceived, ← List.append_assoc]
    exact h'

/-- Every payload that the parser finds is a slice of the stream. -/
theorem payload_infix (bs : List UInt8) : ∀ m ∈ (parseAll connFront bs).1, m.2 <:+: bs := by
  induction bs using parse_induction connFront_incremental with
  | more bs hb => simp [parseAll_more hb]
  | fail bs hb => simp [parseAll_fail hb]
  | item bs m r hb ih =>
    intro x hx
    rw [parseAll_item connFront_incremental hb] at hx
    unfold connFront frameFront at hb
    dsimp only at hb
    split_ifs at hb
    cases hb
    obtain rfl | hx := List.mem_cons.mp hx
    · exact (List.take_prefix _ _).isInfix.trans (List.drop_suffix _ _).isInfix
    · exact (ih x hx).trans (List.drop_suffix _ _).isInfix

end Read

/-- Two ways of cutting a stream into chunks lead to the same calls, and to a closed connection
in both runs or in none. Both runs come to their end: every loop terminates and no assertion
fails. -/
theorem chunking_irrelevant (chunks chunks' : List Chunk) (hne : ∀ ch ∈ chunks, ch.2 ≠ [])
    (hne' : ∀ ch ∈ chunks', ch.2 ≠ []) (hsame : received chunks = received chunks')
    (hfit : ∀ x ∈ attempted chunkStep? TcpConn.new chunks, ChunkFits x.1 x.2)
    (hfit' : ∀ x ∈ attempted chunkStep? TcpConn.new chunks', ChunkFits x.1 x.2) :
    ∃ c c', run? chunkStep? TcpConn.new chunks = some c ∧
      run? chunkStep? TcpConn.new chunks' = some c' ∧
      c.dispatched = c'.dispatched ∧ c.closed = c'.closed ∧
      (c.closed = true ↔ BadHeader (received chunks)) ∧
      ∀ m ∈ c.dispatched, m.2 <:+: received chunks := by
  obtain ⟨c, hrun, hc⟩ := Parsed.new.run chunks hne hfit
  obtain ⟨c', hrun', hc'⟩ := Parsed.new.run chunks' hne' hfit'
  rw [List.nil_append] at hc hc'
  rw [← hsame] at hc'
  refine ⟨c, c', hrun, hrun', ?_, ?_, ?_, ?_⟩
  · rw [hc.calls, hc'.calls]
  · rw [hc.closed, hc'.closed]
  · rw [hc.closed]
    exact Option.isNone_iff_eq_none
  · rw [hc.calls]
    exact payload_infix _

/-- Two messages and a header with a negative length, in three chunks. -/
def inThree : List Chunk :=
  [(fun _ => 0, frame 5 [1, 2] ++ [6]), (fun _ => 0, [0, 0, 0, 1, 0, 0, 0, 3]),
    (fun _ => 0, MsgHead.bytes ⟨7, -1⟩ ++ [4])]

/-- The same bytes in two. -/
def inTwo : List Chunk :=
  [(fun _ => 0, (frame 5 [1, 2]).take 9),
    (fun _ => 0, [2] ++ frame 6 [3] ++ MsgHead.bytes ⟨7, -1⟩ ++ [4])]

theorem chunking_irrelevant_bad_header :
    ∃ c c', run? chunkStep? TcpConn.new inThree = some c ∧
      run? chunkStep? TcpConn.new inTwo = some c' ∧ c.dispatched = [(5, [1, 2]), (6, [3])] ∧
      c.dispatched = c'.dispatched ∧ c.closed = true ∧ c'.closed = true := by
  obtain ⟨c, c', hrun, hrun', hcalls, hclosed, hbad, -⟩ :=
    chunking_irrelevant inThree inTwo (by decide) (by decide) (by decide)
      (by decide +kernel) (by decide +kernel)
  have hthree : (run? chunkStep? TcpConn.new inThree).map (fun c => c.dispatched) =
      some [(5, [1, 2]), (6, [3])] := by decide +kernel
  have hopen : c.closed = true := hbad.mpr (by unfold BadHeader; decide +kernel)
  rw [hrun, Option.map_some, Option.some.injEq] at hthree
  exact ⟨c, c', hrun, hrun', hthree, hcalls, hopen, hclosed ▸ hopen⟩

/-! The lengths that a sender accepts and those that a receiver accepts. -/

/-- This read finds a header with a bad length and closes the connection for it. -/
def Rejects (c : TcpConn) (ch : Chunk) : Prop :=
  c.closed = false ∧ ∃ b ret calls b',
    readData? ch.1 (Int32.ofNat ch.2.length) (some ch.2) c.ibuf = some (some b, ret) ∧
    ¬ (ret = -1 ∨ ret = 0) ∧
    loop unpackBody (b.length.toInt.toNat + 1) b = some (calls, some (b', true))

section Reject

variable {c : TcpConn} {p : List UInt8} {ch : Chunk}

/-- A read rejects exactly the streams that go on to a bad header; one for which there is no
buffer rejects nothing. -/
theorem Parsed.rejects_iff (h : Parsed c p) (ho : c.closed = false) (hne : ch.2 ≠ []) :
    Rejects c ch ↔ (unread c.ibuf).length + ch.2.length ≤ maxCap ∧ BadHeader (p ++ ch.2) := by
  have happ := parseAll_append connFront_incremental (h.open_rest ho) ch.2
  by_cases hfit : (unread c.ibuf).length + ch.2.length ≤ maxCap
  · obtain ⟨b, hread, hok, hcon⟩ := readData?_fits ch.1 h.ok hne hfit
    obtain ⟨out, hloop, hleft⟩ := unpack_spec hok
    rw [hcon] at hloop hleft
    unfold BadHeader
    rw [happ]
    constructor
    · rintro ⟨-, b₁, ret, calls, b', hread', -, hloop'⟩
      cases hread.symm.trans hread'
      cases hloop.symm.trans hloop'
      refine ⟨hfit, ?_⟩
      cases hr : (parseAll connFront (unread c.ibuf ++ ch.2)).2 with
      | none => rfl
      | some r =>
        rw [hr] at hleft
        obtain ⟨b₂, hout, -⟩ := hleft
        cases hout
    · rintro ⟨-, hbad⟩
      rw [hbad] at hleft
      obtain ⟨b', rfl⟩ := hleft
      exact ⟨ho, b, _, _, b', hread, TcpConn.read_succeeds hne (by omega), hloop⟩
  · refine iff_of_false ?_ fun hr => hfit hr.1
    rintro ⟨-, b, ret, calls, b', hread, -⟩
    obtain hnone | hnone := readData?_overrun ch.1 (Int32.ofNat ch.2.length) h.ok hne (by omega)
    · cases hnone.symm.trans hread
    · cases hnone.symm.trans hread

/-- An open connection keeps less than one message of the longest kind. -/
theorem Parsed.unread_lt (h : Parsed c p) (ho : c.closed = false) :
    (unread c.ibuf).length < messageHeadLen + messageLengthLimit := by
  have hmore := parseAll_rest connFront_incremental (h.open_rest ho)
  have hhead : messageHeadLen = 8 := rfl
  have hlim : messageLengthLimit = 65527 := rfl
  unfold connFront frameFront at hmore
  dsimp only at hmore
  split_ifs at hmore with hleast hbad hshort
  · omega
  · omega

theorem not_badHeader_nil : ¬ BadHeader [] := by
  unfold BadHeader
  decide

/-- A closed connection rejects nothing any more. -/
theorem not_rejects_closed (hc : c.closed = true) (chunks : List Chunk) :
    ∀ x ∈ attempted chunkStep? c chunks, ¬ Rejects x.1 x.2 := by
  have hnot : ∀ ch, ¬ Rejects c ch := by
    rintro ch ⟨hopen, -⟩
    rw [hc] at hopen
    cases hopen
  induction chunks with
  | nil => simp [attempted]
  | cons ch chunks ih =>
    rw [forall_attempted_cons]
    refine ⟨hnot ch, ?_⟩
    intro t ht
    rw [chunkStep?, if_pos hc] at ht
    cases ht
    exact ih

/-- A stream without a bad header is not rejected, even where a chunk finds no buffer. -/
theorem Parsed.not_rejects (h : Parsed c p) (ho : c.closed = false) (chunks : List Chunk)
    (hne : ∀ ch ∈ chunks, ch.2 ≠ []) (hgood : ¬ BadHeader (p ++ received chunks)) :
    ∀ x ∈ attempted chunkStep? c chunks, ¬ Rejects x.1 x.2 := by
  induction chunks generalizing c p with
  | nil => simp [attempted]
  | cons ch chunks ih =>
    have hchunk := hne ch List.mem_cons_self
    have hreceived : received (ch :: chunks) = ch.2 ++ received chunks := rfl
    rw [hreceived, ← List.append_assoc] at hgood
    have hnow : ¬ BadHeader (p ++ ch.2) := by
      intro hbad
      exact hgood (parseAll_append_fail connFront_incremental hbad _)
    rw [forall_attempted_cons]
    refine ⟨fun hr => hnow ((h.rejects_iff ho hchunk).mp hr).2, ?_⟩
    intro t ht
    by_cases hfit : (unread c.ibuf).length + ch.2.length ≤ maxCap
    · obtain ⟨c', hstep, hc'⟩ := h.step hchunk fun _ => hfit
      cases hstep.symm.trans ht
      have hopen : t.closed = false := by
        rw [hc'.closed]
        exact Option.isNone_eq_false_iff.mpr (Option.isSome_iff_ne_none.mpr hnow)
      exact ih hc' hopen (fun x hx => hne x (List.mem_cons_of_mem ch hx)) hgood
    · rw [chunkStep?, ho] at ht
      exact not_rejects_closed (TcpConn.doRead?_overrun ch.1 h.ok hchunk (by omega) ht).2 chunks

/-- A stream in chunks of one byte. -/
def bytewise (bs : List UInt8) : List Chunk := bs.map fun b => (fun _ => 0, [b])

theorem received_bytewise (bs : List UInt8) : received (bytewise bs) = bs := by
  induction bs with
  | nil => rfl
  | cons b bs ih => exact congrArg (b :: ·) ih

/-- Byte by byte, which always fits, a bad header is met and rejected. -/
theorem Parsed.rejects_bytewise (h : Parsed c p) (ho : c.closed = false) {q : List UInt8}
    (hbad : BadHeader (p ++ q)) : ∃ x ∈ attempted chunkStep? c (bytewise q), Rejects x.1 x.2 := by
  induction q generalizing c p with
  | nil =>
    rw [List.append_nil, BadHeader, h.open_rest ho] at hbad
    cases hbad
  | cons b q ih =>
    have hne : ((fun _ => 0, [b]) : Chunk).2 ≠ [] := List.cons_ne_nil b []
    have hlt := h.unread_lt ho
    have hhead : messageHeadLen + messageLengthLimit = 65535 := rfl
    have hmax : maxCap = 4194304 := rfl
    have hfit : (unread c.ibuf).length + [b].length ≤ maxCap := by
      rw [List.length_singleton]
      omega
    by_cases hnow : BadHeader (p ++ [b])
    · exact ⟨(c, (fun _ => 0, [b])), List.mem_cons_self, (h.rejects_iff ho hne).mpr ⟨hfit, hnow⟩⟩
    · obtain ⟨c', hstep, hc'⟩ := h.step hne fun _ => hfit
      have hopen : c'.closed = false := by
        rw [hc'.closed]
        exact Option.isNone_eq_false_iff.mpr (Option.isSome_iff_ne_none.mpr hnow)
      rw [List.append_cons] at hbad
      obtain ⟨x, hx, hrej⟩ := ih hc' hopen hbad
      refine ⟨x, ?_, hrej⟩
      change x ∈ attempted chunkStep? c ((fun _ => 0, [b]) :: bytewise q)
      rw [attempted, hstep]
      exact List.mem_cons_of_mem _ hx

end Reject

section Lengths

/-- The sender with payloads of any length; `none` is a copy past the end of its buffer. -/
def sendAnyStep? (s : Sender) : SendOp → Option Sender
  | .send msgid data =>
    if (s.client.sendMessage data msgid).2 = 0 ∧
        s.client.obuf.capacity.toInt < s.client.obuf.length.toInt + 8 + data.length then none
    else sendStep? s (.send msgid data)
  | .write k => sendStep? s (.write k)

/-- The bytes on the wire and those still buffered are the accepted messages, which have all
fitted the buffer. -/
structure Framed (s : Sender) : Prop where
  buf : BufOk s.client.obuf
  head : s.client.obuf.head = 0
  size : ∀ m ∈ s.accepted, m.2.length ≤ maxCap
  bytes : s.wire ++ s.client.obuf.content = stream s.accepted

theorem Framed.new (rawIn rawOut : ℤ → UInt8) : Framed (Sender.new rawIn rawOut) :=
  ⟨⟨IoBuf.Valid.new (by decide) rawOut, le_rfl⟩, rfl, nofun, rfl⟩

theorem Framed.step {s s' : Sender} (h : Framed s) {op : SendOp}
    (hs : sendAnyStep? s op = some s') : Framed s' := by
  cases op with
  | write k =>
    obtain ⟨hok, hh, hacc, hbytes⟩ := sendStep?_write h.buf hs
    exact ⟨hok, hh, hacc ▸ h.size, by rw [hbytes, h.bytes, hacc]⟩
  | send msgid data =>
    obtain ⟨hover, hs⟩ := Option.ite_none_left_eq_some.mp hs
    have hroom (hret : (s.client.sendMessage data msgid).2 = 0) :
        s.client.obuf.length.toInt + 8 + data.length ≤ s.client.obuf.capacity.toInt := by
      by_contra hn
      exact hover ⟨hret, not_le.mp hn⟩
    obtain rfl | ⟨hsize, hok, hh, hacc, hbytes⟩ := sendStep?_send h.buf h.head hroom hs
    · exact h
    · refine ⟨hok, hh, ?_, by rw [hbytes, h.bytes, hacc, stream_append]⟩
      intro m hm
      rw [hacc] at hm
      rcases List.mem_append.mp hm with hm | hm
      · exact h.size m hm
      · rw [List.mem_singleton.mp hm]
        exact hsize

theorem sendStep?_accepted {s : Sender} {c : TcpClient} {msgid : Int32} {data : List UInt8}
    (h : s.client.sendMessage data msgid = (c, 0)) :
    sendStep? s (.send msgid data) = some ⟨c, s.wire, s.accepted ++ [(msgid, data)]⟩ := by
  simp [sendStep?, h]

/-- The first bytes of a message whose length the receiver does not take. -/
theorem connFront_long {m : Msg} (hlong : messageLengthLimit < m.2.length)
    (hsize : m.2.length ≤ maxCap) (rest : List UInt8) :
    connFront ((frame m.1 m.2 ++ rest).take (messageHeadLen + 1)) = .fail := by
  have hhead : messageHeadLen = 8 := rfl
  have hlim : messageLengthLimit = 65527 := rfl
  have hmax : maxCap = 4194304 := rfl
  have hlen : ((frame m.1 m.2 ++ rest).take (messageHeadLen + 1)).length = messageHeadLen + 1 := by
    rw [List.length_take, List.length_append, length_frame]
    omega
  have hof : MsgHead.ofBytes ((frame m.1 m.2 ++ rest).take (messageHeadLen + 1)) =
      ⟨m.1, Int32.ofNat m.2.length⟩ := by
    rw [← MsgHead.ofBytes_take, List.take_take, min_eq_left (Nat.le_succ _), MsgHead.ofBytes_take,
      frame, List.append_assoc, MsgHead.ofBytes_bytes]
  have hint : (Int32.ofNat m.2.length).toInt = m.2.length := Int32.toInt_ofNat_of_lt (by omega)
  unfold connFront frameFront
  dsimp only
  rw [hlen, if_neg (by omega), hof]
  dsimp only
  rw [hint, if_pos (by omega)]

/-- A message that is too long puts a bad header into the stream. -/
theorem exists_badHeader {ms : List Msg} (hsize : ∀ m ∈ ms, m.2.length ≤ maxCap)
    (hlong : ∃ m ∈ ms, messageLengthLimit < m.2.length) : ∃ p, p <+: stream ms ∧ BadHeader p := by
  induction ms with
  | nil =>
    obtain ⟨m, hm, -⟩ := hlong
    cases hm
  | cons m ms ih =>
    by_cases hm : messageLengthLimit < m.2.length
    · refine ⟨(frame m.1 m.2 ++ stream ms).take (messageHeadLen + 1), List.take_prefix _ _, ?_⟩
      have hfail := connFront_long hm (hsize m List.mem_cons_self) (stream ms)
      exact congrArg Prod.snd (parseAll_fail hfail)
    · -- the message is taken, and the rest of the stream holds the long one
      obtain ⟨x, hx, hxl⟩ := hlong
      have hx' : x ∈ ms := by
        obtain rfl | hx := List.mem_cons.mp hx
        · exact absurd hxl hm
        · exact hx
      obtain ⟨p, hp, hbad⟩ := ih (fun y hy => hsize y (List.mem_cons_of_mem m hy)) ⟨x, hx', hxl⟩
      have hpos : p ≠ [] := by
        rintro rfl
        exact not_badHeader_nil hbad
      have hlen := List.length_pos_of_ne_nil hpos
      have hlim : messageLengthLimit = 65527 := rfl
      have hitem : connFront (frame m.1 m.2 ++ p) = .item (m.1, m.2) p :=
        frameFront_frame (by omega) (by omega) (by omega)
      refine ⟨frame m.1 m.2 ++ p, (List.prefix_append_right_inj _).mpr hp, ?_⟩
      rw [BadHeader, parseAll_item connFront_incremental hitem]
      exact hbad

/-- Some way of cutting the stream makes the receiver close the connection for a message that is
too long. -/
theorem exists_rejects {ms : List Msg} (hsize : ∀ m ∈ ms, m.2.length ≤ maxCap)
    (hlong : ∃ m ∈ ms, messageLengthLimit < m.2.length) :
    ∃ chunks, (∀ ch ∈ chunks, ch.2 ≠ []) ∧ received chunks <+: stream ms ∧
      ∃ x ∈ attempted chunkStep? TcpConn.new chunks, Rejects x.1 x.2 := by
  obtain ⟨p, hp, hbad⟩ := exists_badHeader hsize hlong
  refine ⟨bytewise p, ?_, by rwa [received_bytewise], Parsed.new.rejects_bytewise rfl hbad⟩
  intro ch hch
  obtain ⟨b, -, rfl⟩ := List.mem_map.mp hch
  exact List.cons_ne_nil b []

end Lengths

/-- Everything that the sender has accepted goes into one stream of messages, and the receiver
takes every header of it, however it arrives, if and only if no message is longer than 65527. -/
theorem accepted_lengths_iff (rawIn rawOut : ℤ → UInt8) {ops : List SendOp} {s : Sender}
    (hrun : run? sendAnyStep? (Sender.new rawIn rawOut) ops = some s) :
    s.wire ++ s.client.obuf.content = stream s.accepted ∧
    ((∀ chunks, (∀ ch ∈ chunks, ch.2 ≠ []) → received chunks <+: stream s.accepted →
        ∀ x ∈ attempted chunkStep? TcpConn.new chunks, ¬ Rejects x.1 x.2) ↔
      ∀ m ∈ s.accepted, m.2.length ≤ messageLengthLimit) := by
  have hs : Framed s := Reachable.invariant (fun _ _ _ h hstep => h.step hstep)
    (Framed.new rawIn rawOut) ⟨ops, hrun⟩
  refine ⟨hs.bytes, ?_, ?_⟩
  · intro hnever
    by_contra hlong
    push Not at hlong
    obtain ⟨chunks, hne, hp, x, hx, hrej⟩ := exists_rejects hs.size hlong
    exact hnever chunks hne hp x hx hrej
  · intro hms chunks hne hp
    refine Parsed.new.not_rejects rfl chunks hne ?_
    obtain ⟨r, hr, -⟩ := parse_prefix hms hp
    rw [List.nil_append, BadHeader, hr]
    exact Option.some_ne_none r

theorem accepted_lengths_one_byte :
    ∃ s, run? sendAnyStep? (Sender.new (fun _ => 0) (fun _ => 0)) [.send 5 [1], .write 9] = some s ∧
      s.wire = frame 5 [1] ∧
      ∀ chunks, (∀ ch ∈ chunks, ch.2 ≠ []) → received chunks <+: stream s.accepted →
        ∀ x ∈ attempted chunkStep? TcpConn.new chunks, ¬ Rejects x.1 x.2 := by
  obtain ⟨s, hrun, hacc, hwire⟩ : ∃ s,
      run? sendAnyStep? (Sender.new (fun _ => 0) (fun _ => 0)) [.send 5 [1], .write 9] = some s ∧
        s.accepted = [(5, [1])] ∧ s.wire = frame 5 [1] := ⟨_, rfl, by decide, by decide +kernel⟩
  refine ⟨s, hrun, hwire, (accepted_lengths_iff _ _ hrun).2.mpr ?_⟩
  rw [hacc]
  decide

/-- The sender has room for a payload of 65528 bytes, and the receiver closes the connection. -/
theorem long_message_rejected :
    ∃ s, run? sendAnyStep? (Sender.new (fun _ => 0) (fun _ => 0))
        [.send 7 (List.replicate 65528 0)] = some s ∧
      s.accepted = [(7, List.replicate 65528 0)] ∧
      ∃ chunks, (∀ ch ∈ chunks, ch.2 ≠ []) ∧ received chunks <+: stream s.accepted ∧
        ∃ x ∈ attempted chunkStep? TcpConn.new chunks, Rejects x.1 x.2 := by
  set data : List UInt8 := List.replicate 65528 0
  have hlen : data.length = 65528 := List.length_replicate
  obtain ⟨c, hsend⟩ : ∃ c, (TcpClient.new (fun _ => 0) (fun _ => 0)).sendMessage data 7 = (c, 0) := by
    simp [TcpClient.sendMessage, TcpClient.new, IoBuf.new, hlen]
  have hfits : ¬ (4194304 : Int32).toInt < (0 : Int32).toInt + 8 + (data.length : ℤ) := by
    rw [hlen]
    decide
  have hstep : sendAnyStep? (Sender.new (fun _ => 0) (fun _ => 0)) (.send 7 data) =
      some ⟨c, [], [(7, data)]⟩ := by
    rw [sendAnyStep?, if_neg fun h => hfits h.2]
    exact sendStep?_accepted hsend
  refine ⟨⟨c, [], [(7, data)]⟩, ?_, rfl, exists_rejects ?_ ⟨(7, data), List.mem_cons_self, ?_⟩⟩
  · rw [run?, hstep]
    rfl
  · intro m hm
    rw [List.mem_singleton.mp hm, hlen]
    decide
  · rw [hlen]
    decide

end Lrlb.Reactor
