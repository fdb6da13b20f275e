import Lrlb.Lib.Run
import Lrlb.Reactor.InputBuf
import Lrlb.Reactor.Message

/-! The client side of a connection: two fixed buffers of 4 MB, one for each direction. -/
namespace Lrlb.Reactor
open Lib

structure TcpClient where
  connected : Bool
  ibuf : IoBuf
  obuf : IoBuf

/-- A payload handed to the router: its announced length and the buffer it starts at the head
of. -/
structure Dispatch where
  msgid : Int32
  len : UInt32
  buf : IoBuf

namespace Dispatch

def payload (d : Dispatch) : List UInt8 := readMem d.buf.data d.buf.head.toInt d.len.toNat

/-- The payload lies inside the received bytes that are still unread. -/
def Inside (d : Dispatch) : Prop := (d.len.toNat : ℤ) ≤ d.buf.length.toInt

end Dispatch

/-- One round of the unpacking loop of `tcp_client::do_read`. -/
def clientBody (b : IoBuf) : IoBuf ⊕ (Dispatch × IoBuf) :=
  if (8 : Int32) ≤ b.length then
    let head := MsgHead.ofBytes (readMem b.data b.head.toInt messageHeadLen)
    if b.length < head.msglen + 8 then .inl b
    else
      let b := b.pop 8
      .inr (⟨head.msgid, head.msglen.toUInt32, b⟩, b.pop head.msglen)
  else .inl b

namespace TcpClient

/-- A client whose connection has been established, with uninitialised buffers. -/
def new (rawIn rawOut : ℤ → UInt8) : TcpClient :=
  ⟨true, IoBuf.new 4194304 rawIn, IoBuf.new 4194304 rawOut⟩

def sendMessage (c : TcpClient) (data : List UInt8) (msgid : Int32) : TcpClient × Int32 :=
  let msglen := Int32.ofNat data.length
  if c.connected = false then (c, -1)
  else if c.obuf.capacity - c.obuf.length < msglen + 8 then (c, -1)
  else
    let obuf := c.obuf.write (MsgHead.bytes ⟨msgid, msglen⟩)
    ({ c with obuf := obuf.write data }, 0)

theorem sendMessage_cases (c : TcpClient) (data : List UInt8) (msgid : Int32) :
    c.sendMessage data msgid = (c, -1) ∨
      ¬ c.obuf.capacity - c.obuf.length < Int32.ofNat data.length + 8 ∧
        c.sendMessage data msgid = ({ c with
          obuf := (c.obuf.write (MsgHead.bytes ⟨msgid, Int32.ofNat data.length⟩)).write data }, 0) := by
  unfold sendMessage
  dsimp only
  split_ifs with hconn hfull
  · exact Or.inl rfl
  · exact Or.inl rfl
  · exact Or.inr ⟨hfull, rfl⟩

/-- One successful `write` of `do_write`, which takes `k` bytes. -/
def wrote (c : TcpClient) (k : Int32) : TcpClient := { c with obuf := (c.obuf.pop k).adjust }

/-- `tcp_client::do_read` of one chunk, with at most `n` rounds of the unpacking loop. `none` is
a failed assertion or a loop that has not ended. The last result is the return value. -/
def doRead? (n : ℕ) (c : TcpClient) (chunk : List UInt8) :
    Option (TcpClient × List Dispatch × Int32) :=
  let needRead := Int32.ofNat chunk.length
  if c.connected = false then none
  else if c.ibuf.capacity - c.ibuf.length < needRead then none
  else if chunk = [] then some ({ c with connected := false }, [], -1)
  else (loop clientBody n (c.ibuf.write chunk)).map fun r =>
    ({ c with ibuf := r.2.adjust }, r.1, 0)

def readStep? (n : ℕ) (c : TcpClient) (chunk : List UInt8) : Option TcpClient :=
  (c.doRead? n chunk).map Prod.fst

/-- The assertion of `do_read` on free space. -/
def FreeSpace (c : TcpClient) (chunk : List UInt8) : Prop :=
  (chunk.length : ℤ) ≤ c.ibuf.capacity.toInt - c.ibuf.length.toInt

/-- Reading one chunk: the loop ends within `n` rounds, the buffer stays within its bounds all
the way, and every payload handed to the router lies inside the received bytes. -/
def ReadSafe (n : ℕ) (c : TcpClient) (chunk : List UInt8) : Prop :=
  ∃ ds b, loop clientBody n (c.ibuf.write chunk) = some (ds, b) ∧
    (∀ s ∈ loopStates clientBody n (c.ibuf.write chunk), s.Valid) ∧
    ∀ d ∈ ds, d.buf.Valid ∧ d.Inside

end TcpClient

/-- The messages as this loop takes them, for lengths that it can handle. -/
abbrev clientFront : List UInt8 → Front (Int32 × List UInt8) UInt8 :=
  frameFront messageHeadLen (2 ^ 31 - 9)

theorem clientFront_incremental : Incremental clientFront := frameFront_incremental le_rfl _

/-- Every header that the framing of the stream comes to announces a length from 0 to
2147483639. -/
def HeadersOk (stream : List UInt8) : Prop := (parseAll clientFront stream).2.isSome

instance (stream : List UInt8) : Decidable (HeadersOk stream) := inferInstanceAs (Decidable (_ = _))

variable {b : IoBuf}

theorem clientBody_more (hb : BufOk b) (h : clientFront b.content = .more) :
    clientBody b = .inl b := by
  have hlc := hb.valid.length_content
  have h8 : (8 : Int32).toInt = 8 := rfl
  have hh : messageHeadLen = 8 := rfl
  unfold clientFront frameFront at h
  dsimp only at h
  unfold clientBody
  by_cases hlong : (8 : Int32) ≤ b.length
  · have hlong' := Int32.le_iff_toInt_le.mp hlong
    rw [if_neg (by omega)] at h
    split_ifs at h with hbad hshort
    have hsum : ((MsgHead.ofBytes b.content).msglen + 8).toInt =
        (MsgHead.ofBytes b.content).msglen.toInt + 8 := toInt_add_of_range (by omega) (by omega)
    rw [if_pos hlong]
    dsimp only
    rw [IoBuf.head_eq_ofBytes (by omega), if_pos (by rw [Int32.lt_iff_toInt_lt]; omega)]
  · rw [if_neg hlong]

/-- The loop takes a message whose announced end, as it computes it, has been received. -/
theorem clientBody_takes (hb : BufOk b) (hlong : messageHeadLen ≤ b.content.length)
    (hend : ((MsgHead.ofBytes b.content).msglen + 8).toInt ≤ b.length.toInt) :
    clientBody b = .inr (⟨(MsgHead.ofBytes b.content).msgid,
      (MsgHead.ofBytes b.content).msglen.toUInt32, b.pop 8⟩,
        (b.pop 8).pop (MsgHead.ofBytes b.content).msglen) := by
  have hlc := hb.valid.length_content
  have h8 : (8 : Int32).toInt = 8 := rfl
  have hh : messageHeadLen = 8 := rfl
  rw [clientBody, if_pos (by rw [Int32.le_iff_toInt_le]; omega)]
  dsimp only
  rw [IoBuf.head_eq_ofBytes hlong, if_neg (by rw [Int32.lt_iff_toInt_lt]; omega)]

theorem clientBody_item (hb : BufOk b) {m : Int32 × List UInt8} {r : List UInt8}
    (h : clientFront b.content = .item m r) :
    ∃ d b', clientBody b = .inr (d, b') ∧ (d.msgid, d.payload) = m ∧ d.buf.Valid ∧ d.Inside ∧
      BufOk b' ∧ b'.content = r := by
  have hlc := hb.valid.length_content
  have h8 : (8 : Int32).toInt = 8 := rfl
  have hh : messageHeadLen = 8 := rfl
  unfold clientFront frameFront at h
  dsimp only at h
  split_ifs at h with hleast hbad hshort
  cases h
  have htakes := clientBody_takes hb (by omega)
  set head := MsgHead.ofBytes b.content
  have hsum : (head.msglen + 8).toInt = head.msglen.toInt + 8 :=
    toInt_add_of_range (by omega) (by omega)
  have hlen8 : (b.pop 8).length.toInt = b.length.toInt - (8 : Int32).toInt :=
    IoBuf.pop_length (by omega) (by omega)
  obtain ⟨hpay, hok, hcon⟩ :=
    hb.pop_pop (m := 8) (n := head.msglen) (by omega) (by omega) (by omega)
  have hu : head.msglen.toUInt32.toNat = head.msglen.toInt.toNat := toNat_toUInt32 (by omega)
  refine ⟨⟨head.msgid, head.msglen.toUInt32, b.pop 8⟩, (b.pop 8).pop head.msglen,
    htakes (by omega), ?_, hb.valid.pop (by omega) (by omega), ?_, hok, hcon⟩
  · rw [Dispatch.payload, hu, hpay]
    rfl
  · change ((head.msglen.toUInt32.toNat : ℕ) : ℤ) ≤ (b.pop 8).length.toInt
    omega

/-- A length out of range is taken all the same, and the payload then runs past the end of
what has been received. -/
theorem clientBody_fail (hb : BufOk b) (h : clientFront b.content = .fail) :
    ∃ d b', clientBody b = .inr (d, b') ∧ ¬ (d.buf.Valid ∧ d.Inside) := by
  have hlc := hb.valid.length_content
  have h8 : (8 : Int32).toInt = 8 := rfl
  have hh : messageHeadLen = 8 := rfl
  unfold clientFront frameFront at h
  dsimp only at h
  split_ifs at h with hleast hbad hshort
  have htakes := clientBody_takes hb (by omega)
  set head := MsgHead.ofBytes b.content
  have hm := head.msglen.le_toInt; have hm' := head.msglen.toInt_lt
  have hu := toInt_ofUInt32 head.msglen.toUInt32
  rw [Int32.toInt32_toUInt32] at hu
  have hcap := hb.cap; have := hb.valid.capacity; have := hb.valid.head
  have hmax : (maxCap : ℤ) = 4194304 := rfl
  have hlen8 : (b.pop 8).length.toInt = b.length.toInt - (8 : Int32).toInt :=
    IoBuf.pop_length (by omega) (by omega)
  have hsum : (head.msglen + 8).toInt < 8 := by
    rw [Int32.toInt_add, h8]
    have := Int.bmod_emod (x := head.msglen.toInt + 8) (m := 2 ^ 32)
    have := Int.le_bmod (x := head.msglen.toInt + 8) (m := 2 ^ 32) (by omega)
    have := Int.bmod_lt (x := head.msglen.toInt + 8) (m := 2 ^ 32) (by omega)
    omega
  refine ⟨⟨head.msgid, head.msglen.toUInt32, b.pop 8⟩, (b.pop 8).pop head.msglen,
    htakes (by omega), ?_⟩
  intro hinside
  have hin : ((head.msglen.toUInt32.toNat : ℕ) : ℤ) ≤ (b.pop 8).length.toInt := hinside.2
  split_ifs at hu <;> omega

/-- A buffer within its bounds whose headers are all in range. -/
structure Intact (b : IoBuf) : Prop where
  buf : BufOk b
  headers : HeadersOk b.content

theorem Intact.not_fail (hs : Intact b) : clientFront b.content ≠ .fail := fun hfront => by
  have := hs.headers
  simp [HeadersOk, parseAll_fail hfront] at this

theorem Intact.item (hs : Intact b) {m : Int32 × List UInt8} {r : List UInt8}
    (hfront : clientFront b.content = .item m r) :
    ∃ d b', clientBody b = .inr (d, b') ∧ (d.msgid, d.payload) = m ∧ (d.buf.Valid ∧ d.Inside) ∧
      b'.content = r ∧ Intact b' := by
  obtain ⟨d, b', hbody, hm, hv, hin, hok, hcon⟩ := clientBody_item hs.buf hfront
  refine ⟨d, b', hbody, hm, ⟨hv, hin⟩, hcon, hok, ?_⟩
  have hrest := hs.headers
  rw [HeadersOk, parseAll_item clientFront_incremental hfront] at hrest
  rw [HeadersOk, hcon]
  exact hrest

theorem Intact.round (hs : Intact b) {d : Dispatch} {b' : IoBuf}
    (hbody : clientBody b = .inr (d, b')) : (d.buf.Valid ∧ d.Inside) ∧ Intact b' := by
  cases hfront : clientFront b.content with
  | more => simp [clientBody_more hs.buf hfront] at hbody
  | fail => exact absurd hfront hs.not_fail
  | item m r =>
    obtain ⟨d', b'', hbody', -, hd, -, hnext⟩ := hs.item hfront
    cases hbody.symm.trans hbody'
    exact ⟨hd, hnext⟩

/-- While no header is out of range the loop ends and emits the messages of the stream. -/
theorem Intact.loop (hb : Intact b) {n : ℕ} (hn : b.content.length < n) :
    ∃ ds b', Lib.loop clientBody n b = some (ds, b') ∧
      ds.map (fun d => (d.msgid, d.payload)) = (parseAll clientFront b.content).1 ∧
      (parseAll clientFront b.content).2 = some b'.content ∧ BufOk b' := by
  refine loop_parseAll (I := Intact) (Q := fun b' out => out = some b'.content ∧ BufOk b')
    clientFront_incremental ?_ ?_ ?_ hb hn
  · exact fun s hs hfront => ⟨s, clientBody_more hs.buf hfront, rfl, hs.buf⟩
  · exact fun s hs hfront => absurd hfront hs.not_fail
  · intro s m r hs hfront
    obtain ⟨d, b', hbody, hm, -, hcon, hnext⟩ := hs.item hfront
    exact ⟨d, b', hbody, hm, hcon, hnext⟩

/-- A header out of range makes the loop hand out a payload beyond the received bytes, unless
it never ends. -/
theorem clientLoop_bad (hb : BufOk b) (hbad : ¬ HeadersOk b.content) {n : ℕ} {ds : List Dispatch}
    {b' : IoBuf} (hloop : loop clientBody n b = some (ds, b')) :
    ∃ d ∈ ds, ¬ (d.buf.Valid ∧ d.Inside) := by
  have hnone : (parseAll clientFront b.content).2 = none := by simpa [HeadersOk] using hbad
  refine loop_bad (I := BufOk) clientFront_incremental ?_ ?_ hb hnone hloop
  · exact fun s hs hfront => clientBody_fail hs hfront
  · intro s m r hs hfront
    obtain ⟨d, b', hbody, -, -, -, hok, hcon⟩ := clientBody_item hs hfront
    exact ⟨d, b', hbody, hcon, hok⟩

namespace TcpClient

/-- A client that has read `p` and keeps the unfinished message at the front of its buffer. -/
structure Reading (c : TcpClient) (p : List UInt8) : Prop where
  connected : c.connected = true
  buf : BufOk c.ibuf
  head : c.ibuf.head = 0
  rest : (parseAll clientFront p).2 = some c.ibuf.content

variable {c c' : TcpClient} {p chunk : List UInt8} {n : ℕ}

theorem Reading.new (rawIn rawOut : ℤ → UInt8) : Reading (TcpClient.new rawIn rawOut) [] :=
  ⟨rfl, ⟨IoBuf.Valid.new (by decide) rawIn, le_rfl⟩, rfl, rfl⟩

theorem Reading.write (hc : Reading c p) (hfree : FreeSpace c chunk) :
    BufOk (c.ibuf.write chunk) ∧ (c.ibuf.write chunk).content = c.ibuf.content ++ chunk := by
  unfold FreeSpace at hfree
  have hfit : c.ibuf.length.toInt + chunk.length ≤ c.ibuf.capacity.toInt := by omega
  exact hc.buf.write_fits hc.head chunk hfit

theorem Reading.headersOk_iff (hc : Reading c p) (hfree : FreeSpace c chunk) :
    HeadersOk (c.ibuf.write chunk).content ↔ HeadersOk (p ++ chunk) := by
  rw [HeadersOk, HeadersOk, (hc.write hfree).2, parseAll_append clientFront_incremental hc.rest]

theorem Reading.doRead? (hc : Reading c p) (hne : chunk ≠ []) (hfree : FreeSpace c chunk) :
    c.doRead? n chunk = (loop clientBody n (c.ibuf.write chunk)).map fun r =>
      ({ c with ibuf := r.2.adjust }, r.1, 0) := by
  have hcap := hc.buf.cap; have := hc.buf.valid.length
  have hmax : (maxCap : ℤ) = 4194304 := rfl
  unfold FreeSpace at hfree
  have hlen : (Int32.ofNat chunk.length).toInt = chunk.length :=
    Int32.toInt_ofNat_of_lt (by omega)
  have hsub := hc.buf.sub_length
  unfold TcpClient.doRead?
  dsimp only
  rw [if_neg (by simp [hc.connected]), if_neg (by rw [Int32.lt_iff_toInt_lt]; omega), if_neg hne]

theorem Reading.readStep? (hc : Reading c p) (hne : chunk ≠ []) (hfree : FreeSpace c chunk) :
    c.readStep? n chunk = (loop clientBody n (c.ibuf.write chunk)).map fun r =>
      { c with ibuf := r.2.adjust } := by
  rw [TcpClient.readStep?, hc.doRead? hne hfree, Option.map_map]
  rfl

/-- Reading a chunk whose headers are in range dispatches the messages that it completes. -/
theorem Reading.receive (hc : Reading c p) (hne : chunk ≠ []) (hfree : FreeSpace c chunk)
    (hok : HeadersOk (p ++ chunk)) (hn : maxCap < n) :
    ∃ c' ds, c.doRead? n chunk = some (c', ds, 0) ∧ Reading c' (p ++ chunk) ∧
      (parseAll clientFront (p ++ chunk)).1 =
        (parseAll clientFront p).1 ++ ds.map fun d => (d.msgid, d.payload) := by
  obtain ⟨hbuf, hcon⟩ := hc.write hfree
  have hb : Intact (c.ibuf.write chunk) := ⟨hbuf, (hc.headersOk_iff hfree).mpr hok⟩
  have hlc := hbuf.valid.length_content
  have hcap := hbuf.cap; have := hbuf.valid.capacity; have := hbuf.valid.head
  obtain ⟨ds, b', hloop, hds, hrest, hok'⟩ := hb.loop (n := n) (by omega)
  have happ := parseAll_append clientFront_incremental hc.rest chunk
  rw [← hcon] at happ
  refine ⟨{ c with ibuf := b'.adjust }, ds, ?_, ⟨hc.connected, adjust_ok hok', by simp, ?_⟩, ?_⟩
  · rw [hc.doRead? hne hfree, hloop]
    rfl
  · rw [happ, hrest]
    simp
  · rw [happ, hds]

/-- A chunk whose headers are in range is read safely in at most 4 MB rounds. -/
theorem Reading.step (hc : Reading c p) (hne : chunk ≠ []) (hfree : FreeSpace c chunk)
    (hok : HeadersOk (p ++ chunk)) (hn : maxCap < n) :
    ReadSafe n c chunk ∧ ∃ c', c.readStep? n chunk = some c' ∧ Reading c' (p ++ chunk) := by
  have hb : Intact (c.ibuf.write chunk) := ⟨(hc.write hfree).1, (hc.headersOk_iff hfree).mpr hok⟩
  obtain ⟨c', ds, hread, hc', -⟩ := hc.receive hne hfree hok hn
  refine ⟨?_, c', by rw [TcpClient.readStep?, hread]; rfl, hc'⟩
  rw [hc.doRead? hne hfree] at hread
  obtain ⟨⟨ds', b'⟩, hloop, -⟩ := Option.map_eq_some_iff.mp hread
  obtain ⟨hstates, hevents⟩ := loop_invariant (I := Intact) (J := fun d => d.buf.Valid ∧ d.Inside)
    (fun s d s' hs hbody => hs.round hbody) n hb
  exact ⟨ds', b', hloop, fun s hs => (hstates s hs).buf.valid, hevents ds' b' hloop⟩

theorem Reading.headersOk_of_safe (hc : Reading c p) (hfree : FreeSpace c chunk)
    (hsafe : ReadSafe n c chunk) : HeadersOk (p ++ chunk) := by
  obtain ⟨ds, b', hloop, -, hds⟩ := hsafe
  by_contra hbad
  rw [← hc.headersOk_iff hfree] at hbad
  obtain ⟨d, hd, hout⟩ := clientLoop_bad (hc.write hfree).1 hbad hloop
  exact hout (hds d hd)

/-- A step that ends does not depend on how many rounds it was given. -/
theorem Reading.readStep?_unique (hc : Reading c p) (hne : chunk ≠ []) (hfree : FreeSpace c chunk)
    (hsafe : ReadSafe n c chunk) {m : ℕ} (hm : c.readStep? m chunk = some c') :
    c.readStep? n chunk = some c' := by
  obtain ⟨ds, b', hloop, -⟩ := hsafe
  rw [hc.readStep? hne hfree] at hm ⊢
  obtain ⟨r, hr, rfl⟩ := Option.map_eq_some_iff.mp hm
  rw [hloop, loop_unique hloop hr]
  rfl

/-- The bound on the rounds of one `do_read`: a round for each byte of the buffer. -/
abbrev maxRounds : ℕ := maxCap + 1

theorem Reading.safe_of_headersOk (hc : Reading c p) (chunks : List (List UInt8))
    (hne : ∀ chunk ∈ chunks, chunk ≠ [])
    (hfree : ∀ x ∈ attempted (TcpClient.readStep? maxRounds) c chunks, FreeSpace x.1 x.2)
    (hok : HeadersOk (p ++ chunks.flatten)) :
    ∀ x ∈ attempted (TcpClient.readStep? maxRounds) c chunks, ReadSafe maxRounds x.1 x.2 := by
  induction chunks generalizing c p with
  | nil => simp [attempted]
  | cons chunk chunks ih =>
    rw [forall_attempted_cons] at hfree ⊢
    obtain ⟨hnow, hlater⟩ := hfree
    rw [List.flatten_cons, ← List.append_assoc] at hok
    have hfirst : HeadersOk (p ++ chunk) := by
      by_contra hbad
      have hnone : (parseAll clientFront (p ++ chunk)).2 = none := by simpa [HeadersOk] using hbad
      rw [HeadersOk, parseAll_append_fail clientFront_incremental hnone] at hok
      cases hok
    obtain ⟨hsafe, c', hstep, hc'⟩ := hc.step (hne chunk (by simp)) hnow hfirst
      (Nat.lt_succ_self maxCap)
    refine ⟨hsafe, fun t ht => ?_⟩
    cases Option.some.inj (hstep.symm.trans ht)
    exact ih hc' (fun x hx => hne x (List.mem_cons_of_mem chunk hx)) (hlater _ ht) hok

theorem Reading.headersOk_of_run (hc : Reading c p) (chunks : List (List UInt8))
    (hne : ∀ chunk ∈ chunks, chunk ≠ [])
    (hfree : ∀ x ∈ attempted (TcpClient.readStep? maxRounds) c chunks, FreeSpace x.1 x.2)
    (hsafe : ∀ x ∈ attempted (TcpClient.readStep? n) c chunks, ReadSafe n x.1 x.2) :
    HeadersOk (p ++ chunks.flatten) := by
  induction chunks generalizing c p with
  | nil => simp [HeadersOk, hc.rest]
  | cons chunk chunks ih =>
    rw [forall_attempted_cons] at hfree hsafe
    obtain ⟨hnow, hlater⟩ := hfree
    have hchunk := hne chunk (by simp)
    rw [List.flatten_cons, ← List.append_assoc]
    obtain ⟨-, c', hstep, hc'⟩ := hc.step hchunk hnow (hc.headersOk_of_safe hnow hsafe.1)
      (Nat.lt_succ_self maxCap)
    exact ih hc' (fun x hx => hne x (List.mem_cons_of_mem chunk hx)) (hlater c' hstep)
      (hsafe.2 c' (hc.readStep?_unique hchunk hnow hsafe.1 hstep))

/-- For received bytes in chunks that satisfy the assertion on free space, every read is safe
if and only if no header announces a length outside 0 to 2147483639. -/
theorem reads_safe_iff (rawIn rawOut : ℤ → UInt8) (chunks : List (List UInt8))
    (hne : ∀ chunk ∈ chunks, chunk ≠ [])
    (hfree : ∀ x ∈ attempted (TcpClient.readStep? maxRounds) (new rawIn rawOut) chunks,
      FreeSpace x.1 x.2) :
    (∃ n, ∀ x ∈ attempted (TcpClient.readStep? n) (new rawIn rawOut) chunks,
      ReadSafe n x.1 x.2) ↔ HeadersOk chunks.flatten := by
  have hc := Reading.new rawIn rawOut
  constructor
  · rintro ⟨n, hn⟩
    simpa using hc.headersOk_of_run chunks hne hfree hn
  · intro hok
    exact ⟨maxRounds, hc.safe_of_headersOk chunks hne hfree (by simpa using hok)⟩

/-- An empty message and the first half of the next header. -/
theorem reads_safe_partial_header :
    ∃ n, ∀ x ∈ attempted (TcpClient.readStep? n) (new (fun _ => 0) (fun _ => 0))
        [frame 5 [] ++ [1, 0, 0, 0]], ReadSafe n x.1 x.2 := by
  refine (reads_safe_iff (fun _ => 0) (fun _ => 0) _ (by decide) ?_).mpr (by decide +kernel)
  rw [forall_attempted_cons]
  exact ⟨by unfold FreeSpace; decide, fun _ _ => by simp [attempted]⟩

/-- A header that announces length -8: the two pops cancel and the loop never ends. -/
theorem negative_length_loops_forever :
    (∀ n, loop clientBody n ((new (fun _ => 0) (fun _ => 0)).ibuf.write
        (MsgHead.bytes ⟨5, -8⟩)) = none) ∧
      ¬ ∃ n, ∀ x ∈ attempted (TcpClient.readStep? n) (new (fun _ => 0) (fun _ => 0))
        [MsgHead.bytes ⟨5, -8⟩], ReadSafe n x.1 x.2 := by
  set b := (new (fun _ => 0) (fun _ => 0)).ibuf.write (MsgHead.bytes ⟨5, -8⟩) with hb
  have hhead : MsgHead.ofBytes (readMem b.data b.head.toInt messageHeadLen) = ⟨5, -8⟩ := by
    decide +kernel
  have hlen : ((b.pop 8).pop (-8)).length = b.length := by decide +kernel
  have hstart : ((b.pop 8).pop (-8)).head = b.head := by decide +kernel
  have hback : (b.pop 8).pop (-8) = b := by
    calc (b.pop 8).pop (-8) =
        ⟨b.capacity, ((b.pop 8).pop (-8)).length, ((b.pop 8).pop (-8)).head, b.data⟩ := rfl
      _ = b := by rw [hlen, hstart]
  have hbody : clientBody b = .inr (⟨5, (-8 : Int32).toUInt32, b.pop 8⟩, b) := by
    rw [clientBody, if_pos (by decide)]
    dsimp only
    rw [hhead, if_neg (by decide), hback]
  refine ⟨loop_stuck hbody, ?_⟩
  rintro ⟨n, hn⟩
  rw [forall_attempted_cons] at hn
  obtain ⟨⟨ds, b', hloop, -⟩, -⟩ := hn
  rw [← hb, loop_stuck hbody] at hloop
  cases hloop

end TcpClient

end Lrlb.Reactor
