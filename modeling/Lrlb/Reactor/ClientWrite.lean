import Lrlb.Reactor.ClientConn

/-! When `tcp_client::do_write` comes to an end. -/
namespace Lrlb.Reactor
open Lib

/-- The results of the calls of `write` on one socket: counts are positive, and once a call has
failed for good the socket is closed and every later one fails too. -/
structure Writes where
  result : ℕ → WriteReturn
  positive : ∀ i k, result i = .wrote k → 0 < k
  closed : ∀ i, result i = .error → result (i + 1) = .error

/-- The bytes that a call has taken. -/
def WriteReturn.taken : WriteReturn → ℕ
  | .wrote k => k.toInt.toNat
  | .eintr | .eagain | .error => 0

/-- Before any call fails for good, one would block or `len` bytes have been taken. -/
def Drains (writes : ℕ → WriteReturn) (len : ℕ) : Prop :=
  ∃ m, (∀ j ≤ m, writes j ≠ .error) ∧
    (writes m = .eagain ∨ len ≤ ∑ j ∈ Finset.range (m + 1), (writes j).taken)

/-- What is left after a call that takes something, or that is interrupted, is to be drained by the
calls after it. -/
theorem Drains.cons {writes : ℕ → WriteReturn} {i len : ℕ} (hne : writes i ≠ .error)
    (h : Drains (fun j => writes (j + (i + 1))) (len - (writes i).taken)) :
    Drains (fun j => writes (j + i)) len := by
  obtain ⟨m, hrest, hend⟩ := h
  have hshift : ∀ j, j + 1 + i = j + (i + 1) := fun j => by omega
  refine ⟨m + 1, ?_, ?_⟩
  · intro j hj
    cases j with
    | zero => simpa using hne
    | succ j => simpa only [hshift] using hrest j (by omega)
  · rw [Finset.sum_range_succ']
    simp only [hshift, Nat.zero_add]
    exact hend.imp_right Nat.le_add_of_sub_le

/-- A single call is enough if it takes everything or would block. -/
theorem Drains.single {writes : ℕ → WriteReturn} {i len : ℕ} (hne : writes i ≠ .error)
    (h : writes i = .eagain ∨ len ≤ (writes i).taken) : Drains (fun j => writes (j + i)) len :=
  ⟨0, by simpa using hne, by simpa using h⟩

/-- Draining, from the last call that matters back to the `i`-th. -/
theorem drains_induction {writes : ℕ → WriteReturn} {P : ℕ → ℕ → Prop} (zero : ∀ i, P i 0)
    (again : ∀ i len, writes i = .eagain → P i len)
    (next : ∀ i len, writes i ≠ .error → P (i + 1) (len - (writes i).taken) → P i len) {i len : ℕ}
    (h : Drains (fun j => writes (j + i)) len) : P i len := by
  obtain ⟨m, hne, hend⟩ := h
  have hfirst : writes i ≠ .error := by simpa using hne 0 (Nat.zero_le m)
  induction m generalizing i len with
  | zero =>
    obtain hagain | hlen := hend
    · exact again i len (by simpa using hagain)
    · apply next i len hfirst
      rw [Nat.sub_eq_zero_of_le (by simpa using hlen)]
      exact zero (i + 1)
  | succ m ih =>
    have hshift : ∀ j, j + 1 + i = j + (i + 1) := fun j => by omega
    apply next i len hfirst
    apply ih
    · intro j hj
      simpa only [hshift] using hne (j + 1) (by omega)
    · rw [Finset.sum_range_succ'] at hend
      simp only [hshift, Nat.zero_add] at hend
      exact hend.imp_right Nat.sub_le_of_le_add
    · simpa only [hshift, Nat.zero_add] using hne 1 (by omega)

theorem TcpClient.wrote_length {c : TcpClient} (hlen : 0 ≤ c.obuf.length.toInt) {k : Int32}
    (hk : 0 < k) : 0 ≤ (c.wrote k).obuf.length.toInt ∧
      (c.wrote k).obuf.length.toInt.toNat = c.obuf.length.toInt.toNat - k.toInt.toNat := by
  have hpos := Int32.lt_iff_toInt_lt.mp hk
  have hzero : (0 : Int32).toInt = 0 := rfl
  have hadjust : (c.wrote k).obuf.length = (c.obuf.pop k).length := IoBuf.adjust_length _
  rw [hadjust]
  by_cases hlt : c.obuf.length < k
  · have hall : (c.obuf.pop k).length = 0 := by simp [IoBuf.pop, hlt]
    rw [Int32.lt_iff_toInt_lt] at hlt
    rw [hall]
    omega
  · rw [Int32.lt_iff_toInt_lt] at hlt
    rw [IoBuf.pop_length (by omega) (by omega)]
    omega

namespace ClientConn

/-- The bytes that are still to be written. -/
def unsent (s : ClientConn) : ℕ := s.tcp.obuf.length.toInt.toNat

/-- `do_write` returns, and if a call has failed for good, then it has cleaned the connection
once. -/
def WritesOut (writes : ℕ → WriteReturn) (s : ClientConn) : Prop :=
  ∃ n t results, s.doWrite? n writes = some (t, results) ∧
    (.error ∈ results → t.cleans = s.cleans + 1)

variable {s : ClientConn} {writes : ℕ → WriteReturn} {i : ℕ}

theorem writeBody_empty (h : s.tcp.obuf.length = 0) : writeBody writes (i, s) = .inl (i, s) := by
  simp [writeBody, h]

section Round

variable (h : s.tcp.obuf.length ≠ 0)

include h

theorem writeBody_wrote {k : Int32} (hk : 0 < k) (hw : writes i = .wrote k) :
    writeBody writes (i, s) = .inr (.wrote k, i + 1, { s with tcp := s.tcp.wrote k }) := by
  simp [writeBody, h, hw, hk]

theorem writeBody_eintr (hw : writes i = .eintr) :
    writeBody writes (i, s) = .inr (.eintr, i + 1, s) := by
  simp [writeBody, h, hw]

theorem writeBody_error (hw : writes i = .error) :
    writeBody writes (i, s) = .inr (.error, i + 1, s.cleanConn) := by
  simp [writeBody, h, hw]

theorem writeBody_eagain (hw : writes i = .eagain) :
    writeBody writes (i, s) = .inl (i + 1, s) := by
  simp [writeBody, h, hw]

end Round

/-- After an error the buffer is as full as before and the next call fails too. -/
theorem loop_error (w : Writes) (hlen : s.tcp.obuf.length ≠ 0) (herror : w.result i = .error)
    (n : ℕ) : Lib.loop (writeBody w.result) n (i, s) = none := by
  apply loop_diverges (I := fun x => x.2.tcp.obuf.length ≠ 0 ∧ w.result x.1 = .error) ?_ n
    ⟨hlen, herror⟩
  intro x hx
  exact ⟨.error, (x.1 + 1, x.2.cleanConn), writeBody_error hx.1 hx.2, hx.1, w.closed x.1 hx.2⟩

/-- A loop that ends has seen no error, and the results drained the buffer. -/
theorem drains_of_loop (w : Writes) {n : ℕ} {r : List WriteReturn × ℕ × ClientConn}
    (hloop : Lib.loop (writeBody w.result) n (i, s) = some r) (hlen : 0 ≤ s.tcp.obuf.length.toInt) :
    .error ∉ r.1 ∧ (s.tcp.obuf.length ≠ 0 → Drains (fun j => w.result (j + i)) s.unsent) := by
  induction n generalizing i s r with
  | zero => cases hloop
  | succ n ih =>
    rw [Lib.loop] at hloop
    by_cases hempty : s.tcp.obuf.length = 0
    · rw [writeBody_empty hempty] at hloop
      cases hloop
      exact ⟨List.not_mem_nil, fun hne => absurd hempty hne⟩
    · cases hw : w.result i with
      | wrote k =>
        have hk := w.positive i k hw
        rw [writeBody_wrote hempty hk hw] at hloop
        obtain ⟨q, hq, rfl⟩ := Option.map_eq_some_iff.mp hloop
        obtain ⟨hnonneg, hleft⟩ := TcpClient.wrote_length hlen hk
        obtain ⟨hnone, hdrain⟩ := ih hq hnonneg
        refine ⟨by simpa using hnone, fun _ => ?_⟩
        by_cases hdone : (s.tcp.wrote k).obuf.length = 0
        · rw [hdone] at hleft
          apply Drains.single (by simp [hw])
          right
          rw [hw]
          exact Nat.sub_eq_zero_iff_le.mp hleft.symm
        · have hrest := hdrain hdone
          rw [unsent, hleft] at hrest
          apply Drains.cons (by simp [hw])
          rw [hw]
          exact hrest
      | eintr =>
        rw [writeBody_eintr hempty hw] at hloop
        obtain ⟨q, hq, rfl⟩ := Option.map_eq_some_iff.mp hloop
        obtain ⟨hnone, hdrain⟩ := ih hq hlen
        refine ⟨by simpa using hnone, fun _ => Drains.cons (by simp [hw]) ?_⟩
        rw [hw]
        exact hdrain hempty
      | error =>
        rw [writeBody_error hempty hw] at hloop
        obtain ⟨q, hq, -⟩ := Option.map_eq_some_iff.mp hloop
        have hnever := loop_error (s := s.cleanConn) w hempty (w.closed i hw) n
        cases hnever.symm.trans hq
      | eagain =>
        rw [writeBody_eagain hempty hw] at hloop
        cases hloop
        exact ⟨List.not_mem_nil, fun _ => Drains.single (by simp [hw]) (Or.inl hw)⟩

theorem loop_of_drains (w : Writes) (hlen : 0 ≤ s.tcp.obuf.length.toInt)
    (hdrains : Drains (fun j => w.result (j + i)) s.unsent) :
    ∃ n r, Lib.loop (writeBody w.result) n (i, s) = some r := by
  -- by induction over the calls, for every client that has as many bytes left
  generalize hlen' : s.unsent = len at hdrains
  revert s
  apply drains_induction (P := fun i len => ∀ s : ClientConn, 0 ≤ s.tcp.obuf.length.toInt →
    s.unsent = len → ∃ n r, Lib.loop (writeBody w.result) n (i, s) = some r) ?_ ?_ ?_ hdrains
  · intro i s hlen hs
    apply loop_ends (writeBody_empty ?_)
    apply Int32.toInt_inj.mp
    rw [unsent] at hs
    exact le_antisymm (Int.toNat_eq_zero.mp hs) hlen
  · intro i len hagain s hlen hs
    by_cases hempty : s.tcp.obuf.length = 0
    · exact loop_ends (writeBody_empty hempty)
    · exact loop_ends (writeBody_eagain hempty hagain)
  · intro i len hne ih s hlen hs
    by_cases hempty : s.tcp.obuf.length = 0
    · exact loop_ends (writeBody_empty hempty)
    cases hw : w.result i with
    | wrote k =>
      have hk := w.positive i k hw
      obtain ⟨hnonneg, hleft⟩ := TcpClient.wrote_length hlen hk
      apply loop_ends_next (writeBody_wrote hempty hk hw)
      apply ih { s with tcp := s.tcp.wrote k } hnonneg
      rw [hw, ← hs]
      exact hleft
    | eintr =>
      apply loop_ends_next (writeBody_eintr hempty hw)
      apply ih s hlen
      rw [hw, ← hs]
      rfl
    | error => exact absurd hw hne
    | eagain => exact loop_ends (writeBody_eagain hempty hw)

theorem doWrite?_eq (hhead : s.tcp.obuf.head = 0) (hlen : s.tcp.obuf.length ≠ 0) (n : ℕ) :
    s.doWrite? n writes =
      (Lib.loop (writeBody writes) n (0, s)).map fun r => (r.2.2.finishWrite, r.1) :=
  if_pos ⟨hhead, hlen⟩

/-- `do_write` of a buffer that is not empty returns exactly if the calls drain it. In the error
branch nothing leaves the loop, so that a connection that breaks is cleaned without end. -/
theorem writes_out_iff (w : Writes) (s : ClientConn) (hhead : s.tcp.obuf.head = 0)
    (hlen : 0 < s.tcp.obuf.length.toInt) : WritesOut w.result s ↔ Drains w.result s.unsent := by
  have hne : s.tcp.obuf.length ≠ 0 := by
    intro h
    simp [h] at hlen
  constructor
  · intro h
    obtain ⟨n, t, results, hwrite, -⟩ := h
    rw [doWrite?_eq hhead hne] at hwrite
    obtain ⟨r, hloop, -⟩ := Option.map_eq_some_iff.mp hwrite
    exact (drains_of_loop w hloop hlen.le).2 hne
  · intro h
    obtain ⟨n, r, hloop⟩ := loop_of_drains (i := 0) w hlen.le h
    have hnone := (drains_of_loop w hloop hlen.le).1
    exact ⟨n, r.2.2.finishWrite, r.1, by rw [doWrite?_eq hhead hne, hloop]; rfl,
      fun herror => absurd herror hnone⟩

/-- A client with one byte to write. -/
def oneByte : ClientConn :=
  ⟨⟨true, IoBuf.new 4194304 fun _ => 0, (IoBuf.new 4194304 fun _ => 0).write [7]⟩, 5,
    EventLoop.init.addIoEvent false 5 .writeCallback Direction.epollout.mask, false, 0, 0, 0⟩

/-- A socket that takes a byte with each call. -/
def bytewise : Writes := ⟨fun _ => .wrote 1, by simp +contextual, by simp⟩

theorem one_byte_written : oneByte.tcp.obuf.head = 0 ∧ 0 < oneByte.tcp.obuf.length.toInt ∧
    WritesOut bytewise.result oneByte := by
  refine ⟨by decide, by decide, ?_⟩
  apply (writes_out_iff bytewise oneByte (by decide) (by decide)).mpr
  exact ⟨0, by simp [bytewise], Or.inr (by decide)⟩

/-- A socket on which every call fails for good. -/
def broken : Writes := ⟨fun _ => .error, by simp, by simp⟩

/-- The loop does not end, and has cleaned the connection once more in every round. -/
theorem broken_cleaned_again : oneByte.tcp.obuf.head = 0 ∧ oneByte.tcp.obuf.length = 1 ∧
    (∀ n, oneByte.doWrite? n broken.result = none) ∧
    (loopStates (writeBody broken.result) 4 (0, oneByte)).map (fun x => x.2.cleans) =
      [0, 1, 2, 3] := by
  refine ⟨by decide, by decide, fun n => ?_, by decide⟩
  rw [doWrite?_eq (by decide) (by decide), loop_error broken (by decide) rfl, Option.map_none]

end ClientConn

end Lrlb.Reactor
