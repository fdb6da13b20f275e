import Lrlb.Reporter.Store

/-! `get_report_status` as the workers of the reporter's server run it: the index of the queue that
gets the next message is a static variable that they all read and write without a lock. -/
namespace Lrlb.Reporter
open Lib
open Proto (ReportStatusReq)

/-- Where a worker is between the accesses of `get_report_status` to `idx`. -/
inductive Handler where
  | idle
  /-- before `reportQueues[idx]->send(req)` -/
  | send (req : ReportStatusReq)
  /-- before `idx++`, and in it with the value that was read -/
  | increment
  | incremented (v : ℕ)
  /-- before `idx=idx%thread_cnt`, and in it with the value that was read -/
  | wrap
  | wrapped (v : ℕ)
deriving DecidableEq

/-- The workers `W` of the server and the queues of the store threads. `received` is no data of the
program: it records the messages in the order in which they were put on a queue. -/
structure Turns (W : Type) where
  idx : ℕ
  handler : W → Handler
  queues : ℕ → List ReportStatusReq
  received : List ReportStatusReq

inductive TurnsAction (W : Type) where
  | call (w : W) (req : ReportStatusReq)
  | resume (w : W)

namespace Turns

variable {W : Type}

def init : Turns W := ⟨0, fun _ => .idle, fun _ => [], []⟩

/-- The worker is about to use an index past the last queue. -/
def OutOfBounds (threadCnt : ℕ) (s : Turns W) (w : W) : Prop :=
  (∃ req, s.handler w = .send req) ∧ threadCnt ≤ s.idx

/-- A message comes to a worker while no other is inside the handler. -/
def Alone (s : Turns W) : TurnsAction W → Prop
  | .call _ _ => ∀ v, s.handler v = .idle
  | .resume _ => True

instance [Fintype W] (s : Turns W) (a : TurnsAction W) : Decidable (s.Alone a) :=
  match a with
  | .call _ _ => inferInstanceAs (Decidable (∀ v, s.handler v = .idle))
  | .resume _ => inferInstanceAs (Decidable True)

/-- What the index is while one worker is inside the handler, after `r` messages. -/
def IndexAt (n idx r : ℕ) : Handler → Prop
  | .idle | .send _ => idx = r % n
  | .increment => ∃ k, r = k + 1 ∧ idx = k % n
  | .incremented v => ∃ k, r = k + 1 ∧ v = k % n
  | .wrap => ∃ k, r = k + 1 ∧ idx = k % n + 1
  | .wrapped v => ∃ k, r = k + 1 ∧ v = k % n + 1

/-- No two workers are inside the handler, and the messages have been dealt out in turn. -/
structure Serial (n : ℕ) (s : Turns W) : Prop where
  index : ∃ w, (∀ v ≠ w, s.handler v = .idle) ∧ IndexAt n s.idx s.received.length (s.handler w)
  dealt : ∀ t < n, s.queues t = share n t s.received

theorem Serial.init [Nonempty W] {n : ℕ} : Serial n (init : Turns W) :=
  ⟨⟨Classical.arbitrary W, fun _ _ => rfl, (Nat.zero_mod n).symm⟩, fun _ _ => rfl⟩

variable [DecidableEq W]

def setHandler (s : Turns W) (w : W) (h : Handler) : Turns W :=
  { s with handler := Function.update s.handler w h }

def put (s : Turns W) (req : ReportStatusReq) : Turns W :=
  { s with
    queues := Function.update s.queues s.idx (s.queues s.idx ++ [req])
    received := s.received ++ [req] }

/-- `none` is an access outside of `reportQueues`. -/
def resume? (threadCnt : ℕ) (s : Turns W) (w : W) : Option (Turns W) :=
  match s.handler w with
  | .idle => none
  | .send req =>
    if s.idx < threadCnt then some ((s.put req).setHandler w .increment) else none
  | .increment => some (s.setHandler w (.incremented s.idx))
  | .incremented v => some ({ s with idx := v + 1 }.setHandler w .wrap)
  | .wrap => some (s.setHandler w (.wrapped s.idx))
  | .wrapped v => some ({ s with idx := v % threadCnt }.setHandler w .idle)

def step? (threadCnt : ℕ) (s : Turns W) : TurnsAction W → Option (Turns W)
  | .call w req => if s.handler w = .idle then some (s.setHandler w (.send req)) else none
  | .resume w => s.resume? threadCnt w

theorem handler_setHandler_self (s : Turns W) (w : W) (h : Handler) :
    (s.setHandler w h).handler w = h := Function.update_self ..

theorem handler_setHandler_ne (s : Turns W) {v w : W} (hvw : v ≠ w) (h : Handler) :
    (s.setHandler w h).handler v = s.handler v := Function.update_of_ne hvw ..

namespace Serial

variable {n : ℕ} {s t : Turns W}

theorem call (h : Serial n s) {w : W} (req : ReportStatusReq) (halone : ∀ v, s.handler v = .idle) :
    Serial n (s.setHandler w (.send req)) := by
  obtain ⟨u, -, hindex⟩ := h.index
  rw [halone u] at hindex
  refine ⟨⟨w, ?_, ?_⟩, h.dealt⟩
  · intro v hv
    rw [handler_setHandler_ne s hv]
    exact halone v
  · rw [handler_setHandler_self]
    exact hindex

/-- The worker that is inside goes on, to a handler that fits the new index. -/
theorem next {w : W} {h : Handler} (s' : Turns W) (hothers : ∀ v ≠ w, s'.handler v = .idle)
    (hindex : IndexAt n s'.idx s'.received.length h)
    (hdealt : ∀ t < n, s'.queues t = share n t s'.received) : Serial n (s'.setHandler w h) := by
  refine ⟨⟨w, ?_, ?_⟩, hdealt⟩
  · intro v hv
    rw [handler_setHandler_ne s' hv]
    exact hothers v hv
  · rw [handler_setHandler_self]
    exact hindex

theorem resume (h : Serial n s) {w : W} (hs : s.resume? n w = some t) : Serial n t := by
  obtain ⟨u, hothers, hindex⟩ := h.index
  have hw : w = u := by
    by_contra hne
    simp [resume?, hothers w hne] at hs
  subst hw
  unfold resume? at hs
  cases hh : s.handler w with
  | idle => simp [hh] at hs
  | send req =>
    rw [hh] at hs hindex
    obtain ⟨hlt, hs⟩ := Option.ite_none_right_eq_some.mp hs
    cases hs
    have hturn : s.idx = s.received.length % n := hindex
    refine next (s.put req) hothers ⟨s.received.length, by simp [put], hturn⟩ ?_
    intro t ht
    dsimp only [put]
    rw [share_append_singleton, ← hturn, ← h.dealt t ht]
    by_cases hidx : s.idx = t
    · rw [if_pos hidx, hidx, Function.update_self]
    · rw [if_neg hidx, Function.update_of_ne (Ne.symm hidx), List.append_nil]
  | increment =>
    rw [hh] at hs hindex
    cases hs
    exact next s hothers hindex h.dealt
  | incremented v =>
    rw [hh] at hs hindex
    cases hs
    obtain ⟨k, hk, rfl⟩ := hindex
    exact next { s with idx := k % n + 1 } hothers ⟨k, hk, rfl⟩ h.dealt
  | wrap =>
    rw [hh] at hs hindex
    cases hs
    exact next s hothers hindex h.dealt
  | wrapped v =>
    rw [hh] at hs hindex
    cases hs
    obtain ⟨k, hk, rfl⟩ := hindex
    have hturn : (k % n + 1) % n = s.received.length % n := by
      rw [hk, Nat.mod_add_mod]
    exact next { s with idx := (k % n + 1) % n } hothers hturn h.dealt

theorem step {a : TurnsAction W} (h : Serial n s) (halone : s.Alone a)
    (hs : s.step? n a = some t) : Serial n t := by
  cases a with
  | call w req =>
    obtain ⟨-, hs⟩ := Option.ite_none_right_eq_some.mp hs
    cases hs
    exact h.call req halone
  | resume w => exact h.resume hs

theorem not_outOfBounds (h : Serial n s) (hn : 0 < n) (w : W) : ¬ s.OutOfBounds n w := by
  intro hout
  obtain ⟨⟨req, hreq⟩, hle⟩ := hout
  obtain ⟨u, hothers, hindex⟩ := h.index
  have hw : w = u := by
    by_contra hne
    rw [hothers w hne] at hreq
    cases hreq
  subst hw
  rw [hreq] at hindex
  have hlt : s.idx < n := by
    rw [show s.idx = s.received.length % n from hindex]
    exact Nat.mod_lt _ hn
  omega

end Serial

/-- Calls that do not overlap never leave the array of queues, and deal the messages out in turn. -/
theorem serial_calls_in_turn [Nonempty W] {n : ℕ} (hn : 0 < n) (as : List (TurnsAction W))
    (halone : ∀ x ∈ attempted (step? n) init as, Alone x.1 x.2) :
    ∀ s ∈ visited (step? n) init as,
      (∀ w, ¬ s.OutOfBounds n w) ∧ ∀ t < n, s.queues t = share n t s.received := by
  intro s hs
  have hserial : Serial n s :=
    forall_visited (P := Serial n) (fun _ _ _ h hguard hstep => h.step hguard hstep) init as
      Serial.init halone s hs
  exact ⟨hserial.not_outOfBounds hn, hserial.dealt⟩

/-- A call of one of the workers, without another in between. -/
def wholeCall (w : W) (req : ReportStatusReq) : List (TurnsAction W) :=
  [.call w req, .resume w, .resume w, .resume w, .resume w, .resume w]

theorem serial_calls_in_turn_two :
    ∃ s : Turns Bool, run? (step? 2) init (wholeCall true { } ++ wholeCall false { }) = some s ∧
      s.received.length = 2 ∧ (∀ w, ¬ s.OutOfBounds 2 w) ∧
      ∀ t < 2, s.queues t = share 2 t s.received := by
  have hrun : (run? (step? 2) (init : Turns Bool) (wholeCall true { } ++ wholeCall false { })).map
      (fun s => s.received.length) = some 2 := by decide
  obtain ⟨s, hs, hlen⟩ := Option.map_eq_some_iff.mp hrun
  have hcalls := serial_calls_in_turn (W := Bool) Nat.two_pos
    (wholeCall true { } ++ wholeCall false { }) (by decide) s (mem_visited_of_run? hs)
  exact ⟨s, hs, hlen, hcalls⟩

/-- An index past the end is put back by a worker that is still inside the handler. -/
def Wrapping (n : ℕ) (s : Turns W) : Prop :=
  s.idx < n ∨ ∃ w, s.handler w = .wrap ∨ ∃ v, s.handler w = .wrapped v

section Overlap

variable {n : ℕ} {s t : Turns W} {v w : W}

/-- Another worker than the one that wraps the index goes on. -/
theorem Wrapping.setHandler (h : Wrapping n s) (hwrap : s.handler w ≠ .wrap)
    (hwrapped : ∀ x, s.handler w ≠ .wrapped x) (hnew : Handler) :
    Wrapping n (s.setHandler w hnew) := by
  obtain hlt | ⟨u, hu⟩ := h
  · exact Or.inl hlt
  · have hne : u ≠ w := by
      rintro rfl
      obtain hu | ⟨x, hu⟩ := hu
      · exact hwrap hu
      · exact hwrapped x hu
    refine Or.inr ⟨u, ?_⟩
    rwa [handler_setHandler_ne s hne]

theorem Wrapping.step {a : TurnsAction W} (hn : 0 < n) (h : Wrapping n s)
    (hs : s.step? n a = some t) : Wrapping n t := by
  cases a with
  | call w req =>
    obtain ⟨hidle, hs⟩ := Option.ite_none_right_eq_some.mp hs
    cases hs
    exact h.setHandler (by simp [hidle]) (by simp [hidle]) _
  | resume w =>
    change s.resume? n w = some t at hs
    unfold resume? at hs
    cases hh : s.handler w with
    | idle => simp [hh] at hs
    | send req =>
      rw [hh] at hs
      obtain ⟨hlt, hs⟩ := Option.ite_none_right_eq_some.mp hs
      cases hs
      exact Or.inl hlt
    | increment =>
      rw [hh] at hs
      cases hs
      exact h.setHandler (by simp [hh]) (by simp [hh]) _
    | incremented x =>
      rw [hh] at hs
      cases hs
      exact Or.inr ⟨w, Or.inl (handler_setHandler_self ..)⟩
    | wrap =>
      rw [hh] at hs
      cases hs
      exact Or.inr ⟨w, Or.inr ⟨s.idx, handler_setHandler_self ..⟩⟩
    | wrapped x =>
      rw [hh] at hs
      cases hs
      exact Or.inl (Nat.mod_lt _ hn)

/-- While no worker is inside the handler, the index is that of a queue. -/
theorem idx_lt_of_idle (hn : 0 < n) (hr : Reachable (step? n) init s)
    (hidle : ∀ u, s.handler u = .idle) : s.idx < n := by
  have hwrapping : Wrapping n s :=
    hr.invariant (P := Wrapping n) (fun _ _ _ h hs => h.step hn hs) (Or.inl hn)
  obtain hlt | ⟨u, hu | ⟨x, hu⟩⟩ := hwrapping
  · exact hlt
  · simp [hidle u] at hu
  · simp [hidle u] at hu

/-- A whole call moves the index on. -/
theorem run_wholeCall (hidle : s.handler w = .idle) (hlt : s.idx < n) (req : ReportStatusReq) :
    run? (step? n) s (wholeCall w req) = some { s.put req with idx := (s.idx + 1) % n } := by
  have hback : Function.update s.handler w .idle = s.handler := by
    rw [← hidle, Function.update_eq_self]
  simp [wholeCall, run?, step?, resume?, setHandler, put, hidle, hlt, hback]

/-- One worker has written `idx++` for the last queue when another gets a message. -/
def overlappingCalls (v w : W) (req : ReportStatusReq) : List (TurnsAction W) :=
  [.call w req, .resume w, .resume w, .resume w, .call v req]

theorem run_overlappingCalls (hv : s.handler v = .idle) (hw : s.handler w = .idle) (hvw : v ≠ w)
    (hlast : s.idx + 1 = n) (req : ReportStatusReq) :
    ∃ t, run? (step? n) s (overlappingCalls v w req) = some t ∧ t.OutOfBounds n v := by
  have hlt : s.idx < n := by omega
  refine ⟨({ s.put req with idx := n }.setHandler w .wrap).setHandler v (.send req), ?_,
    ⟨req, handler_setHandler_self ..⟩, le_refl n⟩
  simp [overlappingCalls, run?, step?, resume?, setHandler, put, hv, hw, hvw, hlt, hlast]

theorem exists_run_outOfBounds (hidle : ∀ u, s.handler u = .idle) (hlt : s.idx < n) (hvw : v ≠ w)
    (req : ReportStatusReq) :
    ∃ as t, run? (step? n) s as = some t ∧ t.OutOfBounds n v := by
  -- by induction on the queues up to the last one
  induction hd : n - 1 - s.idx generalizing s with
  | zero =>
    have hlast : s.idx + 1 = n := by omega
    obtain ⟨t, ht, hout⟩ := run_overlappingCalls (hidle v) (hidle w) hvw hlast req
    exact ⟨_, t, ht, hout⟩
  | succ d ih =>
    have hnext : (s.idx + 1) % n = s.idx + 1 := Nat.mod_eq_of_lt (by omega)
    have hcall := run_wholeCall (hidle w) hlt req
    rw [hnext] at hcall
    obtain ⟨as, t, ht, hout⟩ := ih (s := { s.put req with idx := s.idx + 1 }) hidle
      (by dsimp only; omega) (by dsimp only; omega)
    refine ⟨wholeCall w req ++ as, t, ?_, hout⟩
    rw [run?_append, hcall, Option.bind_some, ht]

end Overlap

/-- Whatever calls came before and however they overlapped, two workers can overlap so that the
second one uses an index past the last queue. -/
theorem overlapping_calls_leave_bounds {n : ℕ} (hn : 0 < n) {s : Turns W}
    (hr : Reachable (step? n) init s) (hidle : ∀ u, s.handler u = .idle) {v w : W} (hvw : v ≠ w) :
    ∃ as t, run? (step? n) s as = some t ∧ t.OutOfBounds n v ∧ t.step? n (.resume v) = none := by
  obtain ⟨as, t, ht, hout⟩ := exists_run_outOfBounds hidle (idx_lt_of_idle hn hr hidle) hvw { }
  refine ⟨as, t, ht, hout, ?_⟩
  obtain ⟨⟨req, hreq⟩, hle⟩ := hout
  simp [step?, resume?, hreq, hle]

theorem overlapping_calls_leave_bounds_bool :
    ∃ as, ∃ t : Turns Bool, run? (step? 3) init as = some t ∧ t.OutOfBounds 3 true ∧
      t.step? 3 (.resume true) = none :=
  overlapping_calls_leave_bounds (w := false) (by decide) (Reachable.refl _) (fun _ => rfl)
    (by decide)

end Turns

end Lrlb.Reporter
