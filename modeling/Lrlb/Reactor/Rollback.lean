import Lrlb.Lib.Rotation
import Lrlb.Reactor.OutputBuf

/-! What is left of the unsent bytes when `send_message` refuses a message after it has queued
the header. -/
namespace Lrlb.Reactor
open Lib

theorem OutOk.length_le {buf : Option IoBuf} (h : OutOk buf) : (unread buf).length ≤ maxCap := by
  cases buf with
  | none => exact Nat.zero_le _
  | some b =>
    have hb := h b rfl
    have hlc := hb.valid.length_content
    have := hb.cap; have := hb.valid.capacity; have := hb.valid.head
    change b.content.length ≤ maxCap
    omega

section Refusal

variable {buf : Option IoBuf} {data : List UInt8}

/-- `send_data` refuses what does not fit the largest pool buffer, unless the sum of the lengths
overflows to a negative number. -/
theorem sendData_ret (raw : ℤ → UInt8) (h : OutOk buf) (hdata : data.length < 2 ^ 31) :
    (sendData raw buf data).2 = if maxCap < (unread buf).length + data.length ∧
      (unread buf).length + data.length < 2 ^ 31 then -1 else 0 := by
  have hlen : (Int32.ofNat data.length).toInt = data.length := Int32.toInt_ofNat_of_lt hdata
  unfold sendData
  cases buf with
  | none =>
    dsimp only
    have hnone := allocBuf?_eq_none_iff raw (Int32.ofNat data.length)
    cases halloc : allocBuf? raw (Int32.ofNat data.length) with
    | none =>
      have hbig := hnone.mp halloc
      rw [if_pos (by simp [unread]; omega)]
    | some b =>
      have hfit : ¬ maxCap < (Int32.ofNat data.length).toInt := fun hbig =>
        Option.some_ne_none b (halloc.symm.trans (hnone.mpr hbig))
      rw [if_neg (by simp [unread]; omega)]
  | some b₀ =>
    have hok := adjust_ok (h b₀ rfl)
    have hu : unread (some b₀) = b₀.adjust.content := by simp [unread]
    rw [hu]
    dsimp only
    rw [adjust_if_moved]
    generalize b₀.adjust = b at hok
    have hlc := hok.valid.length_content
    have hsub := hok.sub_length
    have hcap := hok.cap; have := hok.valid.capacity; have := hok.valid.head
    have hadd := toInt_add_of_nonneg (show 0 ≤ (Int32.ofNat data.length).toInt by omega)
      hok.valid.length
    split_ifs with hgrow hbig
    · rw [(allocBuf?_eq_none_iff raw _).mpr (by omega)]
    · cases halloc : allocBuf? raw (Int32.ofNat data.length + b.length) with
      | none =>
        have hlarge := (allocBuf?_eq_none_iff raw _).mp halloc
        rw [hadd] at hlarge
        split_ifs at hlarge <;> omega
      | some newBuf => rfl
    · rw [Int32.lt_iff_toInt_lt] at hgrow
      omega
    · rfl

/-- Everything `send_message` can do: the header does not fit, the message is queued, or the header
is queued and 8 bytes are taken off the front for it. -/
theorem queueMessage?_cases (h : OutOk buf) (hdata : data.length < 2 ^ 31) (msgid : Int32)
    (rawHead rawBody : ℤ → UInt8) :
    (maxCap < (unread buf).length + 8 ∧
      queueMessage? rawHead rawBody buf msgid data = some (buf.map IoBuf.adjust, -1, false)) ∨
    ((unread buf).length + 8 ≤ maxCap ∧
      ((unread buf).length + 8 + data.length ≤ maxCap ∨
        2 ^ 31 ≤ (unread buf).length + 8 + data.length) ∧
      ∃ buf' active, queueMessage? rawHead rawBody buf msgid data = some (buf', 0, active)) ∨
    ((unread buf).length + 8 ≤ maxCap ∧ maxCap < (unread buf).length + 8 + data.length ∧
      (unread buf).length + 8 + data.length < 2 ^ 31 ∧
      ∃ buf', queueMessage? rawHead rawBody buf msgid data = some (buf', -1, false) ∧
        unread buf' = (unread buf ++ MsgHead.bytes ⟨msgid, Int32.ofNat data.length⟩).drop 8) := by
  set head := MsgHead.bytes ⟨msgid, Int32.ofNat data.length⟩ with hdef
  have hlen : head.length = 8 := MsgHead.length_bytes _
  have hmax : maxCap = 4194304 := rfl
  have hunread := h.length_le
  obtain ⟨hok, hsend⟩ := sendData_spec rawHead h (show head.length ≤ 2 ^ 30 by omega)
  have hret := sendData_ret rawHead h (show head.length < 2 ^ 31 by omega)
  have hsame : (sendData rawHead buf head).2 ≠ 0 →
      (sendData rawHead buf head).1 = buf.map IoBuf.adjust := sendData_of_refused
  rw [hlen] at hret
  unfold queueMessage?
  rw [← hdef]
  generalize sendData rawHead buf head = r at hok hsend hret hsame
  obtain ⟨buf₁, ret⟩ := r
  dsimp only at hok hsend hret hsame ⊢
  split_ifs at hret with hbig <;> subst ret
  · rw [if_pos (by decide), hsame (by decide)]
    exact Or.inl ⟨hbig.1, rfl⟩
  · have hfits : (unread buf).length + 8 ≤ maxCap := by omega
    obtain ⟨-, hcon⟩ | ⟨hret, -⟩ := hsend
    swap
    · cases hret
    right
    rw [if_neg (by decide)]
    have hlen₁ : (unread buf₁).length = (unread buf).length + 8 := by
      rw [hcon, List.length_append, hlen]
    have hret := sendData_ret rawBody hok hdata
    have hsame : (sendData rawBody buf₁ data).2 ≠ 0 →
        (sendData rawBody buf₁ data).1 = buf₁.map IoBuf.adjust := sendData_of_refused
    rw [hlen₁] at hret
    generalize sendData rawBody buf₁ data = r at hret hsame
    obtain ⟨buf₂, ret⟩ := r
    dsimp only at hret hsame ⊢
    split_ifs at hret with hbig <;> subst ret
    · obtain ⟨hok₂, hcon₂⟩ := hok.adjust
      rw [← hsame (by decide)] at hok₂ hcon₂
      obtain ⟨b, hpop, -, hb⟩ := hok₂.rollback (by rw [hcon₂]; omega)
      refine Or.inr ⟨hfits, hbig.1, hbig.2, some b, (if_pos (by decide)).trans hpop, ?_⟩
      rw [← hcon, ← hcon₂]
      exact hb
    · exact Or.inl ⟨hfits, by omega, buf₂, _, if_neg (by decide)⟩

/-- A message that is refused leaves the unsent bytes as they were exactly if its header did not
fit, or they are the end of a repetition of that header, as no bytes at all are. -/
theorem refusal_keeps_unsent_iff (h : OutOk buf) (hdata : data.length < 2 ^ 31) (msgid : Int32)
    (rawHead rawBody : ℤ → UInt8) :
    (∀ buf' active, queueMessage? rawHead rawBody buf msgid data = some (buf', -1, active) →
        unread buf' = unread buf) ↔
      maxCap < (unread buf).length + 8 ∨ (unread buf).length + 8 + data.length ≤ maxCap ∨
        2 ^ 31 ≤ (unread buf).length + 8 + data.length ∨
        ∃ k, unread buf <:+
          (List.replicate k (MsgHead.bytes ⟨msgid, Int32.ofNat data.length⟩)).flatten := by
  have hlen : (MsgHead.bytes ⟨msgid, Int32.ofNat data.length⟩).length = 8 := MsgHead.length_bytes _
  have hne : MsgHead.bytes ⟨msgid, Int32.ofNat data.length⟩ ≠ [] := by
    intro he
    simp [he] at hlen
  have hrepeat := drop_append_eq_self_iff hne (unread buf)
  rw [hlen] at hrepeat
  rcases queueMessage?_cases h hdata msgid rawHead rawBody with
    ⟨hhead, hq⟩ | ⟨-, hfits, buf₁, act, hq⟩ | ⟨hhead, hbody, hsum, buf₁, hq, hcon⟩ <;> rw [hq]
  · refine iff_of_true ?_ (Or.inl hhead)
    rintro _ _ ⟨⟩
    exact h.adjust.2
  · refine iff_of_true ?_ (Or.inr (by omega))
    rintro _ _ ⟨⟩
  · have hno : ¬ maxCap < (unread buf).length + 8 := by omega
    have hno' : ¬ (unread buf).length + 8 + data.length ≤ maxCap := by omega
    have hno'' : ¬ 2 ^ 31 ≤ (unread buf).length + 8 + data.length := by omega
    simp only [hno, hno', hno'', false_or, ← hrepeat, ← hcon]
    constructor
    · exact fun hkeep => hkeep buf₁ false rfl
    · rintro hkeep _ _ ⟨⟩
      exact hkeep

/-- A message that is too large for the pool by its header. -/
def largeMessage : List UInt8 := List.replicate maxCap 0

theorem length_largeMessage : largeMessage.length = 4194304 := List.length_replicate

/-- Its header is queued first, if what is unsent leaves room for it. -/
theorem queueMessage?_largeMessage (h : OutOk buf) (hhead : (unread buf).length + 8 ≤ maxCap) :
    ∃ buf', queueMessage? (fun _ => 0) (fun _ => 0) buf 5 largeMessage = some (buf', -1, false) ∧
      unread buf' = (unread buf ++ MsgHead.bytes ⟨5, 4194304⟩).drop 8 := by
  have hlen := length_largeMessage
  have hlt : largeMessage.length < 2 ^ 31 := by omega
  have hmax : maxCap = 4194304 := rfl
  rcases queueMessage?_cases h hlt 5 (fun _ => 0) (fun _ => 0) with
    ⟨hbig, -⟩ | ⟨-, hfits, -⟩ | ⟨-, -, -, buf', hq, hcon⟩
  · omega
  · omega
  · rw [hlen] at hcon
    exact ⟨buf', hq, hcon⟩

/-- With nothing unsent the rollback looks right. -/
theorem refusal_keeps_unsent_empty :
    ∃ buf', queueMessage? (fun _ => 0) (fun _ => 0) none 5 largeMessage = some (buf', -1, false) ∧
      unread buf' = unread none := by
  obtain ⟨buf', hq, -⟩ := queueMessage?_largeMessage OutOk.none (by decide)
  have hlt : largeMessage.length < 2 ^ 31 := by rw [length_largeMessage]; decide
  refine ⟨buf', hq, (refusal_keeps_unsent_iff OutOk.none hlt 5 _ _).mpr ?_ buf' false hq⟩
  exact Or.inr (Or.inr (Or.inr ⟨0, List.suffix_rfl⟩))

/-- One byte is unsent: it is lost, and the end of the header is queued in its place. -/
theorem rollback_loses_byte :
    ∃ buf, OutOk buf ∧ unread buf = [1] ∧
      ∃ buf', queueMessage? (fun _ => 0) (fun _ => 0) buf 5 largeMessage = some (buf', -1, false) ∧
        unread buf' = [0] := by
  have hok : BufOk ⟨4096, 1, 0, fun _ => 1⟩ := by
    refine ⟨⟨?_, ?_, ?_⟩, ?_⟩ <;> decide
  have hunread : unread (some ⟨4096, 1, 0, fun _ => 1⟩) = [1] := by decide
  obtain ⟨buf', hq, hcon⟩ := queueMessage?_largeMessage hok.outOk (by rw [hunread]; decide)
  rw [hunread] at hcon
  exact ⟨_, hok.outOk, hunread, buf', hq, hcon.trans (by decide)⟩

end Refusal

end Lrlb.Reactor
