import Mathlib.Data.List.Basic
import Mathlib.Logic.Relation

/-! A queue between two parties. It is kept as everything that was put into it and everything that
has come out, so that its history can be compared with that of an implementation. -/
namespace Lrlb.Lib

structure Channel (M : Type) where
  sent : List M
  got : List M

namespace Channel

variable {M : Type} {c d : Channel M}

/-- What came out is what was put in first. -/
def Fifo (c : Channel M) : Prop := c.got <+: c.sent

/-- What is in the queue. -/
def queue (c : Channel M) : List M := c.sent.drop c.got.length

/-- A message is put in at the end, or the first one in the queue is taken out. -/
inductive Step : Channel M → Channel M → Prop
  | put (c : Channel M) (m : M) : Step c ⟨c.sent ++ [m], c.got⟩
  | get (c : Channel M) (m : M) (rest : List M) : c.queue = m :: rest → Step c ⟨c.sent, c.got ++ [m]⟩

def Steps : Channel M → Channel M → Prop := Relation.ReflTransGen Step

theorem Fifo.append_queue (h : c.Fifo) : c.got ++ c.queue = c.sent := by
  obtain ⟨rest, hrest⟩ := h
  rw [queue, ← hrest, List.drop_left]

theorem Fifo.step (h : c.Fifo) (hs : Step c d) : d.Fifo := by
  cases hs with
  | put m => exact h.trans (List.prefix_append ..)
  | get m rest hq =>
    refine ⟨rest, ?_⟩
    rw [List.append_assoc, List.singleton_append, ← hq]
    exact h.append_queue

theorem steps_put (c : Channel M) (ms : List M) : Steps c ⟨c.sent ++ ms, c.got⟩ := by
  induction ms generalizing c with
  | nil =>
    rw [List.append_nil]
    exact .refl
  | cons m ms ih =>
    have hput := ih ⟨c.sent ++ [m], c.got⟩
    rw [List.append_assoc, List.singleton_append] at hput
    exact .head (.put c m) hput

theorem steps_get (c : Channel M) {ms rest : List M} (h : c.sent = c.got ++ (ms ++ rest)) :
    Steps c ⟨c.sent, c.got ++ ms⟩ := by
  induction ms generalizing c with
  | nil =>
    rw [List.append_nil]
    exact .refl
  | cons m ms ih =>
    have hq : c.queue = m :: (ms ++ rest) := by
      rw [queue, h, List.drop_left]
      rfl
    have hget := ih ⟨c.sent, c.got ++ [m]⟩ (by rw [h]; simp)
    rw [List.append_assoc, List.singleton_append] at hget
    exact .head (.get c m _ hq) hget

/-- Histories that only grow, and in which nothing comes out of order, are those of a queue. -/
theorem steps_of_prefix (hsent : c.sent <+: d.sent) (hgot : c.got <+: d.got) (hd : d.Fifo) :
    Steps c d := by
  obtain ⟨new, hnew⟩ := hsent
  obtain ⟨out, hout⟩ := hgot
  obtain ⟨rest, hrest⟩ := hd
  have hput : Steps c ⟨d.sent, c.got⟩ := hnew ▸ steps_put c new
  have hsent : d.sent = c.got ++ (out ++ rest) := by rw [← hrest, ← hout, List.append_assoc]
  have hget : Steps ⟨d.sent, c.got⟩ ⟨d.sent, c.got ++ out⟩ := steps_get ⟨d.sent, c.got⟩ hsent
  rw [hout] at hget
  exact hput.trans hget

end Channel

end Lrlb.Lib
