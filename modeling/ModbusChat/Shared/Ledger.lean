import Mathlib.Data.List.Infix
import Mathlib.Tactic.Common

set_option autoImplicit false

-- Items are accepted into a queue, and the consumer takes them out one at a time and is done with
-- each before it takes the next. The books balance while every item accepted is done, in hand or
-- queued.

namespace Ledger

variable {α : Type} {accepted done earlier queue : List α} {hand : Option α} {item : α}

def Balanced (accepted done : List α) (hand : Option α) (queue : List α) : Prop :=
  accepted = done ++ (hand.toList ++ queue)

theorem Balanced.accept (balanced : Balanced accepted done hand queue) (item : α) :
    Balanced (accepted ++ [item]) done hand (queue ++ [item]) := by
  rw [Balanced, balanced]
  simp only [List.append_assoc]

theorem Balanced.take (balanced : Balanced accepted done none (item :: queue)) :
    Balanced accepted done (some item) queue := balanced

theorem Balanced.finish (balanced : Balanced accepted done (some item) queue) :
    Balanced accepted (done ++ [item]) none queue := by
  rw [Balanced, balanced]
  simp

theorem Balanced.done_le (balanced : Balanced accepted done hand queue) : done <+: accepted :=
  ⟨_, balanced.symm⟩

theorem Balanced.taken (balanced : Balanced accepted done hand []) :
    accepted = done ++ hand.toList := by
  rw [balanced, List.append_nil]

theorem Balanced.settled (balanced : Balanced accepted done none []) : done = accepted := by
  rw [balanced.taken, Option.toList_none, List.append_nil]

-- With nothing queued, only the item in hand is not done, and it is the last that was accepted.
theorem Balanced.prefix_done_iff (balanced : Balanced accepted done hand [])
    (early : earlier <+: accepted) :
    earlier <+: done ↔ hand = none ∨ earlier ≠ accepted := by
  rw [balanced.taken] at early ⊢
  cases hand with
  | none => simpa using early
  | some item =>
    rw [Option.toList_some] at early ⊢
    have longer : ¬ done ++ [item] <+: done := by
      intro short
      have fewer := short.length_le
      rw [List.length_append, List.length_singleton] at fewer
      omega
    constructor
    · intro whole
      exact .inr fun same => longer (same ▸ whole)
    · intro apart
      exact (List.prefix_concat_iff.mp early).resolve_left (apart.resolve_left (by simp))

end Ledger
