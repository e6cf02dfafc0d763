import Mathlib.Logic.Relation
import Mathlib.Tactic.Common

set_option autoImplicit false

-- A run starts in an initial state and takes events one by one; `allowed` says which events may be
-- taken in which state. Results about a system differ only in the guard they put on its runs.

namespace Runs

variable {σ ε : Type}

inductive Reachable (initial : σ → Prop) (allowed : σ → ε → Prop) (step : σ → ε → σ) : σ → Prop
  | start {state : σ} (first : initial state) : Reachable initial allowed step state
  | next {state : σ} {event : ε} (earlier : Reachable initial allowed step state)
      (may : allowed state event) : Reachable initial allowed step (step state event)

variable {initial : σ → Prop} {allowed stricter : σ → ε → Prop} {step : σ → ε → σ}

theorem Reachable.invariant (inv : σ → Prop) (start : ∀ state, initial state → inv state)
    (preserved : ∀ state event, inv state → allowed state event → inv (step state event))
    {state : σ} (reachable : Reachable initial allowed step state) : inv state := by
  induction reachable with
  | start holds => exact start _ holds
  | next _ may ih => exact preserved _ _ ih may

theorem Reachable.weaken (weaker : ∀ state event, stricter state event → allowed state event)
    {state : σ} (reachable : Reachable initial stricter step state) :
    Reachable initial allowed step state := by
  induction reachable with
  | start holds => exact .start holds
  | next _ may ih => exact .next ih (weaker _ _ may)

theorem Reachable.trans {first second : σ} (earlier : Reachable initial allowed step first)
    (later : Reachable (· = first) allowed step second) :
    Reachable initial allowed step second := by
  induction later with
  | start same => exact same ▸ earlier
  | next _ may ih => exact .next ih may

theorem Reachable.one {first second : σ} {event : ε} (may : allowed first event)
    (stepped : step first event = second) : Reachable (· = first) allowed step second := by
  subst stepped
  exact .next (.start rfl) may

def Admissible (allowed : σ → ε → Prop) (step : σ → ε → σ) : σ → List ε → Prop
  | _, [] => True
  | state, event :: events =>
    allowed state event ∧ Admissible allowed step (step state event) events

instance Admissible.decidable (allowed : σ → ε → Prop)
    [∀ state event, Decidable (allowed state event)] (step : σ → ε → σ) :
    ∀ state events, Decidable (Admissible allowed step state events)
  | _, [] => .isTrue trivial
  | state, event :: events =>
      @instDecidableAnd _ _ _ (Admissible.decidable allowed step (step state event) events)

theorem Reachable.foldl {first : σ} {events : List ε}
    (reachable : Reachable initial allowed step first)
    (admissible : Admissible allowed step first events) :
    Reachable initial allowed step (events.foldl step first) := by
  induction events generalizing first with
  | nil => exact reachable
  | cons event events ih => exact ih (reachable.next admissible.1) admissible.2

end Runs
