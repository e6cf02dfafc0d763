import ModbusChat.Shared.Runs

set_option autoImplicit false

namespace Runs

variable {σ ε ω : Type} {allowed : σ → ε → Prop} {step : σ → ε → σ}

def observed (observe : σ → ε → List ω) (step : σ → ε → σ) : σ → List ε → List ω
  | _, [] => []
  | state, event :: events => observe state event ++ observed observe step (step state event) events

theorem filterMap_observed {ρ : Type} (select : ω → Option ρ) (observe : σ → ε → List ω) (state : σ)
    (events : List ε) :
    (observed observe step state events).filterMap select =
      observed (fun state event => (observe state event).filterMap select) step state events := by
  induction events generalizing state with
  | nil => rfl
  | cons event events ih => rw [observed, observed, List.filterMap_append, ih]

def Throughout (holds : σ → Prop) (step : σ → ε → σ) : σ → List ε → Prop
  | state, [] => holds state
  | state, event :: events => holds state ∧ Throughout holds step (step state event) events

instance Throughout.decidable (holds : σ → Prop) [∀ state, Decidable (holds state)]
    (step : σ → ε → σ) : ∀ state events, Decidable (Throughout holds step state events)
  | state, [] => inferInstanceAs (Decidable (holds state))
  | state, event :: events =>
      @instDecidableAnd _ _ _ (Throughout.decidable holds step (step state event) events)

theorem Throughout.first {holds : σ → Prop} {state : σ} {events : List ε}
    (always : Throughout holds step state events) : holds state := by
  cases events with
  | nil => exact always
  | cons event events => exact always.1

theorem Admissible.throughout {holds : σ → Prop} {state : σ} {events : List ε}
    (admissible : Admissible allowed step state events)
    (always : Throughout holds step state events) :
    Admissible (fun state event => allowed state event ∧ holds state ∧ holds (step state event))
      step state events := by
  induction events generalizing state with
  | nil => trivial
  | cons event events ih =>
    exact ⟨⟨admissible.1, always.1, always.2.first⟩, ih admissible.2 always.2⟩

theorem Admissible.weaken {stricter : σ → ε → Prop}
    (weaker : ∀ state event, stricter state event → allowed state event) {state : σ}
    {events : List ε} (admissible : Admissible stricter step state events) :
    Admissible allowed step state events := by
  induction events generalizing state with
  | nil => trivial
  | cons event events ih => exact ⟨weaker _ _ admissible.1, ih admissible.2⟩

theorem Admissible.strengthen (inv : σ → Prop)
    (preserved : ∀ state event, inv state → allowed state event → inv (step state event))
    {state : σ}
    {events : List ε} (start : inv state) (admissible : Admissible allowed step state events) :
    Admissible (fun state event => inv state ∧ allowed state event) step state events := by
  induction events generalizing state with
  | nil => trivial
  | cons event events ih =>
    exact ⟨⟨start, admissible.1⟩, ih (preserved _ _ start admissible.1) admissible.2⟩

theorem Admissible.accounted {observe : σ → ε → List ω} (inv : σ → List ω → Prop)
    (preserved : ∀ state event seen, inv state seen → allowed state event →
      inv (step state event) (seen ++ observe state event)) {state : σ} {events : List ε}
    {seen : List ω} (start : inv state seen) (admissible : Admissible allowed step state events) :
    inv (events.foldl step state) (seen ++ observed observe step state events) := by
  induction events generalizing state seen with
  | nil => simpa [observed] using start
  | cons event events ih =>
    rw [observed, ← List.append_assoc]
    exact ih (preserved _ _ _ start admissible.1) admissible.2

-- What every step takes from the front of a queue and puts at its end adds up over the run.
theorem Admissible.conserved {queue : σ → List ω} {put taken : σ → ε → List ω}
    (law : ∀ state event, allowed state event →
      taken state event ++ queue (step state event) = queue state ++ put state event)
    {state : σ} {events : List ε} (admissible : Admissible allowed step state events) :
    observed taken step state events ++ queue (events.foldl step state) =
      queue state ++ observed put step state events := by
  induction events generalizing state with
  | nil => simp [observed]
  | cons event events ih =>
    calc observed taken step state (event :: events) ++ queue ((event :: events).foldl step state)
        = taken state event ++ (observed taken step (step state event) events ++
            queue (events.foldl step (step state event))) := List.append_assoc _ _ _
      _ = taken state event ++ queue (step state event) ++
            observed put step (step state event) events := by
          rw [ih admissible.2, List.append_assoc]
      _ = queue state ++ observed put step state (event :: events) := by
          rw [law _ _ admissible.1, List.append_assoc, observed]

theorem Admissible.length_le {cost : σ → Nat}
    (decreases : ∀ state event, allowed state event → cost (step state event) < cost state)
    {state : σ} {events : List ε} (admissible : Admissible allowed step state events) :
    events.length + cost (events.foldl step state) ≤ cost state := by
  induction events generalizing state with
  | nil => simp
  | cons event events ih =>
    have here := decreases _ _ admissible.1
    have later := ih admissible.2
    rw [List.length_cons, List.foldl_cons]
    omega

end Runs
