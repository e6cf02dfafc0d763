import Mathlib.Data.List.Basic
import Mathlib.Tactic.Common

set_option autoImplicit false

-- An exception stops a computation but undoes nothing: the state and the output produced before it
-- stand, as in a language where a handler sees the effects of the code it interrupts.

namespace Effects

@[simp] theorem ok_bind {ε α β : Type} (value : α) (next : α → Except ε β) :
    (Except.ok value >>= next) = next value := rfl

@[simp] theorem error_bind {ε α β : Type} (failure : ε) (next : α → Except ε β) :
    (Except.error failure >>= next) = .error failure := rfl

@[simp] theorem except_pure {ε α : Type} (value : α) :
    (pure value : Except ε α) = .ok value := rfl

@[simp] theorem except_throw {ε α : Type} (failure : ε) :
    (throw failure : Except ε α) = .error failure := rfl

theorem bind_eq_ok {ε α β : Type} {first : Except ε α} {next : α → Except ε β} {result : β} :
    (first >>= next) = .ok result ↔ ∃ value, first = .ok value ∧ next value = .ok result := by
  cases first with
  | error failure => simp
  | ok value => simp

structure Outcome (σ ω ε α : Type) where
  state : σ
  output : List ω
  result : Except ε α

structure Action (σ ω ε α : Type) where
  run : σ → Outcome σ ω ε α

variable {σ ω ε α β : Type}

namespace Outcome

def before (earlier : List ω) (outcome : Outcome σ ω ε α) : Outcome σ ω ε α :=
  { outcome with output := earlier ++ outcome.output }

def andThen (outcome : Outcome σ ω ε α) (next : α → Action σ ω ε β) : Outcome σ ω ε β :=
  match outcome with
  | ⟨state, output, .ok value⟩ => ((next value).run state).before output
  | ⟨state, output, .error failure⟩ => ⟨state, output, .error failure⟩

def orElse (outcome : Outcome σ ω ε α) (handler : ε → Action σ ω ε α) : Outcome σ ω ε α :=
  match outcome with
  | ⟨state, output, .ok value⟩ => ⟨state, output, .ok value⟩
  | ⟨state, output, .error failure⟩ => ((handler failure).run state).before output

@[simp] theorem before_nil (outcome : Outcome σ ω ε α) : outcome.before [] = outcome := rfl

@[simp] theorem before_mk (earlier output : List ω) (state : σ) (result : Except ε α) :
    (Outcome.mk state output result).before earlier = ⟨state, earlier ++ output, result⟩ := rfl

@[simp] theorem before_state (earlier : List ω) (outcome : Outcome σ ω ε α) :
    (outcome.before earlier).state = outcome.state := rfl

@[simp] theorem before_output (earlier : List ω) (outcome : Outcome σ ω ε α) :
    (outcome.before earlier).output = earlier ++ outcome.output := rfl

@[simp] theorem before_result (earlier : List ω) (outcome : Outcome σ ω ε α) :
    (outcome.before earlier).result = outcome.result := rfl

@[simp] theorem andThen_ok (state : σ) (output : List ω) (value : α) (next : α → Action σ ω ε β) :
    (Outcome.mk state output (.ok value)).andThen next =
      ((next value).run state).before output := rfl

@[simp] theorem andThen_error (state : σ) (output : List ω) (failure : ε)
    (next : α → Action σ ω ε β) :
    (Outcome.mk state output (.error failure)).andThen next = ⟨state, output, .error failure⟩ := rfl

@[simp] theorem orElse_ok (state : σ) (output : List ω) (value : α) (handler : ε → Action σ ω ε α) :
    (Outcome.mk state output (.ok value)).orElse handler = ⟨state, output, .ok value⟩ := rfl

@[simp] theorem orElse_error (state : σ) (output : List ω) (failure : ε)
    (handler : ε → Action σ ω ε α) :
    (Outcome.mk state output (.error failure)).orElse handler =
      ((handler failure).run state).before output := rfl

theorem andThen_result {outcome : Outcome σ ω ε α} {value : α}
    (returned : outcome.result = .ok value) (next : α → Action σ ω ε β) :
    (outcome.andThen next).result = ((next value).run outcome.state).result := by
  obtain ⟨state, output, _⟩ := outcome
  obtain rfl := returned
  rfl

theorem orElse_result {outcome : Outcome σ ω ε α} {value : α}
    (returned : outcome.result = .ok value)
    (handler : ε → Action σ ω ε α) : outcome.orElse handler = outcome := by
  obtain ⟨state, output, _⟩ := outcome
  obtain rfl := returned
  rfl

theorem before_orElse (earlier : List ω) (outcome : Outcome σ ω ε α)
    (handler : ε → Action σ ω ε α) :
    (outcome.before earlier).orElse handler = (outcome.orElse handler).before earlier := by
  rcases outcome with ⟨state, output, failure | value⟩
  · simp [before]
  · rfl

end Outcome

namespace Action

instance : Monad (Action σ ω ε) where
  pure value := ⟨fun state => ⟨state, [], .ok value⟩⟩
  bind action next := ⟨fun state => (action.run state).andThen next⟩

def get : Action σ ω ε σ := ⟨fun state => ⟨state, [], .ok state⟩⟩

def modify (update : σ → σ) : Action σ ω ε Unit := ⟨fun state => ⟨update state, [], .ok ()⟩⟩

def emit (event : ω) : Action σ ω ε Unit := ⟨fun state => ⟨state, [event], .ok ()⟩⟩

def emitAll (events : List ω) : Action σ ω ε Unit := ⟨fun state => ⟨state, events, .ok ()⟩⟩

def lift (value : Except ε α) : Action σ ω ε α := ⟨fun state => ⟨state, [], value⟩⟩

def tryCatch (action : Action σ ω ε α) (handler : ε → Action σ ω ε α) : Action σ ω ε α :=
  ⟨fun state => (action.run state).orElse handler⟩

@[simp] theorem run_pure (value : α) (state : σ) :
    (pure value : Action σ ω ε α).run state = ⟨state, [], .ok value⟩ := rfl

@[simp] theorem run_bind (action : Action σ ω ε α) (next : α → Action σ ω ε β) (state : σ) :
    (action >>= next).run state = (action.run state).andThen next := rfl

@[simp] theorem run_get (state : σ) :
    (get : Action σ ω ε σ).run state = ⟨state, [], .ok state⟩ := rfl

@[simp] theorem run_modify (update : σ → σ) (state : σ) :
    (modify update : Action σ ω ε Unit).run state = ⟨update state, [], .ok ()⟩ := rfl

@[simp] theorem run_emit (event : ω) (state : σ) :
    (emit event : Action σ ω ε Unit).run state = ⟨state, [event], .ok ()⟩ := rfl

@[simp] theorem run_emitAll (events : List ω) (state : σ) :
    (emitAll events : Action σ ω ε Unit).run state = ⟨state, events, .ok ()⟩ := rfl

@[simp] theorem run_lift (value : Except ε α) (state : σ) :
    (lift value : Action σ ω ε α).run state = ⟨state, [], value⟩ := rfl

@[simp] theorem run_tryCatch (action : Action σ ω ε α) (handler : ε → Action σ ω ε α) (state : σ) :
    (tryCatch action handler).run state = (action.run state).orElse handler := rfl

def Keeps (action : Action σ ω ε α) : Prop := ∀ state, (action.run state).state = state

theorem keeps_pure (value : α) : (pure value : Action σ ω ε α).Keeps := fun _ => rfl

theorem keeps_emit (event : ω) : (emit event : Action σ ω ε Unit).Keeps := fun _ => rfl

theorem keeps_emitAll (events : List ω) : (emitAll events : Action σ ω ε Unit).Keeps := fun _ => rfl

theorem keeps_lift (value : Except ε α) : (lift value : Action σ ω ε α).Keeps := fun _ => rfl

theorem keeps_get : (get : Action σ ω ε σ).Keeps := fun _ => rfl

theorem state_bind {action : Action σ ω ε α} {next : α → Action σ ω ε β}
    (kept : ∀ value, (next value).Keeps) (state : σ) :
    ((action >>= next).run state).state = (action.run state).state := by
  rw [run_bind]
  rcases action.run state with ⟨after, output, _ | value⟩
  · rfl
  · exact kept value after

theorem Keeps.bind {action : Action σ ω ε α} {next : α → Action σ ω ε β} (first : action.Keeps)
    (rest : ∀ value, (next value).Keeps) : (action >>= next).Keeps := by
  intro state
  rw [state_bind rest, first state]

theorem state_tryCatch {action : Action σ ω ε α} {handler : ε → Action σ ω ε α}
    (kept : ∀ failure, (handler failure).Keeps) (state : σ) :
    ((tryCatch action handler).run state).state = (action.run state).state := by
  rw [run_tryCatch]
  rcases action.run state with ⟨after, output, failure | value⟩
  · exact kept failure after
  · rfl

theorem result_bind {action : Action σ ω ε α} {next : α → Action σ ω ε β} {state : σ} {value : β}
    (returned : ((action >>= next).run state).result = .ok value) :
    ∃ first, (action.run state).result = .ok first ∧
      ((next first).run (action.run state).state).result = .ok value := by
  rw [run_bind] at returned
  generalize action.run state = outcome at returned
  obtain ⟨after, output, failure | first⟩ := outcome
  · cases returned
  · exact ⟨first, rfl, returned⟩

theorem mem_output_bind {action : Action σ ω ε α} {next : α → Action σ ω ε β}
    {state : σ} {event : ω} (member : event ∈ ((action >>= next).run state).output) :
    event ∈ (action.run state).output ∨ ∃ value, (action.run state).result = .ok value ∧
      event ∈ ((next value).run (action.run state).state).output := by
  rw [run_bind] at member
  generalize action.run state = outcome at member
  obtain ⟨after, output, failure | value⟩ := outcome
  · exact .inl member
  · rw [Outcome.andThen_ok, Outcome.before_output, List.mem_append] at member
    exact member.imp id fun late => ⟨value, rfl, late⟩

theorem mem_output_tryCatch {action : Action σ ω ε α} {handler : ε → Action σ ω ε α} {state : σ}
    {event : ω} (member : event ∈ ((tryCatch action handler).run state).output) :
    event ∈ (action.run state).output ∨ ∃ failure, (action.run state).result = .error failure ∧
      event ∈ ((handler failure).run (action.run state).state).output := by
  rw [run_tryCatch] at member
  generalize action.run state = outcome at member
  obtain ⟨after, output, failure | value⟩ := outcome
  · rw [Outcome.orElse_error, Outcome.before_output, List.mem_append] at member
    exact member.imp id fun late => ⟨failure, rfl, late⟩
  · exact .inl member

section Emits

variable {may : ω → Prop}

def Emits (may : ω → Prop) (action : Action σ ω ε α) : Prop :=
  ∀ state, ∀ event ∈ (action.run state).output, may event

theorem emits_pure (value : α) : (pure value : Action σ ω ε α).Emits may := by
  intro state event member
  cases member

theorem emits_get : (get : Action σ ω ε σ).Emits may := by
  intro state event member
  cases member

theorem emits_modify (update : σ → σ) : (modify update : Action σ ω ε Unit).Emits may := by
  intro state event member
  cases member

theorem emits_lift (value : Except ε α) : (lift value : Action σ ω ε α).Emits may := by
  intro state event member
  cases member

theorem emits_emit {event : ω} (holds : may event) :
    (emit event : Action σ ω ε Unit).Emits may := by
  intro state other member
  exact List.mem_singleton.mp member ▸ holds

theorem emits_emitAll {events : List ω} (hold : ∀ event ∈ events, may event) :
    (emitAll events : Action σ ω ε Unit).Emits may := fun _ => hold

theorem Emits.bind {action : Action σ ω ε α} {next : α → Action σ ω ε β} (first : action.Emits may)
    (rest : ∀ value, (next value).Emits may) : (action >>= next).Emits may := by
  intro state event member
  rcases mem_output_bind member with early | ⟨value, -, late⟩
  · exact first state event early
  · exact rest value _ event late

theorem Emits.tryCatch {action : Action σ ω ε α} {handler : ε → Action σ ω ε α}
    (tried : action.Emits may) (handled : ∀ failure, (handler failure).Emits may) :
    (tryCatch action handler).Emits may := by
  intro state event member
  rcases mem_output_tryCatch member with early | ⟨failure, -, late⟩
  · exact tried state event early
  · exact handled failure _ event late

end Emits

section Maintains

variable {inv : σ → Prop}

def Maintains (inv : σ → Prop) (action : Action σ ω ε α) : Prop :=
  ∀ state, inv state → inv (action.run state).state

theorem Keeps.maintains {action : Action σ ω ε α} (keeps : action.Keeps) : action.Maintains inv :=
  fun state holds => (keeps state).symm ▸ holds

theorem maintains_modify {update : σ → σ} (kept : ∀ state, inv state → inv (update state)) :
    (modify update : Action σ ω ε Unit).Maintains inv :=
  kept

theorem Maintains.bind {action : Action σ ω ε α} {next : α → Action σ ω ε β}
    (first : action.Maintains inv)
    (rest : ∀ state value, (action.run state).result = .ok value → (next value).Maintains inv) :
    (action >>= next).Maintains inv := by
  intro state holds
  have kept := first state holds
  rw [run_bind]
  cases returned : (action.run state).result with
  | error failure =>
    generalize action.run state = outcome at kept returned
    obtain ⟨after, output, _⟩ := outcome
    obtain rfl := returned
    exact kept
  | ok value =>
    have later := rest state value returned
    generalize action.run state = outcome at kept returned
    obtain ⟨after, output, _⟩ := outcome
    obtain rfl := returned
    exact later after kept

end Maintains

end Action

end Effects
