import ModbusChat.Shared.Effects

set_option autoImplicit false

namespace Effects

variable {σ ω ε α β τ : Type}

-- What a computation does, told as the small steps it is made of. One account of them serves every
-- property that holds of each step and carries over from one to the next.
inductive Path (step : σ → List ω → σ → Prop) : σ → List ω → σ → Prop
  | done {state : σ} : Path step state [] state
  | step {state next last : σ} {output rest : List ω} (taken : step state output next)
      (onward : Path step next rest last) : Path step state (output ++ rest) last

structure Chains (relation : σ → List ω → σ → Prop) : Prop where
  refl : ∀ state, relation state [] state
  trans : ∀ {state next last : σ} {output rest : List ω}, relation state output next →
    relation next rest last → relation state (output ++ rest) last

section Path

variable {step other relation : σ → List ω → σ → Prop} {state next last : σ} {output rest : List ω}

theorem Path.one (taken : step state output next) : Path step state output next := by
  have path := Path.step taken .done
  rwa [List.append_nil] at path

theorem Path.trans (first : Path step state output next) (second : Path step next rest last) :
    Path step state (output ++ rest) last := by
  induction first with
  | done => exact second
  | step taken onward ih =>
    rw [List.append_assoc]
    exact .step taken (ih second)

theorem Path.relates (chains : Chains relation)
    (each : ∀ {state output next}, step state output next → relation state output next)
    (path : Path step state output next) : relation state output next := by
  induction path with
  | done => exact chains.refl _
  | step taken onward ih => exact chains.trans (each taken) ih

theorem Path.mono (weaker : ∀ {state output next}, step state output next → other state output next)
    (path : Path step state output next) : Path other state output next :=
  path.relates ⟨fun _ => .done, Path.trans⟩ fun taken => .one (weaker taken)

theorem chains_view (view : σ → τ) :
    Chains fun state (_ : List ω) next => view next = view state where
  refl _ := rfl
  trans first second := second.trans first

theorem chains_emits (may : ω → Prop) :
    Chains fun (_ : σ) (output : List ω) _ => ∀ event ∈ output, may event where
  refl _ := by simp
  trans first second event member := (List.mem_append.mp member).elim (first event) (second event)

end Path

namespace Outcome

-- A computation may also throw; `thrown` bounds with what.
structure Takes (step : σ → List ω → σ → Prop) (thrown : ε → Prop) (state : σ)
    (outcome : Outcome σ ω ε α) : Prop where
  path : Path step state outcome.output outcome.state
  throws : ∀ failure, outcome.result = .error failure → thrown failure

structure Stages (first second : σ → List ω → σ → Prop) (thrown : ε → Prop) (state : σ)
    (outcome : Outcome σ ω ε α) : Prop where
  paths : ∃ early between late, Path first state early between ∧
    Path second between late outcome.state ∧
    outcome.output = early ++ late
  throws : ∀ failure, outcome.result = .error failure → thrown failure

variable {step other first second : σ → List ω → σ → Prop} {thrown : ε → Prop} {state : σ}
  {outcome : Outcome σ ω ε α}

-- The rest starts where the first part ends, with the value that it returns.
theorem Takes.bind {action : Action σ ω ε α} {next : α → Action σ ω ε β}
    (tried : (action.run state).Takes step thrown state)
    (rest : ∀ value, (action.run state).result = .ok value →
      ((next value).run (action.run state).state).Takes step thrown (action.run state).state) :
    ((action >>= next).run state).Takes step thrown state := by
  obtain ⟨path, throws⟩ := tried
  rw [Action.run_bind]
  generalize action.run state = outcome at path throws rest ⊢
  obtain ⟨after, output, failure | value⟩ := outcome
  · exact ⟨path, fun _ same => throws _ (congrArg Except.error (Except.error.inj same))⟩
  · obtain ⟨onward, throws⟩ := rest value rfl
    exact ⟨path.trans onward, throws⟩

theorem Takes.orElse {handler : ε → Action σ ω ε α} (tried : outcome.Takes step thrown state)
    (handled : ∀ failure, thrown failure →
      ((handler failure).run outcome.state).Takes step thrown outcome.state) :
    (outcome.orElse handler).Takes step thrown state := by
  obtain ⟨path, throws⟩ := tried
  obtain ⟨after, output, failure | value⟩ := outcome
  · obtain ⟨onward, throws⟩ := handled failure (throws failure rfl)
    exact ⟨path.trans onward, throws⟩
  · exact ⟨path, throws⟩

theorem Takes.mono (weaker : ∀ {state output next}, step state output next →
    other state output next)
    (takes : outcome.Takes step thrown state) : outcome.Takes other thrown state :=
  ⟨takes.path.mono weaker, takes.throws⟩

theorem Takes.early (takes : outcome.Takes first thrown state) :
    outcome.Stages first second thrown state :=
  ⟨⟨_, _, [], takes.path, .done, (List.append_nil _).symm⟩, takes.throws⟩

theorem Takes.late (takes : outcome.Takes second thrown state) :
    outcome.Stages first second thrown state :=
  ⟨⟨[], _, _, .done, takes.path, rfl⟩, takes.throws⟩

theorem Takes.bind_stages {action : Action σ ω ε α} {next : α → Action σ ω ε β}
    (tried : (action.run state).Takes first thrown state)
    (rest : ∀ value, (action.run state).result = .ok value →
      ((next value).run (action.run state).state).Stages first second thrown
        (action.run state).state) :
    ((action >>= next).run state).Stages first second thrown state := by
  obtain ⟨path, throws⟩ := tried
  rw [Action.run_bind]
  generalize action.run state = outcome at path throws rest ⊢
  obtain ⟨after, output, failure | value⟩ := outcome
  · exact Takes.early ⟨path, fun _ same => throws _ (congrArg Except.error (Except.error.inj same))⟩
  · obtain ⟨⟨early, between, late, onward, settled, same⟩, throws⟩ := rest value rfl
    refine ⟨⟨output ++ early, between, late, path.trans onward, settled, ?_⟩, throws⟩
    rw [Outcome.andThen_ok, Outcome.before_output, same, List.append_assoc]

theorem Stages.orElse {handler : ε → Action σ ω ε α}
    (tried : outcome.Stages first second thrown state) (handled : ∀ failure, thrown failure →
      ((handler failure).run outcome.state).Takes second thrown outcome.state) :
    (outcome.orElse handler).Stages first second thrown state := by
  obtain ⟨⟨early, between, late, path, settled, same⟩, throws⟩ := tried
  obtain ⟨after, output, failure | value⟩ := outcome
  · obtain ⟨onward, throws⟩ := handled failure (throws failure rfl)
    refine ⟨⟨early, between, late ++ _, path, settled.trans onward, ?_⟩, throws⟩
    rw [Outcome.orElse_error, Outcome.before_output, ← List.append_assoc]
    exact congrArg (· ++ _) same
  · exact ⟨⟨early, between, late, path, settled, same⟩, throws⟩

theorem Stages.relates {relation : σ → List ω → σ → Prop} (chains : Chains relation)
    (early : ∀ {state output next}, first state output next → relation state output next)
    (late : ∀ {state output next}, second state output next → relation state output next)
    (stages : outcome.Stages first second thrown state) :
    relation state outcome.output outcome.state := by
  obtain ⟨_, between, _, path, settled, same⟩ := stages.paths
  rw [same]
  exact chains.trans (path.relates chains early) (settled.relates chains late)

end Outcome

namespace Action

variable {step first second : σ → List ω → σ → Prop} {thrown : ε → Prop}

def Takes (step : σ → List ω → σ → Prop) (thrown : ε → Prop) (action : Action σ ω ε α) : Prop :=
  ∀ state, (action.run state).Takes step thrown state

def Stages (first second : σ → List ω → σ → Prop) (thrown : ε → Prop) (action : Action σ ω ε α) :
    Prop :=
  ∀ state, (action.run state).Stages first second thrown state

theorem takes_pure (value : α) : (pure value : Action σ ω ε α).Takes step thrown :=
  fun _ => ⟨.done, by simp⟩

theorem takes_get : (get : Action σ ω ε σ).Takes step thrown := fun _ => ⟨.done, by simp⟩

theorem takes_lift {value : Except ε α}
    (throws : ∀ failure, value = .error failure → thrown failure) :
    (lift value : Action σ ω ε α).Takes step thrown := fun _ => ⟨.done, throws⟩

theorem takes_emit {event : ω} (taken : ∀ state, step state [event] state) :
    (emit event : Action σ ω ε Unit).Takes step thrown := fun state => ⟨.one (taken state), by simp⟩

theorem takes_modify {update : σ → σ} (taken : ∀ state, step state [] (update state)) :
    (modify update : Action σ ω ε Unit).Takes step thrown :=
  fun state => ⟨.one (taken state), by simp⟩

theorem Takes.bind {action : Action σ ω ε α} {next : α → Action σ ω ε β}
    (tried : action.Takes step thrown) (rest : ∀ value, (next value).Takes step thrown) :
    (action >>= next).Takes step thrown :=
  fun state => (tried state).bind fun value _ => rest value _

theorem Takes.tryCatch {action : Action σ ω ε α} {handler : ε → Action σ ω ε α}
    (tried : action.Takes step thrown)
    (handled : ∀ failure, thrown failure → (handler failure).Takes step thrown) :
    (tryCatch action handler).Takes step thrown :=
  fun state => (tried state).orElse fun failure caught => handled failure caught _

theorem Takes.bind_stages {action : Action σ ω ε α} {next : α → Action σ ω ε β}
    (tried : action.Takes first thrown) (rest : ∀ value, (next value).Stages first second thrown) :
    (action >>= next).Stages first second thrown :=
  fun state => (tried state).bind_stages fun value _ => rest value _

theorem Stages.tryCatch {action : Action σ ω ε α} {handler : ε → Action σ ω ε α}
    (tried : action.Stages first second thrown)
    (handled : ∀ failure, thrown failure → (handler failure).Takes second thrown) :
    (tryCatch action handler).Stages first second thrown :=
  fun state => (tried state).orElse fun failure caught => handled failure caught _

end Action

end Effects
