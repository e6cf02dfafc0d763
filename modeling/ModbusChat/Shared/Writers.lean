import Mathlib.Data.Fintype.Defs
import Mathlib.Data.List.Basic
import Mathlib.Logic.Function.Basic
import ModbusChat.Shared.Runs

set_option autoImplicit false

-- Each writer puts its blocks into one stream, one after the other, a block in as many pieces as
-- the stream takes. Nothing but the condition on a run keeps the pieces of two writers apart.

namespace Writers

variable {ι β α : Type} [DecidableEq ι]

-- What a writer has written, and the block it is at with the number of its items in the stream.
structure Desk (β : Type) where
  done : List β := []
  current : Option (β × Nat) := none

structure State (ι β α : Type) where
  stream : List α := []
  desk : ι → Desk β := fun _ => {}

-- A writer turns to a block, or the stream takes up to so many items from it.
inductive Event (ι β : Type) where
  | begin (who : ι) (block : β)
  | put (who : ι) (count : Nat)

def State.move (state : State ι β α) (who : ι) (desk : Desk β) : State ι β α :=
  { state with desk := Function.update state.desk who desk }

section Step

variable (encode : β → List α)

def step (state : State ι β α) : Event ι β → State ι β α
  | .begin who block => state.move who { state.desk who with current := some (block, 0) }
  | .put who count =>
      match (state.desk who).current with
      | none => state
      | some (block, sent) =>
          let taken := ((encode block).drop sent).take count
          let sent := sent + taken.length
          { state with stream := state.stream ++ taken }.move who
            (if sent = (encode block).length then { done := (state.desk who).done ++ [block] }
              else { state.desk who with current := some (block, sent) })

end Step

def Initial (state : State ι β α) : Prop := state = {}

-- A writer finishes a block before it turns to the next, and the stream never takes nothing.
def Allowed (state : State ι β α) : Event ι β → Prop
  | .begin who _ => (state.desk who).current = none
  | .put who count => (state.desk who).current ≠ none ∧ 0 < count

def State.Midway (state : State ι β α) (who : ι) : Prop :=
  ∃ entry ∈ (state.desk who).current, 0 < entry.2

-- Nobody writes while another one is midway through a block.
def Undivided (state : State ι β α) (event : Event ι β) : Prop :=
  Allowed state event ∧
    match event with
    | .begin _ _ => True
    | .put who _ => ∀ other, other ≠ who → ¬ state.Midway other

instance Allowed.decidable (state : State ι β α) :
    (event : Event ι β) → Decidable (Allowed state event)
  | .begin who _ => inferInstanceAs (Decidable ((state.desk who).current = none))
  | .put who count => inferInstanceAs (Decidable ((state.desk who).current ≠ none ∧ 0 < count))

instance State.Midway.decidable (state : State ι β α) (who : ι) : Decidable (state.Midway who) :=
  inferInstanceAs (Decidable (∃ entry ∈ (state.desk who).current, 0 < entry.2))

instance Undivided.decidable [Fintype ι] (state : State ι β α) :
    (event : Event ι β) → Decidable (Undivided state event)
  | .begin who block => inferInstanceAs (Decidable (Allowed state (.begin who block) ∧ True))
  | .put who count => inferInstanceAs (Decidable
      (Allowed state (.put who count) ∧ ∀ other, other ≠ who → ¬ state.Midway other))

-- The blocks in the order of the stream; each writer's are in the order in which it wrote them.
def Merges (merged : List (ι × β)) (state : State ι β α) : Prop :=
  ∀ who, (merged.filter (·.1 = who)).map Prod.snd = (state.desk who).done

-- The stream is whole blocks, and then the first part of at most one block.
inductive Whole (encode : β → List α) (merged : List (ι × β)) (state : State ι β α) : Prop
  | between (stream : state.stream = merged.flatMap fun entry => encode entry.2)
      (nobody : ∀ who, ¬ state.Midway who)
  | midway {who : ι} {block : β} {sent : Nat} (at_ : (state.desk who).current = some (block, sent))
      (started : 0 < sent) (unfinished : sent < (encode block).length)
      (stream : state.stream = (merged.flatMap fun entry => encode entry.2) ++
        (encode block).take sent)
      (alone : ∀ other, other ≠ who → ¬ state.Midway other)

section Run

variable {encode : β → List α} {state : State ι β α} {merged : List (ι × β)}

@[simp] theorem move_desk (who other : ι) (desk : Desk β) :
    (state.move who desk).desk other = if other = who then desk else state.desk other := by
  simp only [State.move, Function.update_apply]

theorem midway_move_ne {who other : ι} {desk : Desk β} (apart : other ≠ who) :
    (state.move who desk).Midway other ↔ state.Midway other := by
  simp only [State.Midway, move_desk, if_neg apart]

theorem Merges.move (merges : Merges merged state) {who : ι} {desk : Desk β}
    (same : desk.done = (state.desk who).done) : Merges merged (state.move who desk) := by
  intro other
  rw [merges, move_desk]
  split_ifs with here
  · rw [here, same]
  · rfl

theorem Merges.finish (merges : Merges merged state) (who : ι) (block : β) :
    Merges (merged ++ [(who, block)])
      (state.move who { done := (state.desk who).done ++ [block] }) := by
  intro other
  rw [List.filter_append, List.map_append, merges, move_desk]
  by_cases here : other = who
  · simp [here]
  · simp [here, Ne.symm here]

theorem Whole.begin {who : ι} (block : β) (free : (state.desk who).current = none)
    (whole : Whole encode merged state) :
    Whole encode merged (step encode state (.begin who block)) := by
  have unstarted : ¬ (step encode state (.begin who block)).Midway who := by
    simp [step, State.Midway]
  cases whole with
  | between stream nobody =>
    refine .between stream fun other => ?_
    by_cases here : other = who
    · rwa [here]
    · rw [step, midway_move_ne here]
      exact nobody other
  | @midway writer held sent at_ started unfinished stream alone =>
    have apart : writer ≠ who := by
      rintro rfl
      cases free.symm.trans at_
    have kept :
        ((step encode state (.begin who block)).desk writer).current = some (held, sent) := by
      rw [step, move_desk, if_neg apart, at_]
    refine .midway kept started unfinished stream fun other elsewhere => ?_
    by_cases here : other = who
    · rwa [here]
    · rw [step, midway_move_ne here]
      exact alone other elsewhere

theorem Whole.stream_at {who : ι} {block : β} {sent : Nat}
    (at_ : (state.desk who).current = some (block, sent))
    (alone : ∀ other, other ≠ who → ¬ state.Midway other) (whole : Whole encode merged state) :
    state.stream = (merged.flatMap fun entry => encode entry.2) ++ (encode block).take sent ∧
      sent ≤ (encode block).length := by
  cases whole with
  | between stream nobody =>
    have unstarted : sent = 0 := by
      by_contra started
      exact nobody who ⟨_, at_, Nat.pos_of_ne_zero started⟩
    rw [unstarted, List.take_zero, List.append_nil]
    exact ⟨stream, Nat.zero_le _⟩
  | @midway writer held size midway started unfinished stream rest =>
    have same : writer = who := by
      by_contra apart
      exact alone writer apart ⟨_, midway, started⟩
    subst same
    obtain ⟨rfl, rfl⟩ := Prod.mk.inj (Option.some.inj (midway.symm.trans at_))
    exact ⟨stream, Nat.le_of_lt unfinished⟩

theorem Whole.put {who : ι} {count : Nat} (some_ : (state.desk who).current ≠ none)
    (positive : 0 < count) (alone : ∀ other, other ≠ who → ¬ state.Midway other)
    (merges : Merges merged state) (whole : Whole encode merged state) :
    ∃ merged, Merges merged (step encode state (.put who count)) ∧
      Whole encode merged (step encode state (.put who count)) := by
  obtain ⟨⟨block, sent⟩, at_⟩ := Option.ne_none_iff_exists'.mp some_
  obtain ⟨stream, bounded⟩ := whole.stream_at at_ alone
  have taken : (((encode block).drop sent).take count).length =
      min count ((encode block).length - sent) := by simp
  have grown : state.stream ++ ((encode block).drop sent).take count =
      (merged.flatMap fun entry => encode entry.2) ++ (encode block).take (sent + count) := by
    rw [stream, List.append_assoc, ← List.take_add]
  have others (desk : Desk β) (other : ι) (apart : other ≠ who) :
      ¬ (State.move { state with stream := state.stream ++ ((encode block).drop sent).take count }
        who desk).Midway other := by
    rw [midway_move_ne apart]
    exact alone other apart
  simp only [step, at_, taken]
  split_ifs with finished
  · -- the last piece: the block joins the merged ones
    refine ⟨merged ++ [(who, block)], Merges.finish merges who block, .between ?_ fun other => ?_⟩
    · rw [List.flatMap_append, List.flatMap_singleton]
      refine grown.trans ?_
      rw [List.take_of_length_le (by omega)]
    · by_cases here : other = who
      · simp [here, State.Midway]
      · exact others _ other here
  · -- more is left of the block, so all that was asked for was taken
    have exact_ : min count ((encode block).length - sent) = count := by omega
    refine ⟨merged, Merges.move merges rfl, ?_⟩
    rw [exact_] at finished ⊢
    have now :
        ((State.move { state with stream := state.stream ++ ((encode block).drop sent).take count }
        who { state.desk who with current := some (block, sent + count) }).desk who).current =
          some (block, sent + count) := by
      rw [move_desk, if_pos rfl]
    exact .midway now (by omega) (by omega) grown (others _)

theorem undivided_whole
    (reachable : Runs.Reachable Initial Undivided (step encode) state) :
    ∃ merged, Merges merged state ∧ Whole encode merged state := by
  refine reachable.invariant (fun state => ∃ merged, Merges merged state ∧
    Whole encode merged state)
    ?_ ?_
  · rintro state rfl
    exact ⟨[], fun _ => rfl, .between rfl fun who => by simp [State.Midway]⟩
  · rintro state event ⟨merged, merges, whole⟩ ⟨may, alone⟩
    cases event with
    | begin who block => exact ⟨merged, merges.move rfl, whole.begin block may⟩
    | put who count => exact whole.put may.1 may.2 alone merges

end Run

end Writers
