import Mathlib.Data.Finset.Basic
import Mathlib.Tactic.Common

set_option autoImplicit false

namespace Handles

inductive Use (α : Type) where
  | acquire (handle : α)
  | touch (handle : α)
  | release (handle : α)
  deriving DecidableEq, Repr

variable {α : Type} [DecidableEq α]

def Use.after (held : Finset α) : Use α → Option (Finset α)
  | .acquire handle => if handle ∈ held then none else some (insert handle held)
  | .touch handle => if handle ∈ held then some held else none
  | .release handle => if handle ∈ held then some (held.erase handle) else none

def after (held : Finset α) (uses : List (Use α)) : Option (Finset α) := uses.foldlM Use.after held

section After

variable {held later : Finset α} {handle : α} {uses more : List (Use α)}

@[simp] theorem after_nil (held : Finset α) : after held [] = some held := rfl

theorem after_append (first : after held uses = some later) :
    after held (uses ++ more) = after later more := by
  rw [after, List.foldlM_append, ← after, first]
  rfl

theorem after_acquire (fresh : handle ∉ held) :
    after held (.acquire handle :: uses) = after (insert handle held) uses := by
  simp [after, Use.after, fresh]

theorem after_touch (member : handle ∈ held) :
    after held (.touch handle :: uses) = after held uses := by
  simp [after, Use.after, member]

theorem after_release (member : handle ∈ held) :
    after held (.release handle :: uses) = after (held.erase handle) uses := by
  simp [after, Use.after, member]

theorem after_touches (touches : ∀ use ∈ uses, ∃ handle ∈ held, use = .touch handle) :
    after held uses = some held := by
  induction uses with
  | nil => rfl
  | cons use uses ih =>
    obtain ⟨here, rest⟩ := List.forall_mem_cons.mp touches
    obtain ⟨handle, member, rfl⟩ := here
    rw [after_touch member, ih rest]

theorem Use.balanced {use : Use α} (step : use.after held = some later) (handle : α) :
    [use].count (.acquire handle) + (if handle ∈ held then 1 else 0) =
      [use].count (.release handle) + if handle ∈ later then 1 else 0 := by
  cases use with
  | acquire other =>
    by_cases present : other ∈ held
    · simp [Use.after, present] at step
    · simp only [Use.after, present, if_false, Option.some.injEq] at step
      subst step
      by_cases same : other = handle
      · subst same
        simp [present]
      · simp [same, Ne.symm same]
  | touch other =>
    by_cases present : other ∈ held
    · simp only [Use.after, present, if_true, Option.some.injEq] at step
      subst step
      simp
    · simp [Use.after, present] at step
  | release other =>
    by_cases present : other ∈ held
    · simp only [Use.after, present, if_true, Option.some.injEq] at step
      subst step
      by_cases same : other = handle
      · subst same
        simp [present]
      · simp [same, Ne.symm same]
    · simp [Use.after, present] at step

theorem balanced (proper : after held uses = some later) (handle : α) :
    uses.count (.acquire handle) + (if handle ∈ held then 1 else 0) =
      uses.count (.release handle) + if handle ∈ later then 1 else 0 := by
  induction uses generalizing held with
  | nil =>
    obtain rfl := Option.some.inj proper
    rfl
  | cons use uses ih =>
    obtain ⟨between, first, rest⟩ := Option.bind_eq_some_iff.mp (show (use.after held).bind
      (after · uses) = some later from proper)
    have now := use.balanced first handle
    have afterwards := ih rest
    rw [← List.singleton_append, List.count_append, List.count_append]
    omega

end After

end Handles
