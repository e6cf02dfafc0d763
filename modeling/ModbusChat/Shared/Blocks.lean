import Mathlib.Data.List.Basic
import Mathlib.Tactic.Common

set_option autoImplicit false

-- A stream carries blocks one behind the other. Its reader gathers a block in as many pieces as the
-- stream yields, and tells from the part it has how much more it may ask for.

namespace Blocks

variable {α β : Type}

structure Format (α β : Type) where
  Valid : β → Prop
  encode : β → List α
  decode : List α → Option β
  wanted : List α → Nat
  nonempty {block : β} : Valid block → encode block ≠ []
  decode_encode {block : β} : Valid block → decode (encode block) = some block
  wanted_whole {block : β} : Valid block → wanted (encode block) = 0
  -- Never more than belongs to the block.
  wanted_part {block : β} {part rest : List α} : Valid block →
    encode block = part ++ rest → rest ≠ [] →
    0 < wanted part ∧ wanted part ≤ rest.length

namespace Format

variable (format : Format α β)

-- What the reader has of the first block, and what is ahead of it, make up the blocks.
structure Holds (taken ahead : List α) (blocks : List β) : Prop where
  valid : ∀ block ∈ blocks, format.Valid block
  stream : taken ++ ahead = (blocks.map format.encode).flatten
  within : ∀ first ∈ blocks.head?, taken.length ≤ (format.encode first).length

end Format

namespace Format.Holds

variable {format : Format α β} {taken ahead : List α} {blocks : List β} {first : β}

theorem nothing : format.Holds [] [] [] where
  valid := by simp
  stream := rfl
  within := by simp

theorem eq_nil (holds : format.Holds taken ahead []) : taken = [] ∧ ahead = [] := by
  simpa using holds.stream

theorem blocks_eq_nil (holds : format.Holds [] [] blocks) : blocks = [] := by
  cases blocks with
  | nil => rfl
  | cons first more =>
    have empty : format.encode first = [] := by
      have stream := holds.stream.symm
      rw [List.map_cons, List.flatten_cons, List.append_nil] at stream
      exact (List.append_eq_nil_iff.mp stream).1
    exact absurd empty (format.nonempty (holds.valid first (by simp)))

theorem cut (holds : format.Holds taken ahead (first :: blocks)) :
    ∃ rest, format.encode first = taken ++ rest ∧
      ahead = rest ++ (blocks.map format.encode).flatten := by
  have stream := holds.stream
  rw [List.map_cons, List.flatten_cons] at stream
  obtain ⟨rest, whole, behind⟩ | ⟨rest, longer, -⟩ := List.append_eq_append_iff.mp stream
  · exact ⟨rest, whole, behind⟩
  · have short := holds.within first rfl
    rw [longer, List.length_append] at short
    have empty : rest = [] := List.eq_nil_of_length_eq_zero (by omega)
    subst empty
    rw [List.append_nil] at longer
    refine ⟨[], by rw [longer, List.append_nil], ?_⟩
    rw [longer] at stream
    exact List.append_cancel_left stream

theorem append (holds : format.Holds taken ahead blocks) {last : β} (valid : format.Valid last) :
    format.Holds taken (ahead ++ format.encode last) (blocks ++ [last]) where
  valid := by
    intro block member
    obtain earlier | same := List.mem_append.mp member
    · exact holds.valid block earlier
    · rwa [List.mem_singleton.mp same]
  stream := by
    rw [← List.append_assoc, holds.stream]
    simp
  within := by
    cases blocks with
    | nil => simp [holds.eq_nil.1]
    | cons first more => simpa using holds.within

theorem appendAll (holds : format.Holds taken ahead blocks) {later : List β}
    (valid : ∀ block ∈ later, format.Valid block) :
    format.Holds taken (ahead ++ (later.map format.encode).flatten) (blocks ++ later) := by
  induction later generalizing ahead blocks with
  | nil => simpa using holds
  | cons block later ih =>
    have next :=
      ih (holds.append (valid block (by simp))) fun other member => valid other (by simp [member])
    simpa using next

theorem take (holds : format.Holds taken ahead blocks) {count : Nat}
    (few : count ≤ format.wanted taken) :
    format.Holds (taken ++ ahead.take count) (ahead.drop count) blocks where
  valid := holds.valid
  stream := by rw [List.append_assoc, List.take_append_drop, holds.stream]
  within := by
    cases blocks with
    | nil => simp
    | cons first more =>
      obtain ⟨rest, whole, ahead⟩ := holds.cut
      have fitting : count ≤ rest.length := by
        by_cases done : rest = []
        · rw [done, List.append_nil] at whole
          have complete := format.wanted_whole (holds.valid first (by simp))
          rw [whole] at complete
          omega
        · exact Nat.le_trans few (format.wanted_part (holds.valid first (by simp)) whole done).2
      intro block same
      obtain rfl := Option.some.inj same
      rw [whole, ahead, List.take_append_of_le_length fitting, List.length_append,
        List.length_append, List.length_take]
      omega

theorem whole (holds : format.Holds taken ahead blocks) (begun : taken ≠ [])
    (done : format.wanted taken = 0) :
    ∃ first more, blocks = first :: more ∧ taken = format.encode first ∧
      format.Holds [] ahead more := by
  cases blocks with
  | nil => exact absurd holds.eq_nil.1 begun
  | cons first more =>
    obtain ⟨rest, whole, ahead⟩ := holds.cut
    have complete : rest = [] := by
      by_contra left
      have asks := (format.wanted_part (holds.valid first (by simp)) whole left).1
      omega
    subst complete
    refine ⟨first, more, rfl, by rw [whole, List.append_nil], ?_⟩
    exact ⟨fun block member => holds.valid block (by simp [member]), by simpa using ahead, by simp⟩

theorem rest_ahead (holds : format.Holds taken ahead blocks) (begun : taken ≠ [])
    (asks : format.wanted taken ≠ 0) : ahead ≠ [] := by
  rintro rfl
  cases blocks with
  | nil => exact begun holds.eq_nil.1
  | cons first more =>
    obtain ⟨rest, whole, ahead⟩ := holds.cut
    have complete : rest = [] := (List.append_eq_nil_iff.mp ahead.symm).1
    rw [complete, List.append_nil] at whole
    exact asks (whole ▸ format.wanted_whole (holds.valid first (by simp)))

end Format.Holds

end Blocks
