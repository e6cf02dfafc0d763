import Mathlib.Data.List.Sort
import Mathlib.Data.Fintype.Card
import Mathlib.Data.FinEnum
import Mathlib.Tactic.Common

set_option autoImplicit false

instance UInt32.linearOrder : LinearOrder UInt32 where
  le_refl := UInt32.le_refl
  le_trans _ _ _ := UInt32.le_trans
  le_antisymm _ _ := UInt32.le_antisymm
  le_total := UInt32.le_total
  lt_iff_le_not_ge a b := by
    simp only [UInt32.le_iff_toNat_le, UInt32.lt_iff_toNat_lt]
    omega
  toDecidableLE := inferInstance
  toDecidableEq := inferInstance
  toDecidableLT := inferInstance

-- A finite set kept in increasing order, so that its first element is its least.
structure OrderedSet (α : Type) [LinearOrder α] where
  elements : List α
  sorted : elements.Pairwise (· < ·)

namespace OrderedSet

variable {α : Type} [LinearOrder α]

instance : Membership α (OrderedSet α) := ⟨fun set a => a ∈ set.elements⟩

instance : EmptyCollection (OrderedSet α) := ⟨⟨[], .nil⟩⟩

instance (a : α) (set : OrderedSet α) : Decidable (a ∈ set) :=
  inferInstanceAs (Decidable (a ∈ set.elements))

theorem mem_elements {a : α} {set : OrderedSet α} : a ∈ set ↔ a ∈ set.elements := Iff.rfl

@[simp] theorem notMem_empty (a : α) : a ∉ (∅ : OrderedSet α) := by
  simp [mem_elements, EmptyCollection.emptyCollection]

def insertSorted (a : α) : List α → List α
  | [] => [a]
  | b :: rest =>
    if a < b then a :: b :: rest else if a = b then b :: rest else b :: insertSorted a rest

theorem mem_insertSorted {a b : α} {list : List α} :
    b ∈ insertSorted a list ↔ b = a ∨ b ∈ list := by
  induction list with
  | nil => simp [insertSorted]
  | cons c rest ih =>
    simp only [insertSorted]
    split_ifs with less same
    · simp
    · simp [same]
    · simp only [List.mem_cons, ih]
      tauto

theorem insertSorted_sorted {a : α} {list : List α} (sorted : list.Pairwise (· < ·)) :
    (insertSorted a list).Pairwise (· < ·) := by
  induction list with
  | nil => simp [insertSorted]
  | cons b rest ih =>
    obtain ⟨below, rest_sorted⟩ := List.pairwise_cons.mp sorted
    simp only [insertSorted]
    split_ifs with less same
    · refine List.pairwise_cons.mpr ⟨?_, sorted⟩
      intro c member
      rcases List.mem_cons.mp member with rfl | member
      · exact less
      · exact lt_trans less (below c member)
    · exact sorted
    · refine List.pairwise_cons.mpr ⟨?_, ih rest_sorted⟩
      intro c member
      rcases mem_insertSorted.mp member with rfl | member
      · exact lt_of_le_of_ne (not_lt.mp less) (Ne.symm same)
      · exact below c member

def insert (a : α) (set : OrderedSet α) : OrderedSet α :=
  ⟨insertSorted a set.elements, insertSorted_sorted set.sorted⟩

def erase (a : α) (set : OrderedSet α) : OrderedSet α :=
  ⟨set.elements.erase a, set.sorted.sublist List.erase_sublist⟩

@[simp] theorem mem_insert {a b : α} {set : OrderedSet α} : b ∈ set.insert a ↔ b = a ∨ b ∈ set :=
  mem_insertSorted

@[simp] theorem mem_erase {a b : α} {set : OrderedSet α} : b ∈ set.erase a ↔ b ≠ a ∧ b ∈ set := by
  have distinct : set.elements.Nodup := set.sorted.imp fun less => ne_of_lt less
  exact distinct.mem_erase_iff

theorem erase_of_notMem {a : α} {set : OrderedSet α} (missing : a ∉ set) : set.erase a = set := by
  obtain ⟨elements, sorted⟩ := set
  simp only [erase, List.erase_of_not_mem missing]

end OrderedSet
