import Mathlib.Algebra.GroupWithZero.Nat
import Mathlib.Data.List.AList
import Mathlib.Data.Finset.Card

set_option autoImplicit false

/--
An unordered map; the order of its entries stands for the iteration order, which is arbitrary.
-/
abbrev Table (κ ν : Type) := AList fun _ : κ => ν

namespace Table

variable {κ ν : Type}

def values (table : Table κ ν) : List ν := table.entries.map Sigma.snd

def mapWithKey (update : κ → ν → ν) (table : Table κ ν) : Table κ ν where
  entries := table.entries.map fun entry => ⟨entry.1, update entry.1 entry.2⟩
  nodupKeys := by
    have distinct := table.nodupKeys
    rw [List.nodupKeys_iff_pairwise] at distinct ⊢
    exact List.pairwise_map.mpr distinct

def restrict (keep : κ → Bool) (table : Table κ ν) : Table κ ν where
  entries := table.entries.filter fun entry => keep entry.1
  nodupKeys := table.nodupKeys.sublist List.filter_sublist

variable [DecidableEq κ]

theorem lookup_mapWithKey (update : κ → ν → ν) (table : Table κ ν) (key : κ) :
    (table.mapWithKey update).lookup key = (table.lookup key).map (update key) := by
  obtain ⟨entries, distinct⟩ := table
  change List.dlookup key
      (entries.map fun entry => (⟨entry.1, update entry.1 entry.2⟩ : Sigma fun _ : κ => ν)) =
    (List.dlookup key entries).map (update key)
  clear distinct
  induction entries with
  | nil => rfl
  | cons entry entries ih =>
    obtain ⟨first, value⟩ := entry
    rw [List.map_cons]
    by_cases same : key = first
    · subst same
      simp only [List.dlookup_cons_eq, Option.map_some]
    · rw [List.dlookup_cons_ne _ _ same, List.dlookup_cons_ne _ _ same, ih]

theorem lookup_restrict (keep : κ → Bool) (table : Table κ ν) (key : κ) :
    (table.restrict keep).lookup key = if keep key then table.lookup key else none := by
  obtain ⟨entries, distinct⟩ := table
  change List.dlookup key (entries.filter fun entry => keep entry.1) =
    if keep key then List.dlookup key entries else none
  clear distinct
  induction entries with
  | nil => simp
  | cons entry entries ih =>
    obtain ⟨first, value⟩ := entry
    by_cases same : key = first
    · subst same
      by_cases kept : keep key
      · simp only [List.filter_cons, kept, if_true, List.dlookup_cons_eq]
      · simpa [List.filter_cons, kept] using ih
    · rw [List.dlookup_cons_ne _ _ same, ← ih, List.filter_cons]
      split
      · rw [List.dlookup_cons_ne _ _ same]
      · rfl

theorem mem_values {table : Table κ ν} {value : ν} :
    value ∈ table.values ↔ ∃ key, table.lookup key = some value := by
  simp only [values, List.mem_map, Sigma.exists, AList.mem_lookup_iff.symm, Option.mem_def]
  constructor
  · rintro ⟨key, _, found, rfl⟩
    exact ⟨key, found⟩
  · rintro ⟨key, found⟩
    exact ⟨key, value, found, rfl⟩

theorem mem_iff_lookup {table : Table κ ν} {key : κ} :
    key ∈ table ↔ ∃ value, table.lookup key = some value := by
  rw [← AList.lookup_isSome, Option.isSome_iff_exists]

theorem lookup_insert_eq (table : Table κ ν) (key other : κ) (value : ν) :
    (table.insert key value).lookup other = if other = key then some value
      else table.lookup other := by
  split_ifs with same
  · rw [same, AList.lookup_insert]
  · exact AList.lookup_insert_ne same

theorem lookup_erase_eq (table : Table κ ν) (key other : κ) :
    (table.erase key).lookup other = if other = key then none else table.lookup other := by
  split_ifs with same
  · rw [same, AList.lookup_erase]
  · exact AList.lookup_erase_ne same

section Lists

variable {owned : ν → Prop} {number other : ν → Option κ} {table : Table κ ν}

-- Each of these values stands under the key that its owner has for it, and under no other.
def Lists (table : Table κ ν) (owned : ν → Prop) (number : ν → Option κ) : Prop :=
  ∀ key value, owned value → (table.lookup key = some value ↔ number value = some key)

theorem Lists.of_same (lists : table.Lists owned number) {later : Table κ ν}
    (same : ∀ key, later.lookup key = table.lookup key)
    (numbers : ∀ value, owned value → other value = number value) : later.Lists owned other := by
  intro key value held
  rw [same, numbers value held]
  exact lists key value held

theorem Lists.insert [DecidableEq ν] (lists : table.Lists owned number) {key : κ} {value : ν}
    (fresh : table.lookup key = none) (unheld : number value = none) :
    Lists (table.insert key value) owned (Function.update number value (some key)) := by
  intro place content held
  rw [lookup_insert_eq, Function.update_apply]
  split_ifs with here this this
  · simp [here, this]
  · have absent := (lists key content held).mpr.mt (by simp [fresh])
    simpa [here, Ne.symm this] using absent
  · have absent := (lists place content held).mp.mt (by simp [this, unheld])
    simpa [Ne.symm here] using absent
  · exact lists place content held

theorem Lists.erase [DecidableEq ν] (lists : table.Lists owned number) (key : κ) :
    Lists (table.erase key) owned
      fun value => if number value = some key then none else number value := by
  intro place content held
  have listed := lists place content held
  rw [lookup_erase_eq]
  grind

end Lists

-- A table that the entries of another are put into, in whatever order they come.
theorem lookup_foldl_insert {entries : List ((_ : κ) × ν)} (distinct : entries.NodupKeys)
    (table : Table κ ν) (key : κ) :
    (entries.foldl (fun table entry => table.insert entry.1 entry.2) table).lookup key =
      (entries.dlookup key).or (table.lookup key) := by
  induction entries generalizing table with
  | nil => rfl
  | cons entry entries ih =>
    obtain ⟨first, value⟩ := entry
    obtain ⟨fresh, distinct⟩ := List.nodupKeys_cons.mp distinct
    rw [List.foldl_cons, ih distinct, lookup_insert_eq]
    by_cases same : key = first
    · subst same
      rw [List.dlookup_eq_none.mpr fresh, List.dlookup_cons_eq, if_pos rfl]
      rfl
    · rw [List.dlookup_cons_ne _ _ same, if_neg same]

@[simp] theorem lookup_none (key : κ) : (∅ : Table κ ν).lookup key = none := AList.lookup_empty key

section Total

def total (measure : ν → Nat) (table : Table κ ν) : Nat := (table.values.map measure).sum

def size (table : Table κ ν) : Nat := table.entries.length

theorem perm_insert {table : Table κ ν} {key : κ} {value : ν}
    (found : table.lookup key = some value) (next : ν) :
    ∃ others : List ((_ : κ) × ν), table.entries.Perm (⟨key, value⟩ :: others) ∧
      (table.insert key next).entries = ⟨key, next⟩ :: others := by
  refine ⟨table.entries.kerase key, ?_, AList.entries_insert⟩
  have member : (⟨key, value⟩ : (_ : κ) × ν) ∈ table.entries :=
    List.of_mem_dlookup (Option.mem_def.mpr found)
  obtain ⟨entries, distinct⟩ := table
  change entries.Perm (_ :: entries.kerase key)
  dsimp only at member
  clear found
  induction entries with
  | nil => cases member
  | cons entry entries ih =>
    obtain ⟨fresh, distinct⟩ := List.nodupKeys_cons.mp distinct
    rcases List.mem_cons.mp member with rfl | later
    · rw [List.kerase_cons_eq (by rfl)]
    · have apart : key ≠ entry.1 := by
        rintro same
        exact fresh (same ▸ List.mem_keys_of_mem later)
      rw [List.kerase_cons_ne apart]
      exact ((ih distinct later).cons entry).trans (.swap _ _ _)

theorem total_insert {table : Table κ ν} {key : κ} {value : ν}
    (found : table.lookup key = some value) (measure : ν → Nat) (next : ν) :
    total measure (table.insert key next) + measure value = total measure table + measure next := by
  obtain ⟨others, before, after⟩ := perm_insert found next
  have sum := ((before.map Sigma.snd).map measure).sum_nat
  simp only [List.map_cons, List.sum_cons] at sum
  simp only [total, values, after, sum, List.map_cons, List.sum_cons]
  omega

theorem size_insert {table : Table κ ν} {key : κ} {value : ν}
    (found : table.lookup key = some value)
    (next : ν) : size (table.insert key next) = size table := by
  obtain ⟨others, before, after⟩ := perm_insert found next
  rw [size, size, after, before.length_eq, List.length_cons, List.length_cons]

omit [DecidableEq κ] in
theorem size_restrict_mapWithKey (update : κ → ν → ν) (keep : κ → Bool) (table : Table κ ν) :
    size ((table.mapWithKey update).restrict keep) ≤ size table :=
  (List.length_filter_le _ _).trans_eq (List.length_map _)

theorem total_restrict_mapWithKey {update : κ → ν → ν} {keep : κ → Bool} {table : Table κ ν}
    {before after : ν → Nat} {growth : Nat}
    (grows : ∀ key value, table.lookup key = some value →
      after (update key value) ≤ before value + growth) :
    total after ((table.mapWithKey update).restrict keep) ≤
      total before table + size table * growth := by
  have each (entry : (_ : κ) × ν) (member : entry ∈ table.entries) :
      after (update entry.1 entry.2) ≤ before entry.2 + growth :=
    grows _ _ (Option.mem_def.mp (List.mem_dlookup table.nodupKeys member))
  obtain ⟨entries, distinct⟩ := table
  simp only [total, values, restrict, mapWithKey, size] at each ⊢
  clear distinct grows
  induction entries with
  | nil => simp
  | cons entry entries ih =>
    have here := each entry List.mem_cons_self
    have rest := ih fun entry member => each entry (List.mem_cons_of_mem _ member)
    rw [List.map_cons, List.filter_cons]
    split <;> simp only [List.map_cons, List.sum_cons, List.length_cons, Nat.succ_mul] <;> omega

end Total

end Table
