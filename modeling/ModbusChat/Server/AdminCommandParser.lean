import ModbusChat.Shared.Text

set_option autoImplicit false

namespace ModbusChat.Server

open BigEndian Text

def kBanPrefixText : Bytes := ascii "ban:"

-- One id of a ban command, or none where the source gives up on the line.
def parseBannedId (token : Bytes) : Option UInt32 :=
  let token := trim token
  if token = [] then none
  else
    match stoul token with
    | none => none
    | some (value, consumed) =>
        if consumed ≠ token.length ∨ value = 0 ∨ value > 0xFFFFFFFF then none
        else some (UInt32.ofNat value)

def parseAdminCommand (line : Bytes) : Option (List UInt32) :=
  let trimmed := trim line
  if trimmed = [] then none
  else if ¬ kBanPrefixText.isPrefixOf trimmed then none
  else
    let idsPart := trim (trimmed.drop kBanPrefixText.length)
    if idsPart = [] then none
    else
      match (getlines 44 idsPart).mapM parseBannedId with
      | none | some [] => none
      | some ids => some ids

def adminHelpText : Bytes := ascii "Admin commands: ban:1,2,3"

theorem parseBannedId_toDecimal {id : UInt32} (nonzero : id ≠ 0) :
    parseBannedId (toDecimal id) = some id := by
  have solid : ∀ byte ∈ toDecimal id, isSpace byte = false := fun byte member =>
    isDigit_solid (toDecimal_digits id byte member)
  have positive : id.toNat ≠ 0 := fun zero => nonzero (UInt32.toNat_inj.mp zero)
  have small := id.toNat_lt
  simp only [parseBannedId, trim_eq_self solid, if_neg (toDecimal_ne_nil id), stoul_toDecimal]
  rw [if_neg (by omega), UInt32.ofNat_toNat]

theorem parseBannedId_ne_zero {token : Bytes} {id : UInt32}
    (parsed : parseBannedId token = some id) :
    id ≠ 0 := by
  simp only [parseBannedId] at parsed
  split_ifs at parsed
  split at parsed
  · cases parsed
  · rename_i value consumed read
    split_ifs at parsed with refused
    rw [← Option.some.inj parsed, ne_eq, ← UInt32.toNat_inj, UInt32.toNat_ofNat']
    simp only [not_or] at refused
    rw [Nat.mod_eq_of_lt (by omega)]
    exact refused.2.1

def banLine (ids : List UInt32) : Bytes := kBanPrefixText ++ [44].intercalate (ids.map toDecimal)

theorem mem_intercalate {separator : UInt8} {fields : List Bytes} {byte : UInt8}
    (member : byte ∈ [separator].intercalate fields) :
    byte = separator ∨ ∃ field ∈ fields, byte ∈ field := by
  induction fields with
  | nil => simp at member
  | cons field fields ih =>
    cases fields with
    | nil => exact .inr ⟨field, by simp, by simpa using member⟩
    | cons second fields =>
      rw [List.intercalate_cons_cons, List.mem_append, List.mem_append,
        List.mem_singleton] at member
      rcases member with (first | separating) | later
      · exact .inr ⟨field, by simp, first⟩
      · exact .inl separating
      · obtain same | ⟨other, among, inside⟩ := ih later
        · exact .inl same
        · exact .inr ⟨other, List.mem_cons_of_mem _ among, inside⟩

theorem banLine_solid (ids : List UInt32) :
    ∀ byte ∈ [44].intercalate (ids.map toDecimal), isSpace byte = false := by
  intro byte member
  obtain rfl | ⟨field, among, inside⟩ := mem_intercalate member
  · rfl
  · obtain ⟨id, -, rfl⟩ := List.mem_map.mp among
    exact isDigit_solid (toDecimal_digits id byte inside)

theorem mapM_parseBannedId {ids : List UInt32} (nonzero : 0 ∉ ids) :
    (ids.map toDecimal).mapM parseBannedId = some ids := by
  induction ids with
  | nil => rfl
  | cons id ids ih =>
    obtain ⟨first, rest⟩ := not_or.mp (mt List.mem_cons.mpr nonzero)
    simp [parseBannedId_toDecimal fun same => first same.symm, ih rest]

theorem mapM_ne_zero {fields : List Bytes} {ids : List UInt32}
    (parsed : fields.mapM parseBannedId = some ids) : 0 ∉ ids := by
  induction fields generalizing ids with
  | nil => simp_all
  | cons field fields ih =>
    simp only [List.mapM_cons, Option.bind_eq_bind, Option.bind_eq_some_iff] at parsed
    obtain ⟨id, first, rest, later, same⟩ := parsed
    obtain rfl := Option.some.inj same
    simp [(parseBannedId_ne_zero first).symm, ih later]

theorem parseAdminCommand_banLine {ids : List UInt32} (nonempty : ids ≠ []) (nonzero : 0 ∉ ids) :
    parseAdminCommand (banLine ids) = some ids := by
  have solid := banLine_solid ids
  have start : kBanPrefixText.all (isSpace · = false) := by decide
  have line : ∀ byte ∈ banLine ids, isSpace byte = false := by
    refine List.forall_mem_append.mpr ⟨fun byte member => ?_, solid⟩
    exact of_decide_eq_true (List.all_eq_true.mp start byte member)
  have fields : getlines 44 ([44].intercalate (ids.map toDecimal)) = ids.map toDecimal := by
    apply getlines_intercalate
    · intro field member comma
      obtain ⟨id, -, rfl⟩ := List.mem_map.mp member
      exact absurd (toDecimal_digits id 44 comma) (by decide)
    · intro field member
      obtain ⟨id, -, rfl⟩ := List.mem_map.mp member
      exact toDecimal_ne_nil id
  have some : [44].intercalate (ids.map toDecimal) ≠ [] := by
    intro empty
    rw [empty] at fields
    exact nonempty (List.map_eq_nil_iff.mp fields.symm)
  have present : banLine ids ≠ [] := List.append_ne_nil_of_left_ne_nil (by decide) _
  have prefixed : kBanPrefixText.isPrefixOf (banLine ids) :=
    List.isPrefixOf_iff_prefix.mpr (List.prefix_append _ _)
  simp only [parseAdminCommand, trim_eq_self line, if_neg present, prefixed, not_true_eq_false,
    if_false]
  simp only [banLine, List.drop_left, trim_eq_self solid, if_neg some, fields,
    mapM_parseBannedId nonzero]

theorem parseAdminCommand_range {ids : List UInt32} :
    (∃ line, parseAdminCommand line = some ids) ↔ ids ≠ [] ∧ 0 ∉ ids := by
  constructor
  · rintro ⟨line, parsed⟩
    simp only [parseAdminCommand] at parsed
    split_ifs at parsed
    split at parsed
    · cases parsed
    · cases parsed
    · rename_i nonempty found
      obtain rfl := Option.some.inj parsed
      exact ⟨nonempty, mapM_ne_zero found⟩
  · rintro ⟨nonempty, nonzero⟩
    exact ⟨banLine ids, parseAdminCommand_banLine nonempty nonzero⟩

section Grammar

variable {line token : Bytes} {id : UInt32} {ids : List UInt32}

def WritesId (token : Bytes) (id : UInt32) : Prop := Numeral token id.toNat ∧ id ≠ 0

/-- The intended ban commands: `ban:` and a list of numerals between commas. -/
def BanGrammar (line : Bytes) (ids : List UInt32) : Prop :=
  ∃ list, trim line = kBanPrefixText ++ list ∧
    List.Forall₂ WritesId ((list.splitOn 44).map trim) ids

/-- No comma ends the list, and none of its elements has a sign. -/
def Strict (line : Bytes) : Prop :=
  ∀ list, trim line = kBanPrefixText ++ list →
    (trim list).getLast? ≠ some 44 ∧ ((list.splitOn 44).map trim).all signless

-- An id as it is taken, with a sign as well.
def ReadsId (token : Bytes) (id : UInt32) : Prop := Reads token id.toNat ∧ id ≠ 0

-- Some element is no id at all, signed or not; nothing counts as an element behind a comma at the
-- end.
def Spoilt (line : Bytes) : Prop :=
  ∃ list, trim line = kBanPrefixText ++ list ∧ ∃ field ∈ getlines 44 (trim list), ∀ id,
    ¬ ReadsId (trim field) id

theorem readsId_iff (plain : signless token) : ReadsId token id ↔ WritesId token id := by
  have small := id.toNat_lt
  rw [ReadsId, WritesId, reads_signless plain, and_iff_left (by omega : id.toNat < 2 ^ 64)]

theorem parseBannedId_iff : parseBannedId token = some id ↔ ReadsId (trim token) id := by
  constructor
  · intro parsed
    simp only [parseBannedId] at parsed
    split_ifs at parsed
    split at parsed
    · cases parsed
    · rename_i value consumed read
      split_ifs at parsed with refused
      simp only [not_or, not_not] at refused
      obtain ⟨rfl, positive, small⟩ := refused
      obtain rfl := Option.some.inj parsed
      have inRange : value < 2 ^ 32 := by omega
      have same := UInt32.toNat_ofNat_of_lt' inRange
      refine ⟨?_, fun zero => positive ?_⟩
      · rw [same]
        exact stoul_whole.mp read
      · rw [← same, zero]
        rfl
  · rintro ⟨reads, nonzero⟩
    have small := id.toNat_lt
    have positive : id.toNat ≠ 0 := fun zero => nonzero (UInt32.toNat_inj.mp zero)
    have read := stoul_whole.mpr reads
    have present : trim token ≠ [] := by
      intro empty
      rw [empty] at read
      cases read
    simp only [parseBannedId, if_neg present, read]
    rw [if_neg (by omega), UInt32.ofNat_toNat]

theorem mapM_parseBannedId_iff {fields : List Bytes} :
    fields.mapM parseBannedId = some ids ↔
      List.Forall₂ (fun field id => parseBannedId field = some id) fields ids := by
  induction fields generalizing ids with
  | nil => simp [eq_comm]
  | cons field fields ih =>
    simp only [List.mapM_cons, Option.bind_eq_bind, Option.bind_eq_some_iff, ih,
      List.forall₂_cons_left_iff]
    constructor
    · rintro ⟨id, first, rest, later, same⟩
      exact ⟨id, rest, first, later, (Option.some.inj same).symm⟩
    · rintro ⟨id, rest, first, later, rfl⟩
      exact ⟨id, first, rest, later, rfl⟩

theorem exists_mapM_iff {fields : List Bytes} :
    (∃ ids, fields.mapM parseBannedId = some ids) ↔
      ∀ field ∈ fields, ∃ id, parseBannedId field = some id := by
  induction fields with
  | nil => simp
  | cons field fields ih =>
    simp only [List.forall_mem_cons, ← ih, List.mapM_cons, Option.bind_eq_bind,
      Option.bind_eq_some_iff]
    constructor
    · rintro ⟨ids, id, first, rest, later, -⟩
      exact ⟨⟨id, first⟩, rest, later⟩
    · rintro ⟨⟨id, first⟩, rest, later⟩
      exact ⟨id :: rest, id, first, rest, later, rfl⟩

theorem parseAdminCommand_eq_some :
    parseAdminCommand line = some ids ↔
      ∃ list, trim line = kBanPrefixText ++ list ∧ trim list ≠ [] ∧ ids ≠ [] ∧
        (getlines 44 (trim list)).mapM parseBannedId = some ids := by
  constructor
  · intro parsed
    simp only [parseAdminCommand] at parsed
    split_ifs at parsed with empty other blank
    obtain ⟨list, line⟩ := List.isPrefixOf_iff_prefix.mp other
    rw [← line, List.drop_left] at blank parsed
    split at parsed
    · cases parsed
    · cases parsed
    · rename_i nonempty found
      obtain rfl := Option.some.inj parsed
      exact ⟨list, line.symm, blank, nonempty, found⟩
  · rintro ⟨list, line, present, nonempty, parsed⟩
    have banned : kBanPrefixText.isPrefixOf (kBanPrefixText ++ list) :=
      List.isPrefixOf_iff_prefix.mpr (List.prefix_append _ _)
    have some : kBanPrefixText ++ list ≠ [] := List.append_ne_nil_of_left_ne_nil (by decide) _
    simp only [parseAdminCommand, line, if_neg some, banned, not_true_eq_false, if_false,
      List.drop_left, if_neg present, parsed]

theorem BanGrammar.strict (grammar : BanGrammar line ids) : Strict line := by
  obtain ⟨list, bytes, written⟩ := grammar
  intro other same
  obtain rfl := List.append_cancel_left (bytes.symm.trans same)
  have refined : List.Forall₂ (fun token id => (token ≠ [] ∧ signless token) ∧ WritesId token id)
      ((list.splitOn 44).map trim) ids :=
    written.imp fun token id writes => ⟨⟨writes.1.1, writes.1.signless⟩, writes⟩
  have tokens := ((List.forall₂_and_left _ _).mp refined).1
  constructor
  · -- a list that ends in a comma has an empty last element, which is no numeral
    intro ended
    obtain ⟨first, fields, split⟩ := splitOn_ended ended
    have last : trim [] ∈ (list.splitOn 44).map trim := by
      rw [← splitOn_trim (by decide), split]
      simp
    exact (tokens _ last).1 rfl
  · exact List.all_eq_true.mpr fun token member => (tokens token member).2

theorem Strict.mapM_iff (strict : Strict line) {list : Bytes}
    (bytes : trim line = kBanPrefixText ++ list) (present : trim list ≠ []) :
    (getlines 44 (trim list)).mapM parseBannedId = some ids ↔
      List.Forall₂ WritesId ((list.splitOn 44).map trim) ids := by
  obtain ⟨ended, plain⟩ := strict list bytes
  -- the parser trims the list before it cuts it, the grammar only trims the pieces
  have solid : isSpace 44 = false := by decide
  rw [← splitOn_trim solid] at plain ⊢
  rw [getlines_eq_splitOn present ended, mapM_parseBannedId_iff, List.forall₂_map_left_iff]
  have plain : ∀ field ∈ (trim list).splitOn 44, signless (trim field) := fun field member =>
    List.all_eq_true.mp plain _ (List.mem_map_of_mem member)
  constructor
  · intro parsed
    refine ((List.forall₂_and_left _ _).mpr ⟨plain, parsed⟩).imp ?_
    rintro field id ⟨unsigned, read⟩
    exact (readsId_iff unsigned).mp (parseBannedId_iff.mp read)
  · intro written
    refine ((List.forall₂_and_left _ _).mpr ⟨plain, written⟩).imp ?_
    rintro field id ⟨unsigned, writes⟩
    exact parseBannedId_iff.mpr ((readsId_iff unsigned).mpr writes)

theorem banGrammar_iff :
    BanGrammar line ids ↔ Strict line ∧ parseAdminCommand line = some ids := by
  rw [parseAdminCommand_eq_some]
  constructor
  · intro grammar
    have strict := grammar.strict
    refine ⟨strict, ?_⟩
    obtain ⟨list, bytes, written⟩ := grammar
    have present : trim list ≠ [] := by
      intro blank
      rw [← splitOn_trim (by decide), blank] at written
      cases written with
      | cons first rest => exact first.1.1 rfl
    have nonempty : ids ≠ [] := by
      rintro rfl
      exact List.splitOn_ne_nil 44 list
        (List.map_eq_nil_iff.mp (List.forall₂_nil_right_iff.mp written))
    exact ⟨list, bytes, present, nonempty, (strict.mapM_iff bytes present).mpr written⟩
  · rintro ⟨strict, list, bytes, present, -, parsed⟩
    exact ⟨list, bytes, (strict.mapM_iff bytes present).mp parsed⟩

theorem Spoilt.refused (spoilt : Spoilt line) : parseAdminCommand line ≠ some ids := by
  obtain ⟨list, bytes, field, among, unread⟩ := spoilt
  intro parsed
  obtain ⟨other, same, -, -, read⟩ := parseAdminCommand_eq_some.mp parsed
  obtain rfl := List.append_cancel_left (bytes.symm.trans same)
  obtain ⟨id, first⟩ := exists_mapM_iff.mp ⟨ids, read⟩ field among
  exact unread id (parseBannedId_iff.mp first)

-- What is neither strict nor spoilt is accepted, a comma too many and signs included.
theorem exists_ids (lax : ¬ Strict line) (unspoilt : ¬ Spoilt line) :
    ∃ ids, parseAdminCommand line = some ids := by
  simp only [Strict, not_forall] at lax
  obtain ⟨list, bytes, loose⟩ := lax
  have present : trim list ≠ [] := by
    intro blank
    refine loose ⟨by simp [blank], ?_⟩
    rw [← splitOn_trim (by decide), blank]
    rfl
  have read : ∀ field ∈ getlines 44 (trim list), ∃ id, parseBannedId field = some id := by
    intro field among
    by_contra unread
    simp only [not_exists, parseBannedId_iff] at unread
    exact unspoilt ⟨list, bytes, field, among, unread⟩
  obtain ⟨ids, parsed⟩ := exists_mapM_iff.mpr read
  have nonempty : ids ≠ [] := by
    rintro rfl
    exact getlines_ne_nil present (List.forall₂_nil_right_iff.mp (mapM_parseBannedId_iff.mp parsed))
  exact ⟨ids, parseAdminCommand_eq_some.mpr ⟨list, bytes, present, nonempty, parsed⟩⟩

/-- The parser accepts what it is meant to, and nothing else, exactly on these lines. -/
theorem parseAdminCommand_grammar (line : Bytes) :
    (∀ ids, parseAdminCommand line = some ids ↔ BanGrammar line ids) ↔
      Strict line ∨ Spoilt line := by
  constructor
  · intro exact_
    by_contra neither
    obtain ⟨lax, unspoilt⟩ := not_or.mp neither
    obtain ⟨ids, parsed⟩ := exists_ids lax unspoilt
    exact lax ((exact_ ids).mp parsed).strict
  · rintro (strict | spoilt) ids
    · rw [banGrammar_iff, and_iff_right strict]
    · exact iff_of_false spoilt.refused fun grammar => spoilt.refused (banGrammar_iff.mp grammar).2

-- A comma too many and a negative number are both taken for user 1.
theorem parseAdminCommand_lenient :
    (parseAdminCommand (ascii "ban:1,") = some [1] ∧ ¬ BanGrammar (ascii "ban:1,") [1]) ∧
      parseAdminCommand (ascii "ban:-18446744073709551615") = some [1] ∧
        ¬ BanGrammar (ascii "ban:-18446744073709551615") [1] := by
  refine ⟨⟨by decide, fun grammar => ?_⟩, by decide, fun grammar => ?_⟩
  · exact (grammar.strict (ascii "1,") (by decide)).1 (by decide)
  · exact absurd (grammar.strict (ascii "-18446744073709551615") (by decide)).2 (by decide)

end Grammar

end ModbusChat.Server
