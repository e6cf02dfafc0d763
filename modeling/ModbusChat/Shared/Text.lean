import Mathlib.Data.List.DropRight
import Mathlib.Data.List.Forall2
import ModbusChat.Shared.Bytes

set_option autoImplicit false

-- The pieces of the C++ library that line parsers are written with, on bytes of the C locale.

namespace Text

open BigEndian

def isSpace (byte : UInt8) : Bool := byte = 32 ∨ 9 ≤ byte ∧ byte ≤ 13

def isDigit (byte : UInt8) : Bool := 48 ≤ byte ∧ byte ≤ 57

theorem isDigit_iff {byte : UInt8} : isDigit byte ↔ 48 ≤ byte.toNat ∧ byte.toNat ≤ 57 := by
  simp [isDigit, UInt8.le_iff_toNat_le]

theorem isDigit_solid {byte : UInt8} (digit : isDigit byte) : isSpace byte = false := by
  have bounds := isDigit_iff.mp digit
  simp only [isSpace, UInt8.le_iff_toNat_le, ← UInt8.toNat_inj, decide_eq_false_iff_not]
  change ¬ (byte.toNat = 32 ∨ 9 ≤ byte.toNat ∧ byte.toNat ≤ 13)
  omega

def trim (text : Bytes) : Bytes := (text.dropWhile isSpace).rdropWhile isSpace

theorem trim_eq_self {text : Bytes} (solid : ∀ byte ∈ text, isSpace byte = false) :
    trim text = text := by
  cases text with
  | nil => rfl
  | cons first rest =>
    rw [trim, List.dropWhile_cons_of_neg (by simp [solid first]), List.rdropWhile_eq_self_iff]
    exact fun nonempty => by simp [solid _ (List.getLast_mem nonempty)]

-- `std::string::find` stops at the first delimiter.
theorem idxOf?_field {delimiter : UInt8} {field : Bytes} (unsplit : delimiter ∉ field)
    (rest : Bytes) :
    (field ++ delimiter :: rest).idxOf? delimiter = some field.length := by
  induction field with
  | nil => simp [List.idxOf?_cons]
  | cons byte field ih =>
    obtain ⟨apart, later⟩ := not_or.mp (mt List.mem_cons.mpr unsplit)
    have other : (byte == delimiter) = false := beq_false_of_ne fun same => apart same.symm
    simp only [List.cons_append, List.idxOf?_cons, other, Bool.false_eq_true, if_false, ih later,
      Option.map_some, List.length_cons]

-- The fields that `std::getline` reads: nothing follows a delimiter at the end.
def getlines (delimiter : UInt8) : Bytes → List Bytes
  | [] => []
  | byte :: rest =>
      if byte = delimiter then [] :: getlines delimiter rest
      else
        match getlines delimiter rest with
        | [] => [[byte]]
        | line :: lines => (byte :: line) :: lines

theorem getlines_field {delimiter : UInt8} {field : Bytes} (unsplit : delimiter ∉ field)
    (nonempty : field ≠ []) : getlines delimiter field = [field] := by
  induction field with
  | nil => exact absurd rfl nonempty
  | cons byte rest ih =>
    obtain ⟨apart, later⟩ := not_or.mp (mt List.mem_cons.mpr unsplit)
    rw [getlines, if_neg fun same => apart same.symm]
    by_cases last : rest = []
    · rw [last, getlines]
    · rw [ih later last]

theorem getlines_field_append {delimiter : UInt8} {field : Bytes} (unsplit : delimiter ∉ field)
    (rest : Bytes) :
    getlines delimiter (field ++ delimiter :: rest) = field :: getlines delimiter rest := by
  induction field with
  | nil => simp [getlines]
  | cons byte field ih =>
    obtain ⟨apart, later⟩ := not_or.mp (mt List.mem_cons.mpr unsplit)
    rw [List.cons_append, getlines, if_neg fun same => apart same.symm, ih later]

theorem getlines_ne_nil {delimiter : UInt8} {text : Bytes} (nonempty : text ≠ []) :
    getlines delimiter text ≠ [] := by
  cases text with
  | nil => exact absurd rfl nonempty
  | cons byte rest =>
    rw [getlines]
    split
    · simp
    · split <;> simp

theorem getlines_intercalate {delimiter : UInt8} {fields : List Bytes}
    (unsplit : ∀ field ∈ fields, delimiter ∉ field) (nonempty : ∀ field ∈ fields, field ≠ []) :
    getlines delimiter ([delimiter].intercalate fields) = fields := by
  induction fields with
  | nil => rfl
  | cons field fields ih =>
    obtain ⟨first, unsplit⟩ := List.forall_mem_cons.mp unsplit
    obtain ⟨present, nonempty⟩ := List.forall_mem_cons.mp nonempty
    cases fields with
    | nil => simpa using getlines_field first present
    | cons second fields =>
      rw [List.intercalate_cons_cons, List.append_assoc, List.singleton_append,
        getlines_field_append first, ih unsplit nonempty]

section Splitting

variable {delimiter : UInt8}

theorem splitOn_cons (byte : UInt8) (rest : Bytes) :
    (byte :: rest).splitOn delimiter =
      if byte = delimiter then [] :: rest.splitOn delimiter
      else (rest.splitOn delimiter).modifyHead (byte :: ·) := by
  simp only [List.splitOn, List.splitOnP_cons_eq_if_modifyHead, beq_iff_eq]

-- `std::getline` finds all fields of a text that does not end in a delimiter.
theorem getlines_eq_splitOn {text : Bytes} (nonempty : text ≠ [])
    (ended : text.getLast? ≠ some delimiter) :
    getlines delimiter text = text.splitOn delimiter := by
  induction text with
  | nil => exact absurd rfl nonempty
  | cons byte rest ih =>
    rw [getlines, splitOn_cons]
    -- behind a last delimiter `splitOn` has one more field, the empty one
    by_cases last : rest = []
    · subst last
      have other : byte ≠ delimiter := by simpa using ended
      rw [if_neg other, if_neg other]
      rfl
    · have later : rest.getLast? ≠ some delimiter := by
        rwa [List.getLast?_cons_of_ne_nil last] at ended
      rw [ih last later]
      split
      · rfl
      · cases fields : rest.splitOn delimiter with
        | nil => exact absurd fields (List.splitOn_ne_nil _ _)
        | cons field fields => rfl

theorem splitOn_ended {text : Bytes} (ended : text.getLast? = some delimiter) :
    ∃ first fields, text.splitOn delimiter = first :: (fields ++ [[]]) := by
  induction text with
  | nil => cases ended
  | cons byte rest ih =>
    rw [splitOn_cons]
    cases rest with
    | nil =>
      obtain rfl : byte = delimiter := Option.some.inj ended
      exact ⟨[], [], by simp⟩
    | cons second rest =>
      rw [List.getLast?_cons_cons] at ended
      obtain ⟨first, fields, split⟩ := ih ended
      rw [split]
      split
      · exact ⟨[], first :: fields, rfl⟩
      · exact ⟨byte :: first, fields, rfl⟩

theorem trim_cons_space {byte : UInt8} (space : isSpace byte) (text : Bytes) :
    trim (byte :: text) = trim text := by
  rw [trim, List.dropWhile_cons_of_pos space, trim]

theorem trim_concat_space {byte : UInt8} (space : isSpace byte) (text : Bytes) :
    trim (text ++ [byte]) = trim text := by
  rw [trim, List.dropWhile_append, trim]
  split
  · rename_i blank
    rw [List.isEmpty_iff.mp blank, List.dropWhile_cons_of_pos space]
    rfl
  · rw [List.rdropWhile_concat_pos _ _ _ space]

theorem splitOn_concat {byte : UInt8} (other : byte ≠ delimiter) (text : Bytes) :
    List.Forall₂ (fun longer field => longer = field ∨ longer = field ++ [byte])
      ((text ++ [byte]).splitOn delimiter) (text.splitOn delimiter) := by
  induction text with
  | nil =>
    rw [List.nil_append, splitOn_cons, if_neg other]
    exact .cons (.inr rfl) .nil
  | cons first rest ih =>
    rw [List.cons_append, splitOn_cons, splitOn_cons]
    split
    · exact .cons (.inl rfl) ih
    · -- the first byte goes to the first field, which may or may not be the last one
      revert ih
      generalize (rest ++ [byte]).splitOn delimiter = longer
      generalize rest.splitOn delimiter = fields
      rintro (_ | ⟨same | more, later⟩)
      · exact .nil
      · exact .cons (.inl (congrArg _ same)) later
      · exact .cons (.inr (congrArg _ more)) later

variable (solid : isSpace delimiter = false)
include solid

theorem splitOn_dropWhile (text : Bytes) :
    ((text.dropWhile isSpace).splitOn delimiter).map trim = (text.splitOn delimiter).map trim := by
  induction text with
  | nil => rfl
  | cons byte rest ih =>
    by_cases space : isSpace byte
    · -- a space that is dropped is no delimiter, so it belongs to the first field
      have other : byte ≠ delimiter := by
        rintro rfl
        simp [solid] at space
      rw [List.dropWhile_cons_of_pos space, ih, splitOn_cons, if_neg other]
      cases rest.splitOn delimiter with
      | nil => rfl
      | cons field fields => simp [trim_cons_space space]
    · rw [List.dropWhile_cons_of_neg space]

theorem splitOn_rdropWhile (text : Bytes) :
    ((text.rdropWhile isSpace).splitOn delimiter).map trim = (text.splitOn delimiter).map trim := by
  induction text using List.reverseRecOn with
  | nil => rfl
  | append_singleton text byte ih =>
    by_cases space : isSpace byte
    · have other : byte ≠ delimiter := by
        rintro rfl
        simp [solid] at space
      have alike : List.Forall₂ (fun longer field => trim longer = trim field)
          ((text ++ [byte]).splitOn delimiter) (text.splitOn delimiter) := by
        refine (splitOn_concat other text).imp ?_
        rintro longer field (rfl | rfl)
        · rfl
        · exact trim_concat_space space field
      rw [List.rdropWhile_concat_pos _ _ _ space, ih, ← List.forall₂_eq_eq_eq,
        List.forall₂_map_left_iff, List.forall₂_map_right_iff]
      exact alike.flip.imp fun _ _ => Eq.symm
    · rw [List.rdropWhile_concat_neg _ _ _ space]

theorem splitOn_trim (text : Bytes) :
    ((trim text).splitOn delimiter).map trim = (text.splitOn delimiter).map trim := by
  rw [trim, splitOn_rdropWhile solid, splitOn_dropWhile solid]

end Splitting

def ofDigits (digits : Bytes) : Nat :=
  digits.foldl (fun value digit => 10 * value + (digit.toNat - 48)) 0

-- An optional sign and what follows it.
def signed : Bytes → Bytes × Bytes
  | 45 :: rest => ([45], rest)
  | 43 :: rest => ([43], rest)
  | rest => ([], rest)

-- `std::stoul` in base ten: the value and the number of characters it is read from. There is no
-- value, but an exception, where no digits are found or 64 bits do not hold them.
def stoul (text : Bytes) : Option (Nat × Nat) :=
  let blank := text.takeWhile isSpace
  let (sign, unsigned) := signed (text.dropWhile isSpace)
  let digits := unsigned.takeWhile isDigit
  if digits = [] ∨ 2 ^ 64 ≤ ofDigits digits then none
  else
    -- a negative numeral is accepted and wraps around
    some (if sign = [45] then (2 ^ 64 - ofDigits digits) % 2 ^ 64 else ofDigits digits,
      blank.length + sign.length + digits.length)

-- There is neither white space nor a sign in front, which `std::stoul` would take as well.
def signless : Bytes → Bool
  | [] => true
  | byte :: _ => !isSpace byte && byte != 43 && byte != 45

theorem signless_solid {text : Bytes} (plain : signless text) :
    text.takeWhile isSpace = [] ∧ text.dropWhile isSpace = text := by
  cases text with
  | nil => exact ⟨rfl, rfl⟩
  | cons first rest =>
    simp only [signless, Bool.and_eq_true, Bool.not_eq_true'] at plain
    have solid : ¬ isSpace first = true := by simp [plain.1.1]
    exact ⟨List.takeWhile_cons_of_neg solid, List.dropWhile_cons_of_neg solid⟩

theorem signed_signless {text : Bytes} (plain : signless text) : signed text = ([], text) := by
  unfold signed
  split
  · simp [signless] at plain
  · simp [signless] at plain
  · rfl

theorem signed_unsigned {text unsigned : Bytes} (none_ : signed text = ([], unsigned)) :
    unsigned = text := by
  unfold signed at none_
  split at none_ <;> simp_all

theorem stoul_plain {text : Bytes} (plain : signless text) :
    stoul text =
      if text.takeWhile isDigit = [] ∨ 2 ^ 64 ≤ ofDigits (text.takeWhile isDigit) then none
      else some (ofDigits (text.takeWhile isDigit), (text.takeWhile isDigit).length) := by
  obtain ⟨unspaced, solid⟩ := signless_solid plain
  simp [stoul, unspaced, solid, signed_signless plain]

theorem signless_of_digits {digits : Bytes} (numeral : ∀ byte ∈ digits, isDigit byte) :
    signless digits := by
  match digits with
  | [] => rfl
  | first :: rest =>
    have digit := numeral first List.mem_cons_self
    have bounds := isDigit_iff.mp digit
    simp only [signless, isDigit_solid digit, Bool.not_false, Bool.true_and, Bool.and_eq_true,
      bne_iff_ne, ne_eq, ← UInt8.toNat_inj]
    change ¬ first.toNat = 43 ∧ ¬ first.toNat = 45
    omega

theorem stoul_digits {digits : Bytes} (numeral : ∀ byte ∈ digits, isDigit byte)
    (nonempty : digits ≠ [])
    (fits : ofDigits digits < 2 ^ 64) : stoul digits = some (ofDigits digits, digits.length) := by
  have whole : digits.takeWhile isDigit = digits := List.takeWhile_eq_self_iff.mpr numeral
  rw [stoul_plain (signless_of_digits numeral), whole, if_neg]
  exact not_or.mpr ⟨nonempty, Nat.not_le.mpr fits⟩

theorem stoul_digits_none {digits : Bytes} (numeral : ∀ byte ∈ digits, isDigit byte)
    (exceeds : 2 ^ 64 ≤ ofDigits digits) : stoul digits = none := by
  have whole : digits.takeWhile isDigit = digits := List.takeWhile_eq_self_iff.mpr numeral
  rw [stoul_plain (signless_of_digits numeral), whole, if_pos (.inr exceeds)]

def Numeral (text : Bytes) (value : Nat) : Prop :=
  text ≠ [] ∧ (∀ byte ∈ text, isDigit byte) ∧ ofDigits text = value

instance Numeral.decidable (text : Bytes) (value : Nat) : Decidable (Numeral text value) :=
  inferInstanceAs (Decidable (text ≠ [] ∧ (∀ byte ∈ text, isDigit byte) ∧ ofDigits text = value))

theorem Numeral.signless {text : Bytes} {value : Nat} (numeral : Numeral text value) :
    signless text := signless_of_digits numeral.2.1

-- A number as `std::stoul` reads it: white space, a sign and digits, where a minus wraps around.
def Reads (text : Bytes) (value : Nat) : Prop :=
  ∃ blank sign digits, text = blank ++ (sign ++ digits) ∧ (∀ byte ∈ blank, isSpace byte) ∧
    ∃ number < 2 ^ 64, Numeral digits number ∧
      ((sign = [] ∨ sign = [43]) ∧ value = number ∨ sign = [45] ∧
        value = (2 ^ 64 - number) % 2 ^ 64)

theorem signed_cases (text : Bytes) :
    text = (signed text).1 ++ (signed text).2 ∧
      ((signed text).1 = [] ∨ (signed text).1 = [43] ∨ (signed text).1 = [45]) := by
  unfold signed
  split
  · exact ⟨rfl, .inr (.inr rfl)⟩
  · exact ⟨rfl, .inr (.inl rfl)⟩
  · exact ⟨rfl, .inl rfl⟩

theorem signed_append {sign digits : Bytes} (numeral : ∀ byte ∈ digits, isDigit byte)
    (known : sign = [] ∨ sign = [43] ∨ sign = [45]) : signed (sign ++ digits) = (sign, digits) := by
  rcases known with rfl | rfl | rfl
  · exact signed_signless (signless_of_digits numeral)
  · rfl
  · rfl

theorem dropWhile_sign {sign digits : Bytes} (numeral : ∀ byte ∈ digits, isDigit byte)
    (known : sign = [] ∨ sign = [43] ∨ sign = [45]) :
    (sign ++ digits).takeWhile isSpace = [] ∧
      (sign ++ digits).dropWhile isSpace = sign ++ digits := by
  rcases known with rfl | rfl | rfl
  · exact signless_solid (signless_of_digits numeral)
  · exact ⟨rfl, rfl⟩
  · exact ⟨rfl, rfl⟩

theorem stoul_whole {text : Bytes} {value : Nat} :
    stoul text = some (value, text.length) ↔ Reads text value := by
  constructor
  · intro read
    obtain ⟨parts, known⟩ := signed_cases (text.dropWhile isSpace)
    simp only [stoul] at read
    generalize signed (text.dropWhile isSpace) = signed at read parts known
    obtain ⟨sign, unsigned⟩ := signed
    dsimp only at read parts known
    by_cases refused : unsigned.takeWhile isDigit = [] ∨
      2 ^ 64 ≤ ofDigits (unsigned.takeWhile isDigit)
    · rw [if_pos refused] at read
      cases read
    · rw [if_neg refused] at read
      obtain ⟨worth, whole⟩ := Prod.mk.inj (Option.some.inj read)
      have split : text = text.takeWhile isSpace ++ (sign ++ unsigned) := by
        rw [← parts, List.takeWhile_append_dropWhile]
      -- all of the text is read, so all that follows the sign is digits
      have digits : unsigned.takeWhile isDigit = unsigned := by
        refine (List.takeWhile_prefix isDigit).eq_of_length ?_
        have total := congrArg List.length split
        rw [List.length_append, List.length_append] at total
        omega
      rw [digits] at refused worth
      obtain ⟨present, fits⟩ := not_or.mp refused
      refine ⟨_, sign, unsigned, split, fun byte member => List.mem_takeWhile_imp member, _,
        Nat.not_le.mp fits, ⟨present, List.takeWhile_eq_self_iff.mp digits, rfl⟩, ?_⟩
      rcases known with rfl | rfl | rfl
      · exact .inl ⟨.inl rfl, worth.symm⟩
      · exact .inl ⟨.inr rfl, worth.symm⟩
      · exact .inr ⟨rfl, worth.symm⟩
  · rintro ⟨blank, sign, digits, rfl, spaces, number, fits, ⟨nonempty, numeral, rfl⟩, worth⟩
    have known : sign = [] ∨ sign = [43] ∨ sign = [45] := by tauto
    obtain ⟨unspaced, solid⟩ := dropWhile_sign numeral known
    have whole : digits.takeWhile isDigit = digits := List.takeWhile_eq_self_iff.mpr numeral
    have accepted : ¬ (digits = [] ∨ 2 ^ 64 ≤ ofDigits digits) :=
      not_or.mpr ⟨nonempty, Nat.not_le.mpr fits⟩
    simp only [stoul, List.takeWhile_append_of_pos spaces, List.dropWhile_append_of_pos spaces,
      unspaced, solid, signed_append numeral known, whole, if_neg accepted, List.append_nil,
      List.length_append]
    rcases worth with ⟨rfl | rfl, rfl⟩ | ⟨rfl, rfl⟩
    · simp
    · simp [Nat.add_assoc]
    · simp [Nat.add_assoc]

theorem reads_signless {text : Bytes} (plain : signless text) {value : Nat} :
    Reads text value ↔ Numeral text value ∧ value < 2 ^ 64 := by
  constructor
  · rintro ⟨blank, sign, digits, rfl, spaces, number, fits, numeral, worth⟩
    cases blank with
    | nil =>
      rcases worth with ⟨rfl | rfl, rfl⟩ | ⟨rfl, rfl⟩
      · exact ⟨numeral, fits⟩
      · simp [signless] at plain
      · simp [signless] at plain
    | cons byte blank => simp [signless, spaces byte] at plain
  · rintro ⟨numeral, fits⟩
    exact ⟨[], [], text, rfl, by simp, value, fits, numeral, .inl ⟨.inl rfl, rfl⟩⟩

theorem stoul_signless {text : Bytes} (plain : signless text) {value : Nat} :
    stoul text = some (value, text.length) ↔ Numeral text value ∧ value < 2 ^ 64 :=
  stoul_whole.trans (reads_signless plain)

-- `std::stoi` in base ten, which may stop before the end of the text. There is no value, but an
-- exception, where no digits are found or 32 bits do not hold the number.
def stoi (text : Bytes) : Option Int :=
  let (sign, unsigned) := signed (text.dropWhile isSpace)
  let digits := unsigned.takeWhile isDigit
  let value : Int := if sign = [45] then -ofDigits digits else ofDigits digits
  if digits = [] ∨ value < -2 ^ 31 ∨ 2 ^ 31 ≤ value then none else some value

def isBlank (byte : UInt8) : Bool := byte = 32 ∨ byte = 9

def trimBlanks (text : Bytes) : Bytes := (text.dropWhile isBlank).rdropWhile isBlank

theorem isBlank_space {byte : UInt8} (blank : isBlank byte) : isSpace byte := by
  obtain rfl | rfl : byte = 32 ∨ byte = 9 := by simpa [isBlank] using blank
  all_goals rfl

theorem isDigit_not_blank {byte : UInt8} (digit : isDigit byte) : isBlank byte = false := by
  cases blank : isBlank byte with
  | false => rfl
  | true =>
    have space := isBlank_space blank
    rw [isDigit_solid digit] at space
    cases space

section Numerals

variable {left digits right : Bytes} {value : Nat}

theorem scan_numeral (spaces : ∀ byte ∈ left, isSpace byte) (numeral : Numeral digits value)
    (ended : ∀ byte ∈ right, isDigit byte = false) :
    let text := left ++ (digits ++ right)
    text.takeWhile isSpace = left ∧ signed (text.dropWhile isSpace) = ([], digits ++ right) ∧
      (digits ++ right).takeWhile isDigit = digits ∧
      (digits ++ right).dropWhile isDigit = right := by
  obtain ⟨nonempty, all, -⟩ := numeral
  have plain : signless (digits ++ right) := by
    have front := signless_of_digits all
    cases digits with
    | nil => exact absurd rfl nonempty
    | cons first rest => exact front
  obtain ⟨unspaced, solid⟩ := signless_solid plain
  have none_ : right.takeWhile isDigit = [] ∧ right.dropWhile isDigit = right := by
    cases right with
    | nil => exact ⟨rfl, rfl⟩
    | cons first rest =>
      have stop : ¬ isDigit first = true := by simp [ended first]
      exact ⟨List.takeWhile_cons_of_neg stop, List.dropWhile_cons_of_neg stop⟩
  refine ⟨?_, ?_, ?_, ?_⟩
  · rw [List.takeWhile_append_of_pos spaces, unspaced, List.append_nil]
  · rw [List.dropWhile_append_of_pos spaces, solid, signed_signless plain]
  · rw [List.takeWhile_append_of_pos all, none_.1, List.append_nil]
  · rw [List.dropWhile_append_of_pos all, none_.2]

theorem trimBlanks_numeral (before : ∀ byte ∈ left, isBlank byte)
    (after : ∀ byte ∈ right, isBlank byte)
    (numeral : Numeral digits value) : trimBlanks (left ++ (digits ++ right)) = digits := by
  obtain ⟨nonempty, all, -⟩ := numeral
  have front : (digits ++ right).dropWhile isBlank = digits ++ right := by
    cases digits with
    | nil => exact absurd rfl nonempty
    | cons first rest =>
      exact List.dropWhile_cons_of_neg (by simp [isDigit_not_blank (all first List.mem_cons_self)])
  rw [trimBlanks, List.dropWhile_append_of_pos before, front]
  clear front
  -- the blanks behind the digits go one by one, from the end
  induction right using List.reverseRecOn with
  | nil =>
    rw [List.append_nil, List.rdropWhile_eq_self_iff]
    exact fun present => by simp [isDigit_not_blank (all _ (List.getLast_mem present))]
  | append_singleton right byte ih =>
    obtain ⟨earlier, last⟩ := List.forall_mem_append.mp after
    rw [← List.append_assoc, List.rdropWhile_concat_pos _ _ _ (last byte List.mem_cons_self)]
    exact ih earlier

theorem exists_blanks (text : Bytes) : ∃ left right, text = left ++ (trimBlanks text ++ right) ∧
    (∀ byte ∈ left, isBlank byte) ∧ ∀ byte ∈ right, isBlank byte := by
  refine ⟨text.takeWhile isBlank, (text.dropWhile isBlank).rtakeWhile isBlank, ?_, ?_, ?_⟩
  · rw [trimBlanks, List.rdropWhile_append_rtakeWhile, List.takeWhile_append_dropWhile]
  · exact fun byte member => List.mem_takeWhile_imp member
  · exact fun byte member => List.mem_rtakeWhile_imp member

end Numerals

section Decimal

variable (value : UInt32)

theorem toDecimal_eq :
    toDecimal value = (Nat.toDigits 10 value.toNat).map fun c => UInt8.ofNat c.toNat := by
  rw [toDecimal, ascii, Nat.repr_eq_ofList_toDigits, String.toList_ofList]

theorem digit_bounds {c : Char} (digit : c.isDigit) : 48 ≤ c.toNat ∧ c.toNat ≤ 57 := by
  have both : 48 ≤ c.val ∧ c.val ≤ 57 := by simpa [Char.isDigit] using digit
  exact ⟨UInt32.le_iff_toNat_le.mp both.1, UInt32.le_iff_toNat_le.mp both.2⟩

theorem toDecimal_digits : ∀ byte ∈ toDecimal value, isDigit byte := by
  intro byte member
  rw [toDecimal_eq, List.mem_map] at member
  obtain ⟨c, digit, rfl⟩ := member
  obtain ⟨low, high⟩ := digit_bounds (Nat.isDigit_of_mem_toDigits (by decide) (by decide) digit)
  rw [isDigit_iff, UInt8.toNat_ofNat', Nat.mod_eq_of_lt (by omega)]
  exact ⟨low, high⟩

theorem toDecimal_ne_nil : toDecimal value ≠ [] := by
  rw [toDecimal_eq]
  simp

theorem ofDigits_toDecimal : ofDigits (toDecimal value) = value.toNat := by
  rw [toDecimal_eq, ofDigits, List.foldl_map]
  have same : Nat.ofDigitChars 10 (Nat.toDigits 10 value.toNat) 0 = value.toNat :=
    Nat.ofDigitChars_toDigits (by decide) (by decide)
  rw [Nat.ofDigitChars_eq_foldl] at same
  conv_rhs => rw [← same]
  refine List.foldl_ext _ _ _ fun so c member => ?_
  have bounds := digit_bounds (Nat.isDigit_of_mem_toDigits (by decide) (by decide) member)
  rw [UInt8.toNat_ofNat', Nat.mod_eq_of_lt (by omega)]
  rfl

theorem stoul_toDecimal :
    stoul (toDecimal value) = some (value.toNat, (toDecimal value).length) := by
  have small := value.toNat_lt
  rw [stoul_digits (toDecimal_digits value) (toDecimal_ne_nil value), ofDigits_toDecimal]
  rw [ofDigits_toDecimal]
  omega

end Decimal

end Text
