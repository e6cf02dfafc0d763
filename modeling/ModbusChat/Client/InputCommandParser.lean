import ModbusChat.Client.ClientViewModel
import ModbusChat.Shared.Text
import ModbusChat.Wire.Message

set_option autoImplicit false

namespace ModbusChat.Client

open BigEndian Effects Wire Text

def isNumericRecipient (text : Bytes) : Bool := !text.isEmpty && text.all isDigit

def parseIdMessage (line : Bytes) (fromId : UInt32) : Except Failure (Option (Message UInt32)) :=
  match line.idxOf? 58 with
  | none => return none
  | some pos =>
      let recipient := line.take pos
      if ¬ isNumericRecipient recipient then return none
      else
        match stoul recipient with
        -- nobody catches this exception: such a line ends the client
        | none => throw (.runtimeError "stoul")
        | some (value, _) =>
            return some { recipient := UInt32.ofNat value, payload := line.drop (pos + 1), fromId }

def parseNicknameMessage (line : Bytes) (fromId : UInt32) : Option (Message Bytes) :=
  match line.idxOf? 58 with
  | none => none
  | some pos =>
      let recipient := line.take pos
      if isNumericRecipient recipient then none
      else some { recipient, payload := line.drop (pos + 1), fromId }

def parseKeyCommand (line : Bytes) : InputCommand :=
  let rest := (line.drop 4).dropWhile fun byte => byte = 32 ∨ byte = 9
  if rest = [] then .invalid
  else
    match stoul rest with
    | none => .invalid
    | some (id, consumed) =>
        if consumed ≠ rest.length ∨ id = 0 then .invalid else .keyOffer (UInt32.ofNat id)

def parseInputLine (line : Bytes) (fromId : UInt32) : Except Failure InputCommand :=
  if line = [] then return .invalid
  else if line = ascii "/users" then return .listUsers
  else if line = ascii "/exit" ∨ line = ascii "exit" then return .exit
  else if (ascii "/key").isPrefixOf line then return parseKeyCommand line
  else do
    match ← parseIdMessage line fromId with
    | some message => return .chatById message.recipient message.payload
    | none =>
        match parseNicknameMessage line fromId with
        | some message =>
            if message.recipient = kBroadcastRecipient then return .chatBroadcast message.payload
            else return .chatByNickname message.recipient message.payload
        | none => return .invalid

-- `input_loop` on the lines that `read_line` returns, apart from the prompts it prints.
def inputLoop (cipher : Monocypher) : List Bytes → ClientM Unit
  | [] => return
  | line :: lines => do
      let client ← Action.get
      if client.running then
        if line = [] then inputLoop cipher lines
        else do
          handleInputCommand cipher (← Action.lift (parseInputLine line client.myId))
          inputLoop cipher lines
      else return

def typeIn (cipher : Monocypher) (input : Bytes) : ClientM Unit :=
  inputLoop cipher (getlines 10 input)

theorem inputLoop_line {cipher : Monocypher} {client : ClientViewModel} {line : Bytes}
    {command : InputCommand} (running : client.running = true) (nonempty : line ≠ [])
    (parsed : parseInputLine line client.myId = .ok command) :
    (inputLoop cipher [line]).run client = (handleInputCommand cipher command).run client := by
  simp only [inputLoop, Action.run_bind, Action.run_get, Outcome.andThen_ok, Outcome.before_nil,
    running, if_true, if_neg nonempty, Action.run_lift, parsed]
  generalize (handleInputCommand cipher command).run client = outcome
  obtain ⟨state, output, failure | _⟩ := outcome
  · rfl
  · simp

section Lines

variable {recipient text : Bytes} {fromId : UInt32}

theorem take_field (field rest : Bytes) : (field ++ rest).take field.length = field :=
  List.take_left

theorem drop_field (field : Bytes) (delimiter : UInt8) (rest : Bytes) :
    (field ++ delimiter :: rest).drop (field.length + 1) = rest := by
  rw [← List.drop_drop, List.drop_left, List.drop_one, List.tail_cons]

theorem parseInputLine_argument {line : Bytes} (colon : 58 ∈ line) :
    parseInputLine line fromId =
      if (ascii "/key").isPrefixOf line then .ok (parseKeyCommand line)
      else do
        match ← parseIdMessage line fromId with
        | some message => return .chatById message.recipient message.payload
        | none =>
            match parseNicknameMessage line fromId with
            | some message =>
                if message.recipient = kBroadcastRecipient then
                  return .chatBroadcast message.payload
                else return .chatByNickname message.recipient message.payload
            | none => return .invalid := by
  have other (word : Bytes) (plain : 58 ∉ word) : line ≠ word := by
    rintro rfl
    exact plain colon
  rw [parseInputLine, if_neg (other _ (by decide)), if_neg (other _ (by decide)),
    if_neg (not_or.mpr ⟨other _ (by decide), other _ (by decide)⟩), except_pure]

theorem parseInputLine_key {line : Bytes} (key : (ascii "/key").isPrefixOf line) :
    parseInputLine line fromId = .ok (parseKeyCommand line) := by
  have other (word : Bytes) (differs : ¬ (ascii "/key").isPrefixOf word) : line ≠ word := by
    rintro rfl
    exact differs key
  rw [parseInputLine, if_neg (other _ (by decide)), if_neg (other _ (by decide)),
    if_neg (not_or.mpr ⟨other _ (by decide), other _ (by decide)⟩), if_pos key, except_pure]

theorem parseInputLine_colon (unsplit : 58 ∉ recipient)
    (noKey : ¬ (ascii "/key").isPrefixOf (recipient ++ 58 :: text)) :
    parseInputLine (recipient ++ 58 :: text) fromId =
      if isNumericRecipient recipient then
        match stoul recipient with
        | none => .error (.runtimeError "stoul")
        | some (value, _) => .ok (.chatById (UInt32.ofNat value) text)
      else if recipient = kBroadcastRecipient then .ok (.chatBroadcast text)
      else .ok (.chatByNickname recipient text) := by
  rw [parseInputLine_argument (by simp), if_neg noKey]
  simp only [parseIdMessage, parseNicknameMessage, idxOf?_field unsplit, take_field, drop_field]
  by_cases numeric : isNumericRecipient recipient
  · simp only [if_pos numeric, if_neg (not_not.mpr numeric)]
    cases stoul recipient <;> rfl
  · simp only [if_pos numeric, if_neg numeric, except_pure, ok_bind]

theorem parseKeyCommand_offers (line : Bytes) :
    parseKeyCommand line = .invalid ∨ ∃ id, parseKeyCommand line = .keyOffer id := by
  simp only [parseKeyCommand]
  split_ifs
  · exact .inl rfl
  · split
    · exact .inl rfl
    · split_ifs
      · exact .inl rfl
      · exact .inr ⟨_, rfl⟩

theorem isNumericRecipient_iff {text : Bytes} :
    isNumericRecipient text ↔ text ≠ [] ∧ ∀ byte ∈ text, isDigit byte := by
  simp [isNumericRecipient]

theorem parseInputLine_byId {id : UInt32} (numeric : isNumericRecipient recipient)
    (value : ofDigits recipient = id.toNat) :
    parseInputLine (recipient ++ 58 :: text) fromId = .ok (.chatById id text) := by
  obtain ⟨nonempty, digits⟩ := isNumericRecipient_iff.mp numeric
  have unsplit : 58 ∉ recipient := fun colon => absurd (digits 58 colon) (by decide)
  have noKey : ¬ (ascii "/key").isPrefixOf (recipient ++ 58 :: text) := by
    match recipient, nonempty with
    | first :: rest, _ =>
      have digit := digits first List.mem_cons_self
      have other : ((47 : UInt8) == first) = false := by
        refine beq_false_of_ne ?_
        rintro rfl
        exact absurd digit (by decide)
      change ¬ ((47 == first) && _) = true
      rw [other]
      simp
  have small := id.toNat_lt
  have read := stoul_digits digits nonempty (by rw [value]; omega)
  simp only [parseInputLine_colon unsplit noKey, if_pos numeric, read, value, UInt32.ofNat_toNat]

theorem isNumericRecipient_toDecimal (id : UInt32) : isNumericRecipient (toDecimal id) :=
  isNumericRecipient_iff.mpr ⟨toDecimal_ne_nil id, toDecimal_digits id⟩

theorem parseInputLine_broadcast :
    parseInputLine (kBroadcastRecipient ++ 58 :: text) fromId = .ok (.chatBroadcast text) := by
  have noKey : ¬ (ascii "/key").isPrefixOf (kBroadcastRecipient ++ 58 :: text) := by
    change ¬ ((47 == 97) && _) = true
    simp
  rw [parseInputLine_colon (by decide) noKey, if_neg (by decide), if_pos rfl]

theorem parseInputLine_nickname_iff {nickname : Bytes} :
    parseInputLine (nickname ++ 58 :: text) fromId = .ok (.chatByNickname nickname text) ↔
      58 ∉ nickname ∧ ¬ (ascii "/key").isPrefixOf (nickname ++ 58 :: text) ∧
        ¬ isNumericRecipient nickname ∧ nickname ≠ kBroadcastRecipient := by
  constructor
  · intro parsed
    have noKey : ¬ (ascii "/key").isPrefixOf (nickname ++ 58 :: text) := by
      intro key
      rw [parseInputLine_key key] at parsed
      obtain invalid | ⟨id, offer⟩ := parseKeyCommand_offers (nickname ++ 58 :: text)
      · simp [invalid] at parsed
      · simp [offer] at parsed
    have unsplit : 58 ∉ nickname := by
      intro colon
      obtain ⟨field, rest, rfl, first⟩ := List.eq_append_cons_of_mem colon
      rw [List.append_assoc, List.cons_append] at parsed noKey
      rw [parseInputLine_colon first noKey] at parsed
      split_ifs at parsed
      · split at parsed <;> simp at parsed
      · simp at parsed
      · -- the parser stops at the first colon, so the nickname it reads is shorter
        have shorter :=
          congrArg List.length (InputCommand.chatByNickname.inj (Except.ok.inj parsed)).1
        simp at shorter
    rw [parseInputLine_colon unsplit noKey] at parsed
    split_ifs at parsed with numeric broadcast
    · split at parsed <;> simp at parsed
    · simp at parsed
    · exact ⟨unsplit, noKey, numeric, broadcast⟩
  · rintro ⟨unsplit, noKey, named, notAll⟩
    rw [parseInputLine_colon unsplit noKey, if_neg named, if_neg notAll]

theorem isPrefixOf_key_iff (nickname : Bytes) :
    (ascii "/key").isPrefixOf (nickname ++ 58 :: text) ↔ (ascii "/key").isPrefixOf nickname := by
  have word : ascii "/key" = [47, 107, 101, 121] := by decide
  rw [word]
  match nickname with
  | [] | [_] | [_, _] | [_, _, _] => simp [List.isPrefixOf]
  | _ :: _ :: _ :: _ :: _ => simp [List.isPrefixOf]

end Lines

section Ids

variable {line text : Bytes} {fromId id : UInt32}

-- The part of a line that names a user: what stands before the first colon, or behind `/key`.
def recipientPart (line : Bytes) : Bytes :=
  if (ascii "/key").isPrefixOf line then (line.drop 4).dropWhile fun byte => byte = 32 ∨ byte = 9
  else line.takeWhile (· != 58)

theorem takeWhile_field {field : Bytes} (unsplit : 58 ∉ field) (rest : Bytes) :
    (field ++ 58 :: rest).takeWhile (· != 58) = field := by
  induction field with
  | nil => rfl
  | cons byte field ih =>
    obtain ⟨apart, later⟩ := not_or.mp (mt List.mem_cons.mpr unsplit)
    have other : (byte != 58) = true := bne_iff_ne.mpr fun same => apart same.symm
    rw [List.cons_append, List.takeWhile_cons, if_pos other, ih later]

theorem parseInputLine_plain (colonless : 58 ∉ line) (noKey : ¬ (ascii "/key").isPrefixOf line) :
    parseInputLine line fromId = .ok .invalid ∨ parseInputLine line fromId = .ok .listUsers ∨
      parseInputLine line fromId = .ok .exit := by
  have unsplit : line.idxOf? 58 = none := List.idxOf?_eq_none_iff.mpr colonless
  unfold parseInputLine
  split_ifs
  · exact .inl rfl
  · exact .inr (.inl rfl)
  · exact .inr (.inr rfl)
  · simp [parseIdMessage, parseNicknameMessage, unsplit]

theorem numeral_of_isNumericRecipient {recipient : Bytes} (numeric : isNumericRecipient recipient) :
    Numeral recipient (ofDigits recipient) := by
  obtain ⟨nonempty, digits⟩ := isNumericRecipient_iff.mp numeric
  exact ⟨nonempty, digits, rfl⟩

theorem parseInputLine_returns_iff :
    (∃ command, parseInputLine line fromId = .ok command) ↔
      (58 ∈ line → ¬ (ascii "/key").isPrefixOf line → isNumericRecipient (recipientPart line) →
        ofDigits (recipientPart line) < 2 ^ 64) := by
  by_cases key : (ascii "/key").isPrefixOf line
  · exact iff_of_true ⟨_, parseInputLine_key key⟩ fun _ noKey => absurd key noKey
  by_cases colon : 58 ∈ line
  · obtain ⟨field, rest, rfl, first⟩ := List.eq_append_cons_of_mem colon
    rw [recipientPart, if_neg key, takeWhile_field first, parseInputLine_colon first key]
    by_cases numeric : isNumericRecipient field
    · have numeral := numeral_of_isNumericRecipient numeric
      by_cases fits : ofDigits field < 2 ^ 64
      · have read := (stoul_signless numeral.signless).mpr ⟨numeral, fits⟩
        refine iff_of_true ?_ fun _ _ _ => fits
        simp only [if_pos numeric, read]
        exact ⟨_, rfl⟩
      · have thrown := stoul_digits_none numeral.2.1 (Nat.not_lt.mp fits)
        refine iff_of_false ?_ fun small => fits (small colon key numeric)
        simp [if_pos numeric, thrown]
    · refine iff_of_true ?_ fun _ _ named => absurd named numeric
      rw [if_neg numeric]
      split_ifs
      · exact ⟨_, rfl⟩
      · exact ⟨_, rfl⟩
  · refine iff_of_true ?_ fun among => absurd among colon
    rcases @parseInputLine_plain _ fromId colon key with command | command | command
    · exact ⟨_, command⟩
    · exact ⟨_, command⟩
    · exact ⟨_, command⟩

theorem parseKeyCommand_keyOffer (key : (ascii "/key").isPrefixOf line) :
    parseKeyCommand line = .keyOffer id ↔
      ∃ value, Reads (recipientPart line) value ∧ value ≠ 0 ∧ id = UInt32.ofNat value := by
  simp only [recipientPart, if_pos key, parseKeyCommand]
  generalize (line.drop 4).dropWhile (fun byte => byte = 32 ∨ byte = 9) = rest
  constructor
  · intro offered
    split_ifs at offered
    split at offered
    · cases offered
    · rename_i value consumed read
      split_ifs at offered with refused
      obtain ⟨whole, positive⟩ := not_or.mp refused
      obtain rfl := InputCommand.keyOffer.inj offered
      obtain rfl := not_not.mp whole
      exact ⟨value, stoul_whole.mp read, positive, rfl⟩
  · rintro ⟨value, reads, positive, rfl⟩
    have read := stoul_whole.mpr reads
    have present : rest ≠ [] := by
      rintro rfl
      cases read
    simp only [if_neg present, read]
    rw [if_neg (by simp [positive])]

-- Only `/key` makes an offer, of whatever number `std::stoul` finds there.
theorem parseInputLine_keyOffer :
    parseInputLine line fromId = .ok (.keyOffer id) ↔ (ascii "/key").isPrefixOf line ∧
      ∃ value, Reads (recipientPart line) value ∧ value ≠ 0 ∧ id = UInt32.ofNat value := by
  by_cases key : (ascii "/key").isPrefixOf line
  · rw [parseInputLine_key key, Except.ok.injEq, parseKeyCommand_keyOffer key, and_iff_right key]
  · refine iff_of_false (fun parsed => ?_) fun offered => key offered.1
    by_cases colon : 58 ∈ line
    · obtain ⟨field, rest, rfl, first⟩ := List.eq_append_cons_of_mem colon
      rw [parseInputLine_colon first key] at parsed
      split_ifs at parsed
      · split at parsed <;> simp at parsed
      · simp at parsed
      · simp at parsed
    · rcases @parseInputLine_plain _ fromId colon key with command | command | command <;>
        simp [command] at parsed

-- A message to an id takes a colon, and digits in front of it that 64 bits hold.
theorem parseInputLine_chatById :
    (∃ text, parseInputLine line fromId = .ok (.chatById id text)) ↔
      (¬ (ascii "/key").isPrefixOf line ∧ 58 ∈ line ∧ isNumericRecipient (recipientPart line)) ∧
        ofDigits (recipientPart line) < 2 ^ 64 ∧
        id = UInt32.ofNat (ofDigits (recipientPart line)) := by
  by_cases key : (ascii "/key").isPrefixOf line
  · refine iff_of_false ?_ fun chat => chat.1.1 key
    rintro ⟨text, parsed⟩
    rw [parseInputLine_key key] at parsed
    obtain invalid | ⟨id, offer⟩ := parseKeyCommand_offers line
    · simp [invalid] at parsed
    · simp [offer] at parsed
  by_cases colon : 58 ∈ line
  · obtain ⟨field, rest, rfl, first⟩ := List.eq_append_cons_of_mem colon
    rw [recipientPart, if_neg key, takeWhile_field first, and_iff_right colon, and_iff_right key]
    simp only [parseInputLine_colon first key]
    by_cases numeric : isNumericRecipient field
    · have numeral := numeral_of_isNumericRecipient numeric
      rw [and_iff_right numeric]
      by_cases fits : ofDigits field < 2 ^ 64
      · rw [and_iff_right fits]
        have read := (stoul_signless numeral.signless).mpr ⟨numeral, fits⟩
        simp [numeric, read, eq_comm]
      · have thrown := stoul_digits_none numeral.2.1 (Nat.not_lt.mp fits)
        exact iff_of_false (by simp [numeric, thrown]) fun chat => fits chat.1
    · refine iff_of_false ?_ fun chat => numeric chat.1
      rw [if_neg numeric]
      split_ifs <;> simp
  · refine iff_of_false ?_ fun chat => colon chat.1.2.1
    rintro ⟨text, parsed⟩
    rcases @parseInputLine_plain _ fromId colon key with command | command | command <;>
      simp [command] at parsed

-- What names the user is an id as it stands, or it is refused: without a colon, or by `std::stoul`,
-- or as a 0.
def PlainId (line : Bytes) : Prop :=
  if (ascii "/key").isPrefixOf line then
    ∀ value, Reads (recipientPart line) value →
    value = 0 ∨ signless (recipientPart line) ∧ value < 2 ^ 32
  else
    58 ∈ line → isNumericRecipient (recipientPart line) →
      ofDigits (recipientPart line) < 2 ^ 32 ∨ 2 ^ 64 ≤ ofDigits (recipientPart line)

/-- No line is read as an id that it does not spell, exactly when it is plain. -/
theorem parseInputLine_numeral (line : Bytes) (fromId : UInt32) :
    (∀ id, ((∃ text, parseInputLine line fromId = .ok (.chatById id text)) →
        Numeral (recipientPart line) id.toNat) ∧
      (parseInputLine line fromId = .ok (.keyOffer id) →
        Numeral (recipientPart line) id.toNat ∧ id ≠ 0)) ↔
      PlainId line := by
  simp only [parseInputLine_chatById, parseInputLine_keyOffer, PlainId]
  by_cases key : (ascii "/key").isPrefixOf line
  · simp only [key, not_true_eq_false, false_and, false_implies, true_and, if_true]
    constructor
    · intro spelled value reads
      by_cases zero : value = 0
      · exact .inl zero
      · obtain ⟨numeral, -⟩ := spelled (UInt32.ofNat value) ⟨value, reads, zero, rfl⟩
        obtain ⟨same, -⟩ := (reads_signless numeral.signless).mp reads
        refine .inr ⟨numeral.signless, ?_⟩
        rw [← same.2.2, numeral.2.2]
        exact UInt32.toNat_lt _
    · rintro plain id ⟨value, reads, nonzero, rfl⟩
      obtain ⟨unsigned, small⟩ := (plain value reads).resolve_left nonzero
      have same := UInt32.toNat_ofNat_of_lt' small
      refine ⟨?_, fun zero => nonzero ?_⟩
      · rw [same]
        exact ((reads_signless unsigned).mp reads).1
      · rw [← same, zero]
        rfl
  · simp only [key, Bool.false_eq_true, not_false_eq_true, true_and, false_and, false_implies,
      and_true, if_false]
    constructor
    · intro spelled colon numeric
      refine (Nat.lt_or_ge (ofDigits (recipientPart line)) (2 ^ 64)).imp_left fun fits => ?_
      have numeral := spelled _ ⟨⟨colon, numeric⟩, fits, rfl⟩
      rw [numeral.2.2]
      exact UInt32.toNat_lt _
    · rintro plain id ⟨⟨colon, numeric⟩, fits, rfl⟩
      have small := (plain colon numeric).resolve_right (Nat.not_le.mpr fits)
      rw [UInt32.toNat_ofNat_of_lt' small]
      exact numeral_of_isNumericRecipient numeric

-- Three lines that reach someone else than the number in them says.
theorem parseInputLine_misread :
    (parseInputLine (ascii "4294967297:hi") 1 = .ok (.chatById 1 (ascii "hi")) ∧
      ¬ Numeral (recipientPart (ascii "4294967297:hi")) 1) ∧
    parseInputLine (ascii "/key 4294967296") 1 = .ok (.keyOffer 0) ∧
    parseInputLine (ascii "/key -18446744073709551615") 1 = .ok (.keyOffer 1) := by
  refine ⟨⟨by decide, ?_⟩, by decide, by decide⟩
  rintro ⟨-, -, value⟩
  exact absurd value (by decide)

end Ids

end ModbusChat.Client
