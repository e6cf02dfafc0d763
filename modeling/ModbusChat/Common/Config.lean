import ModbusChat.Shared.Effects
import ModbusChat.Shared.Table
import ModbusChat.Shared.Text
import ModbusChat.Wire.ModbusTcp

set_option autoImplicit false

namespace ModbusChat.Common

open BigEndian Effects Text Wire

-- `load` reports its progress to a callback, if it has one; the reports are its output.

def kDefaultPort : UInt16 := 5020
def kDefaultBindIp : Bytes := ascii "0.0.0.0"
def kDefaultServerIp : Bytes := ascii "127.0.0.1"
def kDefaultKeystorePassword : Bytes := ascii "modbus-chat"
def kProgressComplete : Nat := 100

structure Report where
  percent : Nat
  message : String
  deriving DecidableEq, Repr

abbrev ConfigM := Action Unit Report Failure

structure Config where
  values : Table Bytes Bytes := ∅

namespace Config

def get (config : Config) (key defaultValue : Bytes) : Bytes :=
  (config.values.lookup key).getD defaultValue

def assign (config : Config) (line : Bytes) : Config :=
  if line = [] ∨ line.head? = some 35 then config
  else
    match line.idxOf? 61 with
    | none => config
    | some pos =>
        let key := (line.take pos).rdropWhile isBlank
        let value := (line.drop (pos + 1)).dropWhile isBlank
        { config with values := config.values.insert key value }

-- The loop of `load`, with the last percentage reported.
def readLines (progress : Bool) (size : Nat) (config : Config) (consumed : Nat)
    (lastPercent : Option Nat) :
    List Bytes → ConfigM Config
  | [] => return config
  | line :: lines => do
      let consumed := consumed + (line.length + 1)
      let percent := consumed * kProgressComplete / size
      if progress ∧ 0 < size ∧ some percent ≠ lastPercent then
        Action.emit { percent := min percent kProgressComplete, message := "Reading config" }
        readLines progress size (config.assign line) consumed (some percent) lines
      else readLines progress size (config.assign line) consumed lastPercent lines

def load (path : String) (file : Option Bytes) (progress : Bool) : ConfigM Config := do
  match file with
  | none => Action.lift (.error (.runtimeError ("Failed to open config file: " ++ path)))
  | some content =>
      if progress then Action.emit { percent := 0, message := "Opening " ++ path }
      let config ← readLines progress content.length {} 0 none (getlines 10 content)
      if progress then Action.emit { percent := kProgressComplete, message := "Config loaded" }
      return config

-- `static_cast<uint16_t>(std::stoi(config.get("port", ...)))`, as in both kinds of configuration.
def port (config : Config) : Except Failure UInt16 :=
  match stoi (config.get (ascii "port") (toDecimal kDefaultPort.toUInt32)) with
  | none => .error (.runtimeError "stoi")
  | some value => .ok (UInt16.ofInt value)

end Config

structure ServerConfig where
  bindIp : Bytes := []
  port : UInt16 := kDefaultPort
  deriving DecidableEq, Repr

structure ClientConfig where
  serverIp : Bytes := []
  port : UInt16 := kDefaultPort
  nickname : Bytes := []
  keystorePath : Bytes := []
  keystorePassword : Bytes := kDefaultKeystorePassword
  logPath : Bytes := []
  deriving DecidableEq, Repr

def ServerConfig.fromFile (path : String) (file : Option Bytes) (progress : Bool) :
    ConfigM ServerConfig := do
  let config ← Config.load path file progress
  let port ← Action.lift config.port
  return { bindIp := config.get (ascii "bind_ip") kDefaultBindIp, port }

def ClientConfig.fromFile (path : String) (file : Option Bytes) (progress : Bool) :
    ConfigM ClientConfig := do
  let config ← Config.load path file progress
  let port ← Action.lift config.port
  return {
    serverIp := config.get (ascii "server_ip") kDefaultServerIp
    port
    nickname := config.get (ascii "nickname") []
    keystorePath := config.get (ascii "keystore_path") []
    keystorePassword := config.get (ascii "keystore_password") kDefaultKeystorePassword
    logPath := config.get (ascii "log_path") [] }

section Settings

variable {key line : Bytes}

-- The text behind the first `=` of a line with this key, which is the text before it without blanks
-- at its end.
def valueFor (key line : Bytes) : Option Bytes :=
  match line.idxOf? 61 with
  | none => none
  | some pos =>
    if (line.take pos).rdropWhile isBlank = key then some (line.drop (pos + 1)) else none

def inEffect (key content : Bytes) : Option Bytes :=
  ((getlines 10 content).filterMap (valueFor key)).getLast?

theorem valueFor_comment (ordinary : key.head? ≠ some 35) (comment : line.head? = some 35) :
    valueFor key line = none := by
  obtain ⟨rest, rfl⟩ : ∃ rest, line = 35 :: rest := by
    cases line with
    | nil => cases comment
    | cons first rest => exact ⟨rest, by rw [Option.some.inj comment]⟩
  unfold valueFor
  split
  · rfl
  · rename_i pos found
    have inside : 0 < pos := by
      by_contra start
      obtain rfl : pos = 0 := by omega
      simp [List.idxOf?_cons] at found
    -- the key begins with the number sign, whatever is dropped at its end
    have front : (((35 : UInt8) :: rest).take pos).rdropWhile isBlank ≠ key := by
      rintro rfl
      refine ordinary ?_
      obtain ⟨pos, rfl⟩ : ∃ before, pos = before + 1 := ⟨pos - 1, by omega⟩
      rw [List.take_succ_cons]
      have kept : (35 :: rest.take pos).rdropWhile isBlank ≠ [] := by
        rw [ne_eq, List.rdropWhile_eq_nil_iff]
        exact fun blank => absurd (blank 35 List.mem_cons_self) (by decide)
      obtain ⟨after, split⟩ := List.rdropWhile_prefix isBlank (35 :: rest.take pos)
      cases start : (35 :: rest.take pos).rdropWhile isBlank with
      | nil => exact absurd start kept
      | cons first others =>
        rw [start] at split
        rw [List.head?_cons, (List.cons.inj split).1]
    exact if_neg front

namespace Config

theorem lookup_assign (ordinary : key.head? ≠ some 35) (config : Config) (line : Bytes) :
    (config.assign line).values.lookup key =
      ((valueFor key line).map (List.dropWhile isBlank)).or (config.values.lookup key) := by
  by_cases skipped : line = [] ∨ line.head? = some 35
  · have nothing : valueFor key line = none := by
      rcases skipped with rfl | comment
      · rfl
      · exact valueFor_comment ordinary comment
    rw [assign, if_pos skipped, nothing]
    rfl
  · rw [assign, if_neg skipped, valueFor]
    split
    · rfl
    · rename_i pos found
      rw [Table.lookup_insert_eq]
      by_cases same : (line.take pos).rdropWhile isBlank = key
      · simp [same]
      · rw [if_neg same, if_neg fun other => same other.symm]
        rfl

theorem lookup_foldl_assign (ordinary : key.head? ≠ some 35) (lines : List Bytes)
    (config : Config) :
    (lines.foldl assign config).values.lookup key =
      ((lines.filterMap (valueFor key)).getLast?.map (List.dropWhile isBlank)).or
        (config.values.lookup key) := by
  induction lines generalizing config with
  | nil => rfl
  | cons line lines ih =>
    rw [List.foldl_cons, ih, lookup_assign ordinary, List.filterMap_cons]
    cases valueFor key line with
    | none => rfl
    | some value =>
      rw [List.getLast?_cons]
      cases (lines.filterMap (valueFor key)).getLast? <;> rfl

theorem readLines_result (progress : Bool) (size : Nat) (lines : List Bytes) (config : Config)
    (consumed : Nat) (lastPercent : Option Nat) :
    ((readLines progress size config consumed lastPercent lines).run ()).result =
      .ok (lines.foldl assign config) := by
  induction lines generalizing config consumed lastPercent with
  | nil => rfl
  | cons line lines ih =>
    rw [readLines, List.foldl_cons]
    split
    · simp only [Action.run_bind, Action.run_emit, Outcome.andThen_ok, Outcome.before_result, ih]
    · exact ih _ _ _

theorem load_result (path : String) (content : Bytes) (progress : Bool) :
    ((load path (some content) progress).run ()).result =
      .ok ((getlines 10 content).foldl assign {}) := by
  have read := readLines_result progress content.length (getlines 10 content) {} 0 none
  cases progress <;> simp [load, Outcome.andThen_result read]

end Config

end Settings

section Ports

variable {content value : Bytes}

/--
`std::stoi` finds no number in the text, or it finds digits without a sign that stand for at most
65535, and there is nothing but blanks before and after them.
-/
def PlainPort (value : Bytes) : Prop :=
  stoi value = none ∨
    let (sign, unsigned) := signed (value.dropWhile isSpace)
    sign = [] ∧ (∀ byte ∈ value.takeWhile isSpace, isBlank byte) ∧
      (∀ byte ∈ unsigned.dropWhile isDigit, isBlank byte) ∧
      ofDigits (unsigned.takeWhile isDigit) ≤ 65535

theorem exists_numeral {number : Nat} (numeral : Numeral (trimBlanks value) number) :
    ∃ left digits right, value = left ++ (digits ++ right) ∧ (∀ byte ∈ left, isBlank byte) ∧
      (∀ byte ∈ right, isBlank byte) ∧ Numeral digits number := by
  obtain ⟨left, right, split, before, after⟩ := exists_blanks value
  exact ⟨left, trimBlanks value, right, split, before, after, numeral⟩

theorem scan_value {left digits right : Bytes} {number : Nat} (before : ∀ byte ∈ left, isBlank byte)
    (after : ∀ byte ∈ right, isBlank byte) (numeral : Numeral digits number) :
    let text := left ++ (digits ++ right)
    text.takeWhile isSpace = left ∧ signed (text.dropWhile isSpace) = ([], digits ++ right) ∧
      (digits ++ right).takeWhile isDigit = digits ∧
      (digits ++ right).dropWhile isDigit = right := by
  refine scan_numeral (fun byte member => isBlank_space (before byte member)) numeral
    fun byte member => ?_
  cases digit : isDigit byte with
  | false => rfl
  | true =>
    have blank := after byte member
    rw [isDigit_not_blank digit] at blank
    cases blank

theorem stoi_numeral {number : Nat} (numeral : Numeral (trimBlanks value) number)
    (small : number ≤ 65535) :
    stoi value = some (number : Int) := by
  obtain ⟨left, digits, right, rfl, before, after, nonempty, all, rfl⟩ := exists_numeral numeral
  obtain ⟨-, unsigned, scanned, -⟩ := scan_value before after ⟨nonempty, all, rfl⟩
  simp only [stoi, unsigned, scanned, nonempty, false_or, List.nil_eq, reduceCtorEq, if_false]
  rw [if_neg (by omega)]

theorem plainPort_iff :
    PlainPort value ↔ stoi value = none ∨ ∃ number ≤ 65535, Numeral (trimBlanks value) number := by
  constructor
  · by_cases refused : stoi value = none
    · exact fun _ => .inl refused
    · intro plain
      right
      obtain ⟨⟨sign, unsigned⟩, scanned⟩ : ∃ parts,
        signed (value.dropWhile isSpace) = parts := ⟨_, rfl⟩
      have found : unsigned.takeWhile isDigit ≠ [] := by
        intro missing
        simp [stoi, scanned, missing] at refused
      have parts := plain.resolve_left refused
      simp only [scanned] at parts
      obtain ⟨rfl, before, after, small⟩ := parts
      have digits : Numeral (unsigned.takeWhile isDigit) (ofDigits (unsigned.takeWhile isDigit)) :=
        ⟨found, fun byte member => List.mem_takeWhile_imp member, rfl⟩
      -- without a sign the text is the white space, the digits and what is left
      have split : value =
          value.takeWhile isSpace ++
            (unsigned.takeWhile isDigit ++ unsigned.dropWhile isDigit) := by
        rw [List.takeWhile_append_dropWhile, signed_unsigned scanned,
          List.takeWhile_append_dropWhile]
      refine ⟨_, small, ?_⟩
      rw [split, trimBlanks_numeral before after digits]
      exact digits
  · rintro (refused | ⟨number, small, numeral⟩)
    · exact .inl refused
    · obtain ⟨left, digits, right, rfl, before, after, numeral⟩ := exists_numeral numeral
      obtain ⟨spaces, unsigned, front, back⟩ := scan_value before after numeral
      refine .inr ?_
      simp only [spaces, unsigned, front, back]
      exact ⟨trivial, before, after, numeral.2.2.symm ▸ small⟩

theorem stoi_dropWhile_blank (value : Bytes) : stoi (value.dropWhile isBlank) = stoi value := by
  have same : (value.dropWhile isBlank).dropWhile isSpace = value.dropWhile isSpace := by
    induction value with
    | nil => rfl
    | cons first rest ih =>
      by_cases blank : isBlank first
      · rw [List.dropWhile_cons_of_pos blank, List.dropWhile_cons_of_pos (isBlank_space blank), ih]
      · rw [List.dropWhile_cons_of_neg blank]
  simp only [stoi, same]

theorem Config.port_loaded (content : Bytes) :
    ((getlines 10 content).foldl Config.assign {}).port =
      match inEffect (ascii "port") content with
      | none => .ok kDefaultPort
      | some value =>
          match stoi value with
          | none => .error (.runtimeError "stoi")
          | some number => .ok (UInt16.ofInt number) := by
  have found := Config.lookup_foldl_assign (show (ascii "port").head? ≠ some 35 by decide)
    (getlines 10 content) {}
  rw [← inEffect, Table.lookup_none, Option.or_none] at found
  rw [Config.port, Config.get, found]
  cases inEffect (ascii "port") content with
  | none =>
    have standard : stoi (toDecimal kDefaultPort.toUInt32) = some 5020 := by decide +kernel
    simp only [Option.map_none, Option.getD_none, standard]
    rfl
  | some value => simp only [Option.map_some, Option.getD_some, stoi_dropWhile_blank]

theorem ServerConfig.fromFile_port (path : String) (content : Bytes) (progress : Bool) :
    ((ServerConfig.fromFile path (some content) progress).run ()).result.map ServerConfig.port =
      ((getlines 10 content).foldl Config.assign {}).port := by
  rw [ServerConfig.fromFile, Action.run_bind,
    Outcome.andThen_result (Config.load_result path content progress)]
  cases ((getlines 10 content).foldl Config.assign {}).port <;> rfl

theorem ClientConfig.fromFile_port (path : String) (content : Bytes) (progress : Bool) :
    ((ClientConfig.fromFile path (some content) progress).run ()).result.map ClientConfig.port =
      ((getlines 10 content).foldl Config.assign {}).port := by
  rw [ClientConfig.fromFile, Action.run_bind,
    Outcome.andThen_result (Config.load_result path content progress)]
  cases ((getlines 10 content).foldl Config.assign {}).port <;> rfl

def PortRight (content : Bytes) (port : UInt16) : Prop :=
  match inEffect (ascii "port") content with
  | none => port = kDefaultPort
  | some value => Numeral (trimBlanks value) port.toNat

instance PortRight.decidable (content : Bytes) (port : UInt16) :
    Decidable (PortRight content port) :=
  match found : inEffect (ascii "port") content with
  | none => decidable_of_iff (port = kDefaultPort) (by simp [PortRight, found])
  | some value =>
    decidable_of_iff (Numeral (trimBlanks value) port.toNat) (by simp [PortRight, found])

theorem ofInt_natCast {number : Nat} (small : number ≤ 65535) :
    (UInt16.ofInt number).toNat = number := by
  rw [UInt16.ofInt, UInt16.toNat_ofNat']
  omega

theorem port_loaded_iff (content : Bytes) :
    (∀ value ∈ inEffect (ascii "port") content, PlainPort value) ↔
      ∀ port, ((getlines 10 content).foldl Config.assign {}).port = .ok port ↔
      PortRight content port := by
  have bounded (port : UInt16) : port.toNat ≤ 65535 := Nat.le_of_lt_succ port.toNat_lt
  rw [Config.port_loaded]
  unfold PortRight
  cases inEffect (ascii "port") content with
  | none => simp [eq_comm]
  | some value =>
    simp only [Option.mem_def, Option.some.injEq, forall_eq', plainPort_iff]
    constructor
    · rintro (refused | ⟨number, small, numeral⟩) port
      · rw [refused]
        constructor
        · intro returned
          cases returned
        · intro numeral
          rw [stoi_numeral numeral (bounded port)] at refused
          cases refused
      · rw [stoi_numeral numeral small]
        constructor
        · intro returned
          rwa [← Except.ok.inj returned, ofInt_natCast small]
        · intro same
          -- a text is a numeral of one number only
          obtain rfl : number = port.toNat := numeral.2.2.symm.trans same.2.2
          exact congrArg Except.ok (UInt16.toNat_inj.mp (ofInt_natCast small))
    · intro agree
      cases read : stoi value with
      | none => exact .inl rfl
      | some number =>
        rw [read] at agree
        exact .inr ⟨_, bounded _, (agree (UInt16.ofInt number)).mp rfl⟩

/--
For every file and both kinds of configuration: `from_file` returns just the port that the file
gives, and throws where it gives none, if and only if the value in effect is plain.
-/
theorem config_port_iff (path : String) (content : Bytes) (progress : Bool) :
    ((∀ value ∈ inEffect (ascii "port") content, PlainPort value) ↔
        ∀ port, ((ServerConfig.fromFile path (some content) progress).run ()).result.map
          ServerConfig.port = .ok port ↔ PortRight content port) ∧
      ((∀ value ∈ inEffect (ascii "port") content, PlainPort value) ↔
        ∀ port, ((ClientConfig.fromFile path (some content) progress).run ()).result.map
          ClientConfig.port = .ok port ↔ PortRight content port) := by
  rw [ServerConfig.fromFile_port, ClientConfig.fromFile_port]
  exact ⟨port_loaded_iff content, port_loaded_iff content⟩

-- Numbers that are too large or negative are cut down to 16 bits, and what follows the digits is
-- ignored.
theorem config_port_misread :
    (((ServerConfig.fromFile "" (some (ascii "port=70000\n")) false).run ()).result =
        .ok { bindIp := kDefaultBindIp, port := 4464 } ∧ ¬ PortRight (ascii "port=70000\n") 4464) ∧
      (((ServerConfig.fromFile "" (some (ascii "port = -1\n")) false).run ()).result =
        .ok { bindIp := kDefaultBindIp, port := 65535 } ∧ ¬ PortRight (ascii "port = -1\n") 65535) ∧
      ((ClientConfig.fromFile "" (some (ascii "port=80\nport=81abc")) false).run ()).result.map
        ClientConfig.port = .ok 81 ∧ ¬ PortRight (ascii "port=80\nport=81abc") 81 := by
  decide +kernel

end Ports

end ModbusChat.Common
