import StoreGateway.Number.Decimal

/-!
Options of a command line: their forms, and reading them word by word. An option is written `--name`
or, if it has a short form, as one of the letters after a dash. Its value stands behind an equals
sign, behind the letter, or in the next word, which then may not start with a dash.
-/

namespace StoreGateway.CommandLine

/-- What may be given as the value of an option. -/
inductive ValueForm where
  | text
  /-- Text that is not empty. -/
  | path
  | natural
  | oneOf (words : List String)
  deriving DecidableEq, Repr

/-- A whole number of 64 bits without a minus sign. -/
def readNatural? (text : String) : Option Nat :=
  let digits := match text.toList with
    | '+' :: rest => rest
    | cs => cs
  if digits ≠ [] ∧ digits.all Char.isDigit ∧ Decimal.natOfDigits digits ≤ maxUInt64 then
    some (Decimal.natOfDigits digits)
  else none

def ValueForm.accepts : ValueForm → String → Bool
  | text, _ => true
  | path, value => value != ""
  | natural, value => (readNatural? value).isSome
  | oneOf words, value => words.contains value

/-- An option; a flag takes no value. -/
structure OptionForm where
  name : String
  letter : Option Char
  value : Option ValueForm
  repeatable : Bool
  deriving DecidableEq, Repr

/-- An option as it was given. Flags have empty values. -/
structure GivenOption where
  name : String
  value : String
  deriving DecidableEq, Repr

/-- Why a command line can not be followed. -/
inductive UsageFault where
  | unknownOption (word : String)
  | unexpectedWord (word : String)
  | noValue (name : String)
  | needlessValue (name : String)
  | badValue (name value : String)
  | repeated (name : String)
  | missing (name : String)
  | exclusive (name other : String)
  | noCommand
  | unknownCommand (word : String)
  deriving DecidableEq, Repr

def UsageFault.message : UsageFault → String
  | unknownOption word => "unknown option '" ++ word ++ "'"
  | unexpectedWord word => "unexpected argument '" ++ word ++ "'"
  | noValue name => "option '--" ++ name ++ "' needs a value"
  | needlessValue name => "option '--" ++ name ++ "' takes no value"
  | badValue name value => "invalid value '" ++ value ++ "' for option '--" ++ name ++ "'"
  | repeated name => "option '--" ++ name ++ "' can not be repeated"
  | missing name => "option '--" ++ name ++ "' is required"
  | exclusive name other => "option '--" ++ name ++ "' can not be used with '--" ++ other ++ "'"
  | noCommand => "a command is required"
  | unknownCommand word => "unknown command '" ++ word ++ "'"

/-- What ends the reading of options at once. -/
inductive Halt where
  | help
  | version
  | fault (f : UsageFault)
  deriving DecidableEq, Repr

/-- A word by how it starts. -/
inductive Word where
  | long (name : String) (value : Option String)
  | letters (cs : List Char)
  /-- Two dashes, after which no word is an option. -/
  | ending
  | plain
  deriving DecidableEq, Repr

def Word.ofText (text : String) : Word :=
  match text.toList with
  | ['-', '-'] => ending
  | '-' :: '-' :: rest =>
    match rest.dropWhile (· != '=') with
    | [] => long (String.ofList rest) none
    | _ :: value => long (String.ofList (rest.takeWhile (· != '='))) (some (String.ofList value))
  | '-' :: c :: rest => letters (c :: rest)
  | _ => plain

/-- The options read so far, and one that still waits for its value. -/
structure Reader where
  given : List GivenOption
  waiting : Option OptionForm
  deriving Repr

namespace Reader

def start : Reader := ⟨[], none⟩

def names (r : Reader) : List String := r.given.map GivenOption.name

/-- Takes an option with its value. Asking for help or the version ends the reading. -/
def take (r : Reader) (form : OptionForm) (value : String) : Except Halt Reader :=
  if !((form.value.map fun v => v.accepts value).getD true) then
    .error (.fault (.badValue form.name value))
  else if !form.repeatable && r.names.contains form.name then .error (.fault (.repeated form.name))
  else if form.name = "help" then .error .help
  else if form.name = "version" then .error .version
  else .ok ⟨r.given ++ [⟨form.name, value⟩], none⟩

def readLong (forms : List OptionForm) (r : Reader) (name : String) (value : Option String) :
    Except Halt Reader :=
  match forms.find? (·.name == name) with
  | none => .error (.fault (.unknownOption ("--" ++ name)))
  | some form =>
    match form.value, value with
    | none, none => r.take form ""
    | none, some _ => .error (.fault (.needlessValue name))
    | some _, some value => r.take form value
    | some _, none => .ok { r with waiting := some form }

/-- Letters stand for flags up to one that takes a value, which the rest of them is. -/
def readLetters (forms : List OptionForm) (r : Reader) : List Char → Except Halt Reader
  | [] => .ok r
  | c :: rest =>
    match forms.find? (·.letter == some c) with
    | none => .error (.fault (.unknownOption (String.ofList ['-', c])))
    | some form =>
      match form.value, rest with
      | none, rest => do readLetters forms (← r.take form "") rest
      | some _, [] => .ok { r with waiting := some form }
      | some _, '=' :: value => r.take form (String.ofList value)
      | some _, value => r.take form (String.ofList value)

/-- Reads options up to the first word that is none, and gives back the words from there on. -/
def run (forms : List OptionForm) (r : Reader) :
    List String → Except Halt (List GivenOption × List String)
  | [] =>
    match r.waiting with
    | some form => .error (.fault (.noValue form.name))
    | none => .ok (r.given, [])
  | word :: rest =>
    match r.waiting, Word.ofText word with
    | some form, .plain => do run forms (← r.take form word) rest
    | some form, _ => .error (.fault (.noValue form.name))
    | none, .plain => .ok (r.given, word :: rest)
    | none, .long name value => do run forms (← r.readLong forms name value) rest
    | none, .letters cs => do run forms (← r.readLetters forms cs) rest
    | none, .ending =>
      match rest with
      | [] => .ok (r.given, [])
      | next :: _ => .error (.fault (.unexpectedWord next))

end Reader

abbrev Options := List GivenOption

namespace Options

def value? (options : Options) (name : String) : Option String :=
  (options.find? (·.name == name)).map GivenOption.value

def values (options : Options) (name : String) : List String :=
  (options.filter (·.name == name)).map GivenOption.value

def has (options : Options) (name : String) : Bool := options.any (·.name == name)

def required (options : Options) (name : String) : Except Halt String :=
  match options.value? name with
  | some value => .ok value
  | none => .error (.fault (.missing name))

end Options

end StoreGateway.CommandLine
