import StoreGateway.Batch.Verb
import StoreGateway.CommandLine.Options
import StoreGateway.Gateway.Request

/-! The commands, and what a command line asks for. -/

namespace StoreGateway.CommandLine

/-- Parameters are kept as they were given until a command needs them. -/
inductive Command where
  | initialise (service : String) (kind : StoreKind) (partition : Option String)
  | compile (kind : StoreKind) (table filter : String) (params : List String)
      (orderBy : Option String)
  | query (table : String) (ids : Option String) (params : List String) (options : RequestOptions)
  | write (table : String) (verb : Verb) (input : String) (options : RequestOptions)
  | delete (table : String) (ids : Option String) (params : List String) (options : RequestOptions)

/-- What to do, for the service of which directory, and how to show it. -/
structure Invocation where
  project : Option String
  json : Bool
  command : Command

namespace Command

def flag (name : String) : OptionForm := ⟨name, none, none, false⟩

def text (name : String) : OptionForm := ⟨name, none, some .text, false⟩

def tableOption : OptionForm := ⟨"table", some 't', some .text, false⟩

def paramOption : OptionForm := ⟨"param", none, some .text, true⟩

def storeKinds : List StoreKind := [.table, .document]

def storeOption : OptionForm :=
  ⟨"backend", some 'b', some (.oneOf (storeKinds.map StoreKind.name)), false⟩

def verbs : List Verb := [.create, .replace, .patch, .delete, .get]

def verbOption : OptionForm := ⟨"verb", none, some (.oneOf (verbs.map Verb.name)), false⟩

def helpOption : OptionForm := ⟨"help", some 'h', none, false⟩

/-- Options that may stand before the command or after it. Being verbose changes no report. -/
def sharedOptions : List OptionForm :=
  [⟨"project", some 'p', some .path, false⟩,
    ⟨"format", some 'f', some (.oneOf ["text", "json"]), false⟩,
    ⟨"verbose", some 'v', none, false⟩, helpOption]

def rootOptions : List OptionForm := sharedOptions ++ [⟨"version", some 'V', none, false⟩]

/-- The commands by name, with their own options. -/
def forms : List (String × List OptionForm) :=
  [("init", [⟨"name", some 'n', some .text, false⟩, storeOption, text "partition-key"]),
    ("compile", [storeOption, tableOption, text "filter", paramOption, text "order-by"]),
    ("query", [tableOption, text "filter", text "ids", paramOption, text "fields",
      ⟨"limit", some 'l', some .natural, false⟩, text "order-by", text "partition-key",
      flag "include-count"]),
    ("write", [tableOption, verbOption, ⟨"input", some 'i', some .path, false⟩, flag "rollback",
      flag "continue", text "fields", text "partition-key"]),
    ("delete", [tableOption, text "ids", text "filter", paramOption, flag "rollback",
      flag "continue", text "partition-key"])]

def storeKindOf (name : String) : StoreKind := if name = "document" then .document else .table

def verbOf (name : String) : Verb := (verbs.find? (·.name == name)).getD .get

def requestOptions (o : Options) : RequestOptions :=
  { RequestOptions.none with
    fields := o.value? "fields"
    filter := o.value? "filter"
    limit := (o.value? "limit").bind readNatural?
    orderBy := o.value? "order-by"
    rollback := o.has "rollback"
    continueOnError := o.has "continue"
    partition := o.value? "partition-key"
    includeCount := o.has "include-count" }

def exclusive (o : Options) : Except Halt Unit :=
  if o.has "filter" && o.has "ids" then .error (.fault (.exclusive "filter" "ids")) else .ok ()

/-- The command of a name with its options. -/
def ofOptions (name : String) (o : Options) : Except Halt Command :=
  match name with
  | "init" => do
    return .initialise (← o.required "name") (storeKindOf ((o.value? "backend").getD "table"))
      (o.value? "partition-key")
  | "compile" => do
    return .compile (storeKindOf (← o.required "backend")) ((o.value? "table").getD "t")
      (← o.required "filter") (o.values "param") (o.value? "order-by")
  | "query" => do
    exclusive o
    return .query (← o.required "table") (o.value? "ids") (o.values "param") (requestOptions o)
  | "write" => do
    return .write (← o.required "table") (verbOf (← o.required "verb")) (← o.required "input")
      (requestOptions o)
  | "delete" => do
    exclusive o
    if !o.has "filter" && !o.has "ids" then throw (.fault (.missing "ids"))
    return .delete (← o.required "table") (o.value? "ids") (o.values "param") (requestOptions o)
  | other => .error (.fault (.unknownCommand other))

/-- Reads the options of a command, which no other words may follow. -/
def optionsOf (forms : List OptionForm) (words : List String) : Except Halt Options := do
  match ← Reader.start.run (forms ++ sharedOptions) words with
  | (options, []) => return options
  | (_, word :: _) => throw (.fault (.unexpectedWord word))

end Command

namespace Invocation

/-- `help`, alone or with the name of a command. -/
def helpFor (words : List String) : Halt :=
  match words with
  | [] => .help
  | word :: rest =>
    if (Command.forms.lookup word).isNone then .fault (.unknownCommand word)
    else match rest with
      | [] => .help
      | next :: _ => .fault (.unknownCommand next)

/-- What the words of a command line ask for. An option given after the command goes first. -/
def ofWords (words : List String) : Except Halt Invocation := do
  match ← Reader.start.run Command.rootOptions words with
  | (_, []) => throw (.fault .noCommand)
  | (before, name :: rest) =>
    match Command.forms.lookup name with
    | none => throw (if name = "help" then helpFor rest else .fault (.unknownCommand name))
    | some forms =>
      let options ← Command.optionsOf forms rest
      let both : Options := options ++ before
      return ⟨both.value? "project", both.value? "format" == some "json",
        ← Command.ofOptions name options⟩

end Invocation

end StoreGateway.CommandLine
