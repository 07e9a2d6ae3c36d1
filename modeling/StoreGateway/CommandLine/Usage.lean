import StoreGateway.CommandLine.Run

/-! From the words of a command line to a report. -/

namespace StoreGateway.CommandLine

def programName : String := "dualstore"

def versionText : String := programName ++ " 0.2.5\n"

/-- An option as help shows it. -/
def OptionForm.helpText (form : OptionForm) : String :=
  let letter := match form.letter with
    | some c => String.ofList ['-', c, ',', ' ']
    | none => "    "
  let value := match form.value with
    | none => ""
    | some (.oneOf words) => " <" ++ "|".intercalate words ++ ">"
    | some .natural => " <NUMBER>"
    | some .path => " <PATH>"
    | some .text => " <TEXT>"
  "    " ++ letter ++ "--" ++ form.name ++ value ++ "\n"

def optionTexts (forms : List OptionForm) : String := String.join (forms.map OptionForm.helpText)

def helpText : String :=
  "Usage: " ++ programName ++ " [OPTIONS] <COMMAND>\n\nOptions:\n" ++
    optionTexts Command.rootOptions ++
    String.join (Command.forms.map fun (name, forms) => "\n" ++ name ++ ":\n" ++ optionTexts forms)

def Halt.report : Halt → Report
  | help => ⟨0, helpText, ""⟩
  | version => ⟨0, versionText, ""⟩
  | fault f => ⟨2, "", "error: " ++ f.message ++ "\n"⟩

/-- Does what the words ask for. -/
def perform (t : Terminal) (words : List String) (w : Workspace) : Report × Workspace :=
  match Invocation.ofWords words with
  | .ok i => i.run t w
  | .error halt => (halt.report, w)

end StoreGateway.CommandLine
