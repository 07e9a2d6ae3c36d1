/-! Colours of terminal text. -/

namespace StoreGateway.CommandLine

inductive Paint where
  | success
  | failure
  | warning
  | information
  | title
  | key
  | faint
  | failedItem
  deriving DecidableEq, Repr

namespace Paint

def escape : String := "\x1b["

def reset : String := escape ++ "0m"

/-- What switches a paint on. Marks, titles and keys are bold. -/
def start : Paint → String
  | success => escape ++ "1;32m"
  | failure => escape ++ "1;31m"
  | warning => escape ++ "1;33m"
  | information => escape ++ "1;34m"
  | title => escape ++ "1;96m"
  | key => escape ++ "1;97m"
  | faint => escape ++ "90m"
  | failedItem => escape ++ "31m"

/-- The text with the paint switched on again after each reset in it. -/
def resume (paint : Paint) (text : String) : String :=
  (reset ++ paint.start).intercalate (text.splitOn reset)

def apply (coloured : Bool) (paint : Paint) (text : String) : String :=
  if coloured then paint.start ++ paint.resume text ++ reset else text

end Paint

end StoreGateway.CommandLine
