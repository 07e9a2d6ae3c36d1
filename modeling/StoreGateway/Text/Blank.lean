/-! Blank characters, trimming, and the cutting of text at a separator or at blanks. -/

namespace StoreGateway.Text

/-- The characters with the standard's White_Space property. -/
def isBlank (c : Char) : Bool :=
  ('\t' ≤ c && c ≤ '\r') || c == ' ' || c == '\u0085' || c == '\u00a0' || c == '\u1680' ||
    ('\u2000' ≤ c && c ≤ '\u200a') || c == '\u2028' || c == '\u2029' || c == '\u202f' ||
    c == '\u205f' || c == '\u3000'

def trimEnd (cs : List Char) : List Char := (cs.reverse.dropWhile isBlank).reverse

def trimChars (cs : List Char) : List Char := trimEnd (cs.dropWhile isBlank)

def trim (text : String) : String := String.ofList (trimChars text.toList)

/-- The piece before the first separator, and the pieces after it. -/
def pieces (separator : Char) : List Char → List Char × List (List Char)
  | [] => ([], [])
  | c :: cs =>
    let (first, more) := pieces separator cs
    if c = separator then ([], first :: more) else (c :: first, more)

/-- The pieces between separators; there is one more of them than there are separators. -/
def split (separator : Char) (text : String) : List String :=
  let (first, more) := pieces separator text.toList
  (first :: more).map String.ofList

def commaList (text : String) : List String :=
  ((split ',' text).map trim).filter (· ≠ "")

/-- The word that the text starts inside of, possibly empty, and the words after it. -/
def wordsFrom : List Char → List Char × List (List Char)
  | [] => ([], [])
  | c :: cs =>
    let (word, more) := wordsFrom cs
    if isBlank c then ([], if word = [] then more else word :: more) else (c :: word, more)

/-- The longest runs of characters that are not blank. -/
def words (text : String) : List String :=
  let (word, more) := wordsFrom text.toList
  (if word = [] then more else word :: more).map String.ofList

end StoreGateway.Text
