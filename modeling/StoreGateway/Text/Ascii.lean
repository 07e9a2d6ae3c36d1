/-! Case within ASCII; all other characters are kept. -/

namespace StoreGateway.Text

def asciiLower (text : String) : String := String.ofList (text.toList.map Char.toLower)

def asciiUpper (cs : List Char) : List Char := cs.map Char.toUpper

end StoreGateway.Text
