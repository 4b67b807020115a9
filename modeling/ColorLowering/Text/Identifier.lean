/-!
# Identifiers

`clean` turns any name into letters, digits and underscores that do not begin with a digit;
`unqualified` drops everything up to the last `::`. Only the ASCII letters and digits are word
characters, because those are the characters of a C++ identifier in the basic source set.
-/
namespace ColorLowering.Text

def isWordChar (c : Char) : Bool := c.isAlphanum || c == '_'

def cleanChars (cs : List Char) : List Char :=
  let word := cs.map fun c => if isWordChar c then c else '_'
  if cs.head?.any Char.isDigit then '_' :: word else word

def clean (name : String) : String :=
  String.ofList (cleanChars name.toList)

/-- What follows the last `::`, where colons may overlap; `found` is what follows the last one so
far. -/
def afterQualifier (found : List Char) : List Char → List Char
  | [] => found
  | c :: cs => afterQualifier (if c = ':' ∧ cs.head? = some ':' then cs.tail else found) cs

def unqualifiedChars (cs : List Char) : List Char :=
  afterQualifier cs cs

def unqualified (name : String) : String :=
  String.ofList (unqualifiedChars name.toList)

end ColorLowering.Text
