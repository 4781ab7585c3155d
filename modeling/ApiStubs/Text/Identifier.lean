/-!
# Identifiers

Names made fit for generated code.  An identifier consists of ASCII letters, digits, `_` and `$`
and does not start with a digit; a name that is not one is repaired, and a bean's qualified name
is cut to a simple name in camel case.
-/

namespace ApiStubs.Text.Identifier

/-- Whether a character may stand in an identifier. -/
def isPart (c : Char) : Bool :=
  c.isAlphanum || c = '_' || c = '$'

def isStart (c : Char) : Bool :=
  c.isAlpha || c = '_' || c = '$'

def isWhole : List Char → Bool
  | [] => false
  | c :: rest => isStart c && rest.all isPart

/-- Whether a text is an identifier, which one line feed may follow. -/
def isLine (cs : List Char) : Bool :=
  isWhole cs || (cs.getLast? == some '\n' && isWhole cs.dropLast)

/-- The name with every character that cannot stand in an identifier replaced by `_`, and one `_`
in front if the result is empty, starts with a digit or is a reserved word. -/
def repair (reserved : List String) (name : String) : String :=
  let cs := name.toList.map fun c => if isPart c then c else '_'
  if cs.isEmpty || (cs.head?.any (·.isDigit)) || reserved.contains (String.ofList cs) then
    String.ofList ('_' :: cs)
  else
    String.ofList cs

/-- The maximal runs of ASCII letters and digits of a text whose first run starts with the
characters of `word`, last one first. -/
def wordsFrom (word : List Char) : List Char → List (List Char)
  | [] => if word.isEmpty then [] else [word.reverse]
  | c :: rest =>
    if c.isAlphanum then wordsFrom (c :: word) rest
    else if word.isEmpty then wordsFrom [] rest
    else word.reverse :: wordsFrom [] rest

/-- The maximal runs of ASCII letters and digits. -/
def words (cs : List Char) : List (List Char) :=
  wordsFrom [] cs

/-- The word with its first letter in upper case. -/
def capitalize : List Char → List Char
  | [] => []
  | c :: rest => c.toUpper :: rest

/-- The word with its first letter in lower case. -/
def uncapitalize : List Char → List Char
  | [] => []
  | c :: rest => c.toLower :: rest

def lowerCamelChars (cs : List Char) : List Char :=
  match words cs with
  | [] => []
  | first :: rest => uncapitalize first ++ rest.flatMap capitalize

def lowerCamel (s : String) : String :=
  String.ofList (lowerCamelChars s.toList)

def upperCamel (s : String) : String :=
  String.ofList (capitalize (lowerCamelChars s.toList))

/-- The last part of a qualified name, after every `.` and `$`. -/
def simpleName (qualified : String) : String :=
  String.ofList (qualified.toList.reverse.takeWhile fun c => c ≠ '.' && c ≠ '$').reverse

/-- The name of the module for a bean: its simple name in lower camel case. -/
def moduleName (bean : String) : String :=
  let name := lowerCamel (simpleName bean)
  if name.isEmpty then "unknownModule" else name

end ApiStubs.Text.Identifier
