/-! GraphQL names. -/

namespace CodeFirst

def isNameStart (c : Char) : Bool :=
  c == '_' || ('A' ≤ c && c ≤ 'Z') || ('a' ≤ c && c ≤ 'z')

def isNameContinue (c : Char) : Bool := isNameStart c || ('0' ≤ c && c ≤ '9')

/-- A name is a letter or underscore, then letters, digits and underscores. -/
def isNameChars : List Char → Bool
  | [] => false
  | c :: rest => isNameStart c && rest.all isNameContinue

def isValidName (name : String) : Bool := isNameChars name.toList

/-- Names that start with two underscores are reserved for introspection. -/
def isReservedName (name : String) : Bool :=
  match name.toList with
  | '_' :: '_' :: _ => true
  | _ => false

end CodeFirst
