/-! A description is printed as a block string, on one line if it has only one. -/

namespace CodeFirst.Sdl

def indentation (width : Nat) : List Char := List.replicate width ' '

/-- Drops the carriage return at the end of a line that is held in reverse. -/
def dropReturn : List Char → List Char
  | '\r' :: line => line
  | line => line

/-- The lines of a text, `line` being the start of the first one in reverse. A line ends at a line
feed, with or without a carriage return before it; after the last line feed there is a line only if
it is not empty. -/
def linesFrom (line : List Char) : List Char → List (List Char)
  | [] => if line.isEmpty then [] else [line.reverse]
  | '\n' :: rest => (dropReturn line).reverse :: linesFrom [] rest
  | c :: rest => linesFrom (c :: line) rest

def lines (cs : List Char) : List (List Char) := linesFrom [] cs

def tripleQuote : List Char := ['"', '"', '"']

/-- Puts a backslash before every three quotes. -/
def escapeQuotes : List Char → List Char
  | '"' :: '"' :: '"' :: rest => '\\' :: '"' :: '"' :: '"' :: escapeQuotes rest
  | c :: rest => c :: escapeQuotes rest
  | [] => []

def descriptionText (width : Nat) (text : List Char) : List Char :=
  if '\n' ∈ text then
    indentation width ++ tripleQuote ++ '\n' ::
      ((lines text).flatMap fun line => indentation width ++ line ++ ['\n']) ++
      indentation width ++ tripleQuote ++ ['\n']
  else indentation width ++ tripleQuote ++ escapeQuotes text ++ tripleQuote ++ ['\n']

def description (width : Nat) : Option String → List Char
  | none => []
  | some text => descriptionText width text.toList

end CodeFirst.Sdl
