import CodeFirst.Json.Value

/-! JSON values as literals of the schema language. Keys stand without quotes; texts are quoted as
in JSON, whose escapes are escapes of the schema language too. -/

namespace CodeFirst.Sdl

mutual
def literal : Json → List Char
  | .null => ['n', 'u', 'l', 'l']
  | .bool true => ['t', 'r', 'u', 'e']
  | .bool false => ['f', 'a', 'l', 's', 'e']
  | .num n => n.text
  | .str s => Json.quote s
  | .arr [] => ['[', ']']
  | .arr (v :: rest) => '[' :: (literal v ++ literalItems rest ++ [']'])
  | .obj [] => ['{', '}']
  | .obj ((k, v) :: rest) =>
    '{' :: (k.toList ++ ':' :: ' ' :: (literal v ++ literalMembers rest ++ ['}']))
termination_by structural v => v

def literalItems : List Json → List Char
  | [] => []
  | v :: rest => ',' :: ' ' :: (literal v ++ literalItems rest)
termination_by structural l => l

def literalMembers : List (String × Json) → List Char
  | [] => []
  | (k, v) :: rest => ',' :: ' ' :: (k.toList ++ ':' :: ' ' :: (literal v ++ literalMembers rest))
termination_by structural l => l
end

end CodeFirst.Sdl
