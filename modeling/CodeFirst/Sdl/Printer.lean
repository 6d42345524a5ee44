import CodeFirst.Directive.Standard
import CodeFirst.Scalar
import CodeFirst.Schema.Basic
import CodeFirst.Sdl.Description
import CodeFirst.Sdl.Literal

/-! A schema in the schema definition language: one block per directive definition, then one per
type, with a blank line between blocks. What every schema has anyway is left out. -/

namespace CodeFirst

structure PrintOptions where
  indentSize : Nat
  /-- Directives, types, fields and arguments by name instead of by order of realization. -/
  sortTypes : Bool
  appliedDirectives : Bool
  deriving DecidableEq, Repr

def PrintOptions.standard : PrintOptions := ⟨2, false, true⟩

namespace Sdl

def fileHeader : String :=
  "# ------------------------------------------------------\n" ++
  "# THIS FILE WAS AUTOMATICALLY GENERATED (DO NOT MODIFY)\n" ++
  "# ------------------------------------------------------\n\n"

/-- Orders by name, in ascending order of code points. -/
def sortedByName {α : Type} (name : α → String) (l : List α) : List α :=
  l.mergeSort fun a b => !decide (name b < name a)

def arranged {α : Type} (o : PrintOptions) (name : α → String) (l : List α) : List α :=
  if o.sortTypes then sortedByName name l else l

def joined (separator : List Char) : List (List Char) → List Char
  | [] => []
  | [t] => t
  | t :: rest => t ++ separator ++ joined separator rest

def comma : List Char := [',', ' ']

def indent (o : PrintOptions) (level : Nat) : Nat := level * o.indentSize

def defaultText : Option Json → List Char
  | none => []
  | some v => ' ' :: '=' :: ' ' :: literal v

def directiveArgument (a : DirectiveArgument) : List Char :=
  a.name.toList ++ ':' :: ' ' :: a.type.toList ++ defaultText a.default

/-- Texts in round brackets; nothing if there are none. -/
def bracketed (texts : List (List Char)) : List Char :=
  if texts.isEmpty then [] else '(' :: joined comma texts ++ [')']

def directiveBlock (d : DirectiveDefinition) : List Char :=
  description 0 d.description ++ "directive @".toList ++ d.name.toList ++
    bracketed (d.arguments.values.map directiveArgument) ++
    (if d.repeatable then " repeatable".toList else []) ++ " on ".toList ++
    joined " | ".toList (d.locations.map (·.text.toList))

def scalarBlock (t : ScalarType) : List Char :=
  description 0 t.description ++ "scalar ".toList ++ t.name.toList ++
    match t.specifiedByUrl with
    | none => []
    | some url => " @specifiedBy(url: ".toList ++ Json.quote url ++ [')']

def appliedDirective (d : Directive) : List Char :=
  " @".toList ++ d.name.toList ++
    bracketed (d.arguments.entries.map fun (k, v) => k.toList ++ ':' :: ' ' :: literal v)

def appliedDirectives (o : PrintOptions) (ds : List Directive) : List Char :=
  if o.appliedDirectives then ds.flatMap appliedDirective else []

def deprecationText : Option String → List Char
  | none => []
  | some reason =>
    if reason = defaultDeprecationReason then " @deprecated".toList
    else " @deprecated(reason: ".toList ++ Json.quote reason ++ [')']

def inputValue (s : Schema) (v : InputValue) : List Char :=
  v.name.toList ++ ':' :: ' ' :: (s.typeText v.type).toList ++ defaultText v.default

def inputValueLine (o : PrintOptions) (s : Schema) (level : Nat) (v : InputValue) : List Char :=
  description (indent o level) v.description ++ indentation (indent o level) ++
    inputValue s v ++ ['\n']

/-- Arguments stand on one line unless one of them has a description. -/
def arguments (o : PrintOptions) (s : Schema) (vs : List InputValue) : List Char :=
  if vs.all (·.description.isNone) then bracketed (vs.map (inputValue s))
  else
    '(' :: '\n' :: vs.flatMap (inputValueLine o s 2) ++ indentation (indent o 1) ++ [')']

def fieldLine (o : PrintOptions) (s : Schema) (f : Field) : List Char :=
  description (indent o 1) f.description ++ indentation (indent o 1) ++ f.name.toList ++
    arguments o s (arranged o InputValue.name f.arguments.records) ++
    ':' :: ' ' :: (s.typeText f.type).toList ++ deprecationText f.deprecation ++
    (f.node.map fun n => appliedDirectives o n.directives).getD [] ++ ['\n']

def body (lines : List (List Char)) : List Char := [' ', '{', '\n'] ++ lines.flatten ++ ['}']

def implementsText (s : Schema) (interfaces : List TypeId) : List Char :=
  if interfaces.isEmpty then []
  else " implements ".toList ++ joined " & ".toList (interfaces.map fun i => (s.typeName i).toList)

def compositeBlock (o : PrintOptions) (s : Schema) (keyword : String) (t : CompositeType) :
    List Char :=
  description 0 t.description ++ keyword.toList ++ ' ' :: t.name.toList ++
    implementsText s t.interfaces ++
    (t.node.map fun n => appliedDirectives o n.directives).getD [] ++
    body ((arranged o Field.name t.fields).map (fieldLine o s))

def inputBlock (o : PrintOptions) (s : Schema) (t : InputType) : List Char :=
  description 0 t.description ++ "input ".toList ++ t.name.toList ++
    body ((arranged o InputValue.name t.fields).map (inputValueLine o s 1))

def typeBlock (o : PrintOptions) (s : Schema) : NamedType → List Char
  | .scalar t => scalarBlock t
  | .object t => compositeBlock o s "type" t
  | .interface t => compositeBlock o s "interface" t
  | .input t => inputBlock o s t

def isPrinted : NamedType → Bool
  | .scalar t => !builtinScalars.contains t.name
  | _ => true

/-- The roots in the order of the operations. -/
def rootIds (s : Schema) : List TypeId := RootKind.all.filterMap s.rootId?

def otherTypes (s : Schema) : List NamedType :=
  (s.types.zipIdx.filter fun (_, i) => !(rootIds s).contains i).map (·.1)

/-- All types in the order of printing: by name, or the roots first. -/
def orderedTypes (o : PrintOptions) (s : Schema) : List NamedType :=
  if o.sortTypes then sortedByName NamedType.name s.types
  else (rootIds s).filterMap s.get? ++ otherTypes s

def orderedDirectives (o : PrintOptions) (s : Schema) : List DirectiveDefinition :=
  arranged o DirectiveDefinition.name
    (s.directives.filter fun d => !DirectiveDefinition.isSpecified d.name)

def blocks (o : PrintOptions) (s : Schema) : List (List Char) :=
  (orderedDirectives o s).map directiveBlock ++
    ((orderedTypes o s).filter isPrinted).map (typeBlock o s)

def chars (o : PrintOptions) (s : Schema) : List Char :=
  if (blocks o s).isEmpty then [] else joined ['\n', '\n'] (blocks o s) ++ ['\n']

def print (o : PrintOptions) (s : Schema) : String := String.ofList (chars o s)

end Sdl

end CodeFirst
