import CodeFirst.Kind
import CodeFirst.Report.Finding

/-! What registration and building report while they run. An event never changes the outcome. -/

namespace CodeFirst

inductive Level where
  | error | warn | info | debug
  deriving DecidableEq, Repr

namespace Level

def rank : Level → Nat
  | .error => 0
  | .warn => 1
  | .info => 2
  | .debug => 3

def text : Level → String
  | .error => "ERROR"
  | .warn => "WARN"
  | .info => "INFO"
  | .debug => "DEBUG"

/-- A threshold lets through its own level and the more severe ones. -/
def admits (threshold level : Level) : Bool := decide (level.rank ≤ threshold.rank)

end Level

inductive Event where
  | deferredFailed (owner error : String)
  | skippedField (kind : ClassKind) (className field : String)
  | conflictingDefaults (className field : String) (instanceValue explicit : Json)
  | built (types orphans : Nat) (query mutation subscription : Bool)
  | classRegistered (kind : ClassKind) (className : String)
  | classMerged (kind : ClassKind) (className : String)
  | handlerRegistered (kind : HandlerKind) (handler : String)
  | handlerMerged (kind : HandlerKind) (handler : String) (skipped : Nat)
  | scalarRegistered (scalar : String)
  | drained (executed : Nat)
  | documentDeclared (entities : Nat)
  | handlerInherited (className handler : String)
  | rootOmitted (root : RootKind)
  | rootBuilt (root : RootKind) (fields : Nat)
  | federated (source : String) (directives : Nat)
  | directivesLoaded (source : String) (directives : Nat)
  deriving Repr

namespace Event

def level : Event → Level
  | .deferredFailed .. => .error
  | .skippedField .. | .conflictingDefaults .. => .warn
  | .built .. => .info
  | _ => .debug

def message : Event → String
  | .deferredFailed .. => "deferred registration failed"
  | .skippedField kind .. => "skipping duplicate " ++ kind.text ++ " field"
  | .conflictingDefaults .. => "conflicting default values; using the instance default"
  | .built .. => "built schema"
  | .classRegistered kind _ => "registered " ++ kind.text ++ " metadata"
  | .classMerged kind _ => "merged " ++ kind.text ++ " metadata"
  | .handlerRegistered kind _ => "registered " ++ kind.label ++ " metadata"
  | .handlerMerged kind .. => "merged " ++ kind.label ++ " metadata"
  | .scalarRegistered _ => "registered scalar metadata"
  | .drained _ => "drained deferred registrations"
  | .documentDeclared _ => "declared document"
  | .handlerInherited .. => "inherited handler from abstract resolver"
  | .rootOmitted _ => "no handlers; root omitted"
  | .rootBuilt .. => "built root type"
  | .federated .. => "federated build"
  | .directivesLoaded .. => "loaded federation directives"

def fields : Event → List (String × Json)
  | .deferredFailed owner error => [("owner", .str owner), ("error", .str error)]
  | .skippedField _ className field => [("class", .str className), ("field", .str field)]
  | .conflictingDefaults className field instanceValue explicit =>
    [("code", .str Code.defaultValueConflict.text), ("class", .str className),
      ("field", .str field), ("instance", .str instanceValue.text),
      ("explicit", .str explicit.text)]
  | .built types orphans query mutation subscription =>
    [("types", .ofNat types), ("orphans", .ofNat orphans), ("query", .bool query),
      ("mutation", .bool mutation), ("subscription", .bool subscription)]
  | .classRegistered _ className | .classMerged _ className => [("class", .str className)]
  | .handlerRegistered _ handler => [("handler", .str handler)]
  | .handlerMerged _ handler skipped => [("handler", .str handler), ("skipped", .ofNat skipped)]
  | .scalarRegistered scalar => [("scalar", .str scalar)]
  | .drained executed => [("executed", .ofNat executed)]
  | .documentDeclared entities => [("entities", .ofNat entities)]
  | .handlerInherited className handler => [("class", .str className), ("handler", .str handler)]
  | .rootOmitted root => [("root", .str root.typeName)]
  | .rootBuilt root fields => [("root", .str root.typeName), ("fields", .ofNat fields)]
  | .federated source n | .directivesLoaded source n =>
    [("source", .str source), ("directives", .ofNat n)]

end Event

/-- A result together with the events on the way to it. -/
structure Logged (α : Type) where
  result : α
  events : List Event

namespace Logged

variable {α β : Type}

protected def pure (a : α) : Logged α := ⟨a, []⟩

protected def bind (x : Logged α) (f : α → Logged β) : Logged β :=
  let y := f x.result
  ⟨y.result, x.events ++ y.events⟩

instance : Monad Logged where
  pure := Logged.pure
  bind := Logged.bind

@[ext] theorem ext {x y : Logged α} (h₁ : x.result = y.result) (h₂ : x.events = y.events) :
    x = y := by cases x; cases y; simp_all

@[simp] theorem result_pure (a : α) : (pure a : Logged α).result = a := rfl
@[simp] theorem events_pure (a : α) : (pure a : Logged α).events = [] := rfl
@[simp] theorem result_bind (x : Logged α) (f : α → Logged β) :
    (x >>= f).result = (f x.result).result := rfl
@[simp] theorem events_bind (x : Logged α) (f : α → Logged β) :
    (x >>= f).events = x.events ++ (f x.result).events := rfl

instance : LawfulMonad Logged := LawfulMonad.mk' Logged
  (fun x => by apply ext <;> simp [Functor.map, Logged.bind, Logged.pure])
  (fun a f => by apply ext <;> simp)
  (fun x f g => by apply ext <;> simp)

def tell (e : Event) : Logged Unit := ⟨(), [e]⟩

@[simp] theorem events_tell (e : Event) : (tell e).events = [e] := rfl

end Logged

/-- A result that may be an error, with the events up to the end or the error. -/
abbrev Trial (ε α : Type) := ExceptT ε Logged α

namespace Trial

variable {ε α : Type}

def outcome (x : Trial ε α) : Except ε α := x.run.result
def events (x : Trial ε α) : List Event := x.run.events
def ofLogged (x : Logged α) : Trial ε α := ExceptT.lift x
def ofExcept (x : Except ε α) : Trial ε α := ExceptT.mk (pure x)
def tell (e : Event) : Trial ε Unit := ofLogged (Logged.tell e)

end Trial

end CodeFirst
