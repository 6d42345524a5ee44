import CodeFirst.Document.Build

/-! How the words of a command line are understood. Words are taken from left to right, and the
first one that is wrong, or that asks for help or for the version, ends the reading. -/

namespace CodeFirst

namespace Command

inductive Action where
  | build (input : String) (output : Option String) (job : Document.Job) (sorted : Bool)
  | check (files : List String)
  | version
  deriving DecidableEq, Repr

structure Invocation where
  verbose : Bool
  quiet : Bool
  action : Action
  deriving DecidableEq, Repr

inductive Reading where
  | invocation (i : Invocation)
  | misuse
  | help
  | version
  deriving DecidableEq, Repr

inductive Verb where
  | build | check | version
  deriving DecidableEq, Repr

/-- Switches: each of them may be given once, the first two once more before the command. -/
inductive Switch where
  | verbose | quiet | federation | skipCheck | sort
  deriving DecidableEq, Repr

inductive ValueFlag where
  | output | federationDirectives
  deriving DecidableEq, Repr

structure Words where
  switches : List Switch
  values : List (ValueFlag × String)
  /-- The words that are neither switches nor flags with values, in order. -/
  operands : List String
  deriving DecidableEq, Repr

def Words.none : Words := ⟨[], [], []⟩

inductive Effect where
  | switch (s : Switch)
  | value (s : ValueFlag) (text : String)
  /-- A flag whose value is the next word. -/
  | await (s : ValueFlag)
  | help | version | misuse
  deriving DecidableEq, Repr

/-- The flags that a place on the command line knows; `none` is the place before the
command. -/
def Switch.knownTo : Switch → Option Verb → Bool
  | .verbose, _ => true
  | .quiet, _ => true
  | _, v => v == some .build

def ValueFlag.knownTo (_ : ValueFlag) (v : Option Verb) : Bool := v == some .build

def longSwitch? : String → Option Switch
  | "verbose" => some .verbose
  | "quiet" => some .quiet
  | "federation" => some .federation
  | "skip-check" => some .skipCheck
  | "sort" => some .sort
  | _ => none

def longValueFlag? : String → Option ValueFlag
  | "output" => some .output
  | "federation-directives" => some .federationDirectives
  | _ => none

def longEffect (v : Option Verb) (name : String) (value : Option String) : Effect :=
  match longSwitch? name, longValueFlag? name with
  | some s, _ => if s.knownTo v && value.isNone then .switch s else .misuse
  | none, some s =>
    if !s.knownTo v then .misuse
    else match value with
      | some x => .value s x
      | none => .await s
  | none, none =>
    if value.isSome then .misuse
    else if name = "help" then .help
    else if name = "version" ∧ v = none then .version
    else .misuse

/-- The effects of the letters behind one dash. A letter with a value takes the rest of the word. -/
def shortEffects (v : Option Verb) : List Char → List Effect
  | [] => []
  | 'v' :: rest => .switch .verbose :: shortEffects v rest
  | 'q' :: rest => .switch .quiet :: shortEffects v rest
  | 'h' :: _ => [.help]
  | 'V' :: _ => [if v = none then .version else .misuse]
  | 'o' :: rest =>
    if v = some .build then
      match rest with
      | [] => [.await .output]
      | '=' :: value => [.value .output (String.ofList value)]
      | value => [.value .output (String.ofList value)]
    else [.misuse]
  | _ => [.misuse]

/-- A word that starts with a dash, cut at its first equals sign if it has two dashes. -/
def flagEffects? (v : Option Verb) (word : String) : Option (List Effect) :=
  match word.toList with
  | '-' :: '-' :: name =>
    let (name, value) := name.span (· != '=')
    some [longEffect v (String.ofList name) (match value with
      | [] => none
      | _ :: value => some (String.ofList value))]
  | '-' :: c :: letters => some (shortEffects v (c :: letters))
  | _ => none

/-- Applies effects to the words so far. An effect that ends the reading is the error; a flag that
waits for its value is returned. A repeated flag and an empty value are misuse. -/
def apply (ws : Words) : List Effect → Except Reading (Words × Option ValueFlag)
  | [] => .ok (ws, none)
  | .switch s :: rest =>
    if s ∈ ws.switches then .error .misuse else apply { ws with switches := s :: ws.switches } rest
  | .value s value :: rest =>
    if value.isEmpty ∨ s ∈ ws.values.map Prod.fst then .error .misuse
    else apply { ws with values := (s, value) :: ws.values } rest
  | .await s :: _ => .ok (ws, some s)
  | .help :: _ => .error .help
  | .version :: _ => .error .version
  | .misuse :: _ => .error .misuse

def Verb.operands : Verb → Option Nat
  | .build => some 1
  | .check => none
  | .version => some 0

def addOperand (v : Verb) (ws : Words) (word : String) : Except Reading Words :=
  if word.isEmpty then .error .misuse
  else match v.operands with
    | some n =>
      if ws.operands.length < n then .ok { ws with operands := ws.operands ++ [word] }
      else .error .misuse
    | none => .ok { ws with operands := ws.operands ++ [word] }

/-- Reads the words behind a command. After `--` all words are operands. -/
def readWords (v : Verb) (ws : Words) (onlyOperands : Bool) : List String → Except Reading Words
  | [] => .ok ws
  | word :: rest =>
    if onlyOperands then do
      readWords v (← addOperand v ws word) true rest
    else if word = "--" then readWords v ws true rest
    else match flagEffects? (some v) word with
      | none => do readWords v (← addOperand v ws word) false rest
      | some effects =>
        match apply ws effects with
        | .error e => .error e
        | .ok (ws, none) => readWords v ws false rest
        | .ok (ws, some s) =>
          match rest with
          | [] => .error .misuse
          | value :: rest =>
            if (flagEffects? (some v) value).isSome then .error .misuse
            else do
              let (ws, _) ← apply ws [.value s value]
              readWords v ws false rest

def Words.value? (ws : Words) (s : ValueFlag) : Option String := lookupEntry s ws.values

def action? (v : Verb) (ws : Words) : Option Action :=
  match v, ws.operands with
  | .build, [input] =>
    some (.build input (ws.value? .output)
      ⟨ws.switches.contains .federation, ws.value? .federationDirectives,
        ws.switches.contains .skipCheck⟩
      (ws.switches.contains .sort))
  | .check, f :: fs => some (.check (f :: fs))
  | .version, [] => some .version
  | _, _ => none

def verb? : String → Option Verb
  | "build" => some .build
  | "check" => some .check
  | "version" => some .version
  | _ => none

def readHelp : List String → Reading
  | [] => .help
  | [topic] => if topic = "help" ∨ (verb? topic).isSome then .help else .misuse
  | _ => .misuse

/-- Reads a command line. Switches may stand before the command and behind it. -/
def readFrom (ws : Words) : List String → Reading
  | [] => .misuse
  | word :: rest =>
    match flagEffects? none word with
    | some effects =>
      match apply ws effects with
      | .error e => e
      | .ok (ws, _) => readFrom ws rest
    | none =>
      match verb? word with
      | none => if word = "help" then readHelp rest else .misuse
      | some v =>
        match readWords v .none false rest with
        | .error e => e
        | .ok own =>
          match action? v own with
          | none => .misuse
          | some action =>
            let given (s : Switch) : Bool := ws.switches.contains s || own.switches.contains s
            .invocation ⟨given .verbose, given .quiet, action⟩

def read (words : List String) : Reading := readFrom .none words

end Command

end CodeFirst
