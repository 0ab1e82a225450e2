/-
  DesignTokens.Cli.Arguments — what the arguments of the program ask for.

  Arguments are read from the left.  A value that has been taken is looked at only when the next
  argument that may follow it is read, or at the end; so an argument that is not known is
  reported rather than a fault of the value in front of it.
-/
import DesignTokens.Entries
import DesignTokens.Text.Cut

namespace DesignTokens.Cli

/-! ## §1. Requests -/

/-- A command of the program. -/
inductive Command where
  /-- Build the entries, or those with one file, and write their outputs. -/
  | build (config : String) (only : Option String)
  /-- Build the entries without writing anything. -/
  | check (config : String)
  /-- Start a project. -/
  | init (path : String) (name : Option String)
deriving Repr, DecidableEq

/-- The commands that have a page of help. -/
inductive Topic where
  | program
  | build
  | check
  | init
deriving Repr, DecidableEq

/-- What arguments ask for. -/
inductive Request where
  | run (command : Command)
  | version
  | help (topic : Topic)
deriving Repr, DecidableEq

/-- Why arguments are not understood. -/
inductive UsageError where
  /-- Nothing is asked for. -/
  | nothing
  | missingCommand
  | unknownCommand (name : String)
  | unexpectedArgument (argument : String)
  | missingValue (shown : String)
  | repeated (shown : String)
  | unexpectedValue (value shown : String)
deriving Repr, DecidableEq

/-! ## §2. Grammars -/

/-- A parameter that takes a value. -/
structure Parameter where
  /-- The long name of an option; a parameter without is given by its place. -/
  name : String
  /-- How messages show the parameter. -/
  shown : String
  /-- Whether the value may be empty. -/
  allowsEmpty : Bool
deriving Repr, DecidableEq

/-- The parameters of a command. -/
structure Grammar where
  topic : Topic
  options : List Parameter
  positional : Option Parameter
deriving Repr

/-- The option that says where the configuration is. -/
def configOption : Parameter := ⟨"config", "--config <CONFIG>", false⟩

/-- The option that says which entry is built. -/
def entryOption : Parameter := ⟨"entry", "--entry <ENTRY>", true⟩

/-- The option that names a project. -/
def nameOption : Parameter := ⟨"name", "--name <NAME>", true⟩

/-- The folder of a project. -/
def pathParameter : Parameter := ⟨"path", "[PATH]", false⟩

/-- The parameters of a command. -/
def grammar : Topic → Grammar
  | .program => ⟨.program, [], none⟩
  | .build => ⟨.build, [configOption, entryOption], none⟩
  | .check => ⟨.check, [configOption], none⟩
  | .init => ⟨.init, [nameOption], some pathParameter⟩

/-! ## §3. Reading the arguments of a command -/

/-- What is known between two arguments. -/
structure Reading where
  /-- The values that have been looked at. -/
  values : Entries String := []
  /-- The last parameter and its value, if it has been taken. -/
  pending : Option (Parameter × Option String) := none
  /-- Whether the parameter with a place has been given. -/
  placed : Bool := false
  /-- Whether all that follows is to be taken as it is. -/
  literal : Bool := false
deriving Repr

namespace Reading

/-- Looks at the last value. -/
def settle (r : Reading) : Except UsageError Reading :=
  match r.pending with
  | none => .ok r
  | some (p, none) => .error (.missingValue p.shown)
  | some (p, some value) =>
    if Entries.has p.name r.values then .error (.repeated p.shown)
    else if value = "" ∧ !p.allowsEmpty then .error (.missingValue p.shown)
    else .ok { r with values := Entries.put p.name value r.values, pending := none }

/-- Takes a parameter, maybe with its value. -/
def take (r : Reading) (p : Parameter) (value : Option String) : Except UsageError Reading := do
  let r ← r.settle
  return { r with pending := some (p, value) }

end Reading

/-- The outcome of one argument: reading goes on, or ends with a request. -/
abbrev Step := Except UsageError (Reading ⊕ Request)

/-- A cluster of flags of one letter. -/
def readFlags (topic : Topic) : List Char → Reading → Step
  | [], r => .ok (.inl r)
  | c :: flags, r =>
    if c = 'v' then r.settle.bind (readFlags topic flags)
    else if c = 'h' then r.settle.map fun _ => .inr (.help topic)
    else if c = 'V' ∧ topic = .program then r.settle.map fun _ => .inr .version
    else .error (.unexpectedArgument (String.ofList ['-', c]))

/-- A long option: its name, and the value that is attached to it. -/
def readLong (g : Grammar) (name : String) (attached : Option String) (r : Reading) : Step :=
  let flag (shown : String) (outcome : Reading ⊕ Request) : Step :=
    match attached with
    | some value => .error (.unexpectedValue value shown)
    | none => r.settle.map fun settled =>
      match outcome with
      | .inl _ => .inl settled
      | .inr request => .inr request
  if name = "verbose" then flag "--verbose..." (.inl r)
  else if name = "help" then flag "--help" (.inr (.help g.topic))
  else if name = "version" ∧ g.topic = .program then flag "--version" (.inr .version)
  else match g.options.find? (·.name = name) with
    | some p => (r.take p attached).map .inl
    | none => .error (.unexpectedArgument ("--" ++ name))

/-- The name of a long option and the value behind its equals sign. -/
def longParts (s : List Char) : String × Option String :=
  match Text.cut? ['='] s with
  | some (name, value) => (String.ofList name, some (String.ofList value))
  | none => (String.ofList s, none)

/-- An argument that is given by its place. -/
def readPlaced (g : Grammar) (argument : String) (r : Reading) : Step :=
  match g.positional with
  | some p =>
    if r.placed then .error (.unexpectedArgument argument)
    else (r.take p (some argument)).map fun r => .inl { r with placed := true }
  | none => .error (.unexpectedArgument argument)

/-- One argument of a command. -/
def readArgument (g : Grammar) (argument : String) (r : Reading) : Step :=
  if r.literal then readPlaced g argument r
  else match argument.toList with
    | ['-', '-'] => .ok (.inl { r with literal := true })
    | '-' :: '-' :: s =>
      let (name, attached) := longParts s
      readLong g name attached r
    | '-' :: c :: s => readFlags g.topic (c :: s) r
    | _ =>
      match r.pending with
      | some (p, none) => .ok (.inl { r with pending := some (p, some argument) })
      | _ => readPlaced g argument r

/-- The arguments of a command: the values of its parameters, or another request. -/
def readArguments (g : Grammar) : List String → Reading →
    Except UsageError (Entries String ⊕ Request)
  | [], r => r.settle.map fun r => .inl r.values
  | argument :: rest, r =>
    match readArgument g argument r with
    | .error e => .error e
    | .ok (.inr request) => .ok (.inr request)
    | .ok (.inl r) => readArguments g rest r

/-! ## §4. Reading all arguments -/

/-- The topic of a command with a name. -/
def topicOf? : String → Option Topic
  | "build" => some .build
  | "check" => some .check
  | "init" => some .init
  | _ => none

/-- The folder that is meant where none is given. -/
def thisFolder : String := "."

/-- The command with the values of its parameters. -/
def commandOf (topic : Topic) (values : Entries String) : Request :=
  let config := (Entries.get? configOption.name values).getD thisFolder
  match topic with
  | .program => .help .program
  | .build => .run (.build config (Entries.get? entryOption.name values))
  | .check => .run (.check config)
  | .init =>
    .run (.init ((Entries.get? pathParameter.name values).getD thisFolder)
      (Entries.get? nameOption.name values))

/-- The page of help that names ask for.  No command has commands of its own. -/
def readHelp : List String → Except UsageError Request
  | [] | ["help"] => .ok (.help .program)
  | "help" :: name :: _ => .error (.unknownCommand name)
  | name :: rest =>
    match topicOf? name, rest with
    | none, _ => .error (.unknownCommand name)
    | some topic, [] => .ok (.help topic)
    | some _, other :: _ => .error (.unknownCommand other)

/-- The arguments up to the command; `flagged` says whether a flag has been given. -/
def readProgram (flagged : Bool) : List String → Except UsageError Request
  | [] => .error (if flagged then .missingCommand else .nothing)
  | argument :: rest =>
    match topicOf? argument with
    | some topic =>
      (readArguments (grammar topic) rest {}).map fun
        | .inl values => commandOf topic values
        | .inr request => request
    | none =>
      if argument = "help" then readHelp rest
      else match argument.toList with
        | ['-', '-'] =>
          match rest with
          | [] => .error (if flagged then .missingCommand else .nothing)
          | next :: _ =>
            if (topicOf? next).isSome ∨ next = "help" then .error (.unexpectedArgument next)
            else .error (.unknownCommand next)
        | '-' :: _ :: _ =>
          match readArgument (grammar .program) argument {} with
          | .error e => .error e
          | .ok (.inr request) => .ok request
          | .ok (.inl _) => readProgram true rest
        | _ => .error (.unknownCommand argument)

/-- What the arguments of the program ask for. -/
def read (arguments : List String) : Except UsageError Request := readProgram false arguments

end DesignTokens.Cli
