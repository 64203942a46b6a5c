/-!
The arguments of the command line:

    run FILE [--trace]     eval SOURCE     parse FILE [--compact]

with `--config PATH` anywhere, `--help` anywhere, and `help` for a command. They are read from the
left and the first fault ends the reading. A value is looked at only when the next argument that
is known comes, or the end; what is missing is seen last.
-/

namespace EcmaMachine.CommandLine

inductive Command
  | run (file : String) (trace : Bool)
  | eval (source : String)
  | parse (file : String) (compact : Bool)
  deriving DecidableEq

structure Invocation where
  config : Option String
  command : Command
  deriving DecidableEq

inductive UsageFault
  | help
  | nothing
  | missingCommand
  | unknownCommand
  | unknownArgument
  | missingArgument
  | badValue
  | surplusValue
  | repeated
  deriving DecidableEq

def UsageFault.message : UsageFault → String
  | .help => "usage: [--config PATH] run FILE [--trace] | eval SOURCE | parse FILE [--compact]"
  | .nothing => "no command was given"
  | .missingCommand => "a command is missing"
  | .unknownCommand => "there is no such command"
  | .unknownArgument => "unexpected argument"
  | .missingArgument => "an argument is missing"
  | .badValue => "a value is missing or empty"
  | .surplusValue => "a flag takes no value"
  | .repeated => "an option may be given only once"

/-- What an argument looks like. A lone `-` is a word. -/
inductive Shape
  | divider
  | long (name : String) (value : Option String)
  | short (letter : Char)
  | word

def shape (arg : String) : Shape :=
  match arg.toList with
  | ['-', '-'] => .divider
  | '-' :: '-' :: cs =>
    let name := String.ofList (cs.takeWhile (· != '='))
    match cs.dropWhile (· != '=') with
    | [] => .long name none
    | _ :: value => .long name (some (String.ofList value))
  | '-' :: c :: _ => .short c
  | _ => .word

inductive Verb
  | run | eval | parse
  deriving DecidableEq

def Verb.ofName? : String → Option Verb
  | "run" => some .run
  | "eval" => some .eval
  | "parse" => some .parse
  | _ => none

/-- The flag of a command. -/
def Verb.flag? : Verb → Option String
  | .run => some "trace"
  | .eval => none
  | .parse => some "compact"

/-- Only a source may be empty; a file has a name. -/
def Verb.admitsEmpty (v : Verb) : Bool := v == .eval

def Verb.command (v : Verb) (operand : String) (flag : Bool) : Command :=
  match v with
  | .run => .run operand flag
  | .eval => .eval operand
  | .parse => .parse operand flag

/-- A value that has not been looked at yet. -/
inductive Pending
  /-- The path of `--config`, or the place where it should stand. -/
  | config (path : Option String)
  | operand (s : String)

/-- What has been read behind a command, or before it. -/
structure Reading where
  config : Option String
  operand : Option String
  flag : Bool
  pending : Option Pending

namespace Reading

def start : Reading := ⟨none, none, false, none⟩

/-- Whether the next word is the path of `--config`. -/
def awaitsPath (r : Reading) : Bool :=
  match r.pending with
  | some (.config none) => true
  | _ => false

def hasOperand (r : Reading) : Bool :=
  match r.pending with
  | some (.operand _) => true
  | _ => r.operand.isSome

/-- The value of `--config`, once. -/
def setConfig (r : Reading) (path : String) : Except UsageFault Reading :=
  if r.config.isSome then .error .repeated
  else if path.isEmpty then .error .badValue
  else .ok { r with config := some path }

/-- Looks at the pending value. Only a source may be empty. -/
def settle (admitsEmpty : Bool) (r : Reading) : Except UsageFault Reading :=
  match r.pending with
  | none => .ok r
  | some (.config none) => .error .badValue
  | some (.config (some path)) => { r with pending := none }.setConfig path
  | some (.operand s) =>
    if s.isEmpty && !admitsEmpty then .error .badValue
    else .ok { r with operand := some s, pending := none }

end Reading

/-- A word that is no option. -/
def addOperand (v : Verb) (r : Reading) (arg : String) : Except UsageFault Reading :=
  if r.hasOperand then .error .unknownArgument
  else (r.settle v.admitsEmpty).map fun r => { r with pending := some (.operand arg) }

/-- The arguments behind a command. Behind a divider all of them are operands. -/
def behind (v : Verb) : Reading → List String → Except UsageFault Reading
  | r, [] => r.settle v.admitsEmpty
  | r, arg :: rest =>
    match shape arg with
    | .divider => (rest.foldlM (addOperand v) r).bind (Reading.settle v.admitsEmpty)
    | .word =>
      if r.awaitsPath then behind v { r with pending := some (.config (some arg)) } rest
      else (addOperand v r arg).bind fun r => behind v r rest
    | .short c =>
      if c == 'h' then (r.settle v.admitsEmpty).bind fun _ => .error .help
      else .error .unknownArgument
    | .long "help" none => (r.settle v.admitsEmpty).bind fun _ => .error .help
    | .long "help" (some _) => .error .surplusValue
    | .long "config" (some path) =>
      ((r.settle v.admitsEmpty).bind (Reading.setConfig · path)).bind fun r => behind v r rest
    | .long "config" none =>
      (r.settle v.admitsEmpty).bind fun r =>
        behind v { r with pending := some (.config none) } rest
    | .long name value =>
      if some name != v.flag? then .error .unknownArgument
      else if value.isSome then .error .surplusValue
      else
        (r.settle v.admitsEmpty).bind fun r =>
          if r.flag then .error .repeated else behind v { r with flag := true } rest

/-- A command with the arguments behind it. A path given there goes before one given earlier. -/
def command (r : Reading) (v : Verb) (args : List String) : Except UsageFault Invocation := do
  let inner ← behind v .start args
  match inner.operand with
  | none => .error .missingArgument
  | some operand =>
    let outer ← r.settle false
    .ok ⟨inner.config.or outer.config, v.command operand inner.flag⟩

/-- Help for a command, or for the command `help` itself. -/
def helpFor : List String → UsageFault
  | [] => .help
  | [name] => if name == "help" || (Verb.ofName? name).isSome then .help else .unknownCommand
  | _ => .unknownCommand

/-- No command has come. -/
def withoutCommand (r : Reading) : Except UsageFault Invocation :=
  (r.settle false).bind fun r =>
    .error (if r.config.isNone then .nothing else .missingCommand)

/-- A word behind a divider where a command should stand. -/
def dividedCommand (name : String) : UsageFault :=
  if name == "help" || (Verb.ofName? name).isSome then .unknownArgument else .unknownCommand

/-- The arguments up to the command and from there on. -/
def before : Reading → List String → Except UsageFault Invocation
  | r, [] => withoutCommand r
  | r, arg :: rest =>
    match shape arg with
    | .divider =>
      match rest with
      | [] => withoutCommand r
      | name :: _ => .error (dividedCommand name)
    | .word =>
      if r.awaitsPath then before { r with pending := some (.config (some arg)) } rest
      else if arg == "help" then .error (helpFor rest)
      else
        match Verb.ofName? arg with
        | some v => command r v rest
        | none => .error .unknownCommand
    | .short c =>
      if c == 'h' then (r.settle false).bind fun _ => .error .help else .error .unknownArgument
    | .long "help" none => (r.settle false).bind fun _ => .error .help
    | .long "help" (some _) => .error .surplusValue
    | .long "config" (some path) =>
      ((r.settle false).bind (Reading.setConfig · path)).bind fun r => before r rest
    | .long "config" none =>
      (r.settle false).bind fun r => before { r with pending := some (.config none) } rest
    | .long _ _ => .error .unknownArgument

def parse (args : List String) : Except UsageFault Invocation := before .start args

end EcmaMachine.CommandLine
