import EcmaMachine.Json.Parser
import EcmaMachine.Json.Printer
import EcmaMachine.Machine.Run
import EcmaMachine.Wire.Value

/-!
Global objects that a host may give to its scripts: `Math`, `console`, `JSON`, `Object.keys` and
`Array.isArray`.
-/

namespace EcmaMachine.Globals

/-- The words of the functions, by the object that holds them. -/
def members : List (String × List String) :=
  [("Math", ["floor", "ceil", "abs", "round", "sqrt", "max", "min"]),
    ("console", ["log", "warn"]),
    ("JSON", ["stringify", "parse"]),
    ("Object", ["keys"]),
    ("Array", ["isArray"])]

def names : List String := members.map (·.1)

def pi : Float := Float.ofBits 0x400921FB54442D18

/-- Makes one global object. `Math` also has the number pi, before its functions. -/
def install (s : Store) (scope : ScopeId) : List (String × List String) → Store
  | [] => s
  | (owner, functions) :: rest =>
    let constants := if owner == "Math" then [("PI", Value.number pi)] else []
    let (entries, s) := mapWith (fun name (s : Store) =>
      let (f, s) := s.newFunction (.host name (owner ++ "." ++ name))
      ((name, Value.function f), s)) functions s
    let (object, s) := s.newRecord (constants ++ entries)
    install (s.declare scope owner object) scope rest

/-- A root scope that holds the global objects. -/
def newScope (s : Store) : ScopeId × Store :=
  let (scope, s) := s.rootScope []
  (scope, install s scope members)

/-- The arguments as numbers, combined; NaN as soon as one of them is. -/
def foldNumbers (pick : Float → Float → Float) (start : Float) : List Float → Float
  | [] => start
  | x :: xs => if x.isNaN then Number.nan else foldNumbers pick (pick start x) xs

def joinTexts (s : Store) (args : List Value) : String := " ".intercalate (args.map s.text)

/-- What JSON cannot hold is refused as a whole. -/
def stringify (s : Store) (v : Value) : Except HostError Value :=
  match v with
  | .undefined | .function _ => .ok .undefined
  | v =>
    let (j, registry) := Wire.encodeValue s (.empty (.source 0)) v
    if registry.isEmpty then .ok (.string j.compact)
    else .error ⟨"TypeError: Converting circular structure or class instance to JSON", none⟩

def parseJson (s : Store) (text : String) : Except HostError (Value × Store) :=
  match Json.parse text with
  | .ok j => .ok (Wire.decodeValue (.empty (.source 0)) s j)
  | .error e => .error ⟨"SyntaxError: " ++ e.message, none⟩

/-- Calls a global function; `none` if the word is none of theirs. The lines are for the log. -/
def call? (word : String) (args : List Value) (s : Store) :
    Option (Except HostError (Value × Store) × List String) :=
  let first := args.head?.getD .undefined
  let number := fun f : Float → Float =>
    some (Except.ok (Value.number (f (s.toNumber first)), s), [])
  let numbers := args.map s.toNumber
  match word with
  | "Math.floor" => number Float.floor
  | "Math.ceil" => number Float.ceil
  | "Math.abs" => number Float.abs
  | "Math.round" => number Number.round
  | "Math.sqrt" => number Float.sqrt
  | "Math.max" =>
    let pick := fun a b : Float => if a < b then b else a
    some (.ok (.number (foldNumbers pick (-Number.infinity) numbers), s), [])
  | "Math.min" =>
    let pick := fun a b : Float => if b < a then b else a
    some (.ok (.number (foldNumbers pick Number.infinity numbers), s), [])
  | "console.log" => some (.ok (.undefined, s), ["INFO " ++ joinTexts s args])
  | "console.warn" => some (.ok (.undefined, s), ["WARN " ++ joinTexts s args])
  | "JSON.stringify" => some ((stringify s first).map (·, s), [])
  | "JSON.parse" => some (parseJson s ((args.head?.map s.text).getD ""), [])
  | "Object.keys" =>
    if first.isNullish then
      some (.error ⟨"TypeError: Cannot convert undefined or null to object", none⟩, [])
    else some (.ok (s.newList ((s.enumerableKeys first).map .string)), [])
  | "Array.isArray" =>
    match first with
    | .array _ => some (.ok (.bool true, s), [])
    | _ => some (.ok (.bool false, s), [])
  | _ => none

/-- The step of the machine that a finished call makes. -/
def finish {η : Type} (result : Except HostError (Value × Store)) (log : List String) (s : Store)
    (host : η) : HostStep η :=
  match result with
  | .ok (v, s) => ⟨.value v, s, log, host⟩
  | .error e => ⟨.failure (.plain (.host e)), s, log, host⟩

/-- A host with the global functions only; any other gives undefined. -/
def host : Host Unit where
  call word _ args _ s _ :=
    match call? word args s with
    | some (result, log) => finish result log s ()
    | none => ⟨.value .undefined, s, [], ()⟩

end EcmaMachine.Globals
