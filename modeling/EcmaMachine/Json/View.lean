import EcmaMachine.Json.Basic
import EcmaMachine.Number.Reader

/-!
Looking into JSON values: what a value is, the place that a pointer names, and changes to all
parts of a value at once.
-/

namespace EcmaMachine.Json

def string? : Json → Option String
  | .string s => some s
  | _ => none

def bool? : Json → Option Bool
  | .bool b => some b
  | _ => none

def nat? : Json → Option Nat
  | .int n => some n.toNat
  | _ => none

/-- The items of an array; none for all else. -/
def items : Json → List Json
  | .array items => items
  | _ => []

/-- The fields of an object; none for all else. -/
def fields : Json → List (String × Json)
  | .object fields => fields
  | _ => []

/-- A position in an array: digits without a leading zero. -/
def position? (part : String) : Option Nat :=
  match part.toList with
  | [] => none
  | ['0'] => some 0
  | '0' :: _ => none
  | cs => if cs.all Char.isDigit then some (Number.decimalDigits cs) else none

/-- In a pointer `~1` stands for a slash and `~0` for a tilde. -/
def unescaped : List Char → List Char
  | '~' :: '1' :: cs => '/' :: unescaped cs
  | '~' :: '0' :: cs => '~' :: unescaped cs
  | c :: cs => c :: unescaped cs
  | [] => []

def part? (j : Json) (part : String) : Option Json :=
  let name := String.ofList (unescaped part.toList)
  match j with
  | .object _ => j.field? name
  | .array items => (position? name).bind (items[·]?)
  | _ => none

/-- The value at a pointer such as `/a/0`; the empty pointer names the whole value. -/
def pointer? (j : Json) (path : String) : Option Json :=
  match path.splitOn "/" with
  | "" :: parts => parts.foldlM part? j
  | _ => none

mutual

/-- Changes all values that have no parts. -/
def mapLeaves (f : Json → Json) : Json → Json
  | .array items => .array (mapLeavesItems f items)
  | .object fields => .object (mapLeavesFields f fields)
  | .null => f .null
  | .bool b => f (.bool b)
  | .int n => f (.int n)
  | .float x => f (.float x)
  | .string s => f (.string s)

def mapLeavesItems (f : Json → Json) : List Json → List Json
  | [] => []
  | j :: rest => mapLeaves f j :: mapLeavesItems f rest

def mapLeavesFields (f : Json → Json) : List (String × Json) → List (String × Json)
  | [] => []
  | (k, j) :: rest => (k, mapLeaves f j) :: mapLeavesFields f rest

end

mutual

/-- The value without the fields of one name, at all depths. -/
def without (name : String) : Json → Json
  | .array items => .array (withoutItems name items)
  | .object fields => .object (withoutFields name fields)
  | .null => .null
  | .bool b => .bool b
  | .int n => .int n
  | .float x => .float x
  | .string s => .string s

def withoutItems (name : String) : List Json → List Json
  | [] => []
  | j :: rest => without name j :: withoutItems name rest

def withoutFields (name : String) : List (String × Json) → List (String × Json)
  | [] => []
  | (k, j) :: rest =>
    if k == name then withoutFields name rest
    else (k, without name j) :: withoutFields name rest

end

end EcmaMachine.Json
