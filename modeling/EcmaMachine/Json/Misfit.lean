import EcmaMachine.Json.Basic
import EcmaMachine.Number.Text
import EcmaMachine.Text.Quoted

/-!
Why a JSON value does not fit the type it is read as, and small readers for the leaves of such
types.
-/

namespace EcmaMachine.Json

inductive Misfit
  | wrongType (found : String) (expected : String)
  | wrongValue (found : String) (expected : String)
  | wrongLength (length : Nat) (expected : String)
  | missing (field : String)
  | unknownVariant (name : String) (choices : List String)
  | noVariant (type : String)
  deriving DecidableEq

private def ticked (s : String) : String := "`" ++ s ++ "`"

/-- Choices as a phrase: two with `or`, more as a list. -/
private def choicePhrase : List String → String
  | [] => "there are no variants"
  | [a] => "expected " ++ ticked a
  | [a, b] => "expected " ++ ticked a ++ " or " ++ ticked b
  | choices => "expected one of " ++ ", ".intercalate (choices.map ticked)

def Misfit.message : Misfit → String
  | .wrongType found expected => "invalid type: " ++ found ++ ", expected " ++ expected
  | .wrongValue found expected => "invalid value: " ++ found ++ ", expected " ++ expected
  | .wrongLength length expected =>
    "invalid length " ++ toString length ++ ", expected " ++ expected
  | .missing field => "missing field " ++ ticked field
  | .unknownVariant name choices =>
    "unknown variant " ++ ticked name ++ ", " ++ choicePhrase choices
  | .noVariant type => "data did not match any variant of untagged enum " ++ type

/-- How a refused value is called. -/
def describe : Json → String
  | .null => "null"
  | .bool b => "boolean " ++ ticked (if b then "true" else "false")
  | .int n => "integer " ++ ticked (Number.intText n)
  | .float x => "floating point " ++ ticked (Number.jsonText x)
  | .string s => "string " ++ Text.quoted s
  | .array _ => "sequence"
  | .object _ => "map"

def misfit {α : Type} (j : Json) (expected : String) : Except Misfit α :=
  .error (.wrongType j.describe expected)

def asBool : Json → Except Misfit Bool
  | .bool b => .ok b
  | j => j.misfit "a boolean"

def asString : Json → Except Misfit String
  | .string s => .ok s
  | j => j.misfit "a string"

/-- A natural number of 64 bits. -/
def asSize : Json → Except Misfit Nat
  | .int n => if n < 0 then .error (.wrongValue (describe (.int n)) "usize") else .ok n.toNat
  | j => j.misfit "usize"

/-- A name out of a closed list, given as a string or as the only key of an object that holds
nothing. -/
def asChoice {α : Type} (choices : List (String × α)) (j : Json) : Except Misfit α :=
  let pick := fun name : String =>
    match choices.find? (·.1 == name) with
    | some (_, a) => .ok a
    | none => .error (.unknownVariant name (choices.map (·.1)))
  match j with
  | .string name => pick name
  | .object [(name, content)] => do
    let a ← pick name
    match content with
    | .null => .ok a
    | .object [] => .ok a
    | j => j.misfit "unit"
  | .object _ => .error (.wrongValue "map" "map with a single key")
  | j => j.misfit "string or map"

/-- A required field. -/
def required (fields : List (String × Json)) (key : String) : Except Misfit Json :=
  match lookup key fields with
  | some j => .ok j
  | none => .error (.missing key)

end EcmaMachine.Json
