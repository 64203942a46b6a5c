import EcmaMachine.Number.Reader
import EcmaMachine.Store.Basic
import EcmaMachine.Text.Quoted

/-!
Values as text and as numbers. `Store.text` is what a script sees, `Store.debug` is for a
diagnostic.
-/

namespace EcmaMachine

namespace Store

def functionText (name : Option String) : String :=
  "function " ++ name.getD "" ++ "() \x7b [code] \x7d"

/-- The elements between commas, undefined and null as nothing. An array inside itself is nothing
too: `path` holds the arrays around this one, so `fuel` need only count the arrays there are. -/
def join (s : Store) : (fuel : Nat) → (path : List ArrayId) → ArrayId → String
  | 0, _, _ => ""
  | fuel + 1, path, id =>
    if path.contains id then ""
    else
      let item : Value → String
        | .undefined | .null => ""
        | .bool b => if b then "true" else "false"
        | .number x => Number.text x
        | .string t => t
        | .object _ => "[object Object]"
        | .array inner => s.join fuel (id :: path) inner
        | .function f => functionText (s.functionName f)
      ",".intercalate ((s.elements id).toList.map item)

def text (s : Store) : Value → String
  | .undefined => "undefined"
  | .null => "null"
  | .bool b => if b then "true" else "false"
  | .number x => Number.text x
  | .string t => t
  | .object _ => "[object Object]"
  | .array id => s.join (s.arrays.size + 1) [] id
  | .function id => functionText (s.functionName id)

def toNumber (s : Store) : Value → Float
  | .undefined => Number.nan
  | .null => 0
  | .bool b => if b then 1 else 0
  | .number x => x
  | .string t => Number.ofText t
  | .array id => Number.ofText (s.text (.array id))
  | .object _ | .function _ => Number.nan

def toInt32 (s : Store) (v : Value) : Int := Number.toInt32 (s.toNumber v)

/-- The value with its constructor. Objects and arrays are written out, so `fuel` has to count
the containers on the longest way down. -/
def debugWithin (s : Store) : (fuel : Nat) → Value → String
  | 0, _ => ""
  | fuel + 1, v =>
    match v with
    | .undefined => "Undefined"
    | .null => "Null"
    | .bool b => "Boolean(" ++ (if b then "true" else "false") ++ ")"
    | .number x => "Number(" ++ Number.text x ++ ")"
    | .string t => "String(" ++ Text.quoted t ++ ")"
    | .object id =>
      let entry := fun (e : String × Value) => Text.quoted e.1 ++ ": " ++ s.debugWithin fuel e.2
      "\x7b" ++ ", ".intercalate ((s.object id).properties.entries.map entry) ++ "\x7d"
    | .array id => "[" ++ ", ".intercalate ((s.elements id).toList.map (s.debugWithin fuel)) ++ "]"
    | .function id => "Function(" ++ (s.functionName id).getD "anonymous" ++ ")"

def debug (s : Store) (v : Value) : String :=
  s.debugWithin (s.objects.size + s.arrays.size + 1) v

end Store

end EcmaMachine
