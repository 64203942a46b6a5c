import EcmaMachine.Number.Dyadic

/-!
JSON values. Integers and fractions are apart, because a reader of JSON tells them apart when it
refuses a value. Objects are field lists; those read from text or built by `Json.ofFields` are
sorted by key and hold each key once.
-/

namespace EcmaMachine

inductive Json
  | null
  | bool (b : Bool)
  | int (n : Int)
  | float (x : Float)
  | string (s : String)
  | array (items : List Json)
  | object (fields : List (String × Json))
  deriving Inhabited

namespace Json

/-- Writes one field into a sorted field list; an old value of the key is replaced. -/
def insertField (key : String) (value : Json) : List (String × Json) → List (String × Json)
  | [] => [(key, value)]
  | (k, v) :: rest =>
    if key < k then (key, value) :: (k, v) :: rest
    else if k < key then (k, v) :: insertField key value rest
    else (key, value) :: rest

/-- The object with these fields, sorted by key; the last value of a repeated key stays. -/
def ofFields (fields : List (String × Json)) : Json :=
  .object (fields.foldl (fun sorted (k, v) => insertField k v sorted) [])

def lookup (key : String) (fields : List (String × Json)) : Option Json :=
  (fields.find? fun (k, _) => k == key).map (·.2)

/-- The field of an object; `none` if there is no such field or no object. -/
def field? (j : Json) (key : String) : Option Json :=
  match j with
  | .object fields => lookup key fields
  | _ => none

mutual

def beq : Json → Json → Bool
  | .null, .null => true
  | .bool a, .bool b => a == b
  | .int a, .int b => a == b
  | .float a, .float b => decide (a = b)
  | .string a, .string b => a == b
  | .array a, .array b => beqItems a b
  | .object a, .object b => beqFields a b
  | _, _ => false

def beqItems : List Json → List Json → Bool
  | [], [] => true
  | a :: as, b :: bs => beq a b && beqItems as bs
  | _, _ => false

def beqFields : List (String × Json) → List (String × Json) → Bool
  | [], [] => true
  | (k, a) :: as, (l, b) :: bs => k == l && beq a b && beqFields as bs
  | _, _ => false

end

instance : BEq Json := ⟨beq⟩

mutual

/-- The same value with the fields of every object sorted by key. -/
def sorted : Json → Json
  | .array items => .array (sortedItems items)
  | .object fields => ofFields (sortedFields fields)
  | .null => .null
  | .bool b => .bool b
  | .int n => .int n
  | .float x => .float x
  | .string s => .string s

def sortedItems : List Json → List Json
  | [] => []
  | j :: rest => sorted j :: sortedItems rest

def sortedFields : List (String × Json) → List (String × Json)
  | [] => []
  | (k, j) :: rest => (k, sorted j) :: sortedFields rest

end

/-- A JSON number as a number; integers are rounded to the nearest. -/
def number? : Json → Option Float
  | .int n => some (Float.ofInt n)
  | .float x => some x
  | _ => none

end Json

end EcmaMachine
