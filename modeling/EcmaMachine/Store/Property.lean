import EcmaMachine.Store.Fault
import EcmaMachine.Store.Text

/-!
Properties of values. Objects read along their prototypes and write to themselves; arrays and
strings have indices and a length; functions have a `prototype`, made when it is first asked for,
and a `name`.
-/

namespace EcmaMachine

/-- The index that a key stands for: plain decimal digits without leading zeros, of at most 64
bits. -/
def arrayIndex? (key : String) : Option Nat :=
  let cs := key.toList
  if cs.isEmpty || (cs.length > 1 && cs.head? == some '0') then none
  else if cs.all Char.isDigit then
    let n := Number.decimalDigits cs
    if n < 0x10000000000000000 then some n else none
  else none

namespace Store

/-- An object and its prototypes, nearest first. The chain is cut after as many objects as there
are. -/
def lineage (s : Store) (id : ObjectId) : List ObjectId :=
  walk (s.objects.size + 1) (some id)
where
  walk : Nat → Option ObjectId → List ObjectId
  | fuel + 1, some id => id :: walk fuel (s.object id).prototype
  | _, _ => []

def getOwn? (s : Store) (id : ObjectId) (key : String) : Option Value :=
  (s.object id).properties.get? key

/-- The property on the nearest object of the lineage that has the key. -/
def get? (s : Store) (id : ObjectId) (key : String) : Option Value :=
  (s.lineage id).findSome? (s.getOwn? · key)

def setOwn (s : Store) (id : ObjectId) (key : String) (v : Value) : Store :=
  s.modifyObject id fun o => { o with properties := o.properties.set key v }

def removeOwn (s : Store) (id : ObjectId) (key : String) : Store :=
  s.modifyObject id fun o => { o with properties := o.properties.erase key }

/-- Removes a property, and tells whether there are fewer of them now. -/
def remove (s : Store) (id : ObjectId) (key : String) : Bool × Store :=
  let left := s.removeOwn id key
  ((left.object id).properties.entries.length != (s.object id).properties.entries.length, left)

def setPrototype (s : Store) (id : ObjectId) (prototype : Option ObjectId) : Store :=
  s.modifyObject id fun o => { o with prototype }

def clearObject (s : Store) (id : ObjectId) : Store :=
  s.modifyObject id fun _ => ⟨.empty, none⟩

def setFunctionProperty (s : Store) (id : FunctionId) (key : String) (v : Value) : Store :=
  s.modifyFunction id fun f => { f with properties := f.properties.set key v }

/-- The object that what `new` makes inherits from. A function gets it on first use, or again
if its `prototype` is no object. -/
def prototypeOf (s : Store) (id : FunctionId) : ObjectId × Store :=
  match (s.functionProperties id).get? "prototype" with
  | some (.object p) => (p, s)
  | _ =>
    let (p, s) := s.newObject (.ofEntries [("constructor", .function id)]) none
    (p, s.setFunctionProperty id "prototype" (.object p))

/-- Reads a property; what is missing is undefined. -/
def getProperty (s : Store) (target : Value) (key : String) :
    Except TypeFault (Value × Store) :=
  match target with
  | .undefined | .null => .error (.read (s.text target) key)
  | .object id => .ok ((s.get? id key).getD .undefined, s)
  | .array id =>
    let items := s.elements id
    if key == "length" then .ok (.number (Float.ofNat items.size), s)
    else .ok (((arrayIndex? key).bind (items[·]?)).getD .undefined, s)
  | .string t =>
    let cs := t.toList
    if key == "length" then .ok (.number (Float.ofNat cs.length), s)
    else
      match (arrayIndex? key).bind (cs[·]?) with
      | some c => .ok (.string (String.singleton c), s)
      | none => .ok (.undefined, s)
  | .function id =>
    if key == "prototype" then
      let (p, s) := s.prototypeOf id
      .ok (.object p, s)
    else
      match (s.functionProperties id).get? key with
      | some v => .ok (v, s)
      | none =>
        if key == "name" then .ok (.string ((s.functionName id).getD ""), s)
        else .ok (.undefined, s)
  | .bool _ | .number _ => .ok (.undefined, s)

/-- A length that an array may be given. -/
def arrayLength? (length : Float) : Except TypeFault Nat :=
  match Number.integer? length with
  | some n =>
    if n < 0 || n ≥ 0x100000000 then .error .arrayLength
    else if n > maxArrayLength then .error (.arrayTooLong n)
    else .ok n.toNat
  | none => .error .arrayLength

/-- Cuts an array, or fills it up with undefined. -/
def resize (items : Array Value) (length : Nat) : Array Value :=
  if length ≤ items.size then items.extract 0 length
  else items ++ Array.replicate (length - items.size) .undefined

/-- Writes an element; the gap before it is filled with undefined. -/
def setElement (items : Array Value) (index : Nat) (v : Value) : Array Value :=
  if index < items.size then items.setIfInBounds index v
  else (resize items index).push v

/-- Writes a property; what is written to a boolean, a number or a string is dropped. -/
def setProperty (s : Store) (target : Value) (key : String) (v : Value) :
    Except TypeFault Store :=
  match target with
  | .undefined | .null => .error (.write (s.text target) key)
  | .object id => .ok (s.setOwn id key v)
  | .array id =>
    match arrayIndex? key with
    | some index => do
      if (s.elements id).size ≤ index then
        let _ ← arrayLength? (Float.ofNat index + 1)
      .ok (s.modifyArray id (setElement · index v))
    | none =>
      if key == "length" then do
        let length ← arrayLength? (s.toNumber v)
        .ok (s.modifyArray id (resize · length))
      else .error (.arrayKey key)
  | .function id => .ok (s.setFunctionProperty id key v)
  | .bool _ | .number _ | .string _ => .ok s

/-- Removes a property. An element of an array becomes undefined instead. -/
def deleteProperty (s : Store) (target : Value) (key : String) : Except TypeFault Store :=
  match target with
  | .undefined | .null => .error (.delete (s.text target) key)
  | .object id => .ok (s.removeOwn id key)
  | .array id =>
    match arrayIndex? key with
    | some index => .ok (s.modifyArray id (·.setIfInBounds index .undefined))
    | none => .ok s
  | .function id =>
    .ok (s.modifyFunction id fun f => { f with properties := f.properties.erase key })
  | .bool _ | .number _ | .string _ => .ok s

/-- `key in target` -/
def hasProperty (s : Store) (target : Value) (key : String) : Except TypeFault Bool :=
  match target with
  | .object id => .ok (s.get? id key).isSome
  | .array id =>
    .ok (key == "length" || (arrayIndex? key).any (· < (s.elements id).size))
  | .function id =>
    .ok (key == "prototype" || key == "name" || (s.functionProperties id).contains key)
  | _ => .error (.search key (s.text target))

/-- The keys that a loop over the value visits. -/
def enumerableKeys (s : Store) : Value → List String
  | .object id => (s.object id).properties.keys
  | .array id => (List.range (s.elements id).size).map Number.natText
  | .string t => (List.range t.toList.length).map Number.natText
  | .function id => (s.functionProperties id).keys
  | .undefined | .null | .bool _ | .number _ => []

end Store

end EcmaMachine
