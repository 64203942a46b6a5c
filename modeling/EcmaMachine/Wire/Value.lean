import EcmaMachine.Json.Basic
import EcmaMachine.Store.Thread
import EcmaMachine.Wire.Registry

/-!
Values as JSON. Plain data goes by value. Functions, objects with a prototype, and what contains
itself go as a token, an object `ref` with the token's text.
-/

namespace EcmaMachine

namespace Wire

/-- Integers below 2 ^ 53 are written as such; what is not finite is null. -/
def encodeNumber (x : Float) : Json :=
  match Number.safeInteger? x with
  | some n => .int n
  | none => if x.isFinite then .float x else .null

def encodeToken (v : Value) (r : Registry) : Json × Registry :=
  let (t, r) := r.tokenFor v
  (.object [("ref", .string t.text)], r)

/-- `path` holds the containers around the value, so `fuel` need only count the containers there
are. -/
def encodeWithin (s : Store) :
    (fuel : Nat) → (path : List Value) → Value → Registry → Json × Registry
  | 0, _, v, r => encodeToken v r
  | fuel + 1, path, v, r =>
    match v with
    | .undefined | .null => (.null, r)
    | .bool b => (.bool b, r)
    | .number x => (encodeNumber x, r)
    | .string t => (.string t, r)
    | .function _ => encodeToken v r
    | .array id =>
      if path.contains v then encodeToken v r
      else
        let (items, r) := mapWith (encodeWithin s fuel (v :: path)) (s.elements id).toList r
        (.array items, r)
    | .object id =>
      if (s.object id).prototype.isSome || path.contains v then encodeToken v r
      else
        let field := fun (entry : String × Value) (r : Registry) =>
          let (j, r) := encodeWithin s fuel (v :: path) entry.2 r
          ((entry.1, j), r)
        let (fields, r) := mapWith field (s.object id).properties.entries r
        (Json.ofFields fields, r)

def encodeValue (s : Store) (r : Registry) (v : Value) : Json × Registry :=
  encodeWithin s (s.objects.size + s.arrays.size + 1) [] v r

/-- The value behind an object that is a token of this side. -/
def resolveFields? (r : Registry) : List (String × Json) → Option Value
  | [("ref", .string text)] => (Token.ofText? text).bind r.resolve?
  | _ => none

mutual

/-- Tokens of this side give back what they stand for; those of another side stay objects. -/
def decodeValue (r : Registry) (s : Store) : Json → Value × Store
  | .null => (.null, s)
  | .bool b => (.bool b, s)
  | .int n => (.number (Float.ofInt n), s)
  | .float x => (.number x, s)
  | .string t => (.string t, s)
  | .array items =>
    let (vs, s) := decodeItems r s items
    s.newList vs
  | .object fields =>
    match resolveFields? r fields with
    | some v => (v, s)
    | none =>
      let (entries, s) := decodeFields r s fields
      s.newRecord entries

def decodeItems (r : Registry) (s : Store) : List Json → List Value × Store
  | [] => ([], s)
  | j :: rest =>
    let (v, s) := decodeValue r s j
    let (vs, s) := decodeItems r s rest
    (v :: vs, s)

def decodeFields (r : Registry) (s : Store) : List (String × Json) → List (String × Value) × Store
  | [] => ([], s)
  | (k, j) :: rest =>
    let (v, s) := decodeValue r s j
    let (entries, s) := decodeFields r s rest
    ((k, v) :: entries, s)

end

end Wire

end EcmaMachine
