import EcmaMachine.Json.Basic
import EcmaMachine.Number.Dyadic
import EcmaMachine.Number.Reader
import EcmaMachine.Number.Text

/-!
Values of settings, whatever they come from, as a tree of named entries; how one is put into the
tree, and how a leaf is taken for a flag, a count or a text.
-/

namespace EcmaMachine

inductive Setting
  /-- A position of a list that nothing was put at. -/
  | absent
  | bool (b : Bool)
  | int (n : Int)
  | float (x : Float)
  | text (s : String)
  | list (items : List Setting)
  | table (entries : List (String × Setting))

namespace Setting

/-- Names and words count without case. All that are known are ASCII. -/
def lowered (s : String) : String := String.ofList (s.toList.map Char.toLower)

/-- Changes the entry of a name, or adds one at the end. -/
def change (name : String) (f : Option Setting → Setting) :
    List (String × Setting) → List (String × Setting)
  | [] => [(name, f none)]
  | (n, v) :: rest => if n == name then (n, f (some v)) :: rest else (n, v) :: change name f rest

def entries : Setting → List (String × Setting)
  | .table es => es
  | _ => []

def items : Setting → List Setting
  | .list vs => vs
  | _ => []

mutual

/-- A table goes into what is there entry by entry; everything else takes its place. An empty
table changes nothing. -/
def merge : Setting → Option Setting → Setting
  | .table es, old => mergeEntries es (old.getD (.table []))
  | .absent, _ => .absent
  | .bool b, _ => .bool b
  | .int n, _ => .int n
  | .float x, _ => .float x
  | .text s, _ => .text s
  | .list vs, _ => .list vs

def mergeEntries : List (String × Setting) → Setting → Setting
  | [], old => old
  | (name, v) :: rest, old =>
    mergeEntries rest (.table (change (lowered name) (merge v) old.entries))

end

/-- Changes the item at a position; a list that is too short is filled up. -/
def changeItem (i : Nat) (f : Setting → Setting) (vs : List Setting) : List Setting :=
  (vs ++ List.replicate (i + 1 - vs.length) absent).modify i f

def flag? : Setting → Option Bool
  | .bool b => some b
  | .int n => some (n != 0)
  | .float x => some (x != 0)
  | .text s =>
    let word := lowered s
    if ["1", "true", "on", "yes"].contains word then some true
    else if ["0", "false", "off", "no"].contains word then some false
    else none
  | _ => none

/-- A fraction goes to the nearest count, a half upwards, and what is out of range to the end of
the range. -/
def nearestCount (x : Float) : Nat :=
  if x.isNaN || x < 0 then 0
  else
    match Number.dyadic? (x * 2) with
    | none => 0xFFFFFFFFFFFFFFFF
    | some d => min ((d.floorAbs + 1) / 2) 0xFFFFFFFFFFFFFFFF

/-- Digits with an optional plus sign. -/
def countText? (s : String) : Option Nat :=
  let digits := match s.toList with
    | '+' :: ds => ds
    | ds => ds
  if digits.isEmpty || !digits.all Char.isDigit then none
  else
    let n := Number.decimalDigits digits
    if n < 0x10000000000000000 then some n else none

def count? : Setting → Option Nat
  | .bool b => some (if b then 1 else 0)
  | .int n => if n < 0 then none else some n.toNat
  | .float x => some (nearestCount x)
  | .text s =>
    let word := lowered s
    if ["true", "on", "yes"].contains word then some 1
    else if ["false", "off", "no"].contains word then some 0
    else countText? s
  | _ => none

def text? : Setting → Option String
  | .bool b => some (if b then "true" else "false")
  | .int n => some (Number.intText n)
  | .float x => some (Number.plainText x)
  | .text s => some s
  | _ => none

/-- An integer of 64 bits in decimal digits with an optional sign. -/
def int? (cs : List Char) : Option Int :=
  let bounded := fun (negative : Bool) (ds : List Char) =>
    if ds.isEmpty || !ds.all Char.isDigit then none
    else
      let n := Number.decimalDigits ds
      if negative then (if n ≤ 0x8000000000000000 then some (-(n : Int)) else none)
      else if n < 0x8000000000000000 then some (n : Int) else none
  match cs with
  | '-' :: ds => bounded true ds
  | '+' :: ds => bounded false ds
  | ds => bounded false ds

/-- The value that a bare text stands for: a flag, an integer or a number if it reads as one. -/
def ofText (s : String) : Setting :=
  let word := lowered s
  if word == "true" then .bool true
  else if word == "false" then .bool false
  else
    match int? s.toList with
    | some n => .int n
    | none => (Number.decimal? s.toList).elim (.text s) .float

mutual

/-- The setting that JSON stands for; integers have 64 bits. -/
def ofJson : Json → Setting
  | .null => .absent
  | .bool b => .bool b
  | .int n => if n < 0x8000000000000000 then .int n else .float (Float.ofInt n)
  | .float x => .float x
  | .string s => .text s
  | .array items => .list (ofItems items)
  | .object fields => .table (ofFields fields)

def ofItems : List Json → List Setting
  | [] => []
  | j :: rest => ofJson j :: ofItems rest

def ofFields : List (String × Json) → List (String × Setting)
  | [] => []
  | (name, j) :: rest => (name, ofJson j) :: ofFields rest

end

end Setting

/-- One step on the way to a setting: a name, or a position in a list, negative ones counted from
its end. -/
inductive SettingStep
  | name (s : String)
  | position (n : Int)

/-- The way to a setting, as in `logging.filter`. -/
abbrev SettingPath := List SettingStep

namespace SettingPath

def isNameChar (c : Char) : Bool := c.isAlphanum || c == '_' || c == '-'

def skipBlanks (cs : List Char) : List Char := cs.dropWhile fun c => c == ' ' || c == '\t'

/-- A position up to its closing bracket, and what follows it. -/
def position? (cs : List Char) : Option (Int × List Char) :=
  let (sign, digits) := match skipBlanks cs with
    | '-' :: ds => (['-'], ds)
    | ds => ([], ds)
  match skipBlanks (digits.dropWhile Char.isDigit) with
  | ']' :: rest => (Setting.int? (sign ++ digits.takeWhile Char.isDigit)).map (·, rest)
  | _ => none

def read : (fuel : Nat) → List Char → Option SettingPath
  | 0, _ => none
  | _, [] => some []
  | fuel + 1, '.' :: cs =>
    let name := cs.takeWhile isNameChar
    if name.isEmpty then none
    else
      (read fuel (cs.dropWhile isNameChar)).map
        (.name (Setting.lowered (String.ofList name)) :: ·)
  | fuel + 1, '[' :: cs =>
    (position? cs).bind fun (n, rest) => (read fuel rest).map (.position n :: ·)
  | _, _ => none

/-- Names divided by points, and positions in brackets. A name comes first. -/
def ofText? (s : String) : Option SettingPath := read (s.length + 2) ('.' :: s.toList)

/-- Puts a value at a path. What stands in the way of the path and is no table, or no list, gives
way. -/
def put : SettingPath → Setting → Option Setting → Setting
  | [], value, old => value.merge old
  | .name name :: path, value, old =>
    .table (Setting.change name (put path value) (old.elim [] Setting.entries))
  | [.position n], value, old =>
    let vs := old.elim [] Setting.items
    .list (Setting.changeItem (index n vs) (fun _ => value) vs)
  | .position n :: path, value, old =>
    let vs := old.elim [] Setting.items
    .list (Setting.changeItem (index n vs) (fun v => put path value (some v)) vs)
where
  index (n : Int) (vs : List Setting) : Nat :=
    if n < 0 then vs.length - n.natAbs else n.natAbs

end SettingPath

end EcmaMachine
