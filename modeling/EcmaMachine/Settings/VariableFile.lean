import EcmaMachine.Settings.Variables

/-!
Variables from a file, one `NAME=value` to a line. A value may stand in quotes and then go on over
several lines, and `$NAME` or the same with braces in it is the value of another variable. The
environment goes before the file, and the first malformed line ends it.
-/

namespace EcmaMachine.VariableFile

open Variables (Environment)

/-! ## Lines -/

/-- How far a line has come: in quotes, behind a backslash, or behind a blank. -/
inductive LineState
  | complete | blank | escape | single | singleEscape | double | doubleEscape

/-- The state after a character; `none` if a comment starts with it. -/
def LineState.next (s : LineState) (c : Char) : Option LineState :=
  let plain :=
    if c == '\\' then .escape
    else if c == '"' then .double
    else if c == '\'' then .single
    else .complete
  match s with
  | .blank => if c == '#' then none else some plain
  | .complete =>
    some (if Text.isBlank c && c != '\n' && c != '\r' then .blank else plain)
  | .escape => some .complete
  | .double => some (if c == '\\' then .doubleEscape else if c == '"' then .complete else .double)
  | .doubleEscape => some .double
  | .single => some (if c == '\\' then .singleEscape else if c == '\'' then .complete else .single)
  | .singleEscape => some .single

/-- Follows a line to its end. With `none`, the text before its comment is all that counts. -/
def follow (s : LineState) : List Char → Option LineState × List Char
  | [] => (some s, [])
  | c :: cs =>
    match s.next c with
    | none => (none, [])
    | some s => let (state, text) := follow s cs; (state, c :: text)

/-- The lines of a text, each with its line end. -/
def physicalLines : List Char → List (List Char)
  | [] => []
  | c :: cs =>
    if c == '\n' then [c] :: physicalLines cs
    else
      match physicalLines cs with
      | [] => [[c]]
      | l :: rest => (c :: l) :: rest

def withoutEnd (cs : List Char) : List Char :=
  match cs.reverse with
  | '\n' :: '\r' :: rest => rest.reverse
  | '\n' :: rest => rest.reverse
  | _ => cs

/-- Joins the lines that belong together. `none` stands for lines that nothing completes. -/
def logicalLines (s : LineState) (before : List Char) :
    List (List Char) → List (Option (List Char))
  | [] => match s with
    | .complete => []
    | _ => [none]
  | l :: rest =>
    let all := before ++ l
    if (all.dropWhile Text.isBlank).head? == some '#' then logicalLines .complete [] rest
    else
      match follow s l with
      | (none, text) => some (before ++ text) :: logicalLines .complete [] rest
      | (some .complete, _) => some (withoutEnd all) :: logicalLines .complete [] rest
      | (some s, _) => logicalLines s all rest

/-! ## Values -/

inductive Quoting
  | bare | single | double | ended
  deriving DecidableEq

/-- A reference to a variable that is being read, and its name so far in reverse. -/
inductive Reference
  | plain (name : List Char)
  | braced (name : List Char)

structure Reading where
  quoting : Quoting
  escaped : Bool
  reference : Option Reference
  /-- The value so far, in reverse. -/
  value : List Char

def lookUp (env known : Environment) (name : List Char) : List Char :=
  let name := String.ofList name
  ((env.lookup name <|> known.lookup name).getD "").toList

namespace Reading

def start : Reading := ⟨.bare, false, none, []⟩

def push (r : Reading) (c : Char) : Reading := { r with value := c :: r.value }

/-- Puts the value of a variable, its name given in reverse, in the place of the reference. -/
def resolve (env known : Environment) (r : Reading) (name : List Char) : Reading :=
  { r with reference := none, value := (lookUp env known name.reverse).reverse ++ r.value }

def unquoted (r : Reading) (c : Char) : Reading :=
  if c == '$' then { r with reference := some (.plain []) }
  else
    match r.quoting with
    | .double =>
      if c == '"' then { r with quoting := .bare }
      else if c == '\\' then { r with escaped := true }
      else r.push c
    | _ =>
      if c == '\'' then { r with quoting := .single }
      else if c == '"' then { r with quoting := .double }
      else if c == '\\' then { r with escaped := true }
      else if c == ' ' || c == '\t' then { r with quoting := .ended }
      else r.push c

/-- Reads one more character; `none` if it may not stand there. -/
def next (env known : Environment) (r : Reading) (c : Char) : Option Reading :=
  if r.escaped then
    let r := { r with escaped := false }
    if c == 'n' then some (r.push '\n')
    else if ['\\', '\'', '"', '$', ' '].contains c then some (r.push c)
    else none
  else
    match r.quoting, r.reference with
    | .ended, _ => if c == ' ' || c == '\t' then some r else none
    | .single, _ => some (if c == '\'' then { r with quoting := .bare } else r.push c)
    | _, none => some (r.unquoted c)
    | _, some (.braced name) =>
      some (if c == '\x7d' then r.resolve env known name
        else { r with reference := some (.braced (c :: name)) })
    | _, some (.plain name) =>
      if c.isAlphanum then some { r with reference := some (.plain (c :: name)) }
      else if c == '\x7b' && name.isEmpty then some { r with reference := some (.braced []) }
      else
        let r := r.resolve env known name
        some (if c == '$' then { r with reference := some (.plain []) } else r.push c)

/-- The value at the end of the line; quotes and braces must be closed. -/
def close? (env known : Environment) (r : Reading) : Option (List Char) :=
  match r.quoting, r.reference with
  | .single, _ => none
  | .double, _ => none
  | _, some (.braced _) => none
  | _, some (.plain name) => some (r.resolve env known name).value.reverse
  | _, none => some r.value.reverse

/-- Reads a value to its end. Only a comment may follow a blank. -/
def read? (env known : Environment) (r : Reading) : List Char → Option (List Char)
  | [] => r.close? env known
  | c :: cs =>
    if r.quoting = .ended && c == '#' then r.close? env known
    else (r.next env known c).bind fun r => read? env known r cs

end Reading

/-! ## Assignments -/

inductive Line
  | blank
  | assigned (name value : String)
  | malformed

def isNameStart (c : Char) : Bool := c.isAlpha || c == '_'

def isNameChar (c : Char) : Bool := c.isAlphanum || c == '_' || c == '.'

def skipBlanks (cs : List Char) : List Char := cs.dropWhile Text.isBlank

/-- A name, and what follows it and its blanks. -/
def name? (cs : List Char) : Option (List Char × List Char) :=
  if cs.head?.any isNameStart then
    some (cs.takeWhile isNameChar, skipBlanks (cs.dropWhile isNameChar))
  else none

/-- The name that is assigned, behind an optional `export`, and what follows the equals sign. -/
def target? (cs : List Char) : Option (List Char × List Char) :=
  (name? cs).bind fun
    | (name, '=' :: rest) => some (name, rest)
    | (name, rest) =>
      if name == "export".toList then
        (name? rest).bind fun
          | (name, '=' :: rest) => some (name, rest)
          | _ => none
      else none

/-- What a line says, in an environment and after the lines before it. -/
def line (env known : Environment) (cs : List Char) : Line :=
  let cs := Text.trim cs
  if cs.isEmpty || cs.head? == some '#' then .blank
  else
    match target? cs with
    | none => .malformed
    | some (name, rest) =>
      let rest := skipBlanks rest
      let value :=
        if rest.head? == some '#' then some [] else Reading.start.read? env known rest
      match value with
      | some v => .assigned (String.ofList name) (String.ofList v)
      | none => .malformed

/-- Adds the variables of the lines; `known` holds what the lines before have assigned, the last
first. -/
def addLines (env known : Environment) : List (Option (List Char)) → Environment
  | [] => env
  | none :: _ => env
  | some cs :: rest =>
    match line env known cs with
    | .blank => addLines env known rest
    | .malformed => env
    | .assigned name value =>
      let env := if env.any (·.1 == name) then env else env ++ [(name, value)]
      addLines env ((name, value) :: known) rest

/-- Adds the variables of a file to an environment. -/
def add (env : Environment) (text : String) : Environment :=
  let cs := match text.toList with
    | '\uFEFF' :: cs => cs
    | cs => cs
  addLines env [] (logicalLines .complete [] (physicalLines cs))

end EcmaMachine.VariableFile
