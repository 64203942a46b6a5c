import EcmaMachine.Settings.Date
import EcmaMachine.Settings.Value

/-!
Settings files in TOML. `Toml.read?` gives the tree of a text, or nothing if the text is
malformed or defines a name twice.

Each table remembers how it came to be, because that decides who may add to it: a header may
complete a table that only stood on the way to another one, a dotted key may pass such tables and
add to a table of dotted keys, and a table in braces is closed.
-/

namespace EcmaMachine

namespace Toml

inductive Origin
  | passed | header | dotted | braces
  deriving DecidableEq

end Toml

inductive Toml
  | leaf (value : Setting)
  | array (items : List Toml)
  | tables (items : List Toml)
  | table (origin : Toml.Origin) (entries : List (String × Toml))

namespace Toml

abbrev Entries := List (String × Toml)

/-- Changes the entry of a name, or adds one; `none` if the change is refused. -/
def change (name : String) (f : Option Toml → Option Toml) : Entries → Option Entries
  | [] => (f none).map fun v => [(name, v)]
  | (n, v) :: rest =>
    if n == name then (f (some v)).map fun v => (n, v) :: rest
    else (change name f rest).map ((n, v) :: ·)

def inTable (f : Entries → Option Entries) : Toml → Option Toml
  | .table origin es => (f es).map (.table origin)
  | _ => none

/-- Acts on a table, or on the last one of a list of tables. -/
def inLast (f : Entries → Option Entries) : Toml → Option Toml
  | .tables items =>
    match items.reverse with
    | last :: before => (inTable f last).map fun last => .tables (before.reverse ++ [last])
    | [] => none
  | t => inTable f t

/-- Follows a path, entering each table on the way as `enter` says. -/
def within (enter : Option Toml → Option Toml) (f : Entries → Option Entries) :
    List String → Entries → Option Entries
  | [], es => f es
  | name :: path, es =>
    change name (fun old => (enter old).bind (inLast (within enter f path))) es

/-- What a header may pass through. -/
def passHeader : Option Toml → Option Toml
  | none => some (.table .passed [])
  | some (.table .braces _) => none
  | some t => some t

/-- What a dotted key may pass through. -/
def passDotted : Option Toml → Option Toml
  | none => some (.table .dotted [])
  | some (.table .dotted es) => some (.table .dotted es)
  | some (.table .passed es) => some (.table .passed es)
  | some (.tables items) => some (.tables items)
  | some _ => none

/-- What a dotted key may add to. -/
def ownDotted : Option Toml → Option Toml
  | none => some (.table .dotted [])
  | some (.table .dotted es) => some (.table .dotted es)
  | some _ => none

def unlessTaken (value : Toml) : Option Toml → Option Toml
  | none => some value
  | some _ => none

/-- Splits off the last name of a key. -/
def splitLast (name : String) : List String → List String × String
  | [] => ([], name)
  | next :: rest => let (path, last) := splitLast next rest; (name :: path, last)

def define (key : String × List String) (value : Toml) (es : Entries) : Option Entries :=
  let (path, last) := splitLast key.1 key.2
  let add := change last (unlessTaken value)
  match path with
  | [] => add es
  | name :: names =>
    let (path, owner) := splitLast name names
    within passDotted (change owner fun old => (ownDotted old).bind (inTable add)) path es

def openTable (key : String × List String) (es : Entries) : Option Entries :=
  let (path, last) := splitLast key.1 key.2
  let opened := fun
    | none => some (.table .header [])
    | some (.table .passed inner) => some (.table .header inner)
    | some _ => none
  within passHeader (change last opened) path es

def addTable (key : String × List String) (es : Entries) : Option Entries :=
  let (path, last) := splitLast key.1 key.2
  let added := fun
    | none => some (.tables [.table .header []])
    | some (.tables items) => some (.tables (items ++ [.table .header []]))
    | some _ => none
  within passHeader (change last added) path es

/-! ## Blanks, comments and ends of lines -/

def skipBlanks (cs : List Char) : List Char := cs.dropWhile fun c => c == ' ' || c == '\t'

def isPlain (c : Char) : Bool := c == '\t' || (c.toNat ≥ 0x20 && c.toNat != 0x7F)

def isCommentChar (c : Char) : Bool := isPlain c || c.toNat == 0x7F

/-- Blanks and a comment, up to the end of the line. -/
def lineRest? (cs : List Char) : Option (List Char) :=
  match skipBlanks cs with
  | '#' :: rest =>
    match rest.dropWhile isCommentChar with
    | [] => some []
    | '\n' :: rest => some ('\n' :: rest)
    | '\r' :: '\n' :: rest => some ('\n' :: rest)
    | _ => none
  | '\r' :: '\n' :: rest => some ('\n' :: rest)
  | rest => some rest

def lineEnd? (cs : List Char) : Option (List Char) :=
  match lineRest? cs with
  | some [] => some []
  | some ('\n' :: rest) => some rest
  | _ => none

/-- Blanks, comments and line ends, as they may stand inside an array. -/
def skipLines? : (fuel : Nat) → List Char → Option (List Char)
  | 0, _ => none
  | fuel + 1, cs =>
    match lineRest? cs with
    | some ('\n' :: rest) => skipLines? fuel rest
    | other => other

/-! ## Strings -/

/-- The character of a number, unless it is no character. -/
def charOf? (n : Nat) : Option Char :=
  if n < 0xD800 || (0xDFFF < n && n < 0x110000) then some (Char.ofNat n) else none

/-- The character that an escape stands for, after its backslash. -/
def escaped? : List Char → Option (Char × List Char)
  | 'b' :: cs => some ('\x08', cs)
  | 't' :: cs => some ('\t', cs)
  | 'n' :: cs => some ('\n', cs)
  | 'f' :: cs => some ('\x0c', cs)
  | 'r' :: cs => some ('\r', cs)
  | '"' :: cs => some ('"', cs)
  | '\\' :: cs => some ('\\', cs)
  | 'u' :: cs => coded 4 cs
  | 'U' :: cs => coded 8 cs
  | _ => none
where
  coded (n : Nat) (cs : List Char) : Option (Char × List Char) :=
    if cs.length < n then none
    else ((Number.hexDigits? (cs.take n)).bind charOf?).map fun c => (c, cs.drop n)

abbrev Piece := Option (List Char × List Char)

def basicString : (fuel : Nat) → List Char → Piece
  | 0, _ => none
  | _, '"' :: cs => some ([], cs)
  | fuel + 1, '\\' :: cs =>
    (escaped? cs).bind fun (c, rest) => (basicString fuel rest).map fun (t, r) => (c :: t, r)
  | fuel + 1, c :: cs =>
    if isPlain c then (basicString fuel cs).map fun (t, r) => (c :: t, r) else none
  | _, [] => none

def literalString : List Char → Piece
  | '\'' :: cs => some ([], cs)
  | c :: cs => if isPlain c then (literalString cs).map fun (t, r) => (c :: t, r) else none
  | [] => none

/-- Blanks and line ends. -/
def skipBreaks : List Char → List Char
  | ' ' :: cs => skipBreaks cs
  | '\t' :: cs => skipBreaks cs
  | '\n' :: cs => skipBreaks cs
  | '\r' :: '\n' :: cs => skipBreaks cs
  | cs => cs

/-- The close of a string of several lines, which up to two quotes may precede. -/
def tripleClose? (quote : Char) (cs : List Char) : Option (List Char × List Char) :=
  let run := (cs.takeWhile (· == quote)).length
  if run < 3 then none
  else
    let kept := min (run - 3) 2
    some (List.replicate kept quote, cs.drop (kept + 3))

/-- A backslash at the end of a line takes all blanks and line ends after it. -/
def foldedLine? (cs : List Char) : Option (List Char) :=
  match skipBlanks cs with
  | '\n' :: rest => some (skipBreaks rest)
  | '\r' :: '\n' :: rest => some (skipBreaks rest)
  | _ => none

def longString (quote : Char) : (fuel : Nat) → List Char → Piece
  | 0, _ => none
  | _, [] => none
  | fuel + 1, c :: cs =>
    match tripleClose? quote (c :: cs) with
    | some (kept, rest) => some (kept, rest)
    | none =>
      if c == '\\' && quote == '"' then
        match foldedLine? cs with
        | some rest => longString quote fuel rest
        | none =>
          (escaped? cs).bind fun (e, rest) =>
            (longString quote fuel rest).map fun (t, r) => (e :: t, r)
      else if isPlain c || c == '\n' then
        (longString quote fuel cs).map fun (t, r) => (c :: t, r)
      else
        match c, cs with
        | '\r', '\n' :: rest => (longString quote fuel rest).map fun (t, r) => ('\n' :: t, r)
        | _, _ => none

/-- A line end right after the opening quotes does not count. -/
def dropFirstBreak : List Char → List Char
  | '\n' :: cs => cs
  | '\r' :: '\n' :: cs => cs
  | cs => cs

/-! ## Keys -/

def isKeyChar (c : Char) : Bool := c.isAlphanum || c == '_' || c == '-'

def simpleKey? (cs : List Char) : Option (String × List Char) :=
  match cs with
  | '"' :: rest => (basicString (rest.length + 1) rest).map fun (t, r) => (String.ofList t, r)
  | '\'' :: rest => (literalString rest).map fun (t, r) => (String.ofList t, r)
  | _ =>
    let name := cs.takeWhile isKeyChar
    if name.isEmpty then none else some (String.ofList name, cs.dropWhile isKeyChar)

def moreKeys : (fuel : Nat) → List Char → Option (List String × List Char)
  | 0, _ => none
  | fuel + 1, cs =>
    match skipBlanks cs with
    | '.' :: rest =>
      (simpleKey? (skipBlanks rest)).bind fun (name, rest) =>
        (moreKeys fuel rest).map fun (names, rest) => (name :: names, rest)
    | rest => some ([], rest)

/-- Keys have fewer names than this, and values are nested less deep. -/
def depthBound : Nat := 80

/-- Names divided by points; blanks may stand around the points and behind the key. -/
def key? (cs : List Char) : Option ((String × List String) × List Char) :=
  (simpleKey? cs).bind fun (name, rest) =>
    (moreKeys (rest.length + 1) rest).bind fun (names, rest) =>
      if names.length + 1 < depthBound then some ((name, names), rest) else none

/-! ## Numbers -/

/-- Digits that single underscores may divide. -/
def grouped? (isDigit : Char → Bool) : List Char → Option (List Char)
  | [] => none
  | [c] => if isDigit c then some [c] else none
  | c :: '_' :: cs => if isDigit c then (grouped? isDigit cs).map (c :: ·) else none
  | c :: cs => if isDigit c then (grouped? isDigit cs).map (c :: ·) else none

def plainDigits? (cs : List Char) : Option (List Char) :=
  (grouped? Char.isDigit cs).bind fun
    | '0' :: _ :: _ => none
    | ds => some ds

def ofBase? (base : Nat) (cs : List Char) : Option Int :=
  let fits := fun c => (Number.hexDigit? c).any (· < base)
  (grouped? fits cs).bind fun ds =>
    let n := ds.foldl (fun n c => n * base + (Number.hexDigit? c).getD 0) 0
    if n < 0x8000000000000000 then some (n : Int) else none

def integer? : List Char → Option Int
  | '0' :: 'x' :: cs => ofBase? 16 cs
  | '0' :: 'o' :: cs => ofBase? 8 cs
  | '0' :: 'b' :: cs => ofBase? 2 cs
  | '-' :: cs => (plainDigits? cs).bind fun ds => Setting.int? ('-' :: ds)
  | '+' :: cs => (plainDigits? cs).bind Setting.int?
  | cs => (plainDigits? cs).bind Setting.int?

/-- A number with a fraction or an exponent, without its sign. -/
def fraction? (cs : List Char) : Option Float :=
  let isMark := fun c => c == 'e' || c == 'E'
  let body := cs.takeWhile fun c => !isMark c
  let whole := body.takeWhile (· != '.')
  let wellFormed :=
    whole.length < cs.length &&
    (plainDigits? whole).isSome &&
    (match body.dropWhile (· != '.') with
      | [] => true
      | _ :: ds => (grouped? Char.isDigit ds).isSome) &&
    (match cs.dropWhile fun c => !isMark c with
      | [] => true
      | _ :: '-' :: ds => (grouped? Char.isDigit ds).isSome
      | _ :: '+' :: ds => (grouped? Char.isDigit ds).isSome
      | _ :: ds => (grouped? Char.isDigit ds).isSome)
  if wellFormed then Number.unsignedDecimal? (cs.filter (· != '_')) else none

/-- A number too large is refused, unless it is negative. -/
def float? (cs : List Char) : Option Float :=
  let special := fun ds : List Char =>
    if ds == ['i', 'n', 'f'] then some Number.infinity
    else if ds == ['n', 'a', 'n'] then some Number.nan
    else none
  let finite := fun ds => (fraction? ds).bind fun x => if x == Number.infinity then none else some x
  match cs with
  | '-' :: ds => (special ds <|> fraction? ds).map fun x => -x
  | '+' :: ds => special ds <|> finite ds
  | ds => special ds <|> finite ds

def isWordChar (c : Char) : Bool :=
  c.isAlphanum || c == '+' || c == '-' || c == '_' || c == '.'

def word? (cs : List Char) : Option Setting :=
  if cs == "true".toList then some (.bool true)
  else if cs == "false".toList then some (.bool false)
  else
    match integer? cs with
    | some n => some (.int n)
    | none => (float? cs).map .float

/-! ## Values -/

def leafText : List Char × List Char → Toml × List Char
  | (t, rest) => (.leaf (.text (String.ofList t)), rest)

/-- A date or a word. -/
def plainValue? (cs : List Char) : Option (Toml × List Char) :=
  match Date.read? cs with
  | some (t, rest) => some (.leaf (.text t), rest)
  | none => (word? (cs.takeWhile isWordChar)).map fun v => (.leaf v, cs.dropWhile isWordChar)

mutual

/-- A value at a depth. -/
def value? : (fuel depth : Nat) → List Char → Option (Toml × List Char)
  | 0, _, _ => none
  | fuel + 1, depth, cs =>
    match cs with
    | '"' :: '"' :: '"' :: rest =>
      (longString '"' (rest.length + 1) (dropFirstBreak rest)).map leafText
    | '\'' :: '\'' :: '\'' :: rest =>
      (longString '\'' (rest.length + 1) (dropFirstBreak rest)).map leafText
    | '"' :: rest => (basicString (rest.length + 1) rest).map leafText
    | '\'' :: rest => (literalString rest).map leafText
    | '[' :: rest =>
      if depth + 1 < depthBound then
        (items? fuel (depth + 1) rest).map fun (vs, rest) => (.array vs, rest)
      else none
    | '\x7b' :: rest =>
      if depth + 1 < depthBound then
        match skipBlanks rest with
        | '\x7d' :: rest => some (.table .braces [], rest)
        | rest =>
          (members? fuel (depth + 1) [] rest).map fun (es, rest) => (.table .braces es, rest)
      else none
    | _ => plainValue? cs

/-- The items of an array up to its bracket. -/
def items? : (fuel depth : Nat) → List Char → Option (List Toml × List Char)
  | 0, _, _ => none
  | fuel + 1, depth, cs =>
    (skipLines? (cs.length + 1) cs).bind fun
      | ']' :: rest => some ([], rest)
      | cs =>
        (value? fuel depth cs).bind fun (v, rest) =>
          (skipLines? (rest.length + 1) rest).bind fun
            | ',' :: rest => (items? fuel depth rest).map fun (vs, rest) => (v :: vs, rest)
            | ']' :: rest => some ([v], rest)
            | _ => none

/-- The members of a table in braces. -/
def members? : (fuel depth : Nat) → Entries → List Char → Option (Entries × List Char)
  | 0, _, _, _ => none
  | fuel + 1, depth, es, cs =>
    (key? (skipBlanks cs)).bind fun
      | (key, '=' :: rest) =>
        (value? fuel depth (skipBlanks rest)).bind fun (v, rest) =>
          (define key v es).bind fun es =>
            match skipBlanks rest with
            | ',' :: rest => members? fuel depth es rest
            | '\x7d' :: rest => some (es, rest)
            | _ => none
      | _ => none

end

/-! ## Documents -/

structure Document where
  root : Entries
  /-- The path of the last header. -/
  header : List String

/-- One line that is not blank: a header, or a key with its value. -/
def line? (d : Document) (cs : List Char) : Option (Document × List Char) :=
  match cs with
  | '[' :: '[' :: rest =>
    (key? (skipBlanks rest)).bind fun
      | (key, ']' :: ']' :: rest) =>
        (addTable key d.root).map fun root => (⟨root, key.1 :: key.2⟩, rest)
      | _ => none
  | '[' :: rest =>
    (key? (skipBlanks rest)).bind fun
      | (key, ']' :: rest) =>
        (openTable key d.root).map fun root => (⟨root, key.1 :: key.2⟩, rest)
      | _ => none
  | _ =>
    (key? cs).bind fun
      | (key, '=' :: rest) =>
        (value? (2 * rest.length + 4) 0 (skipBlanks rest)).bind fun (v, rest) =>
          (within passHeader (define key v) d.header d.root).map fun root => ({ d with root }, rest)
      | _ => none

def lines? : (fuel : Nat) → Document → List Char → Option Document
  | 0, _, _ => none
  | fuel + 1, d, cs =>
    (skipLines? (cs.length + 1) cs).bind fun
      | [] => some d
      | cs => (line? d (skipBlanks cs)).bind fun (d, rest) => (lineEnd? rest).bind (lines? fuel d)

mutual

def setting : Toml → Setting
  | .leaf v => v
  | .array vs => .list (settings vs)
  | .tables vs => .list (settings vs)
  | .table _ es => .table (namedSettings es)

def settings : List Toml → List Setting
  | [] => []
  | v :: rest => setting v :: settings rest

def namedSettings : List (String × Toml) → List (String × Setting)
  | [] => []
  | (name, v) :: rest => (name, setting v) :: namedSettings rest

end

def read? (text : String) : Option (List (String × Setting)) :=
  let cs := match text.toList with
    | '\uFEFF' :: cs => cs
    | cs => cs
  (lines? (cs.length + 1) ⟨[], []⟩ cs).map fun d => namedSettings d.root

end Toml

end EcmaMachine
