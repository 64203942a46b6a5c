import EcmaMachine.Json.Basic
import EcmaMachine.Number.Reader

/-!
Reading JSON text. A refusal names its cause, the line, and the column counted in bytes of the
line's UTF-8 form. A character that was only looked at counts as read, unless the text has
ended.
-/

namespace EcmaMachine.Json

inductive Fault
  | endInList
  | endInObject
  | endInString
  | endInValue
  | expectedColon
  | expectedListEnd
  | expectedObjectEnd
  | expectedWord
  | expectedValue
  | invalidEscape
  | invalidNumber
  | numberOutOfRange
  | controlCharacter
  | keyNotString
  | loneSurrogate
  | trailingComma
  | trailingCharacters
  | endOfHexEscape
  | nestedTooDeep
  deriving DecidableEq

def Fault.message : Fault → String
  | .endInList => "EOF while parsing a list"
  | .endInObject => "EOF while parsing an object"
  | .endInString => "EOF while parsing a string"
  | .endInValue => "EOF while parsing a value"
  | .expectedColon => "expected `:`"
  | .expectedListEnd => "expected `,` or `]`"
  | .expectedObjectEnd => "expected `,` or `\x7d`"
  | .expectedWord => "expected ident"
  | .expectedValue => "expected value"
  | .invalidEscape => "invalid escape"
  | .invalidNumber => "invalid number"
  | .numberOutOfRange => "number out of range"
  | .controlCharacter => "control character (\\u0000-\\u001F) found while parsing a string"
  | .keyNotString => "key must be a string"
  | .loneSurrogate => "lone leading surrogate in hex escape"
  | .trailingComma => "trailing comma"
  | .trailingCharacters => "trailing characters"
  | .endOfHexEscape => "unexpected end of hex escape"
  | .nestedTooDeep => "recursion limit exceeded"

structure ReadError where
  fault : Fault
  line : Nat
  column : Nat
  deriving DecidableEq

def ReadError.message (e : ReadError) : String :=
  e.fault.message ++ " at line " ++ toString e.line ++ " column " ++ toString e.column

/-- The text still to read and the place reached. -/
structure Cursor where
  rest : List Char
  line : Nat
  column : Nat

namespace Cursor

def start (cs : List Char) : Cursor := ⟨cs, 1, 0⟩

/-- Moves the place over one character. -/
def past (cur : Cursor) (c : Char) (rest : List Char) : Cursor :=
  if c == '\n' then ⟨rest, cur.line + 1, 0⟩ else ⟨rest, cur.line, cur.column + c.utf8Size⟩

/-- Drops the first character. -/
def next (cur : Cursor) : Cursor :=
  match cur.rest with
  | [] => cur
  | c :: rest => cur.past c rest

/-- A refusal at the place reached. -/
def fail {α : Type} (cur : Cursor) (fault : Fault) : Except ReadError α :=
  .error ⟨fault, cur.line, cur.column⟩

/-- A refusal that counts the first byte of the next character as read. -/
def failAhead {α : Type} (cur : Cursor) (fault : Fault) : Except ReadError α :=
  match cur.rest with
  | [] => cur.fail fault
  | '\n' :: _ => .error ⟨fault, cur.line + 1, 0⟩
  | _ :: _ => .error ⟨fault, cur.line, cur.column + 1⟩

/-- The place after `n` more bytes, as far as there are any. -/
def skipBytes (cur : Cursor) : Nat → List Char → Cursor
  | 0, rest => { cur with rest }
  | _, [] => { cur with rest := [] }
  | n + 1, c :: rest =>
    if c.utf8Size ≤ n + 1 then
      (cur.past c rest).skipBytes (n + 1 - c.utf8Size) rest
    else { cur with rest := [], column := cur.column + (n + 1) }
termination_by _ cs => cs.length

def isSpace (c : Char) : Bool := c == ' ' || c == '\n' || c == '\t' || c == '\r'

/-- Drops white space before the next token. -/
def skipSpace (cur : Cursor) : List Char → Cursor
  | [] => { cur with rest := [] }
  | c :: rest =>
    if isSpace c then (cur.past c rest).skipSpace rest else { cur with rest := c :: rest }

def trimmed (cur : Cursor) : Cursor := cur.skipSpace cur.rest

end Cursor

/-- Reads the rest of `null`, `true` or `false`. -/
def readWord : List Char → Cursor → Except ReadError Cursor
  | [], cur => .ok cur
  | expected :: word, cur =>
    match cur.rest with
    | [] => cur.fail .endInValue
    | c :: _ =>
      if c == expected then readWord word cur.next
      else cur.failAhead .expectedWord

/-! ## Strings -/

/-- Four hexadecimal digits as one UTF-16 unit. -/
def readUnit (cur : Cursor) : Except ReadError (Nat × Cursor) :=
  let bytes := (cur.rest.take 4).foldl (fun n c => n + c.utf8Size) 0
  if bytes < 4 then (cur.skipBytes bytes cur.rest).fail .endInString
  else
    match cur.rest with
    | a :: b :: c :: d :: rest =>
      match Number.hexDigits? [a, b, c, d] with
      | some n => .ok (n, { cur with rest, column := cur.column + 4 })
      | none => (cur.skipBytes 4 cur.rest).fail .invalidEscape
    | _ => (cur.skipBytes 4 cur.rest).fail .invalidEscape

/-- What follows the backslash and `u`. Units beyond the basic plane come in pairs. -/
def readHexEscape (cur : Cursor) : Except ReadError (Char × Cursor) := do
  let (high, cur) ← readUnit cur
  if 0xDC00 ≤ high && high ≤ 0xDFFF then cur.fail .loneSurrogate
  else if high < 0xD800 || 0xDBFF < high then .ok (Char.ofNat high, cur)
  else
    match cur.rest with
    | [] => cur.fail .endInString
    | '\\' :: _ =>
      match cur.next.rest with
      | [] => cur.next.fail .endInString
      | 'u' :: _ =>
        let (low, cur) ← readUnit cur.next.next
        if low < 0xDC00 || 0xDFFF < low then cur.fail .loneSurrogate
        else .ok (Char.ofNat ((high - 0xD800) * 1024 + (low - 0xDC00) + 0x10000), cur)
      | _ => cur.next.failAhead .endOfHexEscape
    | _ => cur.failAhead .endOfHexEscape

/-- What follows a backslash. -/
def readEscape (cur : Cursor) : Except ReadError (Char × Cursor) :=
  match cur.rest with
  | [] => cur.fail .endInString
  | c :: _ =>
    match c with
    | '"' => .ok ('"', cur.next)
    | '\\' => .ok ('\\', cur.next)
    | '/' => .ok ('/', cur.next)
    | 'b' => .ok ('\x08', cur.next)
    | 'f' => .ok ('\x0c', cur.next)
    | 'n' => .ok ('\n', cur.next)
    | 'r' => .ok ('\r', cur.next)
    | 't' => .ok ('\t', cur.next)
    | 'u' => readHexEscape cur.next
    | _ => cur.failAhead .invalidEscape

/-- The characters up to the closing quote; each round reads at least one character. -/
def readChars : Nat → List Char → Cursor → Except ReadError (String × Cursor)
  | 0, _, cur => cur.fail .endInString
  | fuel + 1, done, cur =>
    match cur.rest with
    | [] => cur.fail .endInString
    | '"' :: _ => .ok (String.ofList done.reverse, cur.next)
    | '\\' :: _ => do
      let (c, cur) ← readEscape cur.next
      readChars fuel (c :: done) cur
    | c :: _ =>
      if c.toNat < 0x20 then cur.next.fail .controlCharacter
      else readChars fuel (c :: done) cur.next

/-- A string whose opening quote has been read. -/
def readString (cur : Cursor) : Except ReadError (String × Cursor) :=
  readChars (cur.rest.length + 1) [] cur

/-! ## Numbers

The digits are kept while they fit 64 bits; further ones only move the power of ten. A fraction
is the digits, rounded, times or over a power of ten, rounded again, so it can be one unit off
the nearest number.
-/

def maxDigits : Nat := 0xFFFFFFFFFFFFFFFF

/-- Powers of ten up to the largest that is finite. -/
def powerOfTen (n : Nat) : Float := Float.ofScientific 1 false n

/-- Divides by ten `n` times 308 at once, then by what is left. -/
def scaleDown : Nat → Float → Nat → Float
  | 0, x, _ => x
  | fuel + 1, x, n =>
    if n ≤ 308 then x / powerOfTen n
    else if x == 0 then x
    else scaleDown fuel (x / powerOfTen 308) (n - 308)

def scaled (cur : Cursor) (negative : Bool) (digits : Nat) (exponent : Int) :
    Except ReadError (Json × Cursor) :=
  let x := Float.ofNat digits
  let signed := fun x : Float => Json.float (if negative then -x else x)
  match exponent with
  | .ofNat e =>
    if e ≤ 308 then
      let y := x * powerOfTen e
      if y.isInf then cur.fail .numberOutOfRange else .ok (signed y, cur)
    else if digits == 0 then .ok (signed x, cur)
    else cur.fail .numberOutOfRange
  | .negSucc e => .ok (signed (scaleDown 8 x (e + 1)), cur)

/-- Drops digits that are not kept. -/
def dropDigits (cur : Cursor) : List Char → Cursor
  | [] => { cur with rest := [] }
  | c :: rest =>
    if c.isDigit then dropDigits (cur.past c rest) rest else { cur with rest := c :: rest }

/-- Digits after the first of an exponent; `none` once they exceed 31 bits. -/
def exponentDigits (n : Nat) (cur : Cursor) : List Char → Option Nat × Cursor
  | [] => (some n, { cur with rest := [] })
  | c :: rest =>
    if c.isDigit then
      let m := n * 10 + (c.toNat - '0'.toNat)
      if m > 0x7FFFFFFF then (none, { cur with rest := c :: rest })
      else exponentDigits m (cur.past c rest) rest
    else (some n, { cur with rest := c :: rest })

/-- The exponent after its letter. -/
def readExponent (cur : Cursor) (negative : Bool) (digits : Nat) (exponent : Int) :
    Except ReadError (Json × Cursor) :=
  let (down, cur) :=
    match cur.rest with
    | '+' :: _ => (false, cur.next)
    | '-' :: _ => (true, cur.next)
    | _ => (false, cur)
  match cur.rest with
  | [] => cur.fail .endInValue
  | c :: rest =>
    if !c.isDigit then cur.failAhead .invalidNumber
    else
      match exponentDigits (c.toNat - '0'.toNat) (cur.past c rest) rest with
      | (some n, cur) => scaled cur negative digits (if down then exponent - n else exponent + n)
      | (none, cur) =>
        if digits != 0 && !down then cur.fail .numberOutOfRange
        else .ok (.float (if negative then -0.0 else 0.0), dropDigits cur cur.rest)

/-- An optional exponent after the digits. -/
def readScale (cur : Cursor) (negative : Bool) (digits : Nat) (exponent : Int) :
    Except ReadError (Json × Cursor) :=
  match cur.rest with
  | 'e' :: _ => readExponent cur.next negative digits exponent
  | 'E' :: _ => readExponent cur.next negative digits exponent
  | _ => scaled cur negative digits exponent

/-- Digits behind the point that still fit; with how many of them were read. -/
def fractionDigits (digits count : Nat) (cur : Cursor) : List Char → Nat × Nat × Cursor
  | [] => (digits, count, { cur with rest := [] })
  | c :: rest =>
    if c.isDigit then
      let n := digits * 10 + (c.toNat - '0'.toNat)
      if n > maxDigits then (digits, count, dropDigits cur (c :: rest))
      else fractionDigits n (count + 1) (cur.past c rest) rest
    else (digits, count, { cur with rest := c :: rest })

/-- What follows the point. -/
def readFraction (cur : Cursor) (negative : Bool) (digits : Nat) (exponent : Int) :
    Except ReadError (Json × Cursor) :=
  match cur.rest with
  | [] => cur.failAhead .endInValue
  | c :: _ =>
    if !c.isDigit then cur.failAhead .invalidNumber
    else
      let (digits, count, cur) := fractionDigits digits 0 cur cur.rest
      readScale cur negative digits (exponent - count)

/-- Digits before the point: those that fit, and how many more there are. -/
def wholeDigits (digits : Nat) (cur : Cursor) : List Char → Nat × Nat × Cursor
  | [] => (digits, 0, { cur with rest := [] })
  | c :: rest =>
    if c.isDigit then
      let n := digits * 10 + (c.toNat - '0'.toNat)
      if n > maxDigits then
        let cur' := dropDigits cur (c :: rest)
        (digits, rest.length + 1 - cur'.rest.length, cur')
      else wholeDigits n (cur.past c rest) rest
    else (digits, 0, { cur with rest := c :: rest })

/-- An integer of 64 bits stays one; negative zero and longer ones become fractions. -/
def integer (negative : Bool) (digits : Nat) : Json :=
  if !negative then .int digits
  else if digits != 0 && digits ≤ 0x8000000000000000 then .int (-(digits : Int))
  else .float (-(Float.ofNat digits))

/-- What follows the digits before the point, `more` of which were not kept. -/
def readTail (cur : Cursor) (negative : Bool) (digits more : Nat) :
    Except ReadError (Json × Cursor) :=
  match cur.rest with
  | '.' :: _ => readFraction cur.next negative digits more
  | 'e' :: _ => readExponent cur.next negative digits more
  | 'E' :: _ => readExponent cur.next negative digits more
  | _ => if more == 0 then .ok (integer negative digits, cur) else scaled cur negative digits more

/-- A number whose sign has been read. -/
def readNumber (cur : Cursor) (negative : Bool) : Except ReadError (Json × Cursor) :=
  match cur.rest with
  | [] => cur.fail .endInValue
  | c :: rest =>
    if c == '0' then
      match rest with
      | d :: _ =>
        if d.isDigit then cur.next.failAhead .invalidNumber
        else readTail cur.next negative 0 0
      | [] => readTail cur.next negative 0 0
    else if c.isDigit then
      let (digits, more, cur) := wholeDigits 0 cur cur.rest
      readTail cur negative digits more
    else cur.failAhead .invalidNumber

/-! ## Values -/

mutual

/-- One value. Containers nest at most `depth - 1` deep; `fuel` bounds the steps and is twice
the text's length. -/
def readValue (fuel depth : Nat) (cur : Cursor) : Except ReadError (Json × Cursor) :=
  match fuel with
  | 0 => cur.fail .endInValue
  | fuel + 1 =>
    let cur := cur.trimmed
    match cur.rest with
    | [] => cur.failAhead .endInValue
    | c :: _ =>
      match c with
      | 'n' => (readWord "ull".toList cur.next).map fun cur => (.null, cur)
      | 't' => (readWord "rue".toList cur.next).map fun cur => (.bool true, cur)
      | 'f' => (readWord "alse".toList cur.next).map fun cur => (.bool false, cur)
      | '-' => readNumber cur.next true
      | '"' => (readString cur.next).map fun (s, cur) => (.string s, cur)
      | '[' =>
        if depth ≤ 1 then cur.failAhead .nestedTooDeep
        else readItems fuel (depth - 1) true [] cur.next
      | '\x7b' =>
        if depth ≤ 1 then cur.failAhead .nestedTooDeep
        else readFields fuel (depth - 1) true [] cur.next
      | c => if c.isDigit then readNumber cur false else cur.failAhead .expectedValue

/-- The items of a list up to its bracket. -/
def readItems (fuel depth : Nat) (first : Bool) (done : List Json) (cur : Cursor) :
    Except ReadError (Json × Cursor) :=
  match fuel with
  | 0 => cur.fail .endInList
  | fuel + 1 =>
    let cur := cur.trimmed
    let item := fun cur : Cursor => do
      let (j, cur) ← readValue fuel depth cur
      readItems fuel depth false (j :: done) cur
    match cur.rest with
    | [] => cur.failAhead .endInList
    | ']' :: _ => .ok (.array done.reverse, cur.next)
    | c :: _ =>
      if first then item cur
      else if c == ',' then
        let cur := cur.next.trimmed
        match cur.rest with
        | [] => cur.failAhead .endInValue
        | ']' :: _ => cur.failAhead .trailingComma
        | _ => item cur
      else cur.failAhead .expectedListEnd

/-- The fields of an object up to its brace. -/
def readFields (fuel depth : Nat) (first : Bool) (done : List (String × Json)) (cur : Cursor) :
    Except ReadError (Json × Cursor) :=
  match fuel with
  | 0 => cur.fail .endInObject
  | fuel + 1 =>
    let cur := cur.trimmed
    let entry := fun cur : Cursor => do
      let (key, cur) ← readString cur.next
      let cur := cur.trimmed
      match cur.rest with
      | [] => cur.failAhead .endInObject
      | ':' :: _ =>
        let (j, cur) ← readValue fuel depth cur.next
        readFields fuel depth false ((key, j) :: done) cur
      | _ => cur.failAhead .expectedColon
    match cur.rest with
    | [] => cur.failAhead .endInObject
    | '\x7d' :: _ => .ok (ofFields done.reverse, cur.next)
    | c :: _ =>
      if first then (if c == '"' then entry cur else cur.failAhead .keyNotString)
      else if c == ',' then
        let cur := cur.next.trimmed
        match cur.rest with
        | [] => cur.failAhead .endInValue
        | '"' :: _ => entry cur
        | '\x7d' :: _ => cur.failAhead .trailingComma
        | _ => cur.failAhead .keyNotString
      else cur.failAhead .expectedObjectEnd

end

/-- Reads a text that holds one value and nothing else. -/
def parse (text : String) : Except ReadError Json := do
  let cs := text.toList
  let (j, cur) ← readValue (2 * cs.length + 2) 128 (Cursor.start cs)
  let cur := cur.trimmed
  if cur.rest.isEmpty then .ok j else cur.failAhead .trailingCharacters

end EcmaMachine.Json
