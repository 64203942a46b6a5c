import EcmaMachine.Json.Basic
import EcmaMachine.Number.Text

/-!
JSON as text, compact on one line or indented by two blanks. Strings escape the quote, the
backslash and the control characters, nothing else.
-/

namespace EcmaMachine.Json

private def hexLower (n : Nat) : Char :=
  if n < 10 then Char.ofNat ('0'.toNat + n) else Char.ofNat ('a'.toNat + (n - 10))

def escapeChar (c : Char) : List Char :=
  match c with
  | '"' => ['\\', '"']
  | '\\' => ['\\', '\\']
  | '\x08' => ['\\', 'b']
  | '\x0c' => ['\\', 'f']
  | '\n' => ['\\', 'n']
  | '\r' => ['\\', 'r']
  | '\t' => ['\\', 't']
  | c =>
    if c.toNat < 0x20 then
      ['\\', 'u', '0', '0', hexLower (c.toNat / 16), hexLower (c.toNat % 16)]
    else [c]

def quote (s : String) : String :=
  "\"" ++ String.ofList (s.toList.flatMap escapeChar) ++ "\""

mutual

def compact : Json → String
  | .null => "null"
  | .bool b => if b then "true" else "false"
  | .int n => Number.intText n
  | .float x => Number.jsonText x
  | .string s => quote s
  | .array items => "[" ++ compactItems true items ++ "]"
  | .object fields => "\x7b" ++ compactFields true fields ++ "\x7d"

def compactItems (first : Bool) : List Json → String
  | [] => ""
  | j :: rest => (if first then "" else ",") ++ compact j ++ compactItems false rest

def compactFields (first : Bool) : List (String × Json) → String
  | [] => ""
  | (k, j) :: rest =>
    (if first then "" else ",") ++ quote k ++ ":" ++ compact j ++ compactFields false rest

end

private def newline (depth : Nat) : String :=
  "\n" ++ String.ofList (List.replicate (2 * depth) ' ')

mutual

/-- Each member of a container on a line of its own; empty containers stay closed. -/
def pretty (depth : Nat) : Json → String
  | .array [] => "[]"
  | .array items => "[" ++ prettyItems (depth + 1) true items ++ newline depth ++ "]"
  | .object [] => "\x7b\x7d"
  | .object fields => "\x7b" ++ prettyFields (depth + 1) true fields ++ newline depth ++ "\x7d"
  | .null => "null"
  | .bool b => if b then "true" else "false"
  | .int n => Number.intText n
  | .float x => Number.jsonText x
  | .string s => quote s

def prettyItems (depth : Nat) (first : Bool) : List Json → String
  | [] => ""
  | j :: rest =>
    (if first then "" else ",") ++ newline depth ++ pretty depth j ++
      prettyItems depth false rest

def prettyFields (depth : Nat) (first : Bool) : List (String × Json) → String
  | [] => ""
  | (k, j) :: rest =>
    (if first then "" else ",") ++ newline depth ++ quote k ++ ": " ++ pretty depth j ++
      prettyFields depth false rest

end

end EcmaMachine.Json
