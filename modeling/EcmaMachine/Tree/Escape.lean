import EcmaMachine.Number.Reader

/-!
Escapes in the text of string literals and templates.
-/

namespace EcmaMachine.Escape

/-- The character with this hexadecimal number; U+FFFD if there is none. A plus sign before the
digits is allowed. -/
def codePoint (digits : List Char) : Char :=
  let digits :=
    match digits with
    | '+' :: ds => ds
    | ds => ds
  match Number.hexDigits? digits with
  | some n => if n.isValidChar then Char.ofNat n else '\uFFFD'
  | none => '\uFFFD'

mutual

/-- Resolves every escape. A backslash before the end of a line joins the lines; before any
other character without a meaning it does nothing. -/
def resolve : List Char → List Char
  | [] => []
  | c :: rest =>
    if c != '\\' then c :: resolve rest
    else
      match rest with
      | [] => []
      | 'n' :: rest => '\n' :: resolve rest
      | 't' :: rest => '\t' :: resolve rest
      | 'r' :: rest => '\r' :: resolve rest
      | 'b' :: rest => '\x08' :: resolve rest
      | 'f' :: rest => '\x0c' :: resolve rest
      | 'v' :: rest => '\x0b' :: resolve rest
      | '0' :: rest => '\x00' :: resolve rest
      | 'x' :: a :: b :: rest => codePoint [a, b] :: resolve rest
      | 'x' :: rest => [codePoint rest]
      | 'u' :: '\x7b' :: rest => resolveBraced [] rest
      | 'u' :: a :: b :: c :: d :: rest => codePoint [a, b, c, d] :: resolve rest
      | 'u' :: rest => [codePoint rest]
      | '\n' :: rest => resolve rest
      | other :: rest => other :: resolve rest

/-- The digits up to a closing brace, or to the end of the text. -/
def resolveBraced (digits : List Char) : List Char → List Char
  | [] => [codePoint digits.reverse]
  | c :: rest =>
    if c == '\x7d' then codePoint digits.reverse :: resolve rest
    else resolveBraced (c :: digits) rest

end

end EcmaMachine.Escape
