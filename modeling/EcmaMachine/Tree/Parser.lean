import EcmaMachine.Grammar.Build
import EcmaMachine.Grammar.Furthest

/-!
Script text to trees.
-/

namespace EcmaMachine

/-- The rules as a message lists them: in grammar order, each once. -/
def Grammar.listed (rules : List Grammar.Rule) : List Grammar.Rule :=
  (rules.mergeSort fun a b => a.order ≤ b.order).eraseDups

/-- The tree of a script, or where and why the text is none. -/
def parse (text : String) : Except SyntaxError Node :=
  let cs := text.toList
  match Grammar.script.parse? .program cs with
  | some pair => do
    match ← Grammar.build pair with
    | .node n => .ok n
    | _ => .error ⟨.malformed .program, ⟨0, 0⟩⟩
  | none =>
    let stuck := Grammar.script.furthest .program cs
    .error ⟨.expected (Grammar.listed stuck.rules), stuck.cursor.pos⟩

/-- The tree of a text that is one function expression. The text is read between parentheses, so
the columns of its first line count the one before it. -/
def parseFunction (text : String) : Except SyntaxError Node := do
  let program ← parse ("(" ++ text ++ ")")
  match program.shape with
  | .program [statement] =>
    match statement.shape with
    | .expressionStatement expression =>
      match expression.shape with
      | .functionExpression .. => .ok expression
      | .arrowFunctionExpression .. => .ok expression
      | _ => .error ⟨.notFunction expression.type, ⟨1, 0⟩⟩
    | _ => .error ⟨.malformed .expressionStatement, ⟨0, 0⟩⟩
  | _ => .error ⟨.notSingle, ⟨1, 0⟩⟩

/-- A parsed text that is kept, with its number among all that the cache ever kept: two answers
are the same tree exactly if their numbers agree. -/
structure CacheEntry where
  text : String
  number : Nat
  tree : Node

/-- Trees by their text. A text that does not parse is not kept. -/
structure ParseCache where
  entries : List CacheEntry
  kept : Nat

namespace ParseCache

def empty : ParseCache := ⟨[], 0⟩

def find? (cache : ParseCache) (text : String) : Option CacheEntry :=
  cache.entries.find? (·.text == text)

/-- The entry of a text, from the cache or parsed now. -/
def lookup (cache : ParseCache) (text : String) : Except SyntaxError CacheEntry × ParseCache :=
  match cache.find? text with
  | some entry => (.ok entry, cache)
  | none =>
    match EcmaMachine.parse text with
    | .ok tree =>
      let entry := ⟨text, cache.kept, tree⟩
      (.ok entry, ⟨cache.entries ++ [entry], cache.kept + 1⟩)
    | .error e => (.error e, cache)

def parse (cache : ParseCache) (text : String) : Except SyntaxError Node × ParseCache :=
  let (answer, cache) := cache.lookup text
  (answer.map CacheEntry.tree, cache)

def clear (cache : ParseCache) : ParseCache := { cache with entries := [] }

def size (cache : ParseCache) : Nat := cache.entries.length

def isEmpty (cache : ParseCache) : Bool := cache.entries.isEmpty

end ParseCache

end EcmaMachine
