import EcmaMachine.Store.Text
import EcmaMachine.Wire.Token

/-!
The registry of one side of a connection: what it has given away by token. Each side has a source of
tokens of its own.
-/

namespace EcmaMachine

/-- A source of tokens for each side: random version 4 in form, counted in the last group. -/
def Token.source (side n : Nat) : Token :=
  ⟨0x7c9e6679742540de944b000000000000 + (side % 0x10000) * 0x100000000 + n % 0x100000000⟩

structure Registry where
  /-- Where the tokens come from, one after the other. -/
  fresh : Nat → Token
  issued : Nat
  entries : List (Token × Value)

namespace Registry

def empty (fresh : Nat → Token) : Registry := ⟨fresh, 0, []⟩

/-- The token of a value, issued when it is first asked for. -/
def tokenFor (r : Registry) (v : Value) : Token × Registry :=
  match r.entries.find? fun (_, w) => w.isHandle && decide (w = v) with
  | some (t, _) => (t, r)
  | none =>
    let t := r.fresh r.issued
    (t, { r with issued := r.issued + 1, entries := r.entries ++ [(t, v)] })

def resolve? (r : Registry) (t : Token) : Option Value :=
  (r.entries.find? (·.1 == t)).map (·.2)

def size (r : Registry) : Nat := r.entries.length

def isEmpty (r : Registry) : Bool := r.entries.isEmpty

def clear (r : Registry) : Registry := { r with entries := [] }

def debug (r : Registry) : String :=
  "ReferenceRegistry \x7b len: " ++ Number.natText r.size ++ " \x7d"

end Registry

end EcmaMachine
