import EcmaMachine.Grammar.Peg

/-!
Where a text stopped matching. The run is repeated while the rules that failed at the furthest
place are noted; a rule that only passes on a single failure of an inner rule leaves that one to
speak for it.
-/

namespace EcmaMachine.Grammar

/-- The furthest place at which a rule failed, and the rules that failed there. -/
structure Attempts (ρ : Type) where
  cursor : Cursor
  rules : List ρ

namespace Attempts

variable {ρ : Type}

/-- How many rules are noted at a place. -/
def countAt (t : Attempts ρ) (cur : Cursor) : Nat :=
  if cur.offset == t.cursor.offset then t.rules.length else 0

/-- Notes that `r` failed at `cur`, where `before` rules had been noted when it was tried. -/
def note (t : Attempts ρ) (r : ρ) (cur : Cursor) (before : Nat) : Attempts ρ :=
  if t.countAt cur == before + 1 then t
  else if cur.offset == t.cursor.offset then { t with rules := t.rules.take before ++ [r] }
  else if t.cursor.offset < cur.offset then ⟨cur, [r]⟩
  else t

end Attempts

namespace Rules

variable {ρ : Type}

/-- Runs an expression like `run`, for the place it ends at and the attempts on the way. -/
def trace (g : Rules ρ) : Nat → Mode → Peg ρ → Cursor → Attempts ρ → Option Cursor × Attempts ρ
  | 0, _, _, _, t => (none, t)
  | fuel + 1, mode, e, cur, t =>
    match e with
    | .text cs => (cur.past? cs, t)
    | .char p =>
      match cur.rest with
      | c :: rest => (if p c then some (cur.past c rest) else none, t)
      | [] => (none, t)
    | .finish => (if cur.rest.isEmpty then some cur else none, t)
    | .call r =>
      let d := g.define r
      match g.trace fuel (d.mode.getD mode) d.body cur t with
      | (some stop, t') => (some stop, t')
      | (none, t') => (none, if mode == .atomic then t' else t'.note r cur (t.countAt cur))
    | .seq a b =>
      match g.trace fuel mode a cur t with
      | (none, t) => (none, t)
      | (some mid, t) => g.trace fuel mode b (g.between mode mid) t
    | .alt a b =>
      match g.trace fuel mode a cur t with
      | (some stop, t) => (some stop, t)
      | (none, t) => g.trace fuel mode b cur t
    | .star a =>
      match g.trace fuel mode a cur t with
      | (none, t) => (some cur, t)
      | (some mid, t) => g.trace fuel mode (.again a) mid t
    | .again a =>
      match g.trace fuel mode a (g.between mode cur) t with
      | (none, t) => (some cur, t)
      | (some mid, t) => g.trace fuel mode (.again a) mid t
    | .opt a =>
      match g.trace fuel mode a cur t with
      | (some stop, t) => (some stop, t)
      | (none, t) => (some cur, t)
    | .unless a =>
      match g.trace fuel mode a cur t with
      | (some _, _) => (none, t)
      | (none, _) => (some cur, t)
    | .ahead a =>
      match g.trace fuel mode a cur t with
      | (some _, t) => (some cur, t)
      | (none, t) => (none, t)

/-- The furthest failure when the rule `r` is matched on the text. -/
def furthest (g : Rules ρ) (r : ρ) (cs : List Char) : Attempts ρ :=
  (g.trace (depth cs.length) .spaced (.call r) (Cursor.start cs) ⟨Cursor.start cs, []⟩).2

end Rules

end EcmaMachine.Grammar
