import EcmaMachine.Tree.Node

/-!
Parsing expressions as data, and the recogniser that runs them. A grammar gives each rule an
expression; running a rule on a text yields the tree of the rules that matched, or nothing.
Choices are ordered and never taken back once a branch has matched.
-/

namespace EcmaMachine.Grammar

/-- The text still to match and the place reached. -/
structure Cursor where
  rest : List Char
  offset : Nat
  pos : Position

namespace Cursor

def start (cs : List Char) : Cursor := ⟨cs, 0, ⟨1, 0⟩⟩

/-- Moves the place over one character. -/
def past (cur : Cursor) (c : Char) (rest : List Char) : Cursor :=
  ⟨rest, cur.offset + 1,
    if c == '\n' then ⟨cur.pos.line + 1, 0⟩ else ⟨cur.pos.line, cur.pos.column + 1⟩⟩

/-- Moves over a fixed text, if it comes next. -/
def past? (cur : Cursor) : List Char → Option Cursor
  | [] => some cur
  | c :: cs =>
    match cur.rest with
    | d :: rest => if c == d then (cur.past d rest).past? cs else none
    | [] => none

end Cursor

/-- Blanks are skipped between the parts of a sequence only in `spaced` mode; `atomic` hides the
rules inside from the tree. -/
inductive Mode
  | spaced
  | atomic
  | compound
  deriving DecidableEq

inductive Peg (ρ : Type)
  | text (cs : List Char)
  | char (p : Char → Bool)
  | finish
  | call (rule : ρ)
  | seq (first second : Peg ρ)
  | alt (first second : Peg ρ)
  | star (e : Peg ρ)
  /-- Any number of `e`, each after a skip. -/
  | again (e : Peg ρ)
  | opt (e : Peg ρ)
  | unless (e : Peg ρ)
  | ahead (e : Peg ρ)

/-- A rule's expression; without a mode of its own it runs in that of its caller. -/
structure Definition (ρ : Type) where
  mode : Option Mode
  body : Peg ρ

structure Rules (ρ : Type) where
  define : ρ → Definition ρ
  skip : Cursor → Cursor

/-- A rule that matched, from `start` up to `stop`, with the rules that matched inside it. -/
inductive Pair (ρ : Type)
  | mk (rule : ρ) (start stop : Cursor) (inner : List (Pair ρ))

namespace Pair

variable {ρ : Type}

def rule : Pair ρ → ρ
  | .mk rule _ _ _ => rule

def start : Pair ρ → Cursor
  | .mk _ start _ _ => start

def stop : Pair ρ → Cursor
  | .mk _ _ stop _ => stop

def inner : Pair ρ → List (Pair ρ)
  | .mk _ _ _ inner => inner

def span (p : Pair ρ) : Span := ⟨p.start.pos, p.stop.pos⟩

/-- The text that matched. -/
def text (p : Pair ρ) : List Char :=
  p.start.rest.take (p.stop.offset - p.start.offset)

end Pair

namespace Rules

variable {ρ : Type}

/-- The skip before the next part of a sequence. -/
def between (g : Rules ρ) (mode : Mode) (cur : Cursor) : Cursor :=
  match mode with
  | .spaced => g.skip cur
  | .atomic => cur
  | .compound => cur

/-- Runs an expression; `fuel` bounds the depth of the run. -/
def run (g : Rules ρ) : Nat → Mode → Peg ρ → Cursor → Option (List (Pair ρ) × Cursor)
  | 0, _, _, _ => none
  | fuel + 1, mode, e, cur =>
    match e with
    | .text cs => (cur.past? cs).map fun stop => ([], stop)
    | .char p =>
      match cur.rest with
      | c :: rest => if p c then some ([], cur.past c rest) else none
      | [] => none
    | .finish => if cur.rest.isEmpty then some ([], cur) else none
    | .call r =>
      let d := g.define r
      match g.run fuel (d.mode.getD mode) d.body cur with
      | none => none
      | some (inner, stop) =>
        if mode == .atomic then some ([], stop) else some ([.mk r cur stop inner], stop)
    | .seq a b =>
      match g.run fuel mode a cur with
      | none => none
      | some (ps, mid) =>
        match g.run fuel mode b (g.between mode mid) with
        | none => none
        | some (qs, stop) => some (ps ++ qs, stop)
    | .alt a b =>
      match g.run fuel mode a cur with
      | some r => some r
      | none => g.run fuel mode b cur
    | .star a =>
      match g.run fuel mode a cur with
      | none => some ([], cur)
      | some (ps, mid) =>
        match g.run fuel mode (.again a) mid with
        | none => none
        | some (qs, stop) => some (ps ++ qs, stop)
    | .again a =>
      match g.run fuel mode a (g.between mode cur) with
      | none => some ([], cur)
      | some (ps, mid) =>
        match g.run fuel mode (.again a) mid with
        | none => none
        | some (qs, stop) => some (ps ++ qs, stop)
    | .opt a =>
      match g.run fuel mode a cur with
      | some r => some r
      | none => some ([], cur)
    | .unless a =>
      match g.run fuel mode a cur with
      | some _ => none
      | none => some ([], cur)
    | .ahead a =>
      match g.run fuel mode a cur with
      | some _ => some ([], cur)
      | none => none

/-- A depth that no run on a text of `length` characters reaches. -/
def depth (length : Nat) : Nat := 500 * (length + 2)

/-- Matches the rule `r` on the whole of the text. -/
def parse? (g : Rules ρ) (r : ρ) (cs : List Char) : Option (Pair ρ) :=
  match g.run (depth cs.length) .spaced (.call r) (Cursor.start cs) with
  | some ([p], _) => some p
  | _ => none

end Rules

end EcmaMachine.Grammar
