import EcmaMachine.Proofs.Grammar.Yields
import EcmaMachine.Proofs.Lexicon.Scripts

/-!
Trees of texts. Statements, expressions and patterns stand where the grammar has them, so that every
jump has something around it that takes it up, but for those that leave the program itself.
-/

namespace EcmaMachine

/-! ## Trees in order -/

/-- Jumps get where they are taken up, and nothing comes that only trees from elsewhere give. -/
def Role.takes (r : Role) : Signal → Prop
  | .returned _ => r.returns = true
  | .broken none | .continued none => r.breaks = true
  | s => s.isOrdinary = true

/-- Nodes that may be run and bound, along with all that is run and bound in them. -/
structure Orderly (part : Role → Node → Prop) (pattern : Node → Prop) : Prop where
  parts {r : Role} {n : Node} : part r n → n.shape.Parts part pattern Role.takes r
  patterns {n : Node} : pattern n → n.shape.PatternParts part pattern Role.takes

def Runs (r : Role) (n : Node) : Prop := ∃ part pattern, Orderly part pattern ∧ part r n

def Binds (n : Node) : Prop := ∃ part pattern, Orderly part pattern ∧ pattern n

namespace Shape

variable {part part' : Role → Node → Prop} {pattern pattern' : Node → Prop}
  {takes takes' : Role → Signal → Prop} {shape : Shape Node}

theorem EntryParts.mono (parts : ∀ r n, part r n → part' r n)
    (signals : ∀ r s, takes r s → takes' r s) (h : shape.EntryParts part takes) :
    shape.EntryParts part' takes' := by
  unfold EntryParts at h ⊢
  grind

theorem BoundParts.mono (patterns : ∀ n, pattern n → pattern' n)
    (signals : ∀ r s, takes r s → takes' r s) (h : shape.BoundParts pattern takes) :
    shape.BoundParts pattern' takes' := by
  unfold BoundParts at h ⊢
  grind

variable (parts : ∀ r n, part r n → part' r n) (patterns : ∀ n, pattern n → pattern' n)
  (signals : ∀ r s, takes r s → takes' r s)
include parts patterns signals

theorem PatternParts.mono (h : shape.PatternParts part pattern takes) :
    shape.PatternParts part' pattern' takes' := by
  unfold PatternParts at h ⊢
  grind [BoundParts.mono]

theorem Parts.mono {r : Role}
    (h : shape.Parts part pattern takes r) : shape.Parts part' pattern' takes' r := by
  have head : ∀ r left, HeadParts pattern takes r left → HeadParts pattern' takes' r left := by
    intro r left h
    unfold HeadParts at h ⊢
    grind
  have keys : ∀ key computed, KeyParts part takes key computed →
      KeyParts part' takes' key computed := by
    intro key computed h
    unfold KeyParts at h ⊢
    grind
  unfold Parts at h ⊢
  grind [EntryParts.mono]

end Shape

theorem orderly : Orderly Runs Binds where
  parts := by
    rintro r n ⟨part, pattern, all, h⟩
    exact (all.parts h).mono (fun r n h => ⟨part, pattern, all, h⟩)
      (fun n h => ⟨part, pattern, all, h⟩) fun _ _ => id
  patterns := by
    rintro n ⟨part, pattern, all, h⟩
    exact (all.patterns h).mono (fun r n h => ⟨part, pattern, all, h⟩)
      (fun n h => ⟨part, pattern, all, h⟩) fun _ _ => id

/-- One more node on top of those that are in order. -/
theorem orderly_next : Orderly (fun r n => n.shape.Parts Runs Binds Role.takes r)
    fun n => n.shape.PatternParts Runs Binds Role.takes where
  parts h := h.mono (fun _ _ => orderly.parts) (fun _ => orderly.patterns) fun _ _ => id
  patterns h := h.mono (fun _ _ => orderly.parts) (fun _ => orderly.patterns) fun _ _ => id

theorem runs_of_parts {r : Role} {n : Node} (h : n.shape.Parts Runs Binds Role.takes r) :
    Runs r n :=
  ⟨_, _, orderly_next, h⟩

theorem binds_of_parts {n : Node} (h : n.shape.PatternParts Runs Binds Role.takes) : Binds n :=
  ⟨_, _, orderly_next, h⟩

/-- The lexicon of the trees of texts. Functions of the host may fail with more, `beside` what the
trees fail with. -/
def Lexicon.text (outer : Nat → Role) (beside : Signal → Prop) : Lexicon where
  part := Runs
  pattern := Binds
  takes r s := r.takes s ∨ beside s
  outer := outer
  parts h := (orderly.parts h).mono (fun _ _ => id) (fun _ => id) fun _ _ => .inl
  patterns h := (orderly.patterns h).mono (fun _ _ => id) (fun _ => id) fun _ _ => .inl
  blank := runs_of_parts nofun
  ordinary {r s} h := by
    refine .inl ?_
    unfold Role.takes
    split
    · cases h
    · cases h
    · cases h
    · exact h
  widened {r s} h := by
    refine h.imp_left fun h => ?_
    unfold Role.takes at h ⊢
    split at h
    · cases h
    · cases h
    · cases h
    · exact h
  unreturned {r s} h other := by
    refine h.imp_left fun h => ?_
    unfold Role.takes at h ⊢
    split at h
    · exact (other _ rfl).elim
    · exact h
    · exact h
    · exact h
  unbroken {r s} h notBroken notContinued := by
    refine h.imp_left fun h => ?_
    unfold Role.takes at h ⊢
    split at h
    · exact h
    · exact (notBroken rfl).elim
    · exact (notContinued rfl).elim
    · exact h

/-- No jump gets outside, and the host fails with nothing of its own. -/
def Lexicon.sealed : Lexicon := .text (fun _ => .closed) fun _ => False

/-! ## Statements, expressions and patterns -/

/-- The statements in a statement that leave their jumps to what is around both. -/
def Shape.openParts : Shape Node → List Node
  | .program body | .blockStatement body => body
  | .ifStatement _ consequent alternate => consequent :: alternate.toList
  | .tryStatement block handler finalizer => block :: (handler.toList ++ finalizer.toList)
  | .catchClause _ body => [body]
  | _ => []

/-- The value is that of a literal in a text: a number has the value of its digits. -/
def LiteralValue.Written (raw : Option String) : Option LiteralValue → Prop
  | some (.number x) => ∃ t, raw = some t ∧ Grammar.literalNumber? t.toList = some x
  | some (.unsupported _) => False
  | _ => True

namespace Node

variable {n tree : Node}

@[simp] theorem shape_mk (shape : Shape Node) (loc : Option Span) : (mk shape loc).shape = shape :=
  rfl

@[simp] theorem children_mk (shape : Shape Node) (loc : Option Span) :
    (mk shape loc).children = shape.children :=
  rfl

inductive Strays : Node → Prop
  | broken {n : Node} (shape : n.shape = .breakStatement none) : Strays n
  | continued {n : Node} (shape : n.shape = .continueStatement none) : Strays n
  | inside {n m : Node} (mem : m ∈ n.shape.openParts) (strays : Strays m) : Strays n

inductive Within (tree : Node) : Node → Prop
  | here : Within tree tree
  | child {n m : Node} (h : Within tree n) (mem : m ∈ n.children) : Within tree m

theorem Within.cases_root (h : Within tree n) : n = tree ∨ ∃ m ∈ tree.children, Within m n := by
  induction h with
  | here => exact .inl rfl
  | @child n m h mem ih =>
    rcases ih with rfl | ⟨root, known, within⟩
    · exact .inr ⟨m, mem, .here⟩
    · exact .inr ⟨root, known, within.child mem⟩

theorem Within.trans {m : Node} (h : Within tree n) (inner : Within n m) : Within tree m := by
  induction inner with
  | here => exact h
  | child _ mem ih => exact ih.child mem

theorem Within.of_child {child : Node} (h : Within child n) (mem : child ∈ tree.children) :
    Within tree n :=
  (Within.child .here mem).trans h

/-- A method that comes with a function. -/
def IsMethod (n : Node) : Prop :=
  match n.shape with
  | .methodDefinition _ value _ _ _ =>
    value.type = .functionExpression ∨ value.type = .arrowFunctionExpression
  | _ => False

/-- A list of such methods. -/
def IsClassBody (n : Node) : Prop :=
  match n.shape with
  | .classBody members => ∀ m ∈ members, m.IsMethod
  | _ => False

/-- A class declaration has the form that texts give it. Of other nodes nothing is asked. -/
def FormedClass (n : Node) : Prop :=
  match n.shape with
  | .classDeclaration _ _ body => body.IsClassBody
  | _ => True

/-- A class or a literal as texts have them. No text has a regular expression. -/
def Formed (n : Node) : Prop :=
  match n.shape with
  | .literal value raw regex => regex = none ∧ LiteralValue.Written raw value
  | _ => n.FormedClass

theorem Formed.formedClass (h : n.Formed) : n.FormedClass := by
  unfold Formed at h
  split at h
  · next shape => simp [FormedClass, shape]
  · exact h

/-- All functions in the tree may be called, and classes and literals are as texts have them. -/
def Sound (tree : Node) : Prop :=
  ∀ n, Within tree n → Lexicon.sealed.Defines n ∧ n.Formed

def Statement (n : Node) : Prop := ∀ b, (n.Strays → b = true) → Runs ⟨true, b⟩ n

def Expression (n : Node) : Prop := Runs .closed n ∧ n.type ≠ .blockStatement

theorem sound_of_children (own : Lexicon.sealed.Defines n) (h : ∀ m ∈ n.children, m.Sound)
    (formed : n.Formed) : n.Sound := by
  intro m within
  rcases within.cases_root with rfl | ⟨child, mem, within⟩
  · exact ⟨own, formed⟩
  · exact h child mem m within

/-- A node that is no function. -/
theorem sound_of_plain (plain : n.functionParts? = none) (h : ∀ m ∈ n.children, m.Sound)
    (formed : n.Formed) : n.Sound :=
  sound_of_children (fun _ eq => by simp [plain] at eq) h formed

theorem sound_of_runs {r : Role} (runs : Runs r n) (h : ∀ m ∈ n.children, m.Sound)
    (formed : n.Formed) : n.Sound :=
  sound_of_children (Lexicon.sealed.defines_of_part runs) h formed

/-- A statement that keeps its jumps to itself. -/
theorem statement_of_parts (h : ∀ b, n.shape.Parts Runs Binds Role.takes ⟨true, b⟩) : n.Statement :=
  fun b _ => runs_of_parts (h b)

end Node

end EcmaMachine
