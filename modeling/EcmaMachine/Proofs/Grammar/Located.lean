import Mathlib.Order.Basic
import EcmaMachine.Proofs.Grammar.Places
import EcmaMachine.Proofs.Grammar.Trees

/-!
Where the nodes of a tree stand: each within the node around it, and those of a list one behind
the other.
-/

namespace EcmaMachine

/-! ## Positions -/

namespace Position

instance : LE Position := ⟨fun p q => p.line < q.line ∨ p.line = q.line ∧ p.column ≤ q.column⟩

theorem le_def {p q : Position} :
    p ≤ q ↔ p.line < q.line ∨ p.line = q.line ∧ p.column ≤ q.column :=
  Iff.rfl

instance : Preorder Position where
  le_refl p := .inr ⟨rfl, Nat.le_refl _⟩
  le_trans p q r h h' := by
    rw [le_def] at *
    omega

theorem le_after (p : Position) (w : List Char) : p ≤ p.after w := by
  induction w generalizing p with
  | nil => exact le_refl p
  | cons c w ih =>
    refine le_trans ?_ (ih (p.next c))
    rw [le_def, next]
    split
    · exact .inl (Nat.lt_succ_self _)
    · exact .inr ⟨rfl, Nat.le_succ _⟩

end Position

def Span.Inside (s t : Span) : Prop := t.start ≤ s.start ∧ s.stop ≤ t.stop

theorem Span.Inside.refl (s : Span) : s.Inside s := ⟨le_refl _, le_refl _⟩

theorem Span.Inside.trans {s t u : Span} (h : s.Inside t) (h' : t.Inside u) : s.Inside u :=
  ⟨h'.1.trans h.1, h.2.trans h'.2⟩

/-- The spans of two things that stand one behind the other lie within the span of both. -/
theorem Span.inside_joined {s t : Span} (upright : s.start ≤ s.stop) (upright' : t.start ≤ t.stop)
    (between : s.stop ≤ t.start) :
    s.Inside ⟨s.start, t.stop⟩ ∧ t.Inside ⟨s.start, t.stop⟩ ∧ s.start ≤ t.stop :=
  ⟨⟨le_refl _, between.trans upright'⟩, ⟨upright.trans between, le_refl _⟩,
    upright.trans (between.trans upright')⟩

theorem Grammar.Cursor.Leads.le {a b : Cursor} {w : List Char} (h : a.Leads w b) :
    a.pos ≤ b.pos := by
  rw [h.pos]
  exact Position.le_after _ w

/-- Matches inside a match stand within it, one behind the other. -/
theorem Grammar.Rules.Strung.inside {ρ : Type} {a b : Cursor} {ps : List (Pair ρ)}
    (h : Strung a ps b) : a.pos ≤ b.pos ∧ (∀ p ∈ ps, p.span.Inside ⟨a.pos, b.pos⟩) ∧
      ps.Pairwise fun p q => p.span.stop ≤ q.span.start := by
  induction h with
  | nil leads => exact ⟨leads.le, nofun, .nil⟩
  | cons leads covers _ ih =>
    obtain ⟨le, all, pairwise⟩ := ih
    have before := leads.le.trans covers.le
    refine ⟨before.trans le, ?_, List.pairwise_cons.2 ⟨fun q mem => (all q mem).1, pairwise⟩⟩
    rw [List.forall_mem_cons]
    exact ⟨⟨leads.le, le⟩, fun q mem => ⟨before.trans (all q mem).1, (all q mem).2⟩⟩

/-! ## Nodes -/

def Shape.lists : Shape Node → List (List Node)
  | .program nodes | .blockStatement nodes | .classBody nodes | .variableDeclaration nodes _
  | .functionDeclaration _ nodes _ _ _ | .functionExpression _ nodes _ _ _
  | .arrowFunctionExpression nodes _ _ _ | .objectExpression nodes | .objectPattern nodes
  | .callExpression _ nodes | .newExpression _ nodes | .sequenceExpression nodes => [nodes]
  | .arrayExpression elements => [elements.filterMap id]
  | .templateLiteral quasis expressions => [quasis, expressions]
  | _ => []

def InOrder (ns : List Node) : Prop :=
  ns.Pairwise fun m n => ∀ s ∈ m.loc, ∀ t ∈ n.loc, s.stop ≤ t.start

namespace Node

def IsEmptyStrand (n : Node) : Prop := ∃ tail, n.shape = .templateElement ⟨some "", ""⟩ tail

/-- The node has a place, its children lie within it, and lists of them are in order. -/
def Nests (n : Node) : Prop :=
  ∃ span, n.loc = some span ∧ span.start ≤ span.stop ∧
    (∀ m ∈ n.children, ∀ s ∈ m.loc, s.Inside span) ∧ ∀ ns ∈ n.shape.lists, InOrder ns

/-- All nodes of the tree have their places, but for strands where nothing stands. -/
def Nested (tree : Node) : Prop := ∀ n, Within tree n → n.IsEmptyStrand ∨ n.Nests

theorem nested_of_children {n : Node} (own : n.IsEmptyStrand ∨ n.Nests)
    (h : ∀ m ∈ n.children, m.Nested) : n.Nested := by
  intro m within
  rcases within.cases_root with rfl | ⟨child, mem, within⟩
  · exact own
  · exact h child mem m within

structure Fit (span : Span) (n : Node) : Prop where
  sound : n.Sound
  nested : n.Nested
  placed : ∃ s, n.loc = some s ∧ s.start ≤ s.stop ∧ s.Inside span

variable {n : Node} {shape : Shape Node} {s span : Span}

theorem Fit.mono (h : n.Fit s) (inside : s.Inside span) : n.Fit span := by
  obtain ⟨t, loc, upright, inside'⟩ := h.placed
  exact ⟨h.sound, h.nested, t, loc, upright, inside'.trans inside⟩

theorem Fit.inside (h : n.Fit span) {t : Span} (loc : t ∈ n.loc) : t.Inside span := by
  obtain ⟨t', loc', -, inside⟩ := h.placed
  cases loc'.symm.trans loc
  exact inside

theorem Fit.exists_loc (h : n.Fit span) :
    ∃ s, n.loc = some s ∧ s.start ≤ s.stop ∧ s.Inside span ∧ n.Fit s := by
  obtain ⟨s, loc, upright, inside⟩ := h.placed
  exact ⟨s, loc, upright, inside, h.sound, h.nested, s, loc, upright, .refl s⟩

/-- A node of a span, with its children in it. -/
theorem fit_mk (sound : (mk shape (some s)).Sound) (upright : s.start ≤ s.stop)
    (inside : s.Inside span)
    (children : ∀ m ∈ shape.children, m.Nested ∧ ∀ t ∈ m.loc, t.Inside s)
    (lists : ∀ ns ∈ shape.lists, InOrder ns) : (mk shape (some s)).Fit span :=
  ⟨sound, nested_of_children (.inr ⟨s, rfl, upright, fun m mem => (children m mem).2, lists⟩)
    fun m mem => (children m mem).1, s, rfl, upright, inside⟩

end Node

/-- A node that ends where the others begin, or before it. -/
theorem inOrder_cons {n : Node} {ns : List Node} {p : Position} (h : ∀ s ∈ n.loc, s.stop ≤ p)
    (others : ∀ m ∈ ns, ∀ s ∈ m.loc, p ≤ s.start) (rest : InOrder ns) : InOrder (n :: ns) :=
  List.pairwise_cons.2 ⟨fun m mem s loc t loc' => (h s loc).trans (others m mem t loc'), rest⟩

end EcmaMachine
