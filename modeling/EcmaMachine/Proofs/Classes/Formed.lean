import EcmaMachine.Proofs.Grammar.Trees
import EcmaMachine.Proofs.Lexicon.Step

/-!
Lexicons of trees in which all class declarations have the form that texts give them.
-/

namespace EcmaMachine

/-! ## What is true of all parts -/

namespace Shape

variable {part : Role → Node → Prop} {pattern : Node → Prop} {takes : Role → Signal → Prop}
  {shape : Shape Node} {Q : Node → Prop}

theorem EntryParts.and (own : ∀ m ∈ shape.children, Q m) (h : shape.EntryParts part takes) :
    shape.EntryParts (fun r m => part r m ∧ Q m) takes := by
  unfold EntryParts at h ⊢
  split <;> simp_all [children]

theorem BoundParts.and (own : ∀ m ∈ shape.children, Q m) (h : shape.BoundParts pattern takes) :
    shape.BoundParts (fun m => pattern m ∧ Q m) takes := by
  unfold BoundParts at h ⊢
  split <;> simp_all [children]

variable (down : ∀ {n m : Node}, Q n → m ∈ n.children → Q m)
include down

theorem PatternParts.and (own : ∀ m ∈ shape.children, Q m)
    (h : shape.PatternParts part pattern takes) :
    shape.PatternParts (fun r m => part r m ∧ Q m) (fun m => pattern m ∧ Q m) takes := by
  cases shape with
  | assignmentPattern left right =>
    exact ⟨⟨h.1, own left (by simp [children])⟩, h.2, own right (by simp [children])⟩
  | objectPattern properties =>
    exact fun p mem => (h p mem).and fun m => down (own p mem)
  | _ => exact h

theorem HeadParts.and {r : Role} {left : Node} (own : Q left) (h : HeadParts pattern takes r left) :
    HeadParts (fun m => pattern m ∧ Q m) takes r left := by
  have declared : ∀ p, loopTarget left = .ok (.declare p) → Q p := by
    intro p found
    unfold loopTarget at found
    split at found
    · cases found
    · next declarator _ shape =>
      have inner : Q declarator := down own (by simp [Node.children, shape, children])
      split at found
      · next shape =>
        cases found
        exact down inner (by simp [Node.children, shape, children])
      · cases found
    · cases found
    · cases found
  unfold HeadParts at h ⊢
  split
  · next p found =>
    rw [found] at h
    exact ⟨h, declared p found⟩
  · trivial
  · next failed =>
    rw [failed] at h
    exact h

theorem Parts.and {r : Role} (own : ∀ m ∈ shape.children, Q m)
    (h : shape.Parts part pattern takes r) :
    shape.Parts (fun r m => part r m ∧ Q m) (fun m => pattern m ∧ Q m) takes r := by
  cases shape with
  | objectExpression properties =>
    exact fun p mem => (h p mem).and fun m => down (own p mem)
  | forInStatement left right body | forOfStatement left right body =>
    simp only [children, List.forall_mem_cons] at own
    exact ⟨h.1.and down own.1, ⟨h.2.1, own.2.1⟩, h.2.2, own.2.2.1⟩
  | _ =>
    unfold Parts KeyParts at *
    unfold children at own
    grind [Option.mem_def]

end Shape

/-! ## Lexicons -/

/-- All class declarations in the tree have the form that texts give them. -/
def Node.FormsClasses (tree : Node) : Prop := ∀ n, tree.Within n → n.FormedClass

theorem Node.FormsClasses.child {n m : Node} (h : n.FormsClasses) (mem : m ∈ n.children) :
    m.FormsClasses :=
  fun k within => h k (within.of_child mem)

theorem Node.Sound.formsClasses {tree n : Node} (h : tree.Sound) (within : tree.Within n) :
    n.FormsClasses :=
  fun m inner => (h m (within.trans inner)).2.formedClass

namespace Lexicon

def formed (L : Lexicon) : Lexicon where
  part r n := L.part r n ∧ n.FormsClasses
  pattern n := L.pattern n ∧ n.FormsClasses
  takes := L.takes
  outer := L.outer
  parts h := (L.parts h.1).and .child fun _ => h.2.child
  patterns h := (L.patterns h.1).and .child fun _ => h.2.child
  blank := by
    refine ⟨L.blank, fun n within => ?_⟩
    rcases within.cases_root with rfl | ⟨m, mem, -⟩
    · trivial
    · cases mem
  ordinary := L.ordinary
  widened := L.widened
  unreturned := L.unreturned
  unbroken := L.unbroken

theorem Defines.formed {L : Lexicon} {n : Node} (h : L.Defines n) (formed : n.FormsClasses) :
    L.formed.Defines n := by
  intro parts found
  obtain ⟨params, body⟩ := h parts found
  have child : ∀ m, m ∈ parts.params ∨ m = parts.body → m.FormsClasses := by
    intro m mem
    refine formed.child ?_
    unfold Node.functionParts? at found
    unfold Node.children
    grind [Shape.children]
  exact ⟨fun p mem => ⟨params p mem, child p (.inl mem)⟩, body, child _ (.inr rfl)⟩

theorem Lawful.formed {η : Type} {L : Lexicon} {s : State η} (h : L.formed.Lawful s) (site : Site)
    (running : s.control = .eval site) : site.node.FormedClass := by
  have suits := h.suits (by rw [running]; nofun)
  rw [running] at suits
  exact suits.2 site.node .here

end Lexicon

end EcmaMachine
