import EcmaMachine.Machine.Run
import EcmaMachine.Proofs.Bond.Basic

/-!
Lexicons: what is required of the trees that are run, and of the signals that may come out of them.
The machine keeps to a lexicon. Every frame carries only nodes that may be run where the frame
stands, and every failure is one that the frames below it have to expect.

The frames are also in order otherwise. What waits for a value and may fail itself stands above a
cell that lets one failure through, and the rounds of a loop stand above a cell that lets one value
through.
-/

namespace EcmaMachine

/-! ## Jumps and roles -/

/-- The jumps that are taken up around a node. -/
structure Role where
  returns : Bool
  breaks : Bool

namespace Role

def closed : Role := ⟨false, false⟩

def body : Role := ⟨true, true⟩

def looping (r : Role) : Role := { r with breaks := true }

def returning (r : Role) : Role := { r with returns := true }

end Role

/-- Limitations that only trees from elsewhere run into; no text gives such a tree. -/
def Limitation.isForeign : Limitation → Bool
  | .strayProperty | .strayPattern | .bindingTarget | .patternProperty | .defaultTarget _
  | .loopInitializer | .loopVariables | .anonymousClass | .regex | .literalValue _ | .spread
  | .accessor | .propertyKey | .memberKey | .assignmentTarget _ | .updateTarget => true
  | _ => false

/-- Signals that may come from anywhere. -/
def Signal.isOrdinary : Signal → Bool
  | .returned _ | .broken _ | .continued _ => false
  | .notImplemented _ limitation => !limitation.isForeign
  | _ => true

def NodeType.isExpression : NodeType → Bool
  | .identifier | .literal | .thisExpression | .arrayExpression | .objectExpression
  | .functionExpression | .arrowFunctionExpression | .memberExpression | .callExpression
  | .newExpression | .assignmentExpression | .updateExpression | .unaryExpression
  | .binaryExpression | .logicalExpression | .conditionalExpression | .sequenceExpression
  | .templateLiteral | .templateElement => true
  | _ => false

/-- Slots that hold statements; jumps get through them. -/
def Slot.isBlock : Slot → Bool
  | .alternate | .block | .body | .consequent | .finalizer | .handler => true
  | _ => false

/-! ## What is required of the parts of a node -/

namespace Shape

section Parts

variable (part : Role → Node → Prop) (pattern : Node → Prop) (takes : Role → Signal → Prop)

def EntryParts : Shape Node → Prop
  | .property key value .init computed _ _ =>
    (computed = true → part .closed key) ∧
      (computed = false → key.staticKey? = none →
        takes .closed (.unsupported key.type .propertyKey)) ∧
      part .closed value
  | .property .. => takes .closed (.unsupported .property .accessor)
  | shape => takes .closed (.unsupported shape.type .spread)

def BoundParts : Shape Node → Prop
  | .property key target _ computed _ _ =>
    (key.staticKey? = none ∨ computed = true →
        takes .closed (.unsupported key.type (.patternKey key.type))) ∧
      pattern target
  | shape => takes .closed (.unsupported shape.type .patternProperty)

def PatternParts : Shape Node → Prop
  | .identifier _ => True
  | .assignmentPattern left right => pattern left ∧ part .closed right
  | .objectPattern properties => ∀ p ∈ properties, p.shape.BoundParts pattern takes
  | shape => takes .closed (.unsupported shape.type .bindingTarget)

def KeyParts (key : Node) (computed : Bool) : Prop :=
  if computed then part .closed key
  else key.identifierName? = none → takes .closed (.unsupported key.type .memberKey)

/-- What stands to the left in the head of a for loop. -/
def HeadParts (r : Role) (left : Node) : Prop :=
  match loopTarget left with
  | .ok (.declare p) => pattern p
  | .ok (.assign _) => True
  | .error signal => takes r signal

def isTarget (shape : Shape Node) : Bool :=
  match shape with
  | .identifier _ | .memberExpression .. => true
  | _ => false

def Parts (r : Role) : Shape Node → Prop
  | .program body | .blockStatement body | .classBody body => ∀ n ∈ body, part r n
  | .expressionStatement expression => part .closed expression
  | .variableDeclaration declarations _ => ∀ n ∈ declarations, part .closed n
  | .variableDeclarator id init => pattern id ∧ ∀ n ∈ init, part .closed n
  | .ifStatement test consequent alternate =>
    part .closed test ∧ part r consequent ∧ ∀ n ∈ alternate, part r n
  | .whileStatement test body => part .closed test ∧ part r.looping body
  | .forInStatement left right body | .forOfStatement left right body =>
    HeadParts pattern takes r left ∧ part .closed right ∧ part r.looping body
  | .functionDeclaration _ params body _ _ | .functionExpression _ params body _ _ =>
    (∀ p ∈ params, pattern p) ∧ part .body body
  | .arrowFunctionExpression params body _ _ =>
    (∀ p ∈ params, pattern p) ∧
      part (if body.type = .blockStatement then .body else .closed) body
  | .returnStatement argument =>
    (∀ v, takes r (.returned v)) ∧ ∀ n ∈ argument, part .closed n
  | .throwStatement argument => part .closed argument
  | .tryStatement block handler finalizer =>
    part r block ∧ (∀ n ∈ handler, part r n) ∧ ∀ n ∈ finalizer, part r n
  | .catchClause param body => (∀ n ∈ param, pattern n) ∧ part r body
  | .breakStatement none => takes r (.broken none)
  | .continueStatement none => takes r (.continued none)
  | .classDeclaration id superClass body =>
    (id.bind Node.identifierName? = none →
        takes r (.unsupported .classDeclaration .anonymousClass)) ∧
      (∀ n ∈ superClass, part .closed n) ∧ part r body
  | .methodDefinition _ value _ _ _ => part .closed value
  | .literal value _ regex =>
    (regex.isSome = true → takes .closed (.unsupported .literal .regex)) ∧
      ∀ json, value = some (.unsupported json) →
        takes .closed (.unsupported .literal (.literalValue json))
  | .arrayExpression elements => ∀ n ∈ elements.filterMap id, part .closed n
  | .objectExpression properties => ∀ p ∈ properties, p.shape.EntryParts part takes
  | .property .. => takes r (.unsupported .property .strayProperty)
  | .memberExpression object key computed =>
    part .closed object ∧ KeyParts part takes key computed
  | .callExpression callee arguments | .newExpression callee arguments =>
    part .closed callee ∧ ∀ n ∈ arguments, part .closed n
  | .assignmentExpression _ left right =>
    (left.shape.isTarget = false →
        takes .closed (.unsupported left.type (.assignmentTarget left.type))) ∧
      part .closed left ∧ part .closed right
  | .updateExpression _ argument _ =>
    (argument.shape.isTarget = false →
        takes .closed (.unsupported argument.type .updateTarget)) ∧
      part .closed argument
  | .unaryExpression _ argument _ => part .closed argument
  | .binaryExpression _ left right | .logicalExpression _ left right =>
    part .closed left ∧ part .closed right
  | .conditionalExpression test consequent alternate =>
    part .closed test ∧ part .closed consequent ∧ part .closed alternate
  | .sequenceExpression expressions | .templateLiteral _ expressions =>
    ∀ n ∈ expressions, part .closed n
  | .objectPattern _ => takes r (.unsupported .objectPattern .strayPattern)
  | .assignmentPattern left right =>
    takes r (.unsupported .assignmentPattern .strayPattern) ∧
      (left.identifierName? = none →
        takes r (.unsupported left.type (.defaultTarget left.type))) ∧
      part .closed right
  | _ => True

end Parts

end Shape

/-! ## Lexicons -/

structure Lexicon where
  /-- Whether a node may be run where such jumps are taken up. -/
  part : Role → Node → Prop
  /-- Whether a node may be bound. -/
  pattern : Node → Prop
  /-- The signals that may come out of a node. -/
  takes : Role → Signal → Prop
  /-- The jumps that the one outside has to expect. -/
  outer : Nat → Role
  parts {r : Role} {n : Node} : part r n → n.shape.Parts part pattern takes r
  patterns {n : Node} : pattern n → n.shape.PatternParts part pattern takes
  blank : part .body (.mk (.blockStatement []) none)
  ordinary {r : Role} {s : Signal} : s.isOrdinary = true → takes r s
  widened {r : Role} {s : Signal} : takes .closed s → takes r s
  unreturned {r : Role} {s : Signal} : takes r.returning s → (∀ v, s ≠ .returned v) → takes r s
  unbroken {r : Role} {s : Signal} : takes r.looping s → s ≠ .broken none →
    s ≠ .continued none → takes r s

def Lexicon.free : Lexicon where
  part _ _ := True
  pattern _ := True
  takes _ _ := True
  outer _ := .closed
  parts {_ n} _ := by
    have entry : ∀ x : Shape Node, x.EntryParts (fun _ _ => True) fun _ _ => True := fun x => by
      unfold Shape.EntryParts
      split <;> simp
    cases n.shape <;> simp only [Shape.Parts, Shape.HeadParts, Shape.KeyParts, entry] <;> grind
  patterns {n} _ := by
    have field : ∀ x : Shape Node, x.BoundParts (fun _ => True) fun _ _ => True := fun x => by
      unfold Shape.BoundParts
      split <;> simp
    cases n.shape <;> simp [Shape.PatternParts, field]
  blank := trivial
  ordinary _ := trivial
  widened _ := trivial
  unreturned _ _ := trivial
  unbroken _ _ _ := trivial

/-! ## Where outcomes go -/

/-- The two ways that an outcome may go. -/
inductive Way
  | value
  | failure
  deriving DecidableEq

/-- The cell that lets one outcome of this kind through. -/
def Frame.stop : Way → Frame → Option Cell
  | _, .tryBlock _ cell _ _ | _, .tryHandler _ cell _ => some cell
  | .failure, .guard cell => some cell
  | .value, .once cell | .value, .body cell | .value, .program cell => some cell
  | _, _ => none

/-- Where an outcome that is handed to some frames gets to in the first place. -/
inductive Goal
  | cell (c : Cell)
  | outside (id : Nat)
  | nowhere

def goal (way : Way) : List Frame → Goal
  | [] => .nowhere
  | .deliver id :: _ => .outside id
  | f :: rest =>
    match f.stop way with
    | some c => .cell c
    | none => goal way rest

/-- The outcomes that may still come of what the machine does now. -/
def Control.pursues : Way → Control → Bool
  | _, .eval _ | _, .bind .. | _, .apply .. => true
  | .value, .ret .. => true
  | .failure, .fail _ => true
  | _, _ => false

/-- Of all failures that are handed to these frames, one gets through. -/
def Shielded (fs : List Frame) : Prop := ∃ c, goal .failure fs = .cell c

/-- Of all values that are handed to these frames, one gets through. -/
def Looped (fs : List Frame) : Prop := ∃ c, goal .value fs = .cell c

namespace Frame

/-- Whether a value handed to this frame may end in a failure, though no cell of the frame has a
part in it. -/
def isRisky : Frame → Bool
  | .exit .. | .guard _ | .once _ | .last | .instead _ | .body _ | .program _ | .declare ..
  | .tryBlock .. | .tryHandler .. | .relist | .propertyValue .. | .construct _ | .unary _
  | .template _ | .deliver _ => false
  | _ => true

def isLooping : Frame → Bool
  | .whileTest .. | .roundBody .. | .round .. => true
  | _ => false

end Frame

def Store.callables (s : Store) : Array Callable := s.functions.map (·.callable)

/-! ## Frames that keep to a lexicon -/

namespace Lexicon

variable (L : Lexicon)

/-- The jumps that these frames take up, as a node that is run on top of them has to know. -/
def role : List Frame → Role
  | [] => .closed
  | .deliver id :: _ => L.outer id
  | .program _ :: rest => (role rest).returning
  | .body _ :: _ => .body
  | .round .. :: rest => (role rest).looping
  | .bindTo _ :: _ => .closed
  | .exit site none :: rest => if site.node.type.isExpression then .closed else role rest
  | .exit _ (some slot) :: rest => if slot.isBlock then role rest else .closed
  | _ :: rest => role rest

/-- A function whose body and parameters may be run. -/
def Script (c : Closure) : Prop :=
  (∀ p ∈ c.params, L.pattern p) ∧ L.part (if c.isExpression then .closed else .body) c.body

def Scripts (s : Store) : Prop := ∀ c, .closure c ∈ s.callables → L.Script c

def Target : LoopTarget → Prop
  | .assign _ => True
  | .declare p => L.pattern p

def Remaining (r : Role) : Rounds → Prop
  | .tested test body => L.part .closed test ∧ L.part r.looping body
  | .each target body _ => L.Target target ∧ L.part r.looping body

/-- What a frame carries may be run where it stands. -/
def Carries (r : Role) : Frame → Prop
  | .items rest _ => ∀ site ∈ rest.filterMap id, L.part r site.node
  | .bindTo target => L.pattern target.node
  | .bindRest properties _ => ∀ p ∈ properties, p.node.shape.BoundParts L.pattern L.takes
  | .bindParams _ closure params _ =>
    r = .closed ∧ L.Script closure ∧ ∀ p ∈ params, L.pattern p.node
  | .branch _ consequent alternate => L.part r consequent ∧ ∀ n ∈ alternate, L.part r n
  | .whileTest _ test body => L.part .closed test ∧ L.part r.looping body
  | .forIn _ target body | .forOf _ target _ body => L.Target target ∧ L.part r.looping body
  | .roundBody _ _ body _ next => L.part r.looping body ∧ L.Remaining r next
  | .round _ _ next => L.Remaining r next
  | .returns => ∀ v, L.takes r (.returned v)
  | .tryBlock _ _ handler finalizer =>
    (∀ n ∈ handler, L.part r n) ∧ ∀ n ∈ finalizer, L.part r n
  | .tryHandler _ _ finalizer => ∀ n ∈ finalizer, L.part r n
  | .finalizer outcome => ∀ e, outcome = .failure e → L.takes r e.signal
  | .catchBody _ body | .superclass _ _ body => L.part r body
  | .objectRest _ rest => ∀ entry ∈ rest, entry.node.shape.EntryParts L.part L.takes
  | .propertyKey _ _ value => L.part .closed value
  | .memberObject _ property computed _ => Shape.KeyParts L.part L.takes property computed
  | .callee _ _ arguments | .newCallee _ _ arguments =>
    r = .closed ∧ ∀ n ∈ arguments, L.part .closed n
  | .call .. | .newCall .. => r = .closed
  | .assignment _ _ left =>
    (left.shape.isTarget = false →
        L.takes .closed (.unsupported left.type (.assignmentTarget left.type))) ∧
      L.part .closed left
  | .binaryLeft _ _ right | .logical _ _ right => L.part .closed right
  | _ => True

structure Fits (below : List Frame) (f : Frame) : Prop where
  shielded : f.isRisky = true → Shielded below
  looped : f.isLooping = true → Looped below
  carries : L.Carries (L.role below) f

def Legal : List Frame → Prop
  | [] => True
  | f :: rest => L.Fits rest f ∧ Legal rest

/-- The frames below a call. -/
theorem legal_call (recipient : Nat) : L.Legal [.deliver recipient] :=
  ⟨⟨Bool.false_ne_true.elim, Bool.false_ne_true.elim, trivial⟩, trivial⟩

/-- The frames below a program. -/
theorem legal_program (cell recipient : Nat) : L.Legal [.program cell, .deliver recipient] :=
  ⟨⟨Bool.false_ne_true.elim, Bool.false_ne_true.elim, trivial⟩, L.legal_call recipient⟩

def Suits (fs : List Frame) : Control → Prop
  | .eval site => L.part (L.role fs) site.node
  | .bind target _ => L.pattern target.node
  | .ret .. => True
  | .fail e => L.takes (L.role fs) e.signal
  | .apply .. => L.role fs = .closed
  | .idle => False

/-- No outcome of this kind gets past a cell below, or none is pursued at all. -/
def Quiet {η : Type} (way : Way) (below : List Frame) (t : State η) : Prop :=
  (∃ c, goal way below = .cell c) ∨ t.control.pursues way = false ∧ t.stack = below

inductive Succeeds : Frame → Frame → Prop
  | body (inner site : Site) (cell : Cell) (body : Node) (next : Rounds) :
    Succeeds (.roundBody inner cell body site next) (.round site cell next)
  | handler (site : Site) (cell : Cell) (handler finalizer : Option Node) :
    Succeeds (.tryBlock site cell handler finalizer) (.tryHandler site cell finalizer)

theorem Succeeds.cell {f f' : Frame} (h : Succeeds f f') :
    ∃ cell, f.cell? = some cell ∧ f'.cell? = some cell := by
  cases h with
  | body _ _ cell | handler _ cell => exact ⟨cell, rfl, rfl⟩

/-! ## The middle of a step -/

/-- What was pushed onto the frames below, each new cell a fresh one; `count` cells there are in
all. -/
inductive Grown (old : Nat) (below : List Frame) : (count : Nat) → List Frame → Prop
  | nothing : Grown old below old below
  | cell {count : Nat} {fs : List Frame} : Grown old below count fs → Grown old below (count + 1) fs
  | frame {count : Nat} {fs : List Frame} {f : Frame} (plain : f.cell? = none)
    (inner : f.isInner = true) : Grown old below count fs → Grown old below count (f :: fs)
  | both {count : Nat} {fs : List Frame} {f : Frame} (fresh : f.cell? = some count) :
    Grown old below count fs → Grown old below (count + 1) (f :: fs)

/-- A state on the way from `s₀`, where the frames `below` were left, to the end of the step. -/
structure Work {η : Type} (s₀ : State η) (below fs : List Frame) (s : State η) : Prop where
  stack : s.stack = fs
  legal : L.Legal fs
  scripts : L.Scripts s.store
  agenda : s.agenda = s₀.agenda
  held : s.world.held = s₀.world.held
  spent : ∃ n, s.world.spent = s₀.world.spent ++ Array.replicate n false
  grown : Grown s₀.world.spent.size below s.world.spent.size fs

structure Ends {η : Type} (s₀ : State η) (below : List Frame) (s : State η) : Prop where
  work : L.Work s₀ below s.stack s
  suits : L.Suits s.stack s.control

variable {L}

namespace Work

variable {η : Type} {s₀ s : State η} {below fs : List Frame}

theorem start (legal : L.Legal s.stack) (scripts : L.Scripts s.store) :
    L.Work s s.stack s.stack s where
  stack := rfl
  legal := legal
  scripts := scripts
  agenda := rfl
  held := rfl
  spent := ⟨0, by simp⟩
  grown := .nothing

variable (h : L.Work s₀ below fs s)
include h

theorem withStore (store : Store) (scripts : L.Scripts store) :
    L.Work s₀ below fs (s.withStore store) :=
  { h with scripts }

theorem tell (site : Site) (slot : Option Slot) (stage : Stage) :
    L.Work s₀ below fs { s with world := (s.world.tell site slot stage).2 } where
  stack := h.stack
  legal := h.legal
  scripts := by simpa [State.store] using h.scripts
  agenda := h.agenda
  held := by simpa using h.held
  spent := by simpa using h.spent
  grown := by simpa using h.grown

theorem push (f : Frame) (plain : f.cell? = none)
    (inner : f.isInner = true) (fits : L.Fits fs f) : L.Work s₀ below (f :: fs) (s.push f) :=
  { h with
    stack := congrArg (f :: ·) h.stack
    legal := ⟨fits, h.legal⟩
    grown := .frame plain inner h.grown }

/-- A fresh cell that no frame has yet. -/
theorem newCell : L.Work s₀ below fs { s with world := s.world.newCell.2 } := by
  obtain ⟨n, spent⟩ := h.spent
  refine { h with spent := ⟨n + 1, ?_⟩, grown := ?_ }
  · change s.world.spent.push false = _
    rw [spent, Array.replicate_succ, Array.push_append]
  · have size : s.world.newCell.2.spent.size = s.world.spent.size + 1 := Array.size_push ..
    simp only [size]
    exact .cell h.grown

theorem pushCell (frame : Cell → Frame)
    (own : ∀ c, (frame c).cell? = some c) (fits : L.Fits fs (frame s.world.spent.size)) :
    L.Work s₀ below (frame s.world.spent.size :: fs) (s.pushCell frame) := by
  have grown : Grown s₀.world.spent.size below (s.world.spent.size + 1)
    (frame s.world.spent.size :: fs) := .both (own _) h.grown
  have size : s.world.newCell.2.spent.size = s.world.spent.size + 1 := Array.size_push ..
  exact { h.newCell with
    stack := congrArg (frame s.world.spent.size :: ·) h.stack
    legal := ⟨fits, h.legal⟩
    grown := size ▸ grown }

theorem become {control : Control} (suits : L.Suits fs control) :
    L.Ends s₀ below (s.become control) := by
  obtain rfl := h.stack
  exact ⟨{ h with }, suits⟩

theorem give (v : Value) : L.Ends s₀ below (s.give v) :=
  h.become trivial

theorem fail {e : Exception} (takes : L.takes (L.role fs) e.signal) : L.Ends s₀ below (s.fail e) :=
  h.become takes

/-- The work inside a node or slot only has to be done with its end on top. -/
theorem enter {site : Site} (slot : Option Slot) {work : State η → State η}
    (inside : ∀ {t : State η}, L.Work s₀ below (.exit site slot :: fs) t → t.store = s.store →
      L.Ends s₀ below (work t)) :
    L.Ends s₀ below (s.enter site slot work) := by
  have told := h.tell site slot .enter
  exact State.enter_cases (Q := L.Ends s₀ below)
    (inside (told.push _ rfl rfl ⟨nofun, nofun, trivial⟩) (World.tell_store _ _ _ _))
    fun _ => (told.tell site slot _).fail (L.ordinary rfl)

end Work

end Lexicon

end EcmaMachine
