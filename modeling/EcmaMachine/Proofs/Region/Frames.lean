import EcmaMachine.Proofs.Bond.Basic
import EcmaMachine.Proofs.Region.Store

/-!
Machines in a region. Every value that the machine has at hand is held by the region, and so is every
scope that a node is run in; and the nodes declare no names there but those that the region has
declared.
-/

namespace EcmaMachine

/-! ## What is run in one scope -/

/-- What is done with a node: it is run or bound, or it is a property of an object or of a
pattern. -/
inductive Use
  | run
  | bind
  | entry
  | field
  deriving DecidableEq

/-- The parts of a node that are run or bound in the scope of the node itself. Blocks, functions and
catch clauses have scopes of their own, and so have the rounds of a loop that declares its
variable; a loop with three clauses is not run. -/
def Shape.uses : Use → Shape Node → List (Use × Node)
  | .run, .program body | .run, .classBody body => body.map (.run, ·)
  | .run, .expressionStatement expression => [(.run, expression)]
  | .run, .variableDeclaration declarations _ => declarations.map (.run, ·)
  | .run, .variableDeclarator id init => (.bind, id) :: init.toList.map (.run, ·)
  | .run, .ifStatement test consequent alternate =>
    (.run, test) :: (.run, consequent) :: alternate.toList.map (.run, ·)
  | .run, .whileStatement test body => [(.run, test), (.run, body)]
  | .run, .forInStatement left right body | .run, .forOfStatement left right body =>
    match loopTarget left with
    | .ok (.assign _) => [(.run, right), (.run, body)]
    | _ => [(.run, right)]
  | .run, .returnStatement argument => argument.toList.map (.run, ·)
  | .run, .throwStatement argument => [(.run, argument)]
  | .run, .tryStatement block _ finalizer => (.run, block) :: finalizer.toList.map (.run, ·)
  | .run, .classDeclaration _ superClass body =>
    (.run, body) :: superClass.toList.map (.run, ·)
  | .run, .methodDefinition _ value _ _ _ => [(.run, value)]
  | .run, .arrayExpression elements => (elements.filterMap id).map (.run, ·)
  | .run, .objectExpression properties => properties.map (.entry, ·)
  | .run, .memberExpression object key computed =>
    (.run, object) :: if computed then [(.run, key)] else []
  | .run, .callExpression callee arguments | .run, .newExpression callee arguments =>
    (.run, callee) :: arguments.map (.run, ·)
  | .run, .assignmentExpression _ left right | .run, .binaryExpression _ left right
  | .run, .logicalExpression _ left right => [(.run, left), (.run, right)]
  | .run, .updateExpression _ argument _ | .run, .unaryExpression _ argument _ =>
    [(.run, argument)]
  | .run, .conditionalExpression test consequent alternate =>
    [(.run, test), (.run, consequent), (.run, alternate)]
  | .run, .sequenceExpression expressions | .run, .templateLiteral _ expressions =>
    expressions.map (.run, ·)
  | .run, .assignmentPattern _ right => [(.run, right)]
  | .bind, .assignmentPattern left right => [(.bind, left), (.run, right)]
  | .bind, .objectPattern properties => properties.map (.field, ·)
  | .entry, .property key value _ computed _ _ =>
    (.run, value) :: if computed then [(.run, key)] else []
  | .field, .property _ target _ _ _ _ => [(.bind, target)]
  | _, _ => []

namespace Node

/-- What is run or bound in the same scope, at any depth. -/
def Uses : Use × Node → Use × Node → Prop :=
  Relation.ReflTransGen fun a b => b ∈ a.2.shape.uses a.1

/-- The name that a node declares itself: a name that is bound, a function or a class. A default
that is run, and not bound, declares its name, too. -/
def ownName? (use : Use) (n : Node) : Option String :=
  match use, n.shape with
  | .bind, .identifier name => some name
  | .run, .functionDeclaration (some id) _ _ _ _ => id.identifierName?
  | .run, .classDeclaration (some id) _ _ => id.identifierName?
  | .run, .assignmentPattern left _ => left.identifierName?
  | _, _ => none

end Node

namespace Region

variable {R : Region} {t t' : Store} {scope : ScopeId} {use use' : Use} {n m : Node}

structure Allows (R : Region) (t : Store) (scope : ScopeId) (use : Use) (n : Node) : Prop where
  holds : R.holds t (.scope scope)
  names : ∀ use' m name, Node.Uses (use, n) (use', m) → m.ownName? use' = some name →
    R.declares scope name

theorem Allows.part (h : R.Allows t scope use n) (mem : (use', m) ∈ n.shape.uses use) :
    R.Allows t scope use' m :=
  ⟨h.holds, fun _ _ _ uses own => h.names _ _ _ (.head mem uses) own⟩

theorem Allows.own (h : R.Allows t scope use n) {name : String}
    (own : n.ownName? use = some name) : R.declares scope name :=
  h.names use n name .refl own

/-- Everything may be used in a new scope. -/
theorem allows_new (k : R.keeps t) (holds : R.holds t' (.scope t.scopes.size)) (use : Use)
    (n : Node) : R.Allows t' t.scopes.size use n :=
  ⟨holds, fun _ _ name _ _ => R.anew name k⟩

/-! ## Frames and states -/

section

variable (R : Region) (t : Store) (scope : ScopeId)

def Reads : Access → Prop
  | .assign _ v => R.Has t v
  | _ => True

def Loops (body : Node) : LoopTarget → Prop
  | .assign _ => R.Allows t scope .run body
  | .declare _ => R.holds t (.scope scope)

def Remaining : Rounds → Prop
  | .tested test body => R.Allows t scope .run test ∧ R.Allows t scope .run body
  | .each target body items => R.Loops t scope body target ∧ ∀ v ∈ items, R.Has t v

def Carries : Frame → Prop
  | .items rest done =>
    (∀ site ∈ rest.filterMap id, R.Allows t site.scope .run site.node) ∧ ∀ v ∈ done, R.Has t v
  | .instead v => R.Has t v
  | .bindTo target => R.Allows t target.scope .bind target.node
  | .bindRest properties source =>
    (∀ p ∈ properties, R.Allows t p.scope .field p.node) ∧ R.Has t source
  | .bindParams site closure params args =>
    R.Allows t site.scope .run closure.body ∧ (∀ p ∈ params, R.Allows t p.scope .bind p.node) ∧
      ∀ v ∈ args, R.Has t v
  | .declare scope name => R.holds t (.scope scope) ∧ R.declares scope name
  | .branch site consequent alternate =>
    R.Allows t site.scope .run consequent ∧ ∀ n ∈ alternate, R.Allows t site.scope .run n
  | .whileTest site test body => R.Allows t site.scope .run test ∧ R.Allows t site.scope .run body
  | .forIn site target body | .forOf site target _ body => R.Loops t site.scope body target
  | .roundBody site _ body outer next =>
    R.Allows t site.scope .run body ∧ R.Remaining t outer.scope next
  | .round site _ next => R.Remaining t site.scope next
  | .tryBlock site _ _ finalizer =>
    R.holds t (.scope site.scope) ∧ ∀ n ∈ finalizer, R.Allows t site.scope .run n
  | .tryHandler site _ finalizer => ∀ n ∈ finalizer, R.Allows t site.scope .run n
  | .finalizer outcome => R.Gives t outcome
  | .catchBody site body => R.Allows t site.scope .run body
  | .superclass site name body =>
    R.holds t (.scope site.scope) ∧ R.declares site.scope name ∧ R.Allows t site.scope .run body
  | .classBody site name superclass =>
    R.holds t (.scope site.scope) ∧ R.declares site.scope name ∧
      ∀ f, superclass = some f → R.holds t (.function f)
  | .objectRest object rest =>
    R.holds t (.object object) ∧ ∀ entry ∈ rest, R.Allows t entry.scope .entry entry.node
  | .propertyKey site object value =>
    R.holds t (.object object) ∧ R.Allows t site.scope .run value
  | .propertyValue object _ => R.holds t (.object object)
  | .memberObject site property computed access =>
    (computed = true → R.Allows t site.scope .run property) ∧ R.Reads t access
  | .memberKey target access => R.Has t target ∧ R.Reads t access
  | .callee site _ arguments | .newCallee site _ arguments =>
    ∀ n ∈ arguments, R.Allows t site.scope .run n
  | .call _ _ function receiver => R.Has t function ∧ R.Has t receiver
  | .newCall _ f => R.holds t (.function f)
  | .construct made => R.holds t (.object made)
  | .assignment site _ left => R.Allows t site.scope .run left
  | .binaryLeft site _ right | .logical site _ right => R.Allows t site.scope .run right
  | .binaryRight _ left => R.Has t left
  | _ => True

def Pursues : Control → Prop
  | .eval site => R.Allows t site.scope .run site.node
  | .bind target v => R.Allows t target.scope .bind target.node ∧ R.Has t v
  | .ret v receiver => R.Has t v ∧ R.Has t receiver
  | .fail e => R.Signals t e.signal
  | .apply f this args _ => R.holds t (.function f) ∧ R.Has t this ∧ ∀ v ∈ args, R.Has t v
  | .idle => True

end

variable {η : Type}

structure Within (R : Region) (t : Store) (s : State η) : Prop where
  store : s.store = t
  keeps : R.keeps t
  stack : ∀ f ∈ s.stack, R.Carries t f
  agenda : ∀ a ∈ s.agenda, R.since ≤ a.1 ∧ R.Gives t a.2
  held : ∀ (ticket : Nat) h, R.since ≤ ticket → s.world.held[ticket]? = some h →
    ∀ f ∈ h.stack, R.Carries t f
  calls : R.since ≤ s.world.held.size

structure Stays (R : Region) (s : State η) : Prop extends R.Within s.store s where
  control : R.Pursues s.store s.control

namespace Next

variable (h : R.Next t t')
include h

theorem allows (allows : R.Allows t scope use n) : R.Allows t' scope use n :=
  ⟨h.holds allows.holds, allows.names⟩

theorem optional {o : Option Node} (allows : ∀ n ∈ o, R.Allows t scope use n) :
    ∀ n ∈ o, R.Allows t' scope use n :=
  fun n mem => h.allows (allows n mem)

theorem sites {sites : List Site} (allows : ∀ site ∈ sites, R.Allows t site.scope use site.node) :
    ∀ site ∈ sites, R.Allows t' site.scope use site.node :=
  fun site mem => h.allows (allows site mem)

theorem nodes {nodes : List Node}
    (allows : ∀ n ∈ nodes, R.Allows t scope use n) : ∀ n ∈ nodes, R.Allows t' scope use n :=
  fun n mem => h.allows (allows n mem)

theorem reads {access : Access} (reads : R.Reads t access) : R.Reads t' access := by
  cases access with
  | assign operator v => exact h.has reads
  | _ => trivial

theorem loops {target : LoopTarget} (loops : R.Loops t scope n target) :
    R.Loops t' scope n target := by
  cases target with
  | assign name => exact h.allows loops
  | declare pattern => exact h.holds loops

theorem remaining {next : Rounds} (remaining : R.Remaining t scope next) :
    R.Remaining t' scope next := by
  cases next with
  | tested test body => exact ⟨h.allows remaining.1, h.allows remaining.2⟩
  | each target body items => exact ⟨h.loops remaining.1, h.all remaining.2⟩

theorem carries {frame : Frame} (carries : R.Carries t frame) : R.Carries t' frame := by
  cases frame with
  | items rest done => exact ⟨h.sites carries.1, h.all carries.2⟩
  | instead v | binaryRight operator left => exact h.has carries
  | bindTo target | catchBody site body | assignment site operator left
  | binaryLeft site operator right | logical site operator right => exact h.allows carries
  | bindRest properties source => exact ⟨h.sites carries.1, h.has carries.2⟩
  | bindParams site closure params args =>
    exact ⟨h.allows carries.1, h.sites carries.2.1, h.all carries.2.2⟩
  | declare scope name => exact ⟨h.holds carries.1, carries.2⟩
  | branch site consequent alternate => exact ⟨h.allows carries.1, h.optional carries.2⟩
  | whileTest site test body => exact ⟨h.allows carries.1, h.allows carries.2⟩
  | forIn site target body | forOf site target right body => exact h.loops carries
  | roundBody site cell body outer next => exact ⟨h.allows carries.1, h.remaining carries.2⟩
  | round site cell next => exact h.remaining carries
  | tryBlock site cell handler finalizer => exact ⟨h.holds carries.1, h.optional carries.2⟩
  | tryHandler site cell finalizer => exact h.optional carries
  | finalizer outcome => exact h.gives carries
  | superclass site name body => exact ⟨h.holds carries.1, carries.2.1, h.allows carries.2.2⟩
  | classBody site name superclass =>
    exact ⟨h.holds carries.1, carries.2.1, fun f found => h.holds (carries.2.2 f found)⟩
  | objectRest object rest => exact ⟨h.holds carries.1, h.sites carries.2⟩
  | propertyKey site object value => exact ⟨h.holds carries.1, h.allows carries.2⟩
  | propertyValue object key | newCall site f | construct made => exact h.holds carries
  | memberObject site property computed access =>
    exact ⟨fun isComputed => h.allows (carries.1 isComputed), h.reads carries.2⟩
  | memberKey target access => exact ⟨h.has carries.1, h.reads carries.2⟩
  | callee site callee arguments | newCallee site callee arguments => exact h.nodes carries
  | call site callee function receiver => exact ⟨h.has carries.1, h.has carries.2⟩
  | _ => trivial

theorem pursues {control : Control} (pursues : R.Pursues t control) : R.Pursues t' control := by
  cases control with
  | eval site => exact h.allows pursues
  | bind target v => exact ⟨h.allows pursues.1, h.has pursues.2⟩
  | ret v receiver => exact ⟨h.has pursues.1, h.has pursues.2⟩
  | fail e => exact h.signals pursues
  | apply f this args config =>
    exact ⟨h.holds pursues.1, h.has pursues.2.1, h.all pursues.2.2⟩
  | idle => trivial

end Next

namespace Within

variable {s : State η}

variable (h : R.Within t s)
include h

theorem withStore (next : R.Next t t') : R.Within t' (s.withStore t') where
  store := rfl
  keeps := next.keeps
  stack f mem := next.carries (h.stack f mem)
  agenda a mem := ⟨(h.agenda a mem).1, next.gives (h.agenda a mem).2⟩
  held ticket held le found f mem := next.carries (h.held ticket held le found f mem)
  calls := h.calls

theorem tell (site : Site) (slot : Option Slot) (stage : Stage) :
    R.Within t { s with world := (s.world.tell site slot stage).2 } where
  store := by simpa [State.store] using h.store
  keeps := h.keeps
  stack := h.stack
  agenda := h.agenda
  held := by simpa using h.held
  calls := by simpa using h.calls

theorem push (f : Frame) (carries : R.Carries t f) : R.Within t (s.push f) :=
  { h with stack := List.forall_mem_cons.2 ⟨carries, h.stack⟩ }

theorem pop : R.Within t s.pop :=
  { h with stack := fun f mem => h.stack f (List.mem_of_mem_tail mem) }

theorem newCell : R.Within t { s with world := s.world.newCell.2 } :=
  { h with }

theorem spend (cell : Cell) : R.Within t { s with world := s.world.spend cell } :=
  { h with }

theorem pushCell (frame : Cell → Frame) (carries : ∀ c, R.Carries t (frame c)) :
    R.Within t (s.pushCell frame) :=
  { h.newCell with stack := List.forall_mem_cons.2 ⟨carries _, h.stack⟩ }

theorem become {control : Control} (pursues : R.Pursues t control) :
    R.Stays (s.become control) := by
  obtain rfl := h.store
  exact { h with control := pursues }

end Within

end Region

end EcmaMachine
