import EcmaMachine.Proofs.Bond.Step

/-!
What the frames on the stack may still cost. Each frame has a price, and what it puts on the stack
when it gets its outcome is cheaper than the frame was, unless the machine goes on to evaluate a
node. A call has no price that the frame could know, so calls are counted by themselves.
-/

namespace EcmaMachine

theorem Site.part_node (site : Site) (step : Descent) (child : Node) :
    (site.part step child).node = child := rfl

/-! ## Prices -/

/-- Binding goes down a pattern. -/
noncomputable def Node.bindingCost (pattern : Node) : Nat := 2 * sizeOf pattern

noncomputable def bindingCosts : List Site → Nat
  | [] => 0
  | target :: rest => target.node.bindingCost + 1 + bindingCosts rest

@[simp] theorem bindingCosts_nil : bindingCosts [] = 0 := rfl

@[simp] theorem bindingCosts_cons (target : Site) (rest : List Site) :
    bindingCosts (target :: rest) = target.node.bindingCost + 1 + bindingCosts rest := rfl

section Patterns

variable {n left right key target : Node} {properties : List Node}

theorem bindingCost_default (h : n.shape = .assignmentPattern left right) :
    left.bindingCost + 1 ≤ n.bindingCost := by
  obtain ⟨shape, loc⟩ := n
  cases h
  simp only [Node.bindingCost, Node.mk.sizeOf_spec, Shape.assignmentPattern.sizeOf_spec]
  omega

theorem bindingCost_property {kind : PropertyKind} {computed method shorthand : Bool}
    (h : n.shape = .property key target kind computed method shorthand) :
    target.bindingCost + 1 ≤ n.bindingCost := by
  obtain ⟨shape, loc⟩ := n
  cases h
  simp only [Node.bindingCost, Node.mk.sizeOf_spec, Shape.property.sizeOf_spec]
  omega

theorem bindingCosts_le {sites : List Site} (nodes : sites.map (·.node) = properties) :
    bindingCosts sites + 2 ≤ 2 * sizeOf properties := by
  induction sites generalizing properties with
  | nil =>
    cases nodes
    simp
  | cons site rest ih =>
    cases nodes
    have price : site.node.bindingCost = 2 * sizeOf site.node := rfl
    have later := ih rfl
    simp only [bindingCosts_cons, List.map_cons, List.cons.sizeOf_spec]
    omega

theorem bindingCosts_items (site : Site) (properties : List Node) :
    bindingCosts (site.items properties) + 2 ≤ 2 * sizeOf properties := by
  refine bindingCosts_le (List.ext_getElem? fun i => ?_)
  simp only [Site.items, List.getElem?_map, List.getElem?_mapIdx, Option.map_map]
  cases properties[i]? <;> rfl

theorem bindingCosts_object (site : Site) (h : n.shape = .objectPattern properties) :
    bindingCosts (site.items properties) + 2 ≤ n.bindingCost := by
  have items := bindingCosts_items site properties
  obtain ⟨shape, loc⟩ := n
  cases h
  simp only [Node.bindingCost, Node.mk.sizeOf_spec, Shape.objectPattern.sizeOf_spec]
  omega

end Patterns

noncomputable def LoopTarget.cost : LoopTarget → Nat
  | assign _ => 0
  | declare pattern => pattern.bindingCost + 1

noncomputable def Rounds.cost : Rounds → Nat
  | tested _ _ => 0
  | each target _ _ => target.cost

namespace Frame

def calls : Frame → Nat
  | callee .. | call .. | newCallee .. | newCall .. => 1
  | _ => 0

noncomputable def cost : Frame → Nat
  | bindTo target => target.node.bindingCost + 1
  | bindRest properties _ => bindingCosts properties + 1
  | bindParams _ _ params _ => bindingCosts params + 1
  | forIn _ target _ | forOf _ target _ _ => target.cost + 2
  | round _ _ next => next.cost + 1
  | tryBlock .. => 6
  | tryHandler .. => 5
  | superclass .. | propertyKey .. | newCall .. | binaryLeft .. => 2
  | objectRest _ entries => 5 * entries.length + 1
  | memberObject .. => 5
  | callee .. => 4
  | newCallee .. => 5
  | assignment .. => 8
  | _ => 1

theorem cost_pos (f : Frame) : 0 < f.cost := by
  cases f <;> simp [cost]

end Frame

def Control.calls : Control → Nat
  | apply .. => 1
  | _ => 0

noncomputable def Control.cost : Control → Nat
  | eval _ => 1
  | bind target _ => target.node.bindingCost
  | _ => 0

def Control.isEval : Control → Bool
  | eval _ => true
  | _ => false

def stackCalls : List Frame → Nat
  | [] => 0
  | f :: fs => f.calls + stackCalls fs

noncomputable def stackCost : List Frame → Nat
  | [] => 0
  | f :: fs => f.cost + stackCost fs

@[simp] theorem stackCalls_cons (f : Frame) (fs : List Frame) :
    stackCalls (f :: fs) = f.calls + stackCalls fs := rfl

@[simp] theorem stackCost_cons (f : Frame) (fs : List Frame) :
    stackCost (f :: fs) = f.cost + stackCost fs := rfl

namespace State

variable {η : Type} {config : Config}

def calls (s : State η) : Nat := s.control.calls + stackCalls s.stack

noncomputable def cost (s : State η) : Nat := s.control.cost + stackCost s.stack

/-- The machine goes on to evaluate a node, or the work left costs at most `c` more than the frames
`fs`, with at most `a` more calls. -/
def Within (fs : List Frame) (a c : Nat) (s : State η) : Prop :=
  s.control.isEval = true ∨ s.calls ≤ stackCalls fs + a ∧ s.cost ≤ stackCost fs + c

namespace Within

variable {s : State η} {fs : List Frame} {a c : Nat}

theorem mono (h : s.Within fs a c) {a' c' : Nat} (calls : a ≤ a') (cost : c ≤ c') :
    s.Within fs a' c' := by
  refine h.imp_right (And.imp (fun calls' => ?_) fun cost' => ?_)
  · exact Nat.le_trans calls' (Nat.add_le_add_left calls _)
  · exact Nat.le_trans cost' (Nat.add_le_add_left cost _)

theorem ofZero (h : s.Within fs 0 0) : s.Within fs a c := h.mono (Nat.zero_le a) (Nat.zero_le c)

theorem pushed {f : Frame} (h : s.Within (f :: fs) a c) :
    s.Within fs (f.calls + a) (f.cost + c) := by
  refine h.imp_right (And.imp (fun calls => ?_) fun cost => ?_)
  · rw [stackCalls_cons] at calls
    omega
  · rw [stackCost_cons] at cost
    omega

end Within

/-! ## What is left after each kind of work -/

section Work

variable (s : State η) {site target : Site} {slot : Slot} {object property child : Node}
  {computed : Bool} {access : Access} {operator : AssignOp} {scope : ScopeId} {name key : String}
  {v w receiver : Value} {args done : List Value} {e : Exception} {o : Outcome} {cell : Cell}
  {handler finalizer : Option Node} {closure : Closure}

theorem within_become (control : Control) :
    (s.become control).Within s.stack control.calls control.cost :=
  .inr ⟨Nat.le_of_eq (Nat.add_comm _ _), Nat.le_of_eq (Nat.add_comm _ _)⟩

theorem within_ret : (s.become (.ret v receiver)).Within s.stack 0 0 := s.within_become _

theorem within_give : (s.give v).Within s.stack 0 0 := s.within_ret

theorem within_fail : (s.fail e).Within s.stack 0 0 := s.within_become _

theorem within_rest : s.rest.Within s.stack 0 0 := s.within_become _

theorem within_finish : (s.finish o).Within s.stack 0 0 := by
  cases o with
  | value v => exact s.within_give
  | failure e => exact s.within_fail

theorem within_bind : (s.become (.bind target v)).Within s.stack 0 target.node.bindingCost :=
  s.within_become _

theorem within_apply {f : FunctionId} : (s.become (.apply f w args config)).Within s.stack 1 0 :=
  s.within_become _

variable {s} in
theorem within_enter {slot : Option Slot} {work : State η → State η} {a c : Nat}
    (inside : ∀ s' : State η, s'.stack = .exit site slot :: s.stack →
      (work s').Within s'.stack a c) :
    (s.enter site slot work).Within s.stack a (c + 1) := by
  refine enter_cases (Q := State.Within s.stack a (c + 1)) ?_ fun _ => (within_fail _).ofZero
  refine (inside _ rfl).pushed.mono ?_ ?_
  · simp [Frame.calls]
  · simp [Frame.cost, Nat.add_comm]

/-- A part is evaluated, unless its slot is refused. -/
theorem within_visit : (s.visit site slot child).Within s.stack 0 0 :=
  enter_cases (Q := State.Within s.stack 0 0) (.inl rfl) fun _ => within_fail _

theorem within_nextItem {items : List (Option Site)} :
    (s.nextItem items done).Within s.stack 0 0 := by
  induction items generalizing done with
  | nil => exact within_give _
  | cons item rest ih =>
    cases item with
    | none => exact ih
    | some child => exact .inl rfl

theorem within_visitItems {children : List (Option Node)} :
    (s.visitItems site slot children).Within s.stack 0 2 :=
  within_enter fun s' _ => (within_nextItem (s'.pushCell .guard)).pushed

theorem within_visitAll {children : List Node} :
    (s.visitAll site slot children).Within s.stack 0 2 :=
  s.within_visitItems

theorem within_settle {r : Except TypeFault (Value × Store)} : (s.settle r).Within s.stack 0 0 := by
  cases r with
  | ok r => exact within_give _
  | error fault => exact within_fail _

theorem within_assign : (s.assign scope name v w).Within s.stack 0 0 := by
  simp only [assign]
  split
  · exact within_give _
  · exact within_fail _

theorem within_assignName : (s.assignName scope operator name v).Within s.stack 0 0 := by
  simp only [assignName]
  split
  · exact within_fail _
  · exact within_assign (s.withStore _)

theorem within_useMember : (s.useMember w key access).Within s.stack 0 0 := by
  cases access with
  | read | update operator before | delete => exact s.within_settle
  | callee =>
    simp only [useMember]
    split
    · exact within_ret (s.withStore _)
    · exact within_fail _
  | assign operator v =>
    simp only [useMember, assignMember]
    split
    · exact within_fail _
    · exact s.within_settle

theorem within_visitMember :
    (s.visitMember site object property computed access).Within s.stack 0 6 :=
  (within_visit ((s.pushCell .guard).push _)).pushed.pushed

theorem within_visitKey : (s.visitKey site w property computed).Within s.stack 0 3 := by
  simp only [visitKey]
  split
  · exact (s.within_visit).ofZero
  · split
    · exact (s.within_fail).ofZero
    · rename_i name _
      refine within_enter fun s' _ => ?_
      refine Within.pushed (f := .instead (.string name)) (a := 0) (c := 1) ?_
      exact within_enter fun s'' _ => s''.within_give

theorem within_visitTarget : (s.visitTarget site operator child v).Within s.stack 0 7 := by
  refine within_enter fun s' _ => ?_
  split
  · refine Within.mono (a := 0) (c := 1) ?_ (Nat.le_refl 0) (by decide)
    exact within_enter fun s'' _ => s''.within_assignName
  · exact s'.within_visitMember
  · exact (s'.within_fail).ofZero

theorem within_nextProperty {object : ObjectId} {entries : List Site} :
    (s.nextProperty object entries).Within s.stack 0 (5 * entries.length) := by
  cases entries with
  | nil => exact s.within_give
  | cons entry rest =>
    refine Within.mono (Within.pushed (f := .objectRest object rest) (a := 0) (c := 4) ?_)
      (Nat.le_refl 0) ?_
    · refine within_enter fun s' _ => ?_
      split
      · split
        · exact (within_visit ((s'.pushCell .guard).push _)).pushed.pushed
        · split
          · exact (within_visit ((s'.pushCell .guard).push _)).pushed.pushed.mono
              (Nat.le_refl 0) (by simp [Frame.cost])
          · exact (within_fail (s'.pushCell .guard)).pushed.mono (Nat.le_refl 0)
              (by simp [Frame.cost])
      · exact (s'.within_fail).ofZero
      · exact (s'.within_fail).ofZero
    · simp only [Frame.cost, List.length_cons]
      omega

theorem within_bindProperties {properties : List Site} :
    (s.bindProperties w properties).Within s.stack 0 (bindingCosts properties) := by
  cases properties with
  | nil => exact s.within_give
  | cons property rest =>
    have fails : ∀ (s : State η) (e : Exception),
        (s.fail e).Within s.stack 0 (bindingCosts (property :: rest)) :=
      fun s e => (s.within_fail).ofZero
    simp only [bindProperties]
    split
    · rename_i shape
      split
      · split
        · exact fails s _
        · have price := bindingCost_property shape
          refine (within_bind ((s.withStore _).push (.bindRest rest w))).pushed.mono
            (Nat.le_refl 0) ?_
          simp only [Frame.cost, bindingCosts_cons, Site.part_node]
          omega
      · exact fails s _
    · exact fails s _

/-- Binding goes on with a smaller pattern. -/
theorem within_bindPattern (target : Site) (v : Value) :
    ∃ c < target.node.bindingCost, (s.bind target v).Within s.stack 0 c := by
  have priced : 0 < target.node.bindingCost := by
    cases target.node
    simp only [Node.bindingCost, Node.mk.sizeOf_spec]
    omega
  simp only [bind]
  split
  · exact ⟨0, priced, within_give (s.withStore _)⟩
  · rename_i left right shape
    have smaller := bindingCost_default shape
    split
    · exact ⟨0, priced, .inl rfl⟩
    · exact ⟨left.bindingCost, smaller, s.within_bind⟩
  · rename_i properties shape
    have smaller := bindingCosts_object target shape
    split
    · exact ⟨0, priced, s.within_fail⟩
    · refine ⟨bindingCosts (target.items properties) + 1, smaller, ?_⟩
      refine (within_bindProperties (s.pushCell .guard)).pushed.mono (Nat.le_refl 0) ?_
      simp [Frame.cost, Nat.add_comm]
  · exact ⟨0, priced, s.within_fail⟩

theorem within_nextParam {params : List Site} :
    (s.nextParam site closure params args).Within s.stack 0 (bindingCosts params) := by
  cases params with
  | nil =>
    simp only [nextParam, runBody]
    split <;> exact .inl rfl
  | cons param params =>
    refine (within_bind (s.push (.bindParams site closure params args.tail))).pushed.mono
      (Nat.le_refl 0) ?_
    simp only [Frame.cost, bindingCosts_cons]
    omega

/-- What a call costs depends on the function. -/
theorem exists_within_applyClosure (closure : Closure) (this : Value)
    (args : List Value) (config : Config) :
    ∃ c, (s.applyClosure closure this args config).Within s.stack 0 c := by
  simp only [applyClosure]
  exact ⟨_, (within_nextParam ((s.withStore _).pushCell .guard)).pushed⟩

theorem within_giveOnce : (s.giveOnce cell v).Within s.stack 0 0 := by
  simp only [giveOnce]
  split
  · exact s.within_rest
  · exact within_give _

theorem within_failOnce : (s.failOnce cell e).Within s.stack 0 0 := by
  simp only [failOnce]
  split
  · exact s.within_rest
  · exact within_fail _

theorem within_finishTry : (s.finishTry site cell finalizer o).Within s.stack 0 2 := by
  simp only [finishTry]
  split
  · exact s.within_rest.ofZero
  · split
    · exact (within_finish _).ofZero
    · exact (within_visit ((State.pushCell _ .guard).push _)).pushed.pushed

theorem within_handle : (s.handle site cell handler finalizer e).Within s.stack 0 5 := by
  simp only [handle]
  split
  · exact (within_visit ((s.withStore _).push _)).pushed
  · exact (s.within_finishTry).mono (Nat.le_refl 0) (by decide)

end Work

/-! ## Loops -/

variable {s : State η} {site : Site}

def Opens (config : Config) (s : State η) : Prop :=
  ∀ (w : World η) (site : Site) (slot : Slot), w.observers = s.world.observers →
    site.config = config → (w.tell site (some slot) .enter).1 = none

section

variable (opens : s.Opens config) (own : site.config = config)
include opens own

theorem isEval_visit (slot : Slot)
    (child : Node) : (s.visit site slot child).control.isEval = true := by
  rw [visit, enter_of_none _ (opens s.world site slot rfl own)]
  rfl

theorem isEval_loopBody (cell : Cell) (body : Node) (outer : Site) (next : Rounds) :
    (s.loopBody site cell body outer next).control.isEval = true :=
  isEval_visit (s := s.push _) opens own _ _

theorem within_nextRound (next : Rounds) : (s.nextRound site next).Within s.stack 0 next.cost := by
  cases next with
  | tested test body => exact .inl (isEval_visit (s := s.push _) opens own _ _)
  | each target body items =>
    cases items with
    | nil => exact (s.within_give).ofZero
    | cons item items =>
      cases target with
      | assign name =>
        simp only [nextRound]
        split
        · refine .inl (isEval_loopBody ?_ own _ _ _ _)
          exact opens
        · exact within_fail _
      | declare pattern =>
        refine (within_bind ((({ s with world := _ } : State η).withStore _).push
          (.roundBody _ _ body site _))).pushed.mono (Nat.le_refl 0) ?_
        simp only [Frame.cost, Rounds.cost, LoopTarget.cost, Site.part_node]
        omega

theorem within_again (cell : Cell)
    (next : Rounds) : (s.again site cell next).Within s.stack 0 next.cost := by
  simp only [again]
  split
  · exact s.within_rest.ofZero
  · exact within_nextRound (s := { s with world := s.world.spend cell }) opens own next

end

/-! ## Outcomes handed to frames -/

/-- What a frame leaves is cheaper than the frame. -/
theorem within_resume (opens : s.Opens config) {f : Frame}
    (own : ∀ site ∈ f.sites, site.config = config) (v receiver : Value) :
    ∃ c < f.cost, (s.resume v receiver f).Within s.stack f.calls c := by
  cases f with
  | exit site slot => exact ⟨0, Nat.one_pos, within_ret (s.leave site slot _)⟩
  | guard cell => exact ⟨0, Nat.one_pos, s.within_ret⟩
  | once cell => exact ⟨0, Nat.one_pos, s.within_giveOnce⟩
  | items rest done => exact ⟨0, Nat.one_pos, s.within_nextItem⟩
  | last | instead w | construct made | unary operator | template strands =>
    exact ⟨0, Nat.one_pos, s.within_give⟩
  | bindTo target => exact ⟨_, Nat.lt_succ_self _, s.within_bind⟩
  | bindRest properties source => exact ⟨_, Nat.lt_succ_self _, s.within_bindProperties⟩
  | bindParams site closure params args =>
    exact ⟨_, Nat.lt_succ_self _, s.within_nextParam⟩
  | body cell | program cell => exact ⟨0, Nat.one_pos, s.within_giveOnce⟩
  | declare scope name => exact ⟨0, Nat.one_pos, within_give (s.withStore _)⟩
  | branch site consequent alternate =>
    refine ⟨0, Nat.one_pos, ?_⟩
    simp only [resume]
    split
    · exact s.within_visit
    · split
      · exact s.within_visit
      · exact s.within_give
  | whileTest site test body =>
    refine ⟨0, Nat.one_pos, ?_⟩
    simp only [resume]
    split
    · refine .inl (isEval_loopBody ?_ (own site List.mem_cons_self) _ _ _ _)
      exact opens
    · exact s.within_give
  | forIn site target body =>
    refine ⟨target.cost + 1, Nat.lt_succ_self _, ?_⟩
    have rounds := within_nextRound (s := s.pushCell .once) opens (own site List.mem_cons_self)
    exact (rounds _).pushed.mono (Nat.le_refl 0) (by simp [Frame.cost, Rounds.cost, Nat.add_comm])
  | forOf site target right body =>
    refine ⟨target.cost + 1, Nat.lt_succ_self _, ?_⟩
    have rounds := within_nextRound (s := s.pushCell .once) opens (own site List.mem_cons_self)
    simp only [resume]
    split
    · exact (rounds _).pushed.mono (Nat.le_refl 0)
        (by simp [Frame.cost, Rounds.cost, Nat.add_comm])
    · exact (s.within_fail).ofZero
  | roundBody site cell body outer next =>
    exact ⟨0, Nat.one_pos, .inl (isEval_loopBody opens (own site List.mem_cons_self) _ _ _ _)⟩
  | round site cell next =>
    exact ⟨_, Nat.lt_succ_self _, within_again opens (own site List.mem_cons_self) cell next⟩
  | returns | throws => exact ⟨0, Nat.one_pos, s.within_fail⟩
  | tryBlock site cell handler finalizer | tryHandler site cell finalizer =>
    exact ⟨2, by simp [Frame.cost], s.within_finishTry⟩
  | finalizer outcome => exact ⟨0, Nat.one_pos, s.within_finish⟩
  | catchBody site body => exact ⟨0, Nat.one_pos, s.within_visit⟩
  | superclass site name body =>
    refine ⟨1, Nat.lt_succ_self 1, ?_⟩
    simp only [resume]
    split
    · exact (within_visit (s.push _)).pushed
    · exact (s.within_fail).ofZero
  | classBody site name superclass =>
    refine ⟨0, Nat.one_pos, ?_⟩
    simp only [resume]
    split
    · exact within_give (s.withStore _)
    · exact s.within_fail
  | relist | propertyValue object key => exact ⟨0, Nat.one_pos, within_give (s.withStore _)⟩
  | objectRest object rest => exact ⟨_, Nat.lt_succ_self _, s.within_nextProperty⟩
  | propertyKey site object value | binaryLeft site operator right =>
    exact ⟨1, Nat.lt_succ_self 1, (within_visit (s.push _)).pushed⟩
  | memberObject site property computed access =>
    exact ⟨4, Nat.lt_succ_self 4, (within_visitKey (s.push _)).pushed⟩
  | memberKey target access => exact ⟨0, Nat.one_pos, s.within_useMember⟩
  | callee site callee arguments =>
    exact ⟨3, Nat.lt_succ_self 3, (within_visitAll (s.push _)).pushed⟩
  | call site callee function this =>
    refine ⟨0, Nat.one_pos, ?_⟩
    simp only [resume]
    split
    · exact s.within_apply
    · exact (s.within_fail).ofZero
  | newCallee site callee arguments =>
    refine ⟨4, Nat.lt_succ_self 4, ?_⟩
    simp only [resume]
    split
    · split
      · exact (s.within_fail).ofZero
      · exact (within_visitAll (s.push _)).pushed
    · exact (s.within_fail).ofZero
  | newCall site f =>
    exact ⟨1, Nat.lt_succ_self 1, (within_apply ((s.withStore _).push _)).pushed⟩
  | assignment site operator left => exact ⟨7, Nat.lt_succ_self 7, s.within_visitTarget⟩
  | binaryRight operator left => exact ⟨0, Nat.one_pos, s.within_settle⟩
  | logical site operator right =>
    refine ⟨0, Nat.one_pos, ?_⟩
    simp only [resume]
    split
    · exact s.within_give
    · exact s.within_visit
  | deliver recipient => exact ⟨0, Nat.one_pos, s.within_rest⟩

theorem within_unwind (opens : s.Opens config) {f : Frame}
    (own : ∀ site ∈ f.sites, site.config = config) (e : Exception) :
    ∃ c < f.cost, (s.unwind e f).Within s.stack 0 c := by
  have passes : ∃ c < f.cost, (s.fail e).Within s.stack 0 c := ⟨0, f.cost_pos, s.within_fail⟩
  cases f with
  | exit site slot =>
    cases slot with
    | none => exact ⟨0, Nat.one_pos, within_fail (s.leave site none _)⟩
    | some slot => exact ⟨0, Nat.one_pos, within_fail (s.leave site (some slot) _)⟩
  | guard cell => exact ⟨0, Nat.one_pos, s.within_failOnce⟩
  | body cell =>
    refine ⟨0, Nat.one_pos, ?_⟩
    simp only [unwind]
    split
    · exact s.within_giveOnce
    · exact s.within_fail
    · exact s.within_fail
    · exact s.within_fail
  | program cell =>
    refine ⟨0, Nat.one_pos, ?_⟩
    simp only [unwind]
    split
    · exact s.within_giveOnce
    · exact s.within_fail
  | round site cell next =>
    refine ⟨next.cost, Nat.lt_succ_self _, ?_⟩
    simp only [unwind]
    split
    · exact (s.within_give).ofZero
    · exact within_again opens (own site List.mem_cons_self) cell next
    · exact (s.within_fail).ofZero
  | tryBlock site cell handler finalizer =>
    exact ⟨5, Nat.lt_succ_self 5, s.within_handle⟩
  | tryHandler site cell finalizer => exact ⟨2, by simp [Frame.cost], s.within_finishTry⟩
  | deliver recipient => exact ⟨0, Nat.one_pos, s.within_rest⟩
  | _ => exact passes

/-! ## Steps -/

/-- From `s` to `s'` the machine has got to a node, has made a call, or has less work left. -/
def Falls (s s' : State η) : Prop :=
  s'.control.isEval = true ∨ s'.calls < s.calls ∨ s'.calls ≤ s.calls ∧ s'.cost < s.cost

section Steps

variable {config : Config} {f : Frame} {rest : List Frame} {v : Value} {args : List Value}
  {s' : State η} {this : Value}

theorem falls_bind {target : Site} (control : s.control = .bind target v) :
    s.Falls (s.bind target v) := by
  obtain ⟨c, less, within⟩ := s.within_bindPattern target v
  have calls : s.calls = stackCalls s.stack := by simp [calls, control, Control.calls]
  have cost : s.cost = target.node.bindingCost + stackCost s.stack := by
    simp [cost, control, Control.cost]
  refine within.imp_right fun bounds => .inr ?_
  omega

/-- What comes in place of the topmost frame is cheaper. -/
theorem Within.falls {a c : Nat} (within : s'.Within rest a c) (stack : s.stack = f :: rest)
    (calls : a ≤ f.calls) (less : c < f.cost) : s.Falls s' := by
  have here : f.calls + stackCalls rest ≤ s.calls := by simp [State.calls, stack]
  have price : f.cost + stackCost rest ≤ s.cost := by simp [State.cost, stack]
  refine within.imp_right fun bounds => .inr ?_
  omega

section

variable (stack : s.stack = f :: rest) (opens : s.Opens config)
  (own : ∀ site ∈ f.sites, site.config = config)
include stack opens own

theorem falls_resume (v receiver : Value) : s.Falls (s.pop.resume v receiver f) := by
  obtain ⟨c, less, within⟩ := within_resume (s := s.pop) opens own v receiver
  rw [show s.pop.stack = rest by simp [pop, stack]] at within
  exact within.falls stack (Nat.le_refl _) less

theorem falls_unwind (e : Exception) : s.Falls (s.pop.unwind e f) := by
  obtain ⟨c, less, within⟩ := within_unwind (s := s.pop) opens own e
  rw [show s.pop.stack = rest by simp [pop, stack]] at within
  exact within.falls stack (Nat.zero_le _) less

end

/-- A call is made: the work inside is not compared with anything. -/
theorem Within.falls_apply {f : FunctionId} {c : Nat} (within : s'.Within s.stack 0 c)
    (control : s.control = .apply f this args config) : s.Falls s' := by
  have here : s.calls = 1 + stackCalls s.stack := by simp [State.calls, control, Control.calls]
  refine within.imp_right fun bounds => .inl ?_
  omega

theorem falls_applyFunction (host : Host η) {f : FunctionId}
    (control : s.control = .apply f this args config) (prompt : s.Prompt host False)
    (advance : s.advance host = .next s') (active : s'.control ≠ .idle) : s.Falls s' := by
  simp only [State.advance, control, applyFunction] at advance
  split at advance
  · cases advance
    exact (s.within_give).falls_apply control
  · cases advance
    obtain ⟨c, within⟩ := s.exists_within_applyClosure _ this args config
    exact within.falls_apply control
  · rename_i name word properties found
    have prompt := prompt ⟨f, config, name, properties, control, found⟩
    cases advance
    simp only [applyHost, asked] at prompt active ⊢
    generalize host.call word this args s.world.held.size s.store s.world.host = step
      at prompt active ⊢
    cases reply : step.reply with
    | value v => exact (within_give ({ s with world := _ } : State η)).falls_apply control
    | failure e => exact (within_fail ({ s with world := _ } : State η)).falls_apply control
    | call => simp [reply, Reply.Prompt] at prompt
    | hold => simp [reply] at active
  · split at advance
    · cases advance
      exact (s.within_give).falls_apply control
    · cases advance

theorem falls_delivered (host : Host η) {f : FunctionId}
    (control : s.control = .apply f this args config) {id : Nat} {o : Outcome}
    (advance : s.advance host = .delivered id o s') : s.Falls s' := by
  simp only [State.advance, control, applyFunction] at advance
  split at advance
  · cases advance
  · cases advance
  · cases advance
  · split at advance
    · cases advance
    · cases advance
      exact (s.within_give).falls_apply control

end Steps

end State

end EcmaMachine
