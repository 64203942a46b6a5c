import EcmaMachine.Proofs.Lexicon.Basic

/-!
The functions in the store. Almost nothing that is done with a store changes what a function does,
and what is made new comes from a node.
-/

namespace EcmaMachine

/-! ## Functions stay what they are -/

theorem map_modify_of_same {α β : Type} {g : α → β} {f : α → α} (same : ∀ x, g (f x) = g x)
    (a : Array α) (i : Nat) : (a.modify i f).map g = a.map g := by
  apply Array.ext_getElem?
  intro j
  rw [Array.getElem?_map, Array.getElem?_map, Array.getElem?_modify]
  split
  · cases a[j]? with
    | none => rfl
    | some x => exact congrArg some (same x)
  · rfl

namespace Store

variable {s s' : Store} {v w : Value} {key : String}

theorem callables_modifyFunction (s : Store) (id : FunctionId) {g : Function → Function}
    (same : ∀ f, (g f).callable = f.callable) :
    (s.modifyFunction id g).callables = s.callables :=
  map_modify_of_same same s.functions id

theorem callables_setFunctionProperty (s : Store) (id : FunctionId) (key : String) (v : Value) :
    (s.setFunctionProperty id key v).callables = s.callables :=
  s.callables_modifyFunction id fun _ => rfl

theorem callables_prototypeOf (s : Store) (id : FunctionId) :
    (s.prototypeOf id).2.callables = s.callables := by
  unfold prototypeOf
  split
  · rfl
  · exact callables_setFunctionProperty _ _ _ _

theorem callables_of_getProperty (h : s.getProperty v key = .ok (w, s')) :
    s'.callables = s.callables := by
  unfold getProperty at h
  cases v with
  | undefined | null => cases h
  | bool | number | object => cases h; rfl
  | array =>
    simp only at h
    split at h <;> (cases h; rfl)
  | string =>
    simp only at h
    split at h
    · cases h; rfl
    · split at h <;> (cases h; rfl)
  | function id =>
    simp only at h
    split at h
    · cases h; exact callables_prototypeOf s id
    · split at h
      · cases h; rfl
      · split at h <;> (cases h; rfl)

theorem callables_of_setProperty (h : s.setProperty v key w = .ok s') :
    s'.callables = s.callables := by
  unfold setProperty at h
  cases v with
  | undefined | null => cases h
  | bool | number | string | object => cases h; rfl
  | array id =>
    simp only at h
    split at h
    · split at h
      · simp only [Bind.bind, Except.bind] at h
        split at h <;> cases h
        rfl
      · cases h; rfl
    · split at h
      · simp only [Bind.bind, Except.bind] at h
        split at h <;> cases h
        rfl
      · cases h
  | function id => cases h; exact callables_setFunctionProperty s id key w

theorem callables_of_deleteProperty (h : s.deleteProperty v key = .ok s') :
    s'.callables = s.callables := by
  unfold deleteProperty at h
  cases v with
  | undefined | null => cases h
  | bool | number | string | object => cases h; rfl
  | array id =>
    simp only at h
    split at h <;> (cases h; rfl)
  | function id => cases h; exact s.callables_modifyFunction id fun _ => rfl

theorem callables_of_instanceOf {b : Bool} (h : s.instanceOf v w = .ok (b, s')) :
    s'.callables = s.callables := by
  unfold instanceOf at h
  cases w with
  | function f =>
    simp only at h
    split at h <;> cases h
    · exact callables_prototypeOf s f
    · rfl
  | _ => cases h

theorem callables_of_binary {operator : BinaryOp} {a : Value}
    (h : s.binary operator a v = .ok (w, s')) : s'.callables = s.callables := by
  cases operator with
  | mem =>
    simp only [binary, Bind.bind, Except.bind] at h
    split at h <;> cases h
    rfl
  | instanceOf =>
    simp only [binary, Bind.bind, Except.bind] at h
    split at h
    · cases h
    · next found => cases h; exact callables_of_instanceOf found
  | _ => cases h; rfl

theorem callables_of_reference {scope : ScopeId} {name : String} {r : ReferenceId}
    (h : s.reference? scope name = some (r, s')) : s'.callables = s.callables := by
  unfold reference? at h
  cases resolved : s.resolve? scope name with
  | none => simp [resolved] at h
  | some owner =>
    simp only [resolved, Option.map_some, Option.some.injEq] at h
    split at h <;> (cases h; rfl)

theorem callables_of_assign {scope : ScopeId} {name : String}
    (h : s.assign? scope name v = some s') : s'.callables = s.callables := by
  unfold assign? at h
  cases resolved : s.resolve? scope name with
  | none => simp [resolved] at h
  | some owner =>
    simp only [resolved, Option.map_some, Option.some.injEq] at h
    rw [← h]
    rfl

end Store

theorem Signal.callables_of_caught {signal : Signal} {s s' : Store} {v : Value}
    (h : signal.caught? s = some (v, s')) : s'.callables = s.callables := by
  cases signal with
  | thrown | unbound | type => cases h; rfl
  | host error =>
    simp only [caught?] at h
    split at h <;> (cases h; rfl)
  | _ => cases h

/-! ## Functions that nodes define -/

namespace Lexicon

variable {L : Lexicon} {s s' : Store}

theorem Scripts.congr (h : L.Scripts s) (same : s'.callables = s.callables) : L.Scripts s' := by
  unfold Scripts
  rw [same]
  exact h

def Defines (L : Lexicon) (n : Node) : Prop :=
  ∀ parts, n.functionParts? = some parts →
    (∀ p ∈ parts.params, L.pattern p) ∧
      L.part (if parts.isArrow && parts.body.type != .blockStatement then .closed else .body)
        parts.body

theorem defines_of_part {r : Role} {n : Node} (h : L.part r n) : L.Defines n := by
  have parts := L.parts h
  intro found eq
  unfold Node.functionParts? at eq
  split at eq
  case h_1 shape | h_2 shape =>
    cases eq
    simp only [shape, Shape.Parts] at parts
    exact parts
  case h_3 shape =>
    cases eq
    simp only [shape, Shape.Parts] at parts
    refine ⟨parts.1, ?_⟩
    split at parts
    · next block => simpa [block] using parts.2
    · next other => simpa [other] using parts.2
  case h_4 => cases eq

theorem defines_emptyConstructor (cls : Node) : L.Defines (Store.emptyConstructor cls) := by
  intro found eq
  cases eq
  exact ⟨nofun, L.blank⟩

theorem Scripts.newFunction (h : L.Scripts s) {callable : Callable}
    (script : ∀ c, callable = .closure c → L.Script c) : L.Scripts (s.newFunction callable).2 := by
  intro c mem
  simp only [Store.callables, Store.newFunction, Array.map_push, Array.mem_push] at mem
  rcases mem with mem | mem
  · exact h c mem
  · exact script c mem.symm

theorem Scripts.createFunction (h : L.Scripts s) {spot : Spot} {scope : ScopeId} {f : FunctionId}
    (defines : L.Defines spot.node) (made : s.createFunction spot scope = .ok (f, s')) :
    L.Scripts s' := by
  unfold Store.createFunction at made
  simp only at made
  split at made
  · cases made
  · next parts found =>
    have script := defines parts found
    split at made
    · cases made
    split at made
    · cases made
    split at made
    · cases made
      exact h.newFunction (fun c eq => by cases eq; exact script)
    · cases made
      exact h.newFunction (fun c eq => by cases eq; exact script)

theorem Scripts.hoist (h : L.Scripts s) (scope : ScopeId) {r : Role} {statements : List Spot}
    (parts : ∀ spot ∈ statements, L.part r spot.node) : L.Scripts (s.hoist scope statements).2 := by
  induction statements generalizing s with
  | nil => exact h
  | cons statement rest ih =>
    rw [List.forall_mem_cons] at parts
    unfold Store.hoist
    split
    · split
      · exact ih h parts.2
      · split
        · next f s' made =>
          have scripts := h.createFunction (defines_of_part parts.1) made
          exact ih (scripts.congr rfl) parts.2
        · exact h
    · exact ih h parts.2

theorem Scripts.createClass (h : L.Scripts s) {spot : Spot} {scope : ScopeId} {name : String}
    {superclass : Option FunctionId} {constructors : List Value} {cls : Value}
    (made : s.createClass spot scope name superclass constructors = .ok (cls, s')) :
    L.Scripts s' := by
  -- Prototypes and the name are written once the function is there.
  have named : ∀ (t : Store) (f : FunctionId), L.Scripts t →
      L.Scripts ((t.prototypeOf f).2.setFunctionProperty f "name" (.string name)) := by
    intro t f scripts
    exact scripts.congr
      ((Store.callables_setFunctionProperty ..).trans (Store.callables_prototypeOf t f))
  have linked : ∀ (t : Store) (f super : FunctionId), L.Scripts t →
      L.Scripts ((((t.prototypeOf f).2.prototypeOf super).2.setPrototype (t.prototypeOf f).1
        (some ((t.prototypeOf f).2.prototypeOf super).1)).setFunctionProperty f "name"
          (.string name)) := by
    intro t f super scripts
    have prototypes := (Store.callables_prototypeOf (t.prototypeOf f).2 super).trans
      (Store.callables_prototypeOf t f)
    exact scripts.congr ((Store.callables_setFunctionProperty ..).trans prototypes)
  rcases constructors with _ | ⟨v, _ | ⟨w, rest⟩⟩
  · simp only [Store.createClass, Bind.bind, Except.bind] at made
    split at made
    · cases made
    · next f found =>
      have scripts := h.createFunction (defines_emptyConstructor _) found
      cases superclass with
      | none => cases made; exact named f.2 f.1 scripts
      | some super => cases made; exact linked f.2 f.1 super scripts
  · cases v with
    | function f =>
      cases superclass with
      | none => cases made; exact named s f h
      | some super => cases made; exact linked s f super h
    | _ => cases made
  · simp only [Store.createClass, Bind.bind, Except.bind] at made
    cases made

/-- A node that is about to be run on these frames. An expression takes up all jumps itself. -/
structure Begins (L : Lexicon) (fs : List Frame) (n : Node) : Prop where
  parts : n.shape.Parts L.part L.pattern L.takes (L.role fs)
  closed : n.type.isExpression = true → L.role fs = .closed

theorem begins_of_part {fs : List Frame} {site : Site} (h : L.part (L.role fs) site.node) :
    L.Begins (.exit site none :: fs) site.node := by
  have parts := L.parts h
  have role : L.role (.exit site none :: fs) =
    if site.node.shape.type.isExpression then .closed else L.role fs := rfl
  refine ⟨?_, fun expression => if_pos expression⟩
  rw [role]
  generalize site.node.shape = shape at parts
  cases shape <;> exact parts

theorem part_of_mem_items {P : Node → Prop} {site child : Site} {children : List Node}
    (parts : ∀ n ∈ children, P n) (mem : child ∈ site.items children) : P child.node := by
  simp only [Site.items, List.mem_mapIdx] at mem
  obtain ⟨i, bound, rfl⟩ := mem
  exact parts _ (List.getElem_mem bound)

end Lexicon

end EcmaMachine
