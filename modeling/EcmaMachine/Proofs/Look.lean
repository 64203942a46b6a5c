import EcmaMachine.Machine.Run

/-!
Stores that are looked at in other ways: without the reference tables, or with the trees under other
names. References are handed out beside the values, and nothing in the store but its functions knows
the tree that its node stands in. So every operation on the store does the same, and what it makes
looks the same way.
-/

namespace EcmaMachine

/-! ## Ways up -/

def ascend (up : Nat → Option Nat) : Nat → Option Nat → List Nat
  | fuel + 1, some id => id :: ascend up fuel (up id)
  | _, _ => []

theorem forall_mem_ascend {up : Nat → Option Nat} {P : Nat → Prop}
    (closed : ∀ i j, P i → up i = some j → P j) (fuel : Nat) {id : Nat} (first : P id) :
    ∀ i ∈ ascend up fuel (some id), P i := by
  induction fuel generalizing id with
  | zero => exact List.forall_mem_nil _
  | succ fuel ih =>
    refine List.forall_mem_cons.2 ⟨first, ?_⟩
    cases next : up id with
    | none => cases fuel <;> exact List.forall_mem_nil _
    | some j => exact ih (closed id j first next)

namespace Store

theorem chain_walk_eq (s : Store) : chain.walk s = ascend fun id => (s.scope id).parent := by
  funext fuel start
  induction fuel generalizing start with
  | zero => cases start <;> rfl
  | succ fuel ih => cases start <;> simp only [chain.walk, ascend, ih]

theorem lineage_walk_eq (s : Store) : lineage.walk s = ascend fun id => (s.object id).prototype := by
  funext fuel start
  induction fuel generalizing start with
  | zero => cases start <;> rfl
  | succ fuel ih => cases start <;> simp only [lineage.walk, ascend, ih]

end Store

/-! ## Reference tables -/

def Scope.unreferenced (scope : Scope) : Scope := { scope with references := .empty }

namespace Store

def unreferenced (s : Store) : Store :=
  { s with scopes := s.scopes.map Scope.unreferenced, references := #[] }

/-- The store as it is, or without its reference tables. -/
def view : Bool → Store → Store
  | false, s => s
  | true, s => s.unreferenced

end Store

/-! ## Trees under other names -/

def Spot.mapTree (g : TreeId → TreeId) (spot : Spot) : Spot := { spot with tree := g spot.tree }

namespace Spot

variable (g : TreeId → TreeId) (spot : Spot)

@[simp] theorem mapTree_node : (spot.mapTree g).node = spot.node := rfl

theorem items_mapTree (children : List Node) :
    (spot.mapTree g).items children = (spot.items children).map (mapTree g) := by
  apply List.ext_getElem?
  intro i
  simp only [items, List.getElem?_map, List.getElem?_mapIdx, Option.map_map]
  rfl

/-- Renamed trees may fall together, but they do not fall apart. -/
theorem isSame_mapTree {a b : Spot} (h : a.isSame b = true) :
    (a.mapTree g).isSame (b.mapTree g) = true := by
  simp only [isSame, Bool.and_eq_true, beq_iff_eq] at h ⊢
  exact ⟨congrArg g h.1, h.2⟩

end Spot

def Closure.mapTree (g : TreeId → TreeId) (c : Closure) : Closure :=
  { c with spot := c.spot.mapTree g }

namespace Callable

def mapTree (g : TreeId → TreeId) : Callable → Callable
  | closure c => closure (c.mapTree g)
  | callable => callable

variable (g : TreeId → TreeId) (callable : Callable)

@[simp] theorem mapTree_name : (callable.mapTree g).name = callable.name := by
  cases callable <;> rfl

@[simp] theorem mapTree_isArrow : (callable.mapTree g).isArrow = callable.isArrow := by
  cases callable <;> rfl

theorem mapTree_id : callable.mapTree id = callable := by
  cases callable <;> rfl

end Callable

def Function.mapTree (g : TreeId → TreeId) (f : Function) : Function :=
  { f with callable := f.callable.mapTree g }

theorem Function.mapTree_id : Function.mapTree id = id := by
  funext f
  simp only [mapTree, Callable.mapTree_id, id]

def Store.mapTree (g : TreeId → TreeId) (s : Store) : Store :=
  { s with functions := s.functions.map (Function.mapTree g) }

theorem Store.mapTree_id (s : Store) : s.mapTree id = s := by
  simp only [mapTree, Function.mapTree_id, Array.map_id]

/-! ## Lenses -/

theorem modify_map {α : Type} (xs : Array α) (i : Nat) {f m : α → α}
    (commutes : ∀ x, f (m x) = m (f x)) : (xs.map m).modify i f = (xs.modify i f).map m := by
  ext j <;> simp [Array.getElem_modify]
  split
  · exact commutes _
  · rfl

structure Lens where
  tree : TreeId → TreeId
  forgets : Bool

namespace Store

variable {name : String} {s' : Store}

def look (l : Lens) (s : Store) : Store := (s.mapTree l.tree).view l.forgets

def seen {α : Type} (l : Lens) (r : α × Store) : α × Store := (r.1, r.2.look l)

theorem look_id (b : Bool) (s : Store) : s.look ⟨id, b⟩ = s.view b :=
  congrArg (view b) s.mapTree_id

variable (s : Store) (l : Lens)

theorem look_eq : s.look l =
    { s with
      functions := s.functions.map (Function.mapTree l.tree)
      scopes := if l.forgets then s.scopes.map Scope.unreferenced else s.scopes
      references := if l.forgets then #[] else s.references } := by
  obtain ⟨g, b⟩ := l
  cases b <;> rfl

/-! ## Reading -/

@[simp] theorem object_look (id : ObjectId) : (s.look l).object id = s.object id := by
  rw [look_eq]
  rfl

-- Not by `rfl` alone, or `simp` would leave the instances of conditions on it behind.
@[simp] theorem elements_look (id : ArrayId) : (s.look l).elements id = s.elements id := by
  rw [look_eq]
  rfl

@[simp] theorem function?_look (f : FunctionId) :
    (s.look l).function? f = (s.function? f).map (Function.mapTree l.tree) := by
  simp [look_eq, function?]

@[simp] theorem functionName_look (f : FunctionId) :
    (s.look l).functionName f = s.functionName f := by
  simp only [functionName, function?_look]
  cases s.function? f with
  | none => rfl
  | some f => exact Callable.mapTree_name l.tree f.callable

@[simp] theorem functionProperties_look (f : FunctionId) :
    (s.look l).functionProperties f = s.functionProperties f := by
  simp only [functionProperties, function?_look]
  cases s.function? f <;> rfl

section

variable (id : ScopeId)

theorem scope_look :
    (s.look l).scope id = if l.forgets then (s.scope id).unreferenced else s.scope id := by
  rw [look_eq]
  cases l.forgets with
  | false => rfl
  | true =>
    simp only [scope, if_true, Array.getD_eq_getD_getElem?, Array.getElem?_map]
    cases s.scopes[id]? <;> rfl

@[simp] theorem values_look : ((s.look l).scope id).values = (s.scope id).values := by
  rw [scope_look]
  split <;> rfl

@[simp] theorem chain_look : (s.look l).chain id = s.chain id := by
  have size : (s.look l).scopes.size = s.scopes.size := by
    rw [look_eq]
    dsimp only
    split <;> simp
  have parents : ∀ id, ((s.look l).scope id).parent = (s.scope id).parent := by
    intro id
    rw [scope_look]
    split <;> rfl
  simp only [chain, size, chain_walk_eq, parents]

@[simp] theorem ownValue?_look (name : String) :
    (s.look l).ownValue? id name = s.ownValue? id name := by
  simp only [ownValue?, values_look]

@[simp] theorem find?_look (name : String) : (s.look l).find? id name = s.find? id name := by
  simp only [find?, chain_look, ownValue?_look]

@[simp] theorem resolve?_look (name : String) :
    (s.look l).resolve? id name = s.resolve? id name := by
  simp only [resolve?, chain_look, binds, values_look]

@[simp] theorem caught?_look : (s.look l).caught? id = s.caught? id := by
  simp only [caught?, chain_look, scope_look]
  split <;> rfl

end

theorem join_look (fuel : Nat) (path : List ArrayId) (id : ArrayId) :
    (s.look l).join fuel path id = s.join fuel path id := by
  induction fuel generalizing path id with
  | zero => rfl
  | succ fuel ih => simp only [join, elements_look, functionName_look, ih]

@[simp] theorem text_look (v : Value) : (s.look l).text v = s.text v := by
  cases v with
  | array id =>
    have size : (s.look l).arrays.size = s.arrays.size := by rw [look_eq]
    simp only [text, size, join_look]
  | function f => simp only [text, functionName_look]
  | _ => rfl

@[simp] theorem toNumber_look (v : Value) : (s.look l).toNumber v = s.toNumber v := by
  cases v with
  | array id => simp only [toNumber, text_look]
  | _ => rfl

@[simp] theorem enumerableKeys_look (v : Value) :
    (s.look l).enumerableKeys v = s.enumerableKeys v := by
  cases v <;> simp only [enumerableKeys, functionProperties_look, object_look, elements_look]

@[simp] theorem lineage_look (id : ObjectId) : (s.look l).lineage id = s.lineage id := by
  have size : (s.look l).objects.size = s.objects.size := by rw [look_eq]
  simp only [lineage, size, lineage_walk_eq, object_look]

@[simp] theorem get?_look (id : ObjectId) (key : String) :
    (s.look l).get? id key = s.get? id key := by
  simp only [get?, lineage_look, getOwn?, object_look]

/-! ## Writing -/

theorem modifyScope_look (id : ScopeId) {f : Scope → Scope}
    (keeps : ∀ x, f x.unreferenced = (f x).unreferenced) :
    (s.look l).modifyScope id f = (s.modifyScope id f).look l := by
  rw [look_eq, look_eq]
  cases l.forgets with
  | false => rfl
  | true => simp only [modifyScope, if_true, modify_map s.scopes id keeps]

theorem declare_look (id : ScopeId) (name : String) (v : Value) :
    (s.look l).declare id name v = (s.declare id name v).look l :=
  modifyScope_look s l id fun _ => rfl

theorem newScope_look (scope : Scope) (h : scope.unreferenced = scope) :
    (s.look l).newScope scope = seen l (s.newScope scope) := by
  simp only [seen, newScope, look_eq]
  cases l.forgets <;> simp [h]

theorem childScope_look (parent : ScopeId) (values : List (String × Value)) :
    (s.look l).childScope parent values = seen l (s.childScope parent values) :=
  newScope_look s l _ rfl

theorem catchScope_look (parent : ScopeId) (caught : Value) :
    (s.look l).catchScope parent caught = seen l (s.catchScope parent caught) :=
  newScope_look s l _ rfl

theorem newObject_look (properties : Dict Value) (prototype : Option ObjectId) :
    (s.look l).newObject properties prototype = seen l (s.newObject properties prototype) := by
  simp only [seen, newObject, look_eq]

theorem newFunction_look (callable : Callable) :
    (s.look l).newFunction (callable.mapTree l.tree) = seen l (s.newFunction callable) := by
  simp [seen, newFunction, look_eq, Function.mapTree]

theorem newList_look (items : List Value) :
    (s.look l).newList items = seen l (s.newList items) := by
  simp only [seen, newList, newArray, look_eq]

theorem newError_look (name message : String) :
    (s.look l).newError name message = seen l (s.newError name message) := by
  simp only [seen, newError, newRecord, newObject, look_eq]

theorem modifyObject_look (id : ObjectId) (f : Object → Object) :
    (s.look l).modifyObject id f = (s.modifyObject id f).look l := by
  simp only [modifyObject, look_eq]

theorem modifyArray_look (id : ArrayId) (f : Array Value → Array Value) :
    (s.look l).modifyArray id f = (s.modifyArray id f).look l := by
  simp only [modifyArray, look_eq]

/-- What is changed in a function is not its node. -/
theorem modifyFunction_look (id : FunctionId) {f : Function → Function}
    (keeps : ∀ x, f (x.mapTree l.tree) = (f x).mapTree l.tree) :
    (s.look l).modifyFunction id f = (s.modifyFunction id f).look l := by
  simp only [modifyFunction, look_eq, modify_map s.functions id keeps]

theorem setOwn_look (id : ObjectId) (key : String) (v : Value) :
    (s.look l).setOwn id key v = (s.setOwn id key v).look l :=
  modifyObject_look s l id _

theorem setFunctionProperty_look (id : FunctionId) (key : String) (v : Value) :
    (s.look l).setFunctionProperty id key v = (s.setFunctionProperty id key v).look l :=
  modifyFunction_look s l id fun _ => rfl

theorem prototypeOf_look (f : FunctionId) :
    (s.look l).prototypeOf f = seen l (s.prototypeOf f) := by
  simp only [prototypeOf, functionProperties_look, newObject_look, seen, setFunctionProperty_look]
  split <;> rfl

theorem getProperty_look (target : Value) (key : String) :
    (s.look l).getProperty target key = (s.getProperty target key).map (seen l) := by
  cases target with
  | function f =>
    simp only [getProperty, prototypeOf_look, functionProperties_look, functionName_look]
    split
    · rfl
    · split
      · rfl
      · split <;> rfl
  | string t =>
    simp only [getProperty]
    split
    · rfl
    · split <;> rfl
  | array id =>
    simp only [getProperty, elements_look]
    split <;> rfl
  | _ => simp only [getProperty, text_look, get?_look] <;> rfl

theorem setProperty_look (target : Value) (key : String) (v : Value) :
    (s.look l).setProperty target key v = (s.setProperty target key v).map (look l) := by
  cases target with
  | array id =>
    simp only [setProperty, elements_look, modifyArray_look, toNumber_look]
    split
    · split
      · cases arrayLength? _ <;> rfl
      · rfl
    · split
      · cases arrayLength? _ <;> rfl
      · rfl
  | _ =>
    simp only [setProperty, text_look, setOwn_look, setFunctionProperty_look] <;> rfl

theorem deleteProperty_look (target : Value) (key : String) :
    (s.look l).deleteProperty target key = (s.deleteProperty target key).map (look l) := by
  cases target with
  | array id =>
    simp only [deleteProperty, modifyArray_look]
    split <;> rfl
  | object id => exact congrArg Except.ok (modifyObject_look s l id _)
  | function f => exact congrArg Except.ok (modifyFunction_look s l f fun _ => rfl)
  | _ => simp only [deleteProperty, text_look] <;> rfl

/-! ## Operators -/

@[simp] theorem looseEquals_look (a b : Value) :
    (s.look l).looseEquals a b = s.looseEquals a b := by
  simp only [looseEquals, toNumber_look]

@[simp] theorem unary_look (operator : UnaryOp) (v : Value) :
    (s.look l).unary operator v = s.unary operator v := by
  cases operator <;> simp only [unary, toNumber_look, toInt32]

theorem hasProperty_look (target : Value) (key : String) :
    (s.look l).hasProperty target key = s.hasProperty target key := by
  cases target <;>
    simp only [hasProperty, text_look, get?_look, elements_look, functionProperties_look]

theorem instanceOf_look (v constructor : Value) :
    (s.look l).instanceOf v constructor = (s.instanceOf v constructor).map (seen l) := by
  cases constructor with
  | function f =>
    cases v with
    | object id => simp only [instanceOf, prototypeOf_look, seen, lineage_look]; rfl
    | _ => rfl
  | _ => rfl

theorem binary_look (operator : BinaryOp) (a b : Value) :
    (s.look l).binary operator a b = (s.binary operator a b).map (seen l) := by
  cases operator with
  | mem =>
    simp only [binary, hasProperty_look, text_look]
    cases s.hasProperty b (s.text a) <;> rfl
  | instanceOf =>
    simp only [binary, instanceOf_look]
    cases s.instanceOf a b <;> rfl
  | _ =>
    simp only [binary, add, compare?, word, shiftCount, toInt32, toNumber_look, text_look,
      looseEquals_look] <;> rfl

/-! ## Functions and classes -/

theorem createFunction_look (spot : Spot) (scope : ScopeId) :
    (s.look l).createFunction (spot.mapTree l.tree) scope =
      (s.createFunction spot scope).map (seen l) := by
  have made : ∀ (s : Store) (params : List Node) (body : Node) (scope : ScopeId)
      (name : Option String) (isArrow : Bool),
      (s.look l).newFunction
          (.closure ⟨spot.mapTree l.tree, params, body, scope, name, isArrow⟩) =
        seen l (s.newFunction (.closure ⟨spot, params, body, scope, name, isArrow⟩)) :=
    fun s params body scope name isArrow =>
      newFunction_look s l (.closure ⟨spot, params, body, scope, name, isArrow⟩)
  simp only [createFunction, Spot.mapTree_node]
  split
  · rfl
  · split
    · rfl
    · split
      · rfl
      · split
        · simp only [childScope_look, seen, made, declare_look]
          rfl
        · simp only [made]
          rfl

theorem hoist_look (scope : ScopeId) (statements : List Spot) :
    (s.look l).hoist scope (statements.map (Spot.mapTree l.tree)) =
      seen l (s.hoist scope statements) := by
  induction statements generalizing s with
  | nil => rfl
  | cons statement rest ih =>
    simp only [hoist, List.map_cons, Spot.mapTree_node]
    split
    · split
      · exact ih s
      · rw [createFunction_look]
        cases s.createFunction statement scope with
        | error signal => rfl
        | ok made =>
          simp only [Except.map, seen, declare_look]
          exact ih _
    · exact ih s

def finishClass (name : String) (superclass : Option FunctionId) (f : FunctionId) (s : Store) :
    Value × Store :=
  let (p, s) := s.prototypeOf f
  let s := match superclass with
    | none => s
    | some super =>
      let (q, s) := s.prototypeOf super
      s.setPrototype p (some q)
  (.function f, s.setFunctionProperty f "name" (.string name))

/-- A class is made of the constructor that is given, or of one that is made for it. -/
theorem exists_finishClass {s : Store} {spot : Spot} {scope : ScopeId}
    {superclass : Option FunctionId} {constructors : List Value} {cls : Value}
    (made : s.createClass spot scope name superclass constructors = .ok (cls, s')) :
    ∃ f t, (constructors = [.function f] ∧ t = s ∨
      s.createFunction { spot with node := emptyConstructor spot.node } scope = .ok (f, t)) ∧
      finishClass name superclass f t = (cls, s') := by
  cases constructors with
  | nil =>
    simp only [createClass, Bind.bind, Except.bind] at made
    split at made
    · cases made
    · next found created => exact ⟨found.1, found.2, .inr created, Except.ok.inj made⟩
  | cons first rest =>
    cases rest with
    | nil =>
      cases first with
      | function f => exact ⟨f, s, .inl ⟨rfl, rfl⟩, Except.ok.inj made⟩
      | _ => cases made
    | cons second rest => cases first <;> cases made

theorem finishClass_look (name : String) (superclass : Option FunctionId) (f : FunctionId) :
    finishClass name superclass f (s.look l) = seen l (finishClass name superclass f s) := by
  cases superclass <;>
    simp only [finishClass, prototypeOf_look, seen, setPrototype, modifyObject_look,
      setFunctionProperty_look]

theorem createClass_look (spot : Spot) (scope : ScopeId) (name : String)
    (superclass : Option FunctionId) (constructors : List Value) :
    (s.look l).createClass (spot.mapTree l.tree) scope name superclass constructors =
      (s.createClass spot scope name superclass constructors).map (seen l) := by
  have finish : ∀ made : Except Signal (FunctionId × Store),
      (made.map (seen l)).bind (fun r => .ok (finishClass name superclass r.1 r.2)) =
        (made.bind fun r => Except.ok (finishClass name superclass r.1 r.2)).map (seen l) := by
    intro made
    cases made with
    | error signal => rfl
    | ok made => exact congrArg Except.ok (finishClass_look made.2 l name superclass made.1)
  cases constructors with
  | nil =>
    have h := finish (s.createFunction { spot with node := emptyConstructor spot.node } scope)
    rwa [← createFunction_look] at h
  | cons first rest =>
    cases rest with
    | nil =>
      cases first with
      | function f => exact finish (.ok (f, s))
      | _ => rfl
    | cons _ _ => cases first <;> rfl

/-! ## Names -/

theorem assign?_look (id : ScopeId) (name : String) (v : Value) :
    (s.look l).assign? id name v = (s.assign? id name v).map (look l) := by
  simp only [assign?, resolve?_look, declare_look, Option.map_map]
  rfl

theorem isSome_find?_iff (id : ScopeId) (name : String) :
    (s.find? id name).isSome = (s.resolve? id name).isSome := by
  simp only [find?, resolve?, binds, ownValue?, Dict.contains]
  induction s.chain id with
  | nil => rfl
  | cons first rest ih =>
    simp only [List.findSome?_cons, List.find?_cons]
    cases (s.scope first).values.get? name with
    | some v => rfl
    | none => exact ih

theorem isSome_reference? (id : ScopeId) (name : String) :
    (s.reference? id name).isSome = (s.resolve? id name).isSome := by
  simp only [reference?, Option.isSome_map]

/-- Where references are shown, they are the same ones. -/
theorem reference?_look (id : ScopeId) (name : String) (shown : l.forgets = false) :
    (s.look l).reference? id name = (s.reference? id name).map (seen l) := by
  obtain ⟨g, b⟩ := l
  obtain rfl : b = false := shown
  simp only [reference?, resolve?_look, Option.map_map]
  cases s.resolve? id name with
  | none => rfl
  | some owner =>
    simp only [Option.map_some, Function.comp_apply, Option.some.injEq, scope_look]
    simp only [Bool.false_eq_true, if_false]
    split <;> rfl

/-- Handing out a reference changes nothing else. -/
theorem unreferenced_reference? {s : Store} {id : ScopeId} {r : ReferenceId}
    (h : s.reference? id name = some (r, s')) : s'.unreferenced = s.unreferenced := by
  simp only [reference?, Option.map_eq_some_iff] at h
  obtain ⟨owner, _, h⟩ := h
  split at h
  · cases h
    rfl
  · cases h
    simp only [modifyScope, unreferenced, Store.mk.injEq, true_and, and_true]
    ext i <;> simp [Array.getElem_modify]
    split <;> rfl

theorem look_reference? {s : Store} {id : ScopeId} {r : ReferenceId} (l : Lens)
    (hidden : l.forgets = true) (h : s.reference? id name = some (r, s')) :
    s'.look l = s.look l := by
  have same := unreferenced_reference? h
  obtain ⟨g, b⟩ := l
  obtain rfl : b = true := hidden
  exact congrArg (mapTree g) same

end Store

/-! ## Signals -/

section Signals

variable (s : Store) (l : Lens)

theorem Signal.thrownText_look (v : Value) : thrownText (s.look l) v = thrownText s v := by
  cases v <;> simp only [thrownText, Store.get?_look, Store.text_look]

@[simp] theorem Signal.text_look (signal : Signal) : signal.text (s.look l) = signal.text s := by
  cases signal with
  | thrown v => exact congrArg ("Uncaught " ++ ·) (thrownText_look s l v)
  | _ => rfl

@[simp] theorem Exception.text_look (e : Exception) : e.text (s.look l) = e.text s := by
  simp only [text, Signal.text_look]

theorem Signal.caught?_look (signal : Signal) :
    signal.caught? (s.look l) = (signal.caught? s).map (Store.seen l) := by
  cases signal with
  | host error =>
    simp only [caught?, Store.newError_look]
    cases error.value <;> rfl
  | _ => simp only [caught?, Store.newError_look] <;> rfl

end Signals

end EcmaMachine
