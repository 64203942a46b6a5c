import EcmaMachine.Proofs.Region.Basic

/-!
The operations on the store stay in a region: what they read there they give, and what they write
goes there.
-/

namespace EcmaMachine.Region

variable {R : Region} {s s' : Store} {v w : Value} {key name : String}

def Signals (R : Region) (s : Store) : Signal → Prop
  | .thrown v | .returned v => R.Has s v
  | .host error => ∀ v, error.value = some v → R.Has s v
  | _ => True

def Gives (R : Region) (s : Store) : Outcome → Prop
  | .value v => R.Has s v
  | .failure e => R.Signals s e.signal

theorem Next.signals (h : R.Next s s') {signal : Signal} (signals : R.Signals s signal) :
    R.Signals s' signal := by
  cases signal with
  | thrown | returned => exact h.has signals
  | host error => exact fun v found => h.has (signals v found)
  | _ => trivial

theorem Next.gives (h : R.Next s s') {o : Outcome} (gives : R.Gives s o) : R.Gives s' o := by
  cases o with
  | value v => exact h.has gives
  | failure e => exact h.signals gives

/-- The prototype of a class may be linked to the one of its superclass. -/
def Crafts (R : Region) (s : Store) (superclass : Option FunctionId) (f : FunctionId) : Prop :=
  ∀ g, superclass = some g →
    let own := s.prototypeOf f
    let other := own.2.prototypeOf g
    R.links other.2 own.1 other.1

/-- So it may whichever function the class is made of: a constructor, or a new one. -/
structure Crafted (R : Region) (s : Store) (superclass : Option FunctionId)
    (constructors : List Value) : Prop where
  given : ∀ f, .function f ∈ constructors → R.Crafts s superclass f
  made : ∀ {spot scope f s'}, s.createFunction spot scope = .ok (f, s') → R.Crafts s' superclass f

/-- Something new is in the region. -/
def Adds (R : Region) (s : Store) (address : Nat → Address) (made : Nat × Store) : Prop :=
  R.Step s made.2 ∧ R.holds made.2 (address made.1)

def Yields (R : Region) (s : Store) (made : Value × Store) : Prop :=
  R.Step s made.2 ∧ R.Has made.2 made.1

/-- Nothing that is written to a property is disloyal but a `prototype` of a function. -/
def Alters (R : Region) (s s' : Store) (v : Value) (key : String) : Prop :=
  R.Move s s' ∧ ((∀ f, v = .function f → key ≠ "prototype") → s.Loyal s')

theorem Step.alters (h : R.Step s s') : R.Alters s s' v key := ⟨h.toMove, fun _ => h.loyal⟩

section Operations

variable (k : R.keeps s) {parent : ScopeId} {signal : Signal} {spot : Spot}
  {superclass : Option FunctionId}
include k

/-! ## Scopes -/

/-- A scope is written: new names are declared. -/
theorem step_of_scope {id : ScopeId} {scope : Scope}
    (writes : s.Writes s' (.scope id) (.scope scope))
    (holds : R.holds s (.scope id) ∨ s.Lacks (.scope id)) (held : R.Held s (.scope scope))
    (tended : s.Tended s')
    (named : ∀ name, scope.values.contains name = true →
      s.binds id name = true ∨ R.declares id name) : R.Step s s' := by
  refine ⟨move_of_writes k writes holds held tended (fun id' name now => ?_) nofun,
    writes.loyal nofun nofun⟩
  rcases writes.content (.scope id') with same | ⟨there, written⟩
  · rw [Store.binds, Content.scope.inj same] at now
    exact .inl now
  · cases there
    rw [Store.binds, Content.scope.inj written] at now
    exact named name now

theorem newScope {scope : Scope} (held : R.Held s (.scope scope))
    (tended : s.Tended (s.newScope scope).2) :
    R.Adds s .scope (s.newScope scope) := by
  have lacks : s.Lacks (.scope s.scopes.size) := Nat.le_refl s.scopes.size
  have made : ¬ (s.newScope scope).2.Lacks (.scope s.scopes.size) := by
    simp [Store.Lacks, Store.newScope]
  exact ⟨step_of_scope k (s.writes_newScope scope) (.inr lacks) held tended
    fun name _ => .inr (R.anew name k), R.fresh k lacks made⟩

theorem childScope {values : List (String × Value)} (holds : R.holds s (.scope parent))
    (has : ∀ e ∈ values, R.Has s e.2) :
    R.Adds s .scope (s.childScope parent values) := by
  refine newScope k (held_scope (fun name v found => ?_) ?_ nofun) (s.tended_newScope rfl rfl)
  · obtain ⟨e, mem, rfl⟩ := Dict.get?_ofEntries_mem found
    exact has e mem
  · rintro id ⟨⟩
    exact holds

/-- A scope that binds nothing yet. -/
theorem emptyScope (holds : R.holds s (.scope parent)) :
    R.Adds s .scope (s.childScope parent []) :=
  childScope k holds (by simp)

theorem catchScope (holds : R.holds s (.scope parent)) (has : R.Has s v) :
    R.Adds s .scope (s.catchScope parent v) := by
  refine newScope k (held_scope nofun ?_ ?_) (s.tended_newScope rfl rfl)
  · rintro id ⟨⟩
    exact holds
  · rintro w ⟨⟩
    exact has

section

variable {id : ScopeId} (holds : R.holds s (.scope id))
include holds

theorem declare (has : R.Has s v)
    (allowed : R.declares id name ∨ s.binds id name = true) : R.Step s (s.declare id name v) := by
  refine step_of_scope k (s.writes_modifyScope id _) (.inl holds) (held_scope ?_ ?_ ?_)
    (s.tended_declare id name v) ?_
  · intro other w found
    rcases Dict.get?_set_cases found with rfl | before
    · exact has
    · exact has_of_content k holds (.bound before)
  · exact fun parent found => R.closed k holds (.parent found)
  · exact fun w found => has_of_content k holds (.caught found)
  · intro other now
    by_cases own : other = name
    · rw [own]
      exact allowed.symm
    · rw [Dict.contains, Dict.get?_set_of_ne own] at now
      exact .inl now

theorem assign (has : R.Has s v)
    (assigned : s.assign? id name v = some s') : R.Step s s' := by
  obtain ⟨owner, found, rfl⟩ := Option.map_eq_some_iff.1 assigned
  obtain ⟨holds, bound⟩ := holds_resolve k holds found
  exact declare k holds has (.inr bound)

theorem reference {r : ReferenceId}
    (given : s.reference? id name = some (r, s')) : R.Step s s' := by
  have tended := Store.tended_reference given
  obtain ⟨owner, found, given⟩ := Option.map_eq_some_iff.1 given
  have holds := (holds_resolve k holds found).1
  split at given
  · cases given
    exact .refl k
  · cases given
    have writes := s.writes_modifyScope owner fun scope =>
      { scope with references := scope.references.set name s.references.size }
    refine step_of_scope k ⟨writes.larger, writes.content⟩ (.inl holds) (held_scope ?_ ?_ ?_)
      tended ?_
    · exact fun other w found => has_of_content k holds (.bound found)
    · exact fun parent found => R.closed k holds (.parent found)
    · exact fun w found => has_of_content k holds (.caught found)
    · exact fun other now => .inl now

end

/-! ## Objects and arrays -/

theorem newObject {properties : Dict Value} {prototype : Option ObjectId}
    (has : ∀ key v, properties.get? key = some v → R.Has s v)
    (holds : ∀ id, prototype = some id → R.holds s (.object id)) :
    R.Adds s .object (s.newObject properties prototype) := by
  have lacks : s.Lacks (.object s.objects.size) := Nat.le_refl s.objects.size
  have made : ¬ (s.newObject properties prototype).2.Lacks (.object s.objects.size) := by
    simp [Store.Lacks, Store.newObject]
  exact ⟨step_of_writes_beside k (s.writes_newObject _ _) (.inr lacks) (held_object has holds) rfl
    rfl (fun _ _ known => absurd lacks known) (by rintro _ ⟨⟩), R.fresh k lacks made⟩

/-- An object with no properties yet. -/
theorem emptyObject {prototype : Option ObjectId}
    (holds : ∀ id, prototype = some id → R.holds s (.object id)) :
    R.Adds s .object (s.newObject .empty prototype) :=
  newObject k nofun holds

theorem newRecord {entries : List (String × Value)} (has : ∀ e ∈ entries, R.Has s e.2) :
    R.Yields s (s.newRecord entries) := by
  have held : ∀ key v, (Dict.ofEntries entries).get? key = some v → R.Has s v := by
    intro key v found
    obtain ⟨e, mem, rfl⟩ := Dict.get?_ofEntries_mem found
    exact has e mem
  obtain ⟨next, fresh⟩ := newObject k held (nofun : ∀ id, none = some id → R.holds s (.object id))
  exact ⟨next, has_object.2 fresh⟩

theorem newError (name message : String) :
    R.Yields s (s.newError name message) :=
  newRecord k (by simp [Has, Value.address?])

theorem newList {items : List Value} (has : ∀ v ∈ items, R.Has s v) :
    R.Yields s (s.newList items) := by
  have lacks : s.Lacks (.array s.arrays.size) := Nat.le_refl s.arrays.size
  have made : ¬ (s.newList items).2.Lacks (.array s.arrays.size) := by
    simp [Store.Lacks, Store.newList, Store.newArray]
  have held : R.Held s (.array items.toArray) := held_array (by simpa using has)
  exact ⟨step_of_writes_beside k (s.writes_newArray _) (.inr lacks) held rfl rfl
    (by rintro _ ⟨⟩) (by rintro _ ⟨⟩), has_array.2 (R.fresh k lacks made)⟩

theorem modifyArray {id : ArrayId} (holds : R.holds s (.array id)) {f : Array Value → Array Value}
    (has : ∀ v ∈ f (s.elements id), R.Has s v) : R.Step s (s.modifyArray id f) :=
  step_of_writes_beside k (s.writes_modifyArray id f) (.inl holds) (held_array has) rfl rfl nofun
    nofun

theorem has_elements {id : ArrayId} (holds : R.holds s (.array id)) (mem : v ∈ s.elements id) :
    R.Has s v :=
  has_of_content k holds (.element mem)

section

variable {id : ObjectId} (holds : R.holds s (.object id))
include holds

/-- The properties of an object change; its prototype stays. -/
theorem modifyObject {g : Dict Value → Dict Value}
    (has : ∀ key v, (g (s.object id).properties).get? key = some v → R.Has s v) :
    R.Step s (s.modifyObject id fun o => { o with properties := g o.properties }) := by
  refine step_of_writes_beside k (s.writes_modifyObject id _) (.inl holds)
    (held_object has fun p found => R.closed k holds (.prototype found)) rfl rfl
    (fun other _ _ => ?_) nofun
  rcases getD_modify s.objects id other (fun o => { o with properties := g o.properties })
    default with same | ⟨rfl, written⟩
  · exact congrArg Object.prototype same
  · exact (congrArg Object.prototype written :)

theorem setOwn (has : R.Has s v) : R.Step s (s.setOwn id key v) := by
  refine modifyObject k holds (g := (·.set key v)) fun other w found => ?_
  rcases Dict.get?_set_cases found with rfl | before
  · exact has
  · exact has_of_content k holds (.property before)

theorem removeOwn : R.Step s (s.removeOwn id key) :=
  modifyObject k holds (g := (·.erase key)) fun _ _ found =>
    has_of_content k holds (.property (Dict.get?_of_erase found))

theorem setPrototype {p : ObjectId} (proto : R.holds s (.object p)) (links : R.links s id p) :
    R.Move s (s.setPrototype id (some p)) := by
  have writes := s.writes_modifyObject id fun o => { o with prototype := some p }
  have held : R.Held s (.object { s.object id with prototype := some p }) := by
    refine held_object (fun other w found => has_of_content k holds (.property found)) ?_
    rintro q ⟨⟩
    exact proto
  refine ⟨⟨R.edit k ⟨writes.larger, fun q outside _ => ?_, fun q => ?_, fun _ _ was => was,
    fun _ _ now => .inl now, .inr ⟨id, p, links, rfl⟩⟩, R.grows writes.larger⟩,
    Store.tended_of_same rfl rfl⟩
  · refine (writes.content q).resolve_right ?_
    rintro ⟨rfl, -⟩
    exact outside holds
  · refine (writes.content q).imp_right ?_
    rintro ⟨-, there⟩
    exact there ▸ held

end

/-! ## Functions -/

theorem newFunction {callable : Callable}
    (captured : ∀ c, callable = .closure c → R.holds s (.scope c.scope)) :
    R.Adds s .function (s.newFunction callable) := by
  have lacks : s.Lacks (.function s.functions.size) := Nat.le_refl s.functions.size
  have made : ¬ (s.newFunction callable).2.Lacks (.function s.functions.size) := by
    simp [Store.Lacks, Store.newFunction]
  have held : R.Held s (.function (some ⟨callable, .empty⟩)) :=
    held_function (by rintro _ _ ⟨⟩) captured
  refine ⟨step_of_writes_beside k (s.writes_newFunction _) (.inr lacks) held rfl rfl
    (by rintro _ ⟨⟩) ?_, R.fresh k lacks made⟩
  rintro f ⟨⟩
  simp [Store.functionProperties, Store.function?, Store.newFunction]

theorem newClosure (c : Closure) (holds : R.holds s (.scope c.scope)) :
    R.Adds s .function (s.newFunction (.closure c)) := by
  refine newFunction k ?_
  rintro c ⟨⟩
  exact holds

theorem holds_captured {f : FunctionId} {c : Closure} {properties : Dict Value}
    (holds : R.holds s (.function f)) (found : s.function? f = some ⟨.closure c, properties⟩) :
    R.holds s (.scope c.scope) := by
  refine R.closed k holds ?_
  rw [Store.content, found]
  exact .captured

theorem has_functionProperty {f : FunctionId} (holds : R.holds s (.function f))
    (found : (s.functionProperties f).get? key = some v) : R.Has s v := by
  unfold Store.functionProperties at found
  cases known : s.function? f with
  | none => simp [known, Dict.get?, Dict.empty, Dict.lookup] at found
  | some function =>
    rw [known] at found
    refine has_of_content k holds ?_
    rw [Store.content, known]
    exact .ofFunction found

/-- What a function does stays; its properties change. -/
theorem modifyFunction {id : FunctionId} (holds : R.holds s (.function id))
    {g : Dict Value → Dict Value}
    (has : ∀ d : Dict Value, (∀ key v, d.get? key = some v → R.Has s v) →
      ∀ key v, (g d).get? key = some v → R.Has s v) :
    R.Move s (s.modifyFunction id fun f => { f with properties := g f.properties }) := by
  refine move_of_writes_beside k (s.writes_modifyFunction id _) (.inl holds) ?_ rfl rfl nofun
  have before : ∀ f, s.function? id = some f →
      ∀ key v, f.properties.get? key = some v → R.Has s v := by
    intro f known key v found
    refine has_of_content k holds ?_
    rw [Store.content, known]
    exact .ofFunction found
  cases known : s.function? id with
  | none =>
    intro p leads
    cases leads with
    | value has => cases has
  | some f =>
    refine held_function (has _ (before f known)) fun c same => ?_
    obtain ⟨callable, properties⟩ := f
    cases same
    exact holds_captured k holds known

theorem setFunctionProperty {id : FunctionId} (holds : R.holds s (.function id))
    (has : R.Has s v) : R.Move s (s.setFunctionProperty id key v) := by
  refine modifyFunction k holds (g := (·.set key v)) fun d before other w found => ?_
  rcases Dict.get?_set_cases found with rfl | found
  · exact has
  · exact before other w found

theorem prototypeOf {f : FunctionId} (holds : R.holds s (.function f)) :
    R.Adds s .object (s.prototypeOf f) := by
  suffices made : R.Move s (s.prototypeOf f).2 ∧
      R.holds (s.prototypeOf f).2 (.object (s.prototypeOf f).1) from
    ⟨⟨made.1, s.loyal_prototypeOf f⟩, made.2⟩
  unfold Store.prototypeOf
  split
  · next p found => exact ⟨.refl k, has_object.1 (has_functionProperty k holds found)⟩
  · have entries : ∀ e ∈ [("constructor", Value.function f)], R.Has s e.2 := by
      simpa using has_function.2 holds
    obtain ⟨made, has⟩ := newRecord k entries
    have set : ∀ key, R.Move _ (Store.setFunctionProperty _ f key _) :=
      fun _ => setFunctionProperty made.keeps (made.holds holds) has
    exact ⟨made.toMove.trans (set _), (set _).holds (has_object.1 has)⟩

/-! ## Properties -/

theorem holds_lineage {id o : ObjectId} (h : R.holds s (.object id)) (mem : o ∈ s.lineage id) :
    R.holds s (.object o) := by
  rw [Store.lineage, Store.lineage_walk_eq] at mem
  exact forall_mem_ascend (P := fun i => R.holds s (.object i))
    (fun _ _ held found => R.closed k held (.prototype found)) _ h o mem

theorem getProperty (has : R.Has s v) (read : s.getProperty v key = .ok (w, s')) :
    R.Step s s' ∧ R.Has s' w := by
  unfold Store.getProperty at read
  cases v with
  | undefined | null => cases read
  | bool | number =>
    cases read
    exact ⟨.refl k, nofun⟩
  | object id =>
    cases read
    refine ⟨.refl k, has_getD fun v found => ?_⟩
    obtain ⟨o, mem, own⟩ := List.exists_of_findSome?_eq_some found
    exact has_of_content k (holds_lineage k (has_object.1 has) mem) (.property own)
  | array id =>
    simp only at read
    split at read
    · cases read
      exact ⟨.refl k, nofun⟩
    · cases read
      refine ⟨.refl k, has_getD fun v found => ?_⟩
      obtain ⟨index, -, found⟩ := Option.bind_eq_some_iff.1 found
      exact has_elements k (has_array.1 has) (Array.mem_of_getElem? found)
  | string t =>
    simp only at read
    split at read
    · cases read
      exact ⟨.refl k, nofun⟩
    · split at read <;> (cases read; exact ⟨.refl k, nofun⟩)
  | function id =>
    have holds := has_function.1 has
    simp only at read
    split at read
    · cases read
      have made := prototypeOf k holds
      exact ⟨made.1, has_object.2 made.2⟩
    · split at read
      · next found =>
        cases read
        exact ⟨.refl k, has_functionProperty k holds found⟩
      · split at read <;> (cases read; exact ⟨.refl k, nofun⟩)

omit k in
theorem has_resize {items : Array Value} (has : ∀ v ∈ items, R.Has s v) (length : Nat) :
    ∀ v ∈ Store.resize items length, R.Has s v := by
  intro v mem
  unfold Store.resize at mem
  split at mem
  · obtain ⟨i, lt, rfl⟩ := Array.mem_extract_iff_getElem.1 mem
    exact has _ (Array.getElem_mem _)
  · rcases Array.mem_append.1 mem with mem | mem
    · exact has v mem
    · cases (Array.mem_replicate.1 mem).2
      exact nofun

omit k in
theorem has_setIfInBounds {items : Array Value} (has : ∀ v ∈ items, R.Has s v) (index : Nat)
    (own : R.Has s w) : ∀ v ∈ items.setIfInBounds index w, R.Has s v := by
  intro v mem
  rcases Array.mem_or_eq_of_mem_setIfInBounds mem with mem | rfl
  · exact has v mem
  · exact own

omit k in
theorem has_setElement {items : Array Value} (has : ∀ v ∈ items, R.Has s v) (index : Nat)
    (own : R.Has s w) : ∀ v ∈ Store.setElement items index w, R.Has s v := by
  unfold Store.setElement
  split
  · exact has_setIfInBounds has index own
  · intro v mem
    rcases Array.mem_push.1 mem with mem | rfl
    · exact has_resize has index v mem
    · exact own

theorem setProperty (has : R.Has s v) (own : R.Has s w) (wrote : s.setProperty v key w = .ok s') :
    R.Alters s s' v key := by
  unfold Store.setProperty at wrote
  cases v with
  | undefined | null => cases wrote
  | bool | number | string =>
    cases wrote
    exact Step.alters (.refl k)
  | object id =>
    cases wrote
    exact (setOwn k (has_object.1 has) own).alters
  | array id =>
    have holds := has_array.1 has
    have elements : ∀ v ∈ s.elements id, R.Has s v := fun v => has_elements k holds
    simp only at wrote
    split at wrote
    · next index _ =>
      have after : R.Step s (s.modifyArray id (Store.setElement · index w)) :=
        modifyArray k holds (has_setElement elements index own)
      split at wrote
      · simp only [Bind.bind, Except.bind] at wrote
        split at wrote <;> cases wrote
        exact after.alters
      · cases wrote
        exact after.alters
    · split at wrote
      · simp only [Bind.bind, Except.bind] at wrote
        split at wrote
        · cases wrote
        · next length _ =>
          cases wrote
          exact (modifyArray k holds (has_resize elements length)).alters
      · cases wrote
  | function id =>
    cases wrote
    refine ⟨setFunctionProperty k (has_function.1 has) own, fun other => ?_⟩
    exact s.loyal_modifyFunction id fun d => Dict.get?_set_of_ne (other id rfl).symm d w

theorem deleteProperty (has : R.Has s v) (deleted : s.deleteProperty v key = .ok s') :
    R.Alters s s' v key := by
  unfold Store.deleteProperty at deleted
  cases v with
  | undefined | null => cases deleted
  | bool | number | string =>
    cases deleted
    exact Step.alters (.refl k)
  | object id =>
    cases deleted
    exact (removeOwn k (has_object.1 has)).alters
  | array id =>
    have holds := has_array.1 has
    simp only at deleted
    split at deleted
    · next index _ =>
      cases deleted
      exact Step.alters
        (modifyArray k holds (has_setIfInBounds (fun v => has_elements k holds) index nofun))
    · cases deleted
      exact Step.alters (.refl k)
  | function id =>
    cases deleted
    refine ⟨modifyFunction k (has_function.1 has) (g := (·.erase key)) fun d before other w found =>
      before other w (Dict.get?_of_erase found), fun other => ?_⟩
    exact s.loyal_modifyFunction id fun d => Dict.get?_erase_of_ne (other id rfl).symm d

/-! ## Operators -/

theorem binary {operator : BinaryOp} {a b : Value} (has : R.Has s b)
    (done : s.binary operator a b = .ok (w, s')) : R.Step s s' ∧ R.Has s' w := by
  cases operator with
  | mem =>
    simp only [Store.binary, Bind.bind, Except.bind] at done
    split at done <;> cases done
    exact ⟨.refl k, has_plain rfl⟩
  | instanceOf =>
    simp only [Store.binary, Bind.bind, Except.bind] at done
    split at done
    · cases done
    · next found =>
      cases done
      refine ⟨?_, has_plain rfl⟩
      unfold Store.instanceOf at found
      cases b with
      | function f =>
        simp only at found
        split at found <;> cases found
        · exact (prototypeOf k (has_function.1 has)).1
        · exact .refl k
      | _ => cases found
  | add =>
    cases done
    refine ⟨.refl k, ?_⟩
    unfold Store.add
    split <;> exact has_plain rfl
  | _ =>
    cases done
    exact ⟨.refl k, has_plain rfl⟩

omit k in
theorem has_unary (operator : UnaryOp) : R.Has s (s.unary operator v) := by
  cases operator <;> exact nofun

/-! ## Functions and classes of the script -/

theorem createFunction {scope : ScopeId} {f : FunctionId} (holds : R.holds s (.scope scope))
    (made : s.createFunction spot scope = .ok (f, s')) :
    R.Step s s' ∧ R.holds s' (.function f) := by
  unfold Store.createFunction at made
  simp only at made
  split at made
  · cases made
  · next parts _ =>
    split at made
    · cases made
    · split at made
      · cases made
      · split at made
        · next own _ named =>
          cases made
          obtain ⟨made, child⟩ := emptyScope k holds
          obtain ⟨added, function⟩ := newClosure made.keeps ⟨spot, parts.params, parts.body, _,
            parts.id.bind Node.identifierName?, parts.isArrow⟩ child
          have named := declare added.keeps (added.holds child) (has_function.2 function)
            (.inl (R.anew own k))
          exact ⟨(made.trans added).trans named, named.holds function⟩
        · cases made
          exact newClosure k ⟨spot, _, _, scope, _, _⟩ holds

omit k in
theorem signals_createFunction {scope : ScopeId}
    (failed : s.createFunction spot scope = .error signal) : R.Signals s signal := by
  unfold Store.createFunction at failed
  simp only at failed
  split at failed
  · cases failed
    trivial
  · split at failed
    · cases failed
      trivial
    · split at failed
      · cases failed
        trivial
      · split at failed <;> cases failed

/-- Hoisting declares the functions among the statements. -/
theorem hoist {scope : ScopeId} {statements : List Spot} (holds : R.holds s (.scope scope))
    (declares : ∀ spot ∈ statements, ∀ id params body generator isAsync name,
      spot.node.shape = .functionDeclaration (some id) params body generator isAsync →
      id.identifierName? = some name → R.declares scope name) {failed : Option Exception}
    (done : s.hoist scope statements = (failed, s')) :
    R.Step s s' ∧ ∀ e, failed = some e → R.Signals s' e.signal := by
  induction statements generalizing s with
  | nil =>
    cases done
    exact ⟨.refl k, fun e failed => by cases failed⟩
  | cons statement rest ih =>
    rw [List.forall_mem_cons] at declares
    unfold Store.hoist at done
    split at done
    · next id params body generator isAsync shape =>
      split at done
      · exact ih k holds declares.2 done
      · next name named =>
        split at done
        · next made =>
          obtain ⟨made, function⟩ := createFunction k holds made
          have bound := declare made.keeps (made.holds holds) (has_function.2 function)
            (.inl (declares.1 id params body generator isAsync name shape named))
          have first := made.trans bound
          obtain ⟨others, signals⟩ := ih bound.keeps (first.holds holds) declares.2 done
          exact ⟨first.trans others, signals⟩
        · next error =>
          cases done
          refine ⟨.refl k, ?_⟩
          rintro e ⟨⟩
          exact signals_createFunction error
    · exact ih k holds declares.2 done

theorem finishClass {f : FunctionId} (holds : R.holds s (.function f))
    (super : ∀ g, superclass = some g → R.holds s (.function g)) (crafts : R.Crafts s superclass f)
    (name : String) : R.Move s (Store.finishClass name superclass f s).2 := by
  obtain ⟨made, own⟩ := prototypeOf k holds
  cases superclass with
  | none => exact made.toMove.trans (setFunctionProperty made.keeps (made.holds holds) nofun)
  | some g =>
    obtain ⟨found, other⟩ := prototypeOf made.keeps (made.holds (super g rfl))
    have linked := setPrototype found.keeps (found.holds own) other (crafts g rfl)
    have before := (made.trans found).toMove.trans linked
    exact before.trans (setFunctionProperty before.keeps (before.holds holds) nofun)

theorem createClass {scope : ScopeId} {constructors : List Value} (holds : R.holds s (.scope scope))
    (super : ∀ g, superclass = some g → R.holds s (.function g))
    (has : ∀ v ∈ constructors, R.Has s v) (crafted : R.Crafted s superclass constructors)
    (made : s.createClass spot scope name superclass constructors = .ok (w, s')) :
    R.Move s s' ∧ R.Has s' w := by
  obtain ⟨f, t, given, finished⟩ := Store.exists_finishClass made
  obtain ⟨next, function, crafts⟩ : R.Move s t ∧ R.holds t (.function f) ∧
      R.Crafts t superclass f := by
    rcases given with ⟨rfl, rfl⟩ | created
    · exact ⟨.refl k, has_function.1 (has _ List.mem_cons_self), crafted.given f List.mem_cons_self⟩
    · obtain ⟨step, function⟩ := createFunction k holds created
      exact ⟨step.toMove, function, crafted.made created⟩
  have last := finishClass next.keeps function (fun g found => next.holds (super g found)) crafts name
  rw [finished] at last
  obtain rfl : .function f = w := congrArg Prod.fst finished
  exact ⟨next.trans last, has_function.2 (last.holds function)⟩

omit k in
theorem signals_createClass {scope : ScopeId} {constructors : List Value}
    (failed : s.createClass spot scope name superclass constructors = .error signal) :
    R.Signals s signal := by
  unfold Store.createClass at failed
  cases constructors with
  | nil =>
    simp only [Bind.bind, Except.bind] at failed
    split at failed
    · next refused =>
      cases failed
      exact signals_createFunction refused
    · cases failed
  | cons first rest =>
    cases rest with
    | nil | cons second rest => cases first <;> cases failed <;> trivial

/-! ## Failures -/

theorem caught (signals : R.Signals s signal) (taken : signal.caught? s = some (w, s')) :
    R.Step s s' ∧ R.Has s' w := by
  cases signal with
  | thrown v =>
    cases taken
    exact ⟨.refl k, signals⟩
  | host error =>
    simp only [Signal.caught?] at taken
    split at taken
    · next found =>
      cases taken
      exact ⟨.refl k, signals _ found⟩
    · cases taken
      exact newError k _ _
  | unbound | type =>
    cases taken
    exact newError k _ _
  | _ => cases taken

end Operations

end EcmaMachine.Region
