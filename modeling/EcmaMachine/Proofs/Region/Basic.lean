import EcmaMachine.Proofs.Names

/-!
Regions of the store. One place of the store leads to another; a region holds some of the places,
and with each of them all that it leads to; as the store grows, so may the region. An operation of
the machine stays in a region that holds what the operation is given: it writes to no place outside,
and what it writes or gives is held by the region. It binds a name that was not bound before only
where the region has it declared, and gives an object another prototype only where the region may
link the two.
-/

namespace EcmaMachine

/-! ## Addresses -/

inductive Address
  | scope (id : ScopeId)
  | object (id : ObjectId)
  | array (id : ArrayId)
  | function (id : FunctionId)

inductive Content
  | scope (scope : Scope)
  | object (object : Object)
  | array (items : Array Value)
  | function (function : Option Function)

/-- The place that a value is the handle of. -/
def Value.address? : Value → Option Address
  | .object id => some (.object id)
  | .array id => some (.array id)
  | .function id => some (.function id)
  | _ => none

namespace Content

/-- The values in a place: those bound in a scope and the one that it has caught, properties and
elements. -/
inductive Has : Content → Value → Prop
  | bound {scope : Scope} {name : String} {v : Value} (found : scope.values.get? name = some v) :
    Has (.scope scope) v
  | caught {scope : Scope} {v : Value} (found : scope.caught = some v) : Has (.scope scope) v
  | property {o : Object} {key : String} {v : Value} (found : o.properties.get? key = some v) :
    Has (.object o) v
  | element {items : Array Value} {v : Value} (mem : v ∈ items) : Has (.array items) v
  | ofFunction {f : Function} {key : String} {v : Value} (found : f.properties.get? key = some v) :
    Has (.function (some f)) v

/-- Where a place leads: to its values, from a scope to its parent, from an object to its prototype
and from a function to the scope that it was made in. -/
inductive Leads : Content → Address → Prop
  | value {c : Content} {v : Value} {p : Address} (has : c.Has v) (address : v.address? = some p) :
    Leads c p
  | parent {scope : Scope} {id : ScopeId} (found : scope.parent = some id) :
    Leads (.scope scope) (.scope id)
  | prototype {o : Object} {id : ObjectId} (found : o.prototype = some id) :
    Leads (.object o) (.object id)
  | captured {c : Closure} {properties : Dict Value} :
    Leads (.function (some ⟨.closure c, properties⟩)) (.scope c.scope)

end Content

namespace Store

def content (s : Store) : Address → Content
  | .scope id => .scope (s.scope id)
  | .object id => .object (s.object id)
  | .array id => .array (s.elements id)
  | .function id => .function (s.function? id)

def Lacks (s : Store) : Address → Prop
  | .scope id => s.scopes.size ≤ id
  | .object id => s.objects.size ≤ id
  | .array id => s.arrays.size ≤ id
  | .function id => s.functions.size ≤ id

/-- All places that one leads to, by any way. -/
def LeadsTo (s : Store) : Address → Address → Prop :=
  Relation.ReflTransGen fun p q => (s.content p).Leads q

/-- What the machine may do to a store: nothing is taken out of it, no place changes but new ones and
those that are held, and these lead to such places only; names stay bound, and new ones are declared;
objects keep their prototypes, or one of them gets another that it may be linked to. -/
structure Edit (holds : Address → Prop) (declares : ScopeId → String → Prop)
    (links : ObjectId → ObjectId → Prop) (s s' : Store) : Prop where
  larger : ∀ p, s'.Lacks p → s.Lacks p
  same : ∀ p, ¬ holds p → ¬ s.Lacks p → s'.content p = s.content p
  leads : ∀ p, s'.content p = s.content p ∨ ∀ q, (s'.content p).Leads q → holds q
  bound : ∀ id name, s.binds id name = true → s'.binds id name = true
  named : ∀ id name, s'.binds id name = true → s.binds id name = true ∨ declares id name
  linked : (∀ id, ¬ s.Lacks (.object id) → (s'.object id).prototype = (s.object id).prototype) ∨
    ∃ id p, links id p ∧ s' = s.setPrototype id (some p)

end Store

/-! ## Regions -/

structure Region where
  holds : Store → Address → Prop
  /-- The names that may be declared in a scope. -/
  declares : ScopeId → String → Prop
  /-- The first object may get the second as its prototype. -/
  links : Store → ObjectId → ObjectId → Prop
  /-- What is always true of the store. -/
  keeps : Store → Prop
  /-- The number of the first host call that may be answered. -/
  since : Nat
  grows {s s' : Store} {p : Address} : (∀ q, s'.Lacks q → s.Lacks q) → holds s p → holds s' p
  fresh {s s' : Store} {p : Address} : keeps s → s.Lacks p → ¬ s'.Lacks p → holds s' p
  anew {s : Store} (name : String) : keeps s → declares s.scopes.size name
  closed {s : Store} {p q : Address} : keeps s → holds s p → (s.content p).Leads q → holds s q
  edit {s s' : Store} : keeps s → s.Edit (holds s) declares (links s) s' → keeps s'

namespace Region

variable {R : Region} {s s' s'' : Store}

/-- If the value is a handle, then of a place that is held. -/
def Has (R : Region) (s : Store) (v : Value) : Prop := ∀ p, v.address? = some p → R.holds s p

theorem has_plain {v : Value} (plain : v.address? = none) : R.Has s v := by
  intro p address
  cases plain.symm.trans address

theorem has_object {id : ObjectId} : R.Has s (.object id) ↔ R.holds s (.object id) := by
  simp [Has, Value.address?]

theorem has_array {id : ArrayId} : R.Has s (.array id) ↔ R.holds s (.array id) := by
  simp [Has, Value.address?]

theorem has_function {id : FunctionId} : R.Has s (.function id) ↔ R.holds s (.function id) := by
  simp [Has, Value.address?]

theorem has_getD {o : Option Value} (h : ∀ v, o = some v → R.Has s v) :
    R.Has s (o.getD .undefined) := by
  cases o with
  | none => exact nofun
  | some v => exact h v rfl

structure Next (R : Region) (s s' : Store) : Prop where
  keeps : R.keeps s'
  holds {p : Address} : R.holds s p → R.holds s' p

namespace Next

theorem refl (k : R.keeps s) : R.Next s s := ⟨k, id⟩

theorem trans (h : R.Next s s') (h' : R.Next s' s'') : R.Next s s'' :=
  ⟨h'.keeps, fun holds => h'.holds (h.holds holds)⟩

theorem has (h : R.Next s s') {v : Value} (has : R.Has s v) : R.Has s' v :=
  fun p address => h.holds (has p address)

theorem all (h : R.Next s s') {vs : List Value} (has : ∀ v ∈ vs, R.Has s v) :
    ∀ v ∈ vs, R.Has s' v :=
  fun v mem => h.has (has v mem)

end Next

def Held (R : Region) (s : Store) (c : Content) : Prop := ∀ p, c.Leads p → R.holds s p

theorem held_scope {scope : Scope} (values : ∀ name v, scope.values.get? name = some v → R.Has s v)
    (parent : ∀ id, scope.parent = some id → R.holds s (.scope id))
    (caught : ∀ v, scope.caught = some v → R.Has s v) : R.Held s (.scope scope) := by
  intro p leads
  cases leads with
  | value has address =>
    cases has with
    | bound found => exact values _ _ found p address
    | caught found => exact caught _ found p address
  | parent found => exact parent _ found

theorem held_object {o : Object} (properties : ∀ key v, o.properties.get? key = some v → R.Has s v)
    (prototype : ∀ id, o.prototype = some id → R.holds s (.object id)) : R.Held s (.object o) := by
  intro p leads
  cases leads with
  | value has address =>
    cases has with
    | property found => exact properties _ _ found p address
  | prototype found => exact prototype _ found

theorem held_array {items : Array Value} (elements : ∀ v ∈ items, R.Has s v) :
    R.Held s (.array items) := by
  intro p leads
  cases leads with
  | value has address =>
    cases has with
    | element mem => exact elements _ mem p address

theorem held_function {f : Function}
    (properties : ∀ key v, f.properties.get? key = some v → R.Has s v)
    (captured : ∀ c, f.callable = .closure c → R.holds s (.scope c.scope)) :
    R.Held s (.function (some f)) := by
  intro p leads
  cases leads with
  | value has address =>
    cases has with
    | ofFunction found => exact properties _ _ found p address
  | captured => exact captured _ rfl

section Reading

variable (k : R.keeps s) {id : ScopeId} {v : Value}
include k

theorem has_of_content {p : Address} (h : R.holds s p) (has : (s.content p).Has v) : R.Has s v :=
  fun _ address => R.closed k h (.value has address)

/-! ## Scopes -/

section

variable {owner : ScopeId} {name : String} (h : R.holds s (.scope id))
include h

theorem holds_chain (mem : owner ∈ s.chain id) : R.holds s (.scope owner) := by
  rw [Store.chain, Store.chain_walk_eq] at mem
  exact forall_mem_ascend (P := fun i => R.holds s (.scope i))
    (fun _ _ held found => R.closed k held (.parent found)) _ h owner mem

theorem has_find (found : s.find? id name = some v) : R.Has s v := by
  obtain ⟨owner, mem, own⟩ := List.exists_of_findSome?_eq_some found
  exact has_of_content k (holds_chain k h mem) (.bound own)

theorem has_caught (found : s.caught? id = some v) : R.Has s v := by
  obtain ⟨owner, mem, own⟩ := List.exists_of_findSome?_eq_some found
  exact has_of_content k (holds_chain k h mem) (.caught own)

theorem holds_resolve (found : s.resolve? id name = some owner) :
    R.holds s (.scope owner) ∧ s.binds owner name = true :=
  ⟨holds_chain k h (List.mem_of_find?_eq_some found), List.find?_some (p := (s.binds · name)) found⟩

end

end Reading

/-! ## Writing -/

end Region

section Arrays

variable {α : Type}

theorem getD_push (xs : Array α) (x d : α) (i : Nat) :
    (xs.push x).getD i d = xs.getD i d ∨ i = xs.size ∧ (xs.push x).getD i d = x := by
  simp only [Array.getD_eq_getD_getElem?, Array.getElem?_push]
  split
  · next last => exact .inr ⟨last, rfl⟩
  · exact .inl rfl

theorem getD_modify (xs : Array α) (i j : Nat) (f : α → α) (d : α) :
    (xs.modify i f).getD j d = xs.getD j d ∨
      j = i ∧ (xs.modify i f).getD j d = f (xs.getD i d) := by
  simp only [Array.getD_eq_getD_getElem?, Array.getElem?_modify]
  split
  · next same =>
    rw [same]
    cases xs[j]? with
    | none => exact .inl rfl
    | some x => exact .inr ⟨rfl, rfl⟩
  · exact .inl rfl

end Arrays

namespace Store

structure Writes (s s' : Store) (a : Address) (c : Content) : Prop where
  larger : ∀ p, s'.Lacks p → s.Lacks p
  content : ∀ p, s'.content p = s.content p ∨ p = a ∧ s'.content p = c

variable (s : Store)

theorem writes_newScope (scope : Scope) :
    s.Writes (s.newScope scope).2 (.scope s.scopes.size) (.scope scope) where
  larger p lacks := by
    cases p with
    | scope id => exact Nat.le_of_succ_le (by simpa [newScope, Lacks] using lacks)
    | _ => exact lacks
  content p := by
    cases p with
    | scope id => exact (getD_push s.scopes scope default id).imp (congrArg _) fun h =>
        ⟨congrArg _ h.1, congrArg _ h.2⟩
    | _ => exact .inl rfl

theorem writes_newObject (properties : Dict Value) (prototype : Option ObjectId) :
    s.Writes (s.newObject properties prototype).2 (.object s.objects.size)
      (.object ⟨properties, prototype⟩) where
  larger p lacks := by
    cases p with
    | object id => exact Nat.le_of_succ_le (by simpa [newObject, Lacks] using lacks)
    | _ => exact lacks
  content p := by
    cases p with
    | object id => exact (getD_push s.objects _ default id).imp (congrArg _) fun h =>
        ⟨congrArg _ h.1, congrArg _ h.2⟩
    | _ => exact .inl rfl

theorem writes_newArray (items : Array Value) :
    s.Writes (s.newArray items).2 (.array s.arrays.size) (.array items) where
  larger p lacks := by
    cases p with
    | array id => exact Nat.le_of_succ_le (by simpa [newArray, Lacks] using lacks)
    | _ => exact lacks
  content p := by
    cases p with
    | array id => exact (getD_push s.arrays items #[] id).imp (congrArg _) fun h =>
        ⟨congrArg _ h.1, congrArg _ h.2⟩
    | _ => exact .inl rfl

theorem writes_newFunction (callable : Callable) :
    s.Writes (s.newFunction callable).2 (.function s.functions.size)
      (.function (some ⟨callable, .empty⟩)) where
  larger p lacks := by
    cases p with
    | function id => exact Nat.le_of_succ_le (by simpa [newFunction, Lacks] using lacks)
    | _ => exact lacks
  content p := by
    cases p with
    | function id =>
      simp only [Store.content, function?, newFunction, Array.getElem?_push]
      split
      · next last => exact .inr ⟨congrArg _ last, rfl⟩
      · exact .inl rfl
    | _ => exact .inl rfl

theorem writes_modifyScope (id : ScopeId) (f : Scope → Scope) :
    s.Writes (s.modifyScope id f) (.scope id) (.scope (f (s.scope id))) where
  larger p lacks := by
    cases p with
    | scope id => simpa [modifyScope, Lacks] using lacks
    | _ => exact lacks
  content p := by
    cases p with
    | scope j => exact (getD_modify s.scopes id j f default).imp (congrArg _) fun h =>
        ⟨congrArg _ h.1, congrArg _ h.2⟩
    | _ => exact .inl rfl

theorem writes_modifyObject (id : ObjectId) (f : Object → Object) :
    s.Writes (s.modifyObject id f) (.object id) (.object (f (s.object id))) where
  larger p lacks := by
    cases p with
    | object id => simpa [modifyObject, Lacks] using lacks
    | _ => exact lacks
  content p := by
    cases p with
    | object j => exact (getD_modify s.objects id j f default).imp (congrArg _) fun h =>
        ⟨congrArg _ h.1, congrArg _ h.2⟩
    | _ => exact .inl rfl

theorem writes_modifyArray (id : ArrayId) (f : Array Value → Array Value) :
    s.Writes (s.modifyArray id f) (.array id) (.array (f (s.elements id))) where
  larger p lacks := by
    cases p with
    | array id => simpa [modifyArray, Lacks] using lacks
    | _ => exact lacks
  content p := by
    cases p with
    | array j => exact (getD_modify s.arrays id j f #[]).imp (congrArg _) fun h =>
        ⟨congrArg _ h.1, congrArg _ h.2⟩
    | _ => exact .inl rfl

theorem writes_modifyFunction (id : FunctionId) (f : Function → Function) :
    s.Writes (s.modifyFunction id f) (.function id) (.function ((s.function? id).map f)) where
  larger p lacks := by
    cases p with
    | function id => simpa [modifyFunction, Lacks] using lacks
    | _ => exact lacks
  content p := by
    cases p with
    | function j =>
      simp only [Store.content, function?, modifyFunction, Array.getElem?_modify]
      split
      · next same => exact .inr ⟨congrArg _ same.symm, by rw [same]⟩
      · exact .inl rfl
    | _ => exact .inl rfl

end Store

/-! ## Loyalty -/

namespace Store

variable {s s' s'' : Store}

def Wired (s : Store) (f : FunctionId) (p : ObjectId) : Prop :=
  (s.functionProperties f).get? "prototype" = some (.object p)

/-- Objects keep their prototypes, and functions the objects that they have as `prototype`. -/
structure Retains (s s' : Store) : Prop where
  larger : s.objects.size ≤ s'.objects.size
  kept : ∀ o < s.objects.size, (s'.object o).prototype = (s.object o).prototype
  wired : ∀ f p, s.Wired f p → s'.Wired f p

/-- An object that a function gets as `prototype` is new; it has no prototype, and no other function
gets it. -/
structure Loyal (s s' : Store) : Prop extends s.Retains s' where
  fresh : ∀ f p, s'.Wired f p → s.Wired f p ∨ s.objects.size ≤ p ∧ p < s'.objects.size ∧
    (s'.object p).prototype = none ∧ ∀ g, s'.Wired g p → g = f ∨ s.Wired g p

theorem Retains.trans (h : s.Retains s') (h' : s'.Retains s'') : s.Retains s'' where
  larger := Nat.le_trans h.larger h'.larger
  kept o lt := (h'.kept o (Nat.lt_of_lt_of_le lt h.larger)).trans (h.kept o lt)
  wired f p wired := h'.wired f p (h.wired f p wired)

namespace Loyal

theorem of_same (larger : s.objects.size ≤ s'.objects.size)
    (kept : ∀ o < s.objects.size, (s'.object o).prototype = (s.object o).prototype)
    (same : ∀ f, (s'.functionProperties f).get? "prototype" =
      (s.functionProperties f).get? "prototype") : s.Loyal s' :=
  ⟨⟨larger, kept, fun f _ wired => (same f).trans wired⟩,
    fun f _ wired => .inl ((same f).symm.trans wired)⟩

theorem refl (s : Store) : s.Loyal s := .of_same (Nat.le_refl _) (fun _ _ => rfl) fun _ => rfl

theorem trans (h : s.Loyal s') (h' : s'.Loyal s'') : s.Loyal s'' where
  toRetains := h.toRetains.trans h'.toRetains
  fresh f p wired := by
    rcases h'.fresh f p wired with wired | ⟨le, lt, last, only⟩
    · refine (h.fresh f p wired).imp_right fun ⟨le, lt, last, only⟩ => ?_
      refine ⟨le, Nat.lt_of_lt_of_le lt h'.larger, (h'.kept p lt).trans last, fun g wired => ?_⟩
      rcases h'.fresh g p wired with wired | ⟨le, -⟩
      · exact only g wired
      · exact absurd lt (Nat.not_lt_of_le le)
    · refine .inr ⟨Nat.le_trans h.larger le, lt, last, fun g wired => ?_⟩
      refine (only g wired).imp_right fun wired => ?_
      exact (h.fresh g p wired).resolve_right fun new => Nat.not_lt_of_le le new.2.1

end Loyal

namespace Writes

variable {a : Address} {c : Content} (writes : s.Writes s' a c)
  (linked : ∀ id, a = .object id → ¬ s.Lacks a →
    (s'.object id).prototype = (s.object id).prototype)
include writes linked

theorem prototypes (id : ObjectId) (known : ¬ s.Lacks (.object id)) :
    (s'.object id).prototype = (s.object id).prototype := by
  rcases writes.content (.object id) with same | ⟨there, -⟩
  · rw [Content.object.inj same]
  · exact linked id there.symm (there ▸ known)

theorem loyal (wired : ∀ f, a = .function f → (s'.functionProperties f).get? "prototype" =
    (s.functionProperties f).get? "prototype") : s.Loyal s' := by
  refine .of_same (writes.larger (.object _) (Nat.le_refl _))
    (fun o lt => writes.prototypes linked o (Nat.not_le_of_lt lt)) fun f => ?_
  rcases writes.content (.function f) with same | ⟨there, -⟩
  · simp only [functionProperties, Content.function.inj same]
  · exact wired f there.symm

end Writes

theorem loyal_modifyFunction (s : Store) (id : FunctionId) {g : Dict Value → Dict Value}
    (same : ∀ d : Dict Value, (g d).get? "prototype" = d.get? "prototype") :
    s.Loyal (s.modifyFunction id fun f => { f with properties := g f.properties }) := by
  refine (s.writes_modifyFunction id _).loyal nofun ?_
  rintro f ⟨⟩
  simp only [functionProperties, function?, modifyFunction, Array.getElem?_modify, if_true]
  cases s.functions[id]? with
  | none => rfl
  | some f => exact same f.properties

/-- A prototype is found, or a new one is made that has none itself. -/
theorem prototypeOf_cases (s : Store) (f : FunctionId) :
    (∃ p, s.Wired f p ∧ s.prototypeOf f = (p, s)) ∨
    ((s.prototypeOf f).1 = s.objects.size ∧
      (∃ properties, (s.prototypeOf f).2.objects = s.objects.push ⟨properties, none⟩) ∧
      (∀ p, ¬ s.Wired f p) ∧
      (∀ p, (s.prototypeOf f).2.Wired f p → p = s.objects.size) ∧
      ∀ g, g ≠ f → (s.prototypeOf f).2.functionProperties g = s.functionProperties g) := by
  unfold prototypeOf
  split
  · next p found => exact .inl ⟨p, found, rfl⟩
  · next unwired =>
    refine .inr ⟨rfl, ⟨_, rfl⟩, unwired, fun p wired => ?_, fun g other => ?_⟩
    · simp only [Wired, functionProperties, function?, setFunctionProperty, modifyFunction, newObject,
        Array.getElem?_modify, if_true] at wired
      cases known : s.functions[f]? with
      | none => simp [known, Dict.get?, Dict.empty, Dict.lookup] at wired
      | some function =>
        simp only [known, Option.map_some, Option.getD_some, Dict.get?_set] at wired
        exact (Value.object.inj (Option.some.inj wired)).symm
    · simp only [functionProperties, function?, setFunctionProperty, modifyFunction,
        Array.getElem?_modify, if_neg other.symm]
      rfl

theorem loyal_prototypeOf (s : Store) (f : FunctionId) : s.Loyal (s.prototypeOf f).2 := by
  obtain ⟨p, -, same⟩ | ⟨-, ⟨properties, made⟩, unwired, only, other⟩ := s.prototypeOf_cases f
  · rw [same]
    exact .refl s
  have size : (s.prototypeOf f).2.objects.size = s.objects.size + 1 := by simp [made]
  have kept : ∀ g p, g ≠ f → ((s.prototypeOf f).2.Wired g p ↔ s.Wired g p) := by
    intro g p away
    rw [Wired, other g away, Wired]
  refine ⟨⟨size ▸ Nat.le_succ _, fun o lt => ?_, fun g p wired => ?_⟩, fun g p wired => ?_⟩
  · simp only [object, made, Array.getD_eq_getD_getElem?, Array.getElem?_push,
      if_neg (Nat.ne_of_lt lt)]
  · exact (kept g p fun own => unwired p (own ▸ wired)).2 wired
  · by_cases own : g = f
    · subst own
      obtain rfl := only p wired
      refine .inr ⟨Nat.le_refl _, size ▸ Nat.lt_succ_self _, ?_, fun g wired => ?_⟩
      · simp [object, made, Array.getD_eq_getD_getElem?]
      · exact Decidable.or_iff_not_imp_left.2 fun away => (kept g _ away).1 wired
    · exact .inl ((kept g p own).1 wired)

end Store

/-! ## References and tags -/

namespace Store

variable {s s' s'' : Store} {id : ScopeId} {name : String} {r : ReferenceId}

/-- A scope has the references of its bindings, and the store knows whose they are. -/
def Linked (s : Store) : Prop :=
  ∀ id name r, (s.scope id).references.get? name = some r ↔ s.references[r]? = some ⟨name, id⟩

/-- Bindings stay, with the references that they have. -/
structure Refers (s s' : Store) : Prop where
  bound : ∀ id name, s.binds id name = true → s'.binds id name = true
  given : ∀ (r : ReferenceId) x, s.references[r]? = some x → s'.references[r]? = some x
  linked : s.Linked → s'.Linked

/-- They also keep their tags. -/
structure Tended (s s' : Store) : Prop extends s.Refers s' where
  tags : ∀ id, (s'.scope id).tags = (s.scope id).tags

theorem Refers.refl (s : Store) : s.Refers s := ⟨fun _ _ => id, fun _ _ => id, id⟩

theorem Refers.trans (h : s.Refers s') (h' : s'.Refers s'') : s.Refers s'' where
  bound id name was := h'.bound id name (h.bound id name was)
  given r x was := h'.given r x (h.given r x was)
  linked was := h'.linked (h.linked was)

theorem Tended.refl (s : Store) : s.Tended s := ⟨.refl s, fun _ => rfl⟩

theorem Tended.trans (h : s.Tended s') (h' : s'.Tended s'') : s.Tended s'' :=
  ⟨h.toRefers.trans h'.toRefers, fun id => (h'.tags id).trans (h.tags id)⟩

theorem tended_of_same (scopes : s'.scopes = s.scopes) (references : s'.references = s.references) :
    s.Tended s' := by
  have same : s'.scope = s.scope := funext fun id => by simp only [scope, scopes]
  refine ⟨⟨fun id name was => ?_, fun r x was => references ▸ was, fun linked => ?_⟩, fun id => ?_⟩
  · rwa [binds, same]
  · rwa [Linked, same, references]
  · rw [same]

namespace Writes

variable {scope : Scope} (writes : s.Writes s' (.scope id) (.scope scope))
  (references : s'.references = s.references) (same : scope.references = (s.scope id).references)
  (bound : ∀ name, s.binds id name = true → scope.values.contains name = true)
include writes references same bound

theorem refers : s.Refers s' := by
  have kept : ∀ other, (s'.scope other).references = (s.scope other).references := by
    intro other
    rcases writes.content (.scope other) with unchanged | ⟨⟨⟩, written⟩
    · rw [Content.scope.inj unchanged]
    · rw [Content.scope.inj written, same]
  refine ⟨fun other name was => ?_, fun r x was => references ▸ was, fun linked other name r => ?_⟩
  · rcases writes.content (.scope other) with unchanged | ⟨⟨⟩, written⟩
    · rwa [binds, Content.scope.inj unchanged]
    · rw [binds, Content.scope.inj written]
      exact bound name was
  · rw [kept, references, linked]

theorem tended (tags : scope.tags = (s.scope id).tags) : s.Tended s' := by
  refine ⟨writes.refers references same bound, fun other => ?_⟩
  rcases writes.content (.scope other) with unchanged | ⟨⟨⟩, written⟩
  · rw [Content.scope.inj unchanged]
  · rw [Content.scope.inj written, tags]

end Writes

theorem tended_newScope (s : Store) {scope : Scope} (references : scope.references = .empty)
    (tags : scope.tags = .empty) : s.Tended (s.newScope scope).2 := by
  have none : s.scope s.scopes.size = default := scope_of_le (Nat.le_refl _)
  refine (s.writes_newScope scope).tended rfl ?_ (fun name was => ?_) ?_
  · rw [references, none]
    rfl
  · rw [binds, none] at was
    cases was
  · rw [tags, none]
    rfl

theorem tended_declare (s : Store) (id : ScopeId) (name : String) (v : Value) :
    s.Tended (s.declare id name v) := by
  refine (s.writes_modifyScope id _).tended rfl rfl (fun other was => ?_) rfl
  rw [Dict.contains, Dict.get?_set_eq]
  split
  · rfl
  · exact was

/-- A binding that has a reference keeps it, and another one gets one that is new. -/
theorem reference?_cases (given : s.reference? id name = some (r, s')) :
    ∃ owner, s.resolve? id name = some owner ∧
      ((s.scope owner).references.get? name = some r ∧ s' = s ∨
        (s.scope owner).references.get? name = none ∧ r = s.references.size ∧
        s'.references = s.references.push ⟨name, owner⟩ ∧
        ∀ j, s'.scope j = if j = owner then
          { s.scope owner with references := (s.scope owner).references.set name r }
          else s.scope j) := by
  obtain ⟨owner, found, given⟩ := Option.map_eq_some_iff.1 given
  refine ⟨owner, found, ?_⟩
  split at given
  · next set =>
    cases given
    exact .inl ⟨set, rfl⟩
  · next unset =>
    cases given
    have known : owner < s.scopes.size := lt_of_resolve found
    exact .inr ⟨unset, rfl, rfl, scope_modifyScope (s := { s with references := _ }) known _⟩

theorem tended_reference (given : s.reference? id name = some (r, s')) : s.Tended s' := by
  obtain ⟨owner, -, ⟨-, rfl⟩ | ⟨unset, rfl, table, scopes⟩⟩ := reference?_cases given
  · exact .refl s'
  refine ⟨⟨fun j m was => ?_, fun r x was => ?_, fun linked j m r => ?_⟩, fun j => ?_⟩
  · grind [binds]
  · rw [table, Array.getElem?_push]
    grind
  · have fresh : s.references[s.references.size]? = none := Array.getElem?_eq_none (Nat.le_refl _)
    have before := linked j m r
    have own := linked owner name r
    rw [table, Array.getElem?_push, scopes]
    grind [Dict.get?_set_eq]
  · grind

end Store

namespace Region

variable {R : Region} {s s' s'' : Store} {a : Address} {c : Content}

structure Move (R : Region) (s s' : Store) : Prop extends R.Next s s' where
  tended : s.Tended s'

structure Step (R : Region) (s s' : Store) : Prop extends R.Move s s' where
  loyal : s.Loyal s'

theorem Move.refl (k : R.keeps s) : R.Move s s := ⟨.refl k, .refl s⟩

theorem Move.trans (h : R.Move s s') (h' : R.Move s' s'') : R.Move s s'' :=
  ⟨h.toNext.trans h'.toNext, h.tended.trans h'.tended⟩

theorem Step.refl (k : R.keeps s) : R.Step s s := ⟨.refl k, .refl s⟩

theorem Step.trans (h : R.Step s s') (h' : R.Step s' s'') : R.Step s s'' :=
  ⟨h.toMove.trans h'.toMove, h.loyal.trans h'.loyal⟩

/-- The region keeps what is written to one of its addresses, or to a new one. -/
theorem move_of_writes (k : R.keeps s) (writes : s.Writes s' a c) (holds : R.holds s a ∨ s.Lacks a)
    (held : R.Held s c) (tended : s.Tended s')
    (named : ∀ id name, s'.binds id name = true → s.binds id name = true ∨ R.declares id name)
    (linked : ∀ id, a = .object id → ¬ s.Lacks a →
      (s'.object id).prototype = (s.object id).prototype) : R.Move s s' := by
  refine ⟨⟨R.edit k ⟨writes.larger, fun p outside known => ?_, fun p => ?_, tended.bound, named,
    .inl (writes.prototypes linked)⟩, R.grows writes.larger⟩, tended⟩
  · refine (writes.content p).resolve_right ?_
    rintro ⟨rfl, -⟩
    exact holds.elim outside known
  · refine (writes.content p).imp_right ?_
    rintro ⟨-, there⟩
    rwa [there]

variable (k : R.keeps s) (writes : s.Writes s' a c) (holds : R.holds s a ∨ s.Lacks a)
  (held : R.Held s c) (scopes : s'.scopes = s.scopes) (references : s'.references = s.references)
  (linked : ∀ id, a = .object id → ¬ s.Lacks a → (s'.object id).prototype = (s.object id).prototype)
include k writes holds held scopes references linked

theorem move_of_writes_beside : R.Move s s' := by
  have same : s'.binds = s.binds := by
    funext id name
    simp only [Store.binds, Store.scope, scopes]
  exact move_of_writes k writes holds held (Store.tended_of_same scopes references)
    (fun _ _ h => .inl (same ▸ h)) linked

theorem step_of_writes_beside
    (wired : ∀ f, a = .function f → (s'.functionProperties f).get? "prototype" =
      (s.functionProperties f).get? "prototype") : R.Step s s' :=
  ⟨move_of_writes_beside k writes holds held scopes references linked, writes.loyal linked wired⟩

end Region

end EcmaMachine
