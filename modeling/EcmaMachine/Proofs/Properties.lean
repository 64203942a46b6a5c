import EcmaMachine.Proofs.Growth
import EcmaMachine.Proofs.Region.Basic

/-!
Properties of objects and functions. What is written under a key is read back under it, and nothing
else changes. The one exception is the `prototype` of a function: only an object is read back there,
for a function that has none gets one as soon as it is asked for.
-/

namespace EcmaMachine

/-- The value has properties under any keys. -/
def Value.IsKeyed : Value → Prop
  | .object _ | .function _ => True
  | _ => False

/-- What is written here cannot be read back: a function takes nothing but objects for its
`prototype`. -/
def Value.Loses (target : Value) (key : String) (v : Value) : Prop :=
  (∃ f, target = .function f) ∧ key = "prototype" ∧ ∀ id, v ≠ .object id

namespace Store

/-- Nothing but the properties of the target is different in the second store. -/
structure SameBut (s : Store) (target : Value) (s' : Store) : Prop where
  objects : ∀ id, .object id ≠ target → s'.object id = s.object id
  functions : ∀ f, .function f ≠ target → s'.function? f = s.function? f
  prototypes : ∀ id, (s'.object id).prototype = (s.object id).prototype
  callables : ∀ f, (s'.function? f).map (·.callable) = (s.function? f).map (·.callable)
  sizes : s'.objects.size = s.objects.size ∧ s'.functions.size = s.functions.size
  rest : s'.arrays = s.arrays ∧ s'.scopes = s.scopes ∧ s'.references = s.references

/-! ## Objects -/

section Object

variable {s : Store} {id : ObjectId} {key : String} {v : Value}

theorem object_modifyObject_of_ne {other : ObjectId} (ne : other ≠ id) (f : Object → Object) :
    (s.modifyObject id f).object other = s.object other := by
  simp only [object, modifyObject, Array.getD_eq_getD_getElem?, Array.getElem?_modify,
    if_neg ne.symm]

theorem object_modifyObject (known : id < s.objects.size) (f : Object → Object) :
    (s.modifyObject id f).object id = f (s.object id) := by
  simp only [object, modifyObject, Array.getD_eq_getD_getElem?, Array.getElem?_modify, if_true,
    Array.getElem?_eq_getElem known, Option.map_some, Option.getD_some]

theorem sameBut_setOwn (known : id < s.objects.size) (key : String) (v : Value) :
    s.SameBut (.object id) (s.setOwn id key v) where
  objects other ne := object_modifyObject_of_ne (fun same => ne (congrArg Value.object same)) _
  functions _ _ := rfl
  prototypes other := by
    by_cases same : other = id
    · rw [same, setOwn, object_modifyObject known]
    · rw [setOwn, object_modifyObject_of_ne same]
  callables _ := rfl
  sizes := ⟨by simp [setOwn, modifyObject], rfl⟩
  rest := ⟨rfl, rfl, rfl⟩

theorem SameBut.lineage {target : Value} {s' : Store} (h : s.SameBut target s') (id : ObjectId) :
    s'.lineage id = s.lineage id := by
  simp only [Store.lineage, lineage_walk_eq, h.sizes.1, h.prototypes]

theorem getOwn?_setOwn (known : id < s.objects.size) (other : ObjectId) (key' : String) :
    (s.setOwn id key v).getOwn? other key' =
      if other = id ∧ key' = key then some v else s.getOwn? other key' := by
  unfold getOwn? setOwn
  by_cases same : other = id
  · subst same
    rw [object_modifyObject known]
    by_cases equal : key' = key
    · rw [if_pos ⟨rfl, equal⟩, equal, Dict.get?_set]
    · rw [if_neg fun both => equal both.2, Dict.get?_set_of_ne equal]
  · rw [if_neg fun both => same both.1, object_modifyObject_of_ne same]

theorem get?_setOwn (known : id < s.objects.size) (key : String) (v : Value) :
    (s.setOwn id key v).get? id key = some v := by
  have own : (s.setOwn id key v).getOwn? id key = some v := by
    rw [getOwn?_setOwn known, if_pos ⟨rfl, rfl⟩]
  rw [get?, lineage, lineage.walk, List.findSome?_cons, own]

theorem get?_setOwn_of_ne (known : id < s.objects.size) {key' : String} (ne : key' ≠ key)
    (other : ObjectId) : (s.setOwn id key v).get? other key' = s.get? other key' := by
  have own : ∀ o, (s.setOwn id key v).getOwn? o key' = s.getOwn? o key' := fun o => by
    rw [getOwn?_setOwn known, if_neg fun both => ne both.2]
  rw [get?, get?, (sameBut_setOwn known key v).lineage]
  simp only [own]

end Object

/-! ## Functions -/

section Function

variable {s : Store} {f : FunctionId} {key : String} {v : Value}

theorem function?_setFunctionProperty_of_ne {other : FunctionId} (ne : other ≠ f) :
    (s.setFunctionProperty f key v).function? other = s.function? other := by
  simp only [function?, setFunctionProperty, modifyFunction, Array.getElem?_modify, if_neg ne.symm]

theorem function?_setFunctionProperty :
    (s.setFunctionProperty f key v).function? f =
      (s.function? f).map fun g => { g with properties := g.properties.set key v } := by
  simp only [function?, setFunctionProperty, modifyFunction, Array.getElem?_modify, if_true]

theorem sameBut_setFunctionProperty (s : Store) (f : FunctionId) (key : String) (v : Value) :
    s.SameBut (.function f) (s.setFunctionProperty f key v) where
  objects _ _ := rfl
  functions other ne := function?_setFunctionProperty_of_ne fun same => ne (congrArg Value.function same)
  prototypes _ := rfl
  callables other := by
    by_cases same : other = f
    · rw [same, function?_setFunctionProperty, Option.map_map]
      rfl
    · rw [function?_setFunctionProperty_of_ne same]
  sizes := ⟨rfl, by simp [setFunctionProperty, modifyFunction]⟩
  rest := ⟨rfl, rfl, rfl⟩

theorem functionProperties_setFunctionProperty (known : f < s.functions.size) :
    (s.setFunctionProperty f key v).functionProperties f =
      (s.functionProperties f).set key v := by
  simp only [functionProperties, function?_setFunctionProperty]
  simp [function?, known]

theorem functionName_setFunctionProperty (other : FunctionId) :
    (s.setFunctionProperty f key v).functionName other = s.functionName other := by
  have same := (sameBut_setFunctionProperty s f key v).callables other
  have name : ∀ t : Store, t.functionName other = ((t.function? other).map (·.callable)).bind (·.name) :=
    fun t => by rw [functionName, Option.bind_map]; rfl
  rw [name, name, same]

/-- Whether the `prototype` is there or has to be made shows in the store alone. -/
theorem prototypeOf_congr {s' : Store} (sizes : s'.objects.size = s.objects.size)
    (own : (s'.functionProperties f).get? "prototype" = (s.functionProperties f).get? "prototype") :
    (s'.prototypeOf f).1 = (s.prototypeOf f).1 := by
  have wired : ∀ p, s'.Wired f p ↔ s.Wired f p := fun p => by rw [Wired, own, Wired]
  obtain ⟨p, has, same⟩ | ⟨made, -, unwired, -⟩ := s.prototypeOf_cases f
  · obtain ⟨p', has', same'⟩ | ⟨-, -, unwired', -⟩ := s'.prototypeOf_cases f
    · rw [same, same']
      exact Value.object.inj (Option.some.inj (((wired p').1 has').symm.trans has))
    · exact absurd ((wired p).2 has) (unwired' p)
  · obtain ⟨p', has', -⟩ | ⟨made', -⟩ := s'.prototypeOf_cases f
    · exact absurd ((wired p').1 has') (unwired p')
    · rw [made, made', sizes]

/-- What a function gives under a key. -/
theorem getProperty_function (s : Store) (f : FunctionId) (key : String) :
    (s.getProperty (.function f) key).map (·.1) = .ok (
      if key = "prototype" then .object (s.prototypeOf f).1
      else ((s.functionProperties f).get? key).getD
        (if key = "name" then .string ((s.functionName f).getD "") else .undefined)) := by
  by_cases proto : key = "prototype"
  · subst proto
    rfl
  · have other : (key == "prototype") = false := beq_false_of_ne proto
    simp only [getProperty, other, Bool.false_eq_true, if_false, if_neg proto]
    cases (s.functionProperties f).get? key with
    | some v => rfl
    | none =>
      by_cases name : key = "name"
      · subst name
        rfl
      · have other : (key == "name") = false := beq_false_of_ne name
        simp only [other, Bool.false_eq_true, if_false, if_neg name]
        rfl

end Function

/-! ## Reading what was written -/

/-- A property that is read, whatever reading may add to the store. -/
def read (s : Store) (target : Value) (key : String) : Except TypeFault Value :=
  (s.getProperty target key).map (·.1)

variable {s : Store}

theorem reads_object {id : ObjectId} (known : id < s.objects.size) (key : String) (v : Value) :
    let s' := s.setOwn id key v
    s'.read (.object id) key = .ok v ∧ s'.hasProperty (.object id) key = .ok true ∧
    ∀ other, other ≠ key → s'.read (.object id) other = s.read (.object id) other ∧
      s'.hasProperty (.object id) other = s.hasProperty (.object id) other := by
  intro s'
  have own : s'.get? id key = some v := get?_setOwn known key v
  refine ⟨?_, ?_, fun other ne => ?_⟩
  · simp only [read, getProperty, own]
    rfl
  · simp only [hasProperty, own]
    rfl
  · have same : s'.get? id other = s.get? id other := get?_setOwn_of_ne known ne id
    simp only [read, getProperty, hasProperty, same]
    exact ⟨rfl, trivial⟩

theorem reads_function {f : FunctionId} (known : f < s.functions.size) (key : String) (v : Value) :
    let s' := s.setFunctionProperty f key v
    (s'.read (.function f) key = .ok v ↔ ¬ (Value.function f).Loses key v) ∧
    s'.hasProperty (.function f) key = .ok true ∧
    ∀ other, other ≠ key → s'.read (.function f) other = s.read (.function f) other ∧
      s'.hasProperty (.function f) other = s.hasProperty (.function f) other := by
  intro s'
  have properties : s'.functionProperties f = (s.functionProperties f).set key v :=
    functionProperties_setFunctionProperty known
  have own : (s'.functionProperties f).get? key = some v := by rw [properties, Dict.get?_set]
  refine ⟨?_, ?_, fun other ne => ?_⟩
  · rw [read, getProperty_function, own]
    by_cases proto : key = "prototype"
    · rw [if_pos proto]
      subst proto
      obtain ⟨p, has, kept⟩ | ⟨-, -, unwired, -⟩ := s'.prototypeOf_cases f
      · obtain rfl : v = .object p := Option.some.inj (own.symm.trans has)
        rw [kept]
        simp [Value.Loses]
      · have lost : (Value.function f).Loses "prototype" v :=
          ⟨⟨f, rfl⟩, rfl, fun p same => unwired p (own.trans (congrArg some same))⟩
        refine iff_of_false (fun same => ?_) (not_not_intro lost)
        exact lost.2.2 _ (Except.ok.inj same).symm
    · simp [Value.Loses, proto]
  · simp [hasProperty, Dict.contains, own]
  · have same : (s'.functionProperties f).get? other = (s.functionProperties f).get? other := by
      rw [properties, Dict.get?_set_of_ne ne]
    constructor
    · rw [read, read, getProperty_function, getProperty_function, same,
        functionName_setFunctionProperty]
      by_cases proto : other = "prototype"
      · subst proto
        have kept : (s'.prototypeOf f).1 = (s.prototypeOf f).1 := prototypeOf_congr rfl same
        rw [if_pos rfl, if_pos rfl, kept]
      · rw [if_neg proto, if_neg proto]
    · simp only [hasProperty, Dict.contains, same]

end Store

/-- Properties are read back. After a write to an object or a function, the key holds the value and
is found, every other key is as it was, and nothing but the target has changed. The exception is
exact: something else than an object, written as the `prototype` of a function, is not read back. -/
theorem properties_read_back (s : Store) (target : Value) (keyed : target.IsKeyed)
    (lives : target.LivesIn s) (key : String) (v : Value) :
    ∃ s', s.setProperty target key v = .ok s' ∧ s.SameBut target s' ∧
      (s'.read target key = .ok v ↔ ¬ target.Loses key v) ∧
      s'.hasProperty target key = .ok true ∧
      ∀ other, other ≠ key → s'.read target other = s.read target other ∧
        s'.hasProperty target other = s.hasProperty target other := by
  cases target with
  | object id =>
    obtain ⟨same, found, others⟩ := Store.reads_object (v := v) lives key
    have kept : ¬ (Value.object id).Loses key v := fun loses => nomatch loses.1
    exact ⟨_, rfl, Store.sameBut_setOwn lives key v, iff_of_true same kept, found, others⟩
  | function f =>
    exact ⟨_, rfl, s.sameBut_setFunctionProperty f key v, Store.reads_function lives key v⟩
  | _ => exact keyed.elim

namespace Sample

/-- An object that inherits the key `a` from another, and a function. -/
def shelf : Store where
  objects := #[⟨⟨[("a", .null)]⟩, none⟩, ⟨⟨[("b", .null)]⟩, some 0⟩]
  arrays := #[]
  functions := #[⟨.host "f" "f", .empty⟩]
  scopes := #[]
  references := #[]

/-- The key that was inherited is the object's own afterwards, and the other object keeps its own.
The function takes null for its name. -/
theorem shelf_read_back :
    ((Value.object 1).LivesIn shelf ∧ ∃ s', shelf.setProperty (.object 1) "a" (.bool true) = .ok s' ∧
      s'.read (.object 1) "a" = .ok (.bool true) ∧ s'.object 0 = shelf.object 0 ∧
      s'.read (.object 1) "b" = shelf.read (.object 1) "b") ∧
    (Value.function 0).LivesIn shelf ∧ ∃ s', shelf.setProperty (.function 0) "name" .null = .ok s' ∧
      s'.read (.function 0) "name" = .ok .null := by
  refine ⟨⟨by decide, ?_⟩, by decide, ?_⟩
  · obtain ⟨s', written, same, back, -, others⟩ :=
      properties_read_back shelf (.object 1) trivial (by decide) "a" (.bool true)
    exact ⟨s', written, back.2 (fun loses => nomatch loses.1), same.objects 0 (by decide),
      (others "b" (by decide)).1⟩
  · obtain ⟨s', written, -, back, -⟩ :=
      properties_read_back shelf (.function 0) trivial (by decide) "name" .null
    exact ⟨s', written, back.2 fun loses => absurd loses.2.1 (by decide)⟩

/-- The function does not take null for its `prototype`: the write goes well, but it is lost. -/
theorem shelf_write_lost : ∃ s', shelf.setProperty (.function 0) "prototype" .null = .ok s' ∧
    s'.read (.function 0) "prototype" ≠ .ok .null := by
  obtain ⟨back, -⟩ := Store.reads_function (s := shelf) (f := 0) (v := .null) (by decide) "prototype"
  exact ⟨_, rfl, fun same => back.1 same ⟨⟨0, rfl⟩, rfl, nofun⟩⟩

end Sample

end EcmaMachine
