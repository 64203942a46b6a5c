import Mathlib.Data.List.Perm.Subperm
import EcmaMachine.Proofs.Look

/-!
Stores that grow. What a value looks like stays the same while arrays are added to the store, and
so does every name while references are given out.
-/

namespace EcmaMachine

/-! ## More arrays -/

namespace Store

/-- The second store has all the arrays of the first, and maybe more. -/
structure Extends (s s' : Store) : Prop where
  functions : s'.functions = s.functions
  more : s.arrays.size ≤ s'.arrays.size
  same : ∀ id < s.arrays.size, s'.elements id = s.elements id

theorem Extends.refl (s : Store) : s.Extends s := ⟨rfl, Nat.le_refl _, fun _ _ => rfl⟩

theorem Extends.trans {s s' s'' : Store} (h : s.Extends s') (h' : s'.Extends s'') :
    s.Extends s'' where
  functions := h'.functions.trans h.functions
  more := Nat.le_trans h.more h'.more
  same id lt := (h'.same id (Nat.lt_of_lt_of_le lt h.more)).trans (h.same id lt)

theorem extends_newList (s : Store) (items : List Value) : s.Extends (s.newList items).2 where
  functions := rfl
  more := by simp [newList, newArray]
  same id lt := by
    simp only [elements, newList, newArray, Array.getD_eq_getD_getElem?, Array.getElem?_push]
    rw [if_neg (Nat.ne_of_lt lt)]

end Store

/-- If the value is the handle of something, then of something in the store. -/
def Value.LivesIn (s : Store) : Value → Prop
  | .object id => id < s.objects.size
  | .array id => id < s.arrays.size
  | .function id => id < s.functions.size
  | _ => True

instance (s : Store) : (v : Value) → Decidable (v.LivesIn s)
  | .object id => inferInstanceAs (Decidable (id < s.objects.size))
  | .array id => inferInstanceAs (Decidable (id < s.arrays.size))
  | .function id => inferInstanceAs (Decidable (id < s.functions.size))
  | .undefined | .null | .bool _ | .number _ | .string _ => inferInstanceAs (Decidable True)

/-- What is in the arrays and objects of the store lives in it as well. -/
structure Store.Closed (s : Store) : Prop where
  elements : ∀ id < s.arrays.size, ∀ v ∈ s.elements id, v.LivesIn s
  properties : ∀ id < s.objects.size, ∀ e ∈ (s.object id).properties.entries, e.2.LivesIn s

namespace Store

variable {s s' : Store}

theorem functionName_of_extends (h : s.Extends s') (f : FunctionId) :
    s'.functionName f = s.functionName f := by
  simp only [functionName, function?, h.functions]

/-- A way down through arrays that meets none of them twice is no longer than there are arrays. -/
theorem length_le_of_nodup {path : List ArrayId} {n : Nat} (nodup : path.Nodup)
    (known : ∀ p ∈ path, p < n) : path.length ≤ n := by
  have sub : path ⊆ List.range n := fun p mem => List.mem_range.2 (known p mem)
  simpa using (nodup.subperm sub).length_le

theorem join_of_extends (closed : s.Closed) (h : s.Extends s') {fuel fuel' : Nat}
    {path : List ArrayId} {id : ArrayId} (nodup : path.Nodup) (known : ∀ p ∈ path, p < s.arrays.size)
    (lt : id < s.arrays.size) (enough : s.arrays.size < fuel + path.length)
    (enough' : s.arrays.size < fuel' + path.length) :
    s'.join fuel' path id = s.join fuel path id := by
  have short := length_le_of_nodup nodup known
  induction fuel generalizing fuel' path id with
  | zero => omega
  | succ fuel ih =>
    cases fuel' with
    | zero => omega
    | succ fuel' =>
      unfold join
      cases seen : path.contains id with
      | true => simp only [if_true]
      | false =>
        have fresh : id ∉ path := by simpa using seen
        have nodup' : (id :: path).Nodup := List.nodup_cons.2 ⟨fresh, nodup⟩
        have known' : ∀ p ∈ id :: path, p < s.arrays.size := by
          simpa [List.mem_cons, lt] using known
        have short' := length_le_of_nodup nodup' known'
        simp only [Bool.false_eq_true, if_false, h.same id lt]
        congr 1
        refine List.map_congr_left fun v mem => ?_
        have lives := closed.elements id lt v (Array.mem_toList_iff.1 mem)
        cases v with
        | array inner =>
          refine ih nodup' known' lives ?_ ?_ short'
          · simp only [List.length_cons]
            omega
          · simp only [List.length_cons]
            omega
        | function f => simp only [functionName_of_extends h]
        | _ => rfl

theorem text_of_extends (closed : s.Closed) (h : s.Extends s') {v : Value} (lives : v.LivesIn s) :
    s'.text v = s.text v := by
  cases v with
  | array id =>
    have more := h.more
    exact join_of_extends closed h List.nodup_nil (by simp) lives (by simp) (by simp; omega)
  | function f => simp only [text, functionName_of_extends h]
  | _ => rfl

theorem toNumber_of_extends (closed : s.Closed) (h : s.Extends s') {v : Value}
    (lives : v.LivesIn s) : s'.toNumber v = s.toNumber v := by
  cases v with
  | array id => simp only [toNumber, text_of_extends closed h lives]
  | _ => rfl

end Store

/-! ## More arrays and references -/

namespace Store

variable {s s' : Store}

theorem find?_of_scopes (same : s'.scopes = s.scopes) (id : ScopeId) (name : String) :
    s'.find? id name = s.find? id name := by
  have own : s'.ownValue? = s.ownValue? := by
    funext id name
    simp only [ownValue?, scope, same]
  simp only [find?, chain, same, chain_walk_eq, scope, own]

theorem get?_of_objects (same : s'.objects = s.objects) (id : ObjectId) (key : String) :
    s'.get? id key = s.get? id key := by
  have own : s'.getOwn? = s.getOwn? := by
    funext id key
    simp only [getOwn?, object, same]
  simp only [get?, lineage, same, lineage_walk_eq, object, own]

/-- The second store differs from the first by references, and by arrays that came after all
those of the first. -/
structure Grows (s s' : Store) : Prop extends s.Extends s' where
  objects : s'.objects = s.objects
  scopes : s'.scopes.size = s.scopes.size
  names : ∀ scope name, s'.find? scope name = s.find? scope name

namespace Grows

variable {s s' s'' : Store}

theorem refl (s : Store) : s.Grows s := ⟨.refl s, rfl, rfl, fun _ _ => rfl⟩

theorem trans (h : s.Grows s') (h' : s'.Grows s'') : s.Grows s'' where
  toExtends := h.toExtends.trans h'.toExtends
  objects := h'.objects.trans h.objects
  scopes := h'.scopes.trans h.scopes
  names scope name := (h'.names scope name).trans (h.names scope name)

theorem newList (s : Store) (items : List Value) : s.Grows (s.newList items).2 where
  toExtends := extends_newList s items
  objects := rfl
  scopes := rfl
  names := find?_of_scopes rfl

theorem reference? {scope : ScopeId} {name : String} {r : ReferenceId}
    (given : s.reference? scope name = some (r, s')) : s.Grows s' := by
  have same : s'.view true = s.view true := unreferenced_reference? given
  have arrays : s'.arrays = s.arrays := congrArg (·.arrays) same
  exact {
    functions := congrArg (·.functions) same
    more := Nat.le_of_eq (congrArg Array.size arrays.symm)
    same := fun id _ => by rw [elements, arrays, elements]
    objects := congrArg (·.objects) same
    scopes := by simpa [view, unreferenced] using congrArg (·.scopes.size) same
    names := fun scope name => by
      rw [← find?_look s' ⟨id, true⟩, look_id, same, ← look_id, find?_look] }

end Grows

end Store

end EcmaMachine
