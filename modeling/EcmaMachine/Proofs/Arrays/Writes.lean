import EcmaMachine.Machine.Resume
import EcmaMachine.Proofs.Arrays.Lengths
import EcmaMachine.Proofs.Digits

/-!
Writes to arrays. A write replaces one element, or lengthens the array up to the new element, or
gives it another length; all others are refused before anything is written. So no run of writes
makes an array longer than it was at first and the bound allows.
-/

namespace EcmaMachine

/-! ## What a write does -/

/-- What writing `v` under a key makes of the items of an array; as a length, `v` counts as the
number. -/
inductive Written (items : List Value) (v : Value) (number : Float) : String → List Value → Prop
  | replaced {i : Nat} (word : i < 2 ^ 64) (lt : i < items.length) :
    Written items v number (Number.natText i) (items.set i v)
  | lengthened {i : Nat} (le : items.length ≤ i) (lt : i < 2 ^ 24) :
    Written items v number (Number.natText i)
      (items ++ List.replicate (i - items.length) .undefined ++ [v])
  | resized {m : Nat} (equal : (number == Float.ofNat m) = true) (le : m ≤ 2 ^ 24) :
    Written items v number "length"
      (items.take m ++ List.replicate (m - items.length) .undefined)

namespace Store

theorem toList_resize (items : Array Value) (length : Nat) :
    (resize items length).toList =
      items.toList.take length ++ List.replicate (length - items.toList.length) .undefined := by
  unfold resize
  split
  · next le =>
    have none : length - items.toList.length = 0 := Nat.sub_eq_zero_of_le le
    rw [none, List.replicate_zero, List.append_nil]
    simp
  · next more =>
    have all : items.toList.take length = items.toList :=
      List.take_of_length_le (Nat.le_of_lt (Nat.lt_of_not_le more))
    rw [all]
    simp

theorem toList_setElement_of_lt {items : Array Value} {index : Nat} (lt : index < items.size)
    (v : Value) : (setElement items index v).toList = items.toList.set index v := by
  rw [setElement, if_pos lt, Array.toList_setIfInBounds]

theorem toList_setElement_of_le {items : Array Value} {index : Nat} (le : items.size ≤ index)
    (v : Value) : (setElement items index v).toList =
      items.toList ++ List.replicate (index - items.toList.length) .undefined ++ [v] := by
  have all : items.toList.take index = items.toList := List.take_of_length_le le
  rw [setElement, if_neg (Nat.not_lt.2 le), Array.toList_push, toList_resize, all]

theorem modifyArray_congr {s : Store} {id : ArrayId} {f : Array Value → Array Value}
    {items : List Value} (same : (f (s.elements id)).toList = items) :
    s.modifyArray id f = s.modifyArray id fun _ => items.toArray := by
  subst same
  simp only [modifyArray, Array.toArray_toList]
  congr 1
  apply Array.ext_getElem?
  intro i
  rw [Array.getElem?_modify, Array.getElem?_modify]
  split
  · next eq =>
    subst eq
    cases found : s.arrays[id]? with
    | none => rfl
    | some items => simp [elements, Array.getD_eq_getD_getElem?, found]
  · rfl

section Array

variable {s : Store} {id : ArrayId} {key : String} {v : Value}

theorem setProperty_index {index : Nat} (read : arrayIndex? key = some index) :
    s.setProperty (.array id) key v = (do
      if (s.elements id).size ≤ index then
        let _ ← arrayLength? (Float.ofNat index + 1)
      .ok (s.modifyArray id (setElement · index v))) := by
  simp only [setProperty, read]

theorem setProperty_of_written {items : List Value}
    (h : Written (s.elements id).toList v (s.toNumber v) key items) :
    s.setProperty (.array id) key v = .ok (s.modifyArray id fun _ => items.toArray) := by
  cases h with
  | replaced word lt =>
    rename_i i
    have inside : ¬ (s.elements id).size ≤ i := Nat.not_le.2 lt
    rw [setProperty_index (arrayIndex?_eq_some_iff.2 ⟨word, rfl⟩), if_neg inside,
      ← modifyArray_congr (f := (setElement · i v)) (toList_setElement_of_lt lt v)]
  | lengthened le lt =>
    rename_i i
    have outside : (s.elements id).size ≤ i := le
    have word : i < 2 ^ 64 := Nat.lt_trans lt (by decide)
    rw [setProperty_index (arrayIndex?_eq_some_iff.2 ⟨word, rfl⟩), if_pos outside,
      arrayLength?_index lt,
      ← modifyArray_congr (f := (setElement · i v)) (toList_setElement_of_le outside v)]
    rfl
  | resized equal le =>
    rename_i m
    have length : arrayLength? (s.toNumber v) = .ok m := arrayLength?_eq_ok_iff.2 ⟨equal, le⟩
    have named : arrayIndex? "length" = none := by decide
    simp only [setProperty, named, beq_self_eq_true, if_true, length]
    rw [← modifyArray_congr (f := (resize · m)) (toList_resize _ m)]
    rfl

/-- What is not written is refused. -/
theorem exists_fault_of_not_written
    (h : ∀ items, ¬ Written (s.elements id).toList v (s.toNumber v) key items) :
    ∃ fault, s.setProperty (.array id) key v = .error fault := by
  cases read : arrayIndex? key with
  | some i =>
    obtain ⟨word, rfl⟩ := arrayIndex?_eq_some_iff.1 read
    have outside : (s.elements id).size ≤ i :=
      Nat.le_of_not_lt fun lt => h _ (.replaced word lt)
    have beyond : maxArrayLength ≤ i := Nat.le_of_not_lt fun lt => h _ (.lengthened outside lt)
    obtain ⟨fault, long⟩ := arrayLength?_index_of_le beyond word
    refine ⟨fault, ?_⟩
    rw [setProperty_index read, if_pos outside, long]
    rfl
  | none =>
    by_cases named : key = "length"
    · subst named
      cases length : arrayLength? (s.toNumber v) with
      | ok m =>
        obtain ⟨equal, le⟩ := arrayLength?_eq_ok_iff.1 length
        exact absurd (.resized equal le) (h _)
      | error fault =>
        refine ⟨fault, ?_⟩
        simp only [setProperty, read, beq_self_eq_true, if_true, length]
        rfl
    · refine ⟨.arrayKey key, ?_⟩
      have other : (key == "length") = false := beq_false_of_ne named
      simp only [setProperty, read, other]
      rfl

end Array

/-! ## Runs of writes -/

/-- Writes to values of any kind, one after the other; one that is refused leaves no trace. -/
def writeAll (s : Store) : List (Value × String × Value) → Store
  | [] => s
  | (target, key, v) :: writes =>
    match s.setProperty target key v with
    | .ok written => written.writeAll writes
    | .error _ => s.writeAll writes

theorem size_of_written {items items' : List Value} {v : Value} {number : Float} {key : String}
    (h : Written items v number key items') : items'.length ≤ max items.length (2 ^ 24) := by
  cases h with
  | replaced word lt =>
    rw [List.length_set]
    exact Nat.le_max_left _ _
  | lengthened le lt =>
    simp only [List.length_append, List.length_replicate, List.length_singleton]
    omega
  | resized equal le =>
    simp only [List.length_append, List.length_take, List.length_replicate]
    omega

theorem elements_modifyArray (s : Store) (id other : ArrayId) (items : Array Value) :
    (s.modifyArray id fun _ => items).elements other =
      if other = id ∧ id < s.arrays.size then items else s.elements other := by
  simp only [elements, modifyArray, Array.getD_eq_getD_getElem?, Array.getElem?_modify]
  grind

theorem size_elements_setProperty {s s' : Store} {target : Value} {key : String} {v : Value}
    (h : s.setProperty target key v = .ok s') (id : ArrayId) :
    (s'.elements id).size ≤ max (s.elements id).size (2 ^ 24) := by
  cases target with
  | array other =>
    by_cases written : ∃ items, Written (s.elements other).toList v (s.toNumber v) key items
    · obtain ⟨items, written⟩ := written
      have short := size_of_written written
      rw [setProperty_of_written written] at h
      cases h
      rw [elements_modifyArray]
      split
      · next same =>
        rw [same.1]
        exact short
      · exact Nat.le_max_left _ _
    · obtain ⟨fault, refused⟩ := exists_fault_of_not_written fun items w => written ⟨items, w⟩
      rw [refused] at h
      cases h
  | undefined => cases h
  | null => cases h
  | _ =>
    cases h
    exact Nat.le_max_left _ _

theorem size_elements_writeAll (writes : List (Value × String × Value)) (s : Store)
    (id : ArrayId) :
    ((s.writeAll writes).elements id).size ≤ max (s.elements id).size (2 ^ 24) := by
  induction writes generalizing s with
  | nil => exact Nat.le_max_left _ _
  | cons write writes ih =>
    obtain ⟨target, key, v⟩ := write
    unfold writeAll
    split
    · next written ok =>
      have step := size_elements_setProperty ok id
      have run := ih written
      omega
    · exact ih s

end Store

/-- Array writes are exact: what is written is what the rules say, in that array and nowhere else,
and what they do not cover is refused with a TypeError that leaves all as it was. However many
writes follow one another, no array comes to be longer than it was and 2 ^ 24. -/
theorem array_writes_exact {η : Type} (s : State η) (id : ArrayId) (key : String) (v : Value) :
    (∀ items, Written (s.store.elements id).toList v (s.store.toNumber v) key items →
      s.store.setProperty (.array id) key v =
        .ok (s.store.modifyArray id fun _ => items.toArray) ∧
      s.useMember (.array id) key (.assign .assign v) =
        (s.withStore (s.store.modifyArray id fun _ => items.toArray)).give v) ∧
    ((∀ items, ¬ Written (s.store.elements id).toList v (s.store.toNumber v) key items) →
      ∃ fault, s.store.setProperty (.array id) key v = .error fault ∧
        s.useMember (.array id) key (.assign .assign v) = s.signal (.type fault)) ∧
    ∀ writes other, ((s.store.writeAll writes).elements other).size ≤
      max (s.store.elements other).size (2 ^ 24) := by
  refine ⟨fun items written => ?_, fun refused => ?_, fun writes other =>
    Store.size_elements_writeAll writes s.store other⟩
  · have ok := Store.setProperty_of_written written
    refine ⟨ok, ?_⟩
    simp only [State.useMember, State.assignMember, State.combined, AssignOp.applied?, ok]
    rfl
  · obtain ⟨fault, error⟩ := Store.exists_fault_of_not_written refused
    refine ⟨fault, error, ?_⟩
    simp only [State.useMember, State.assignMember, State.combined, AssignOp.applied?, error]
    rfl

namespace Sample

/-- A machine with the array `[null]`. -/
def listing : State Unit :=
  ⟨.idle, [], [], { World.start () with store := (Store.empty.newList [.null]).2 }⟩

/-- The key `2` lengthens the array, and `01` is refused. -/
theorem listing_written :
    Written (listing.store.elements 0).toList (.bool true) (listing.store.toNumber (.bool true)) "2"
      [.null, .undefined, .bool true] ∧
    listing.store.setProperty (.array 0) "2" (.bool true) =
      .ok (listing.store.modifyArray 0 fun _ => #[.null, .undefined, .bool true]) ∧
    ∃ fault, listing.store.setProperty (.array 0) "01" (.bool true) = .error fault := by
  have written : Written (listing.store.elements 0).toList (.bool true)
      (listing.store.toNumber (.bool true)) "2" [.null, .undefined, .bool true] :=
    .lengthened (i := 2) (by decide) (by decide)
  refine ⟨written, ((array_writes_exact listing 0 "2" (.bool true)).1 _ written).1, ?_⟩
  have refused : ∀ items, ¬ Written (listing.store.elements 0).toList (.bool true)
      (listing.store.toNumber (.bool true)) "01" items := by
    intro items written
    generalize key : "01" = k at written
    have read : arrayIndex? k = none := key ▸ by decide
    cases written with
    | replaced word lt => exact nomatch (arrayIndex?_eq_some_iff.2 ⟨word, rfl⟩).symm.trans read
    | lengthened le lt =>
      have word := Nat.lt_trans lt (by decide : 2 ^ 24 < 2 ^ 64)
      exact nomatch (arrayIndex?_eq_some_iff.2 ⟨word, rfl⟩).symm.trans read
    | resized => exact absurd key (by decide)
  obtain ⟨fault, error, -⟩ := (array_writes_exact listing 0 "01" (.bool true)).2.1 refused
  exact ⟨fault, error⟩

end Sample

end EcmaMachine
