import Mathlib.Data.List.Forall2
import EcmaMachine.Proofs.Dict
import EcmaMachine.Proofs.Growth
import EcmaMachine.Wire.Value

/-!
JSON as it is sent, and what reading it does to the store. The fields of an object are sorted by
key, so there is one way to write it; reading makes new cells and leaves the old ones alone.
-/

namespace EcmaMachine

/-! ## Running along lists -/

section Threads

variable {α β σ : Type} {f : α → σ → β × σ}

/-- Each result is that of `f` at some state on the way. -/
theorem mapWith_each {le : σ → σ → Prop} (refl : ∀ s, le s s)
    (trans : ∀ {a b c}, le a b → le b c → le a c) (step : ∀ a s, le s (f a s).2) (items : List α)
    (s : σ) :
    le s (mapWith f items s).2 ∧
      List.Forall₂ (fun a b => ∃ s₁, le s s₁ ∧ b = (f a s₁).1 ∧ le (f a s₁).2 (mapWith f items s).2)
        items (mapWith f items s).1 := by
  induction items generalizing s with
  | nil => exact ⟨refl s, .nil⟩
  | cons a rest ih =>
    obtain ⟨later, each⟩ := ih (f a s).2
    refine ⟨trans (step a s) later, .cons ⟨s, refl s, rfl, later⟩ ?_⟩
    exact each.imp fun a b ⟨s₁, from₁, eq, to₁⟩ => ⟨s₁, trans (step _ s) from₁, eq, to₁⟩

theorem mapWith_all {p : β → Prop} {items : List α} (each : ∀ a ∈ items, ∀ s, p (f a s).1) (s : σ) :
    ∀ b ∈ (mapWith f items s).1, p b := by
  induction items generalizing s with
  | nil => exact fun b mem => absurd mem List.not_mem_nil
  | cons a rest ih =>
    rintro b (_ | ⟨_, mem⟩)
    · exact each a List.mem_cons_self s
    · exact ih (fun a mem => each a (List.mem_cons_of_mem _ mem)) _ b mem

/-- Where `f` leaves the state alone, it is as if there were none. -/
theorem mapWith_fixed {items : List α} {results : List β} {s : σ}
    (each : List.Forall₂ (fun a b => f a s = (b, s)) items results) :
    mapWith f items s = (results, s) := by
  induction each with
  | nil => rfl
  | cons head _ ih => simp only [mapWith, head, ih]

theorem forall₂_through {γ : Type} {p : α → β → Prop} {q : β → γ → Prop} {as : List α}
    {bs : List β} {cs : List γ} (h : List.Forall₂ p as bs) (h' : List.Forall₂ q bs cs) :
    List.Forall₂ (fun a c => a ∈ as ∧ ∃ b, p a b ∧ q b c) as cs := by
  induction h generalizing cs with
  | nil =>
    cases h'
    exact .nil
  | cons head _ ih =>
    cases h' with
    | cons head' tail' =>
      refine .cons ⟨List.mem_cons_self, _, head, head'⟩ ?_
      exact (ih tail').imp fun a c ⟨mem, through⟩ => ⟨List.mem_cons_of_mem _ mem, through⟩

theorem exists_of_forall₂ {r : α → β → Prop} {as : List α} {bs : List β} (h : List.Forall₂ r as bs)
    {a : α} (mem : a ∈ as) : ∃ b ∈ bs, r a b := by
  induction h with
  | nil => cases mem
  | cons head _ ih =>
    rcases List.mem_cons.1 mem with rfl | mem
    · exact ⟨_, List.mem_cons_self, head⟩
    · obtain ⟨b, mem, related⟩ := ih mem
      exact ⟨b, List.mem_cons_of_mem _ mem, related⟩

theorem keys_of_forall₂ {as : List (String × α)} {bs : List (String × β)}
    (h : List.Forall₂ (fun a b => a.1 = b.1) as bs) : as.map (·.1) = bs.map (·.1) := by
  induction h with
  | nil => rfl
  | cons head _ ih => simp only [List.map_cons, head, ih]

theorem key_eq_of_mem_zip {as : List (String × α)} {bs : List (String × β)} {a : String × α}
    {b : String × β} (keys : as.map (·.1) = bs.map (·.1)) (mem : (a, b) ∈ as.zip bs) :
    a.1 = b.1 := by
  induction as generalizing bs with
  | nil => simp at mem
  | cons first rest ih =>
    cases bs with
    | nil => simp at mem
    | cons first' rest' =>
      simp only [List.map_cons, List.cons.injEq] at keys
      rcases List.mem_cons.1 mem with same | mem
      · cases same
        exact keys.1
      · exact ih keys.2 mem

end Threads

/-! ## Sorted fields -/

namespace Json

variable {field : String × Json} {fields : List (String × Json)} {key : String}

def Sorted (fields : List (String × Json)) : Prop := fields.Pairwise fun a b => a.1 < b.1

/-- A field is put behind the smaller keys, in the place of one with its own key. -/
theorem insertField_split (key : String) (value : Json) (fields : List (String × Json)) :
    ∃ before old after, fields = before ++ old ++ after ∧
      insertField key value fields = before ++ (key, value) :: after ∧
      (∀ field ∈ before, field.1 < key) ∧
      (old = [] ∧ (∀ field ∈ after.head?, key < field.1) ∨ ∃ v, old = [(key, v)]) := by
  induction fields with
  | nil => exact ⟨[], [], [], rfl, rfl, by simp, .inl ⟨rfl, by simp⟩⟩
  | cons first rest ih =>
    rw [insertField]
    split
    · next lt => exact ⟨[], [], first :: rest, rfl, rfl, by simp, .inl ⟨rfl, by simpa using lt⟩⟩
    · next notLt =>
      split
      · next gt =>
        obtain ⟨before, old, after, eq, inserted, lower, rest⟩ := ih
        exact ⟨first :: before, old, after, by simp [eq], by rw [inserted]; rfl,
          List.forall_mem_cons.2 ⟨gt, lower⟩, rest⟩
      · next notGt =>
        have same : first = (key, first.2) := by rw [String.le_antisymm notGt notLt]
        exact ⟨[], [first], rest, rfl, rfl, by simp, .inr ⟨first.2, by rw [← same]⟩⟩

theorem mem_insertField {value : Json} (mem : field ∈ insertField key value fields) :
    field = (key, value) ∨ field ∈ fields := by
  obtain ⟨before, old, after, rfl, inserted, -⟩ := insertField_split key value fields
  rw [inserted] at mem
  grind

theorem mem_insertField_self (key : String) (value : Json) (fields : List (String × Json)) :
    (key, value) ∈ insertField key value fields := by
  obtain ⟨before, old, after, -, inserted, -⟩ := insertField_split key value fields
  simp [inserted]

theorem mem_insertField_of_ne (mem : field ∈ fields) (ne : field.1 ≠ key) (value : Json) :
    field ∈ insertField key value fields := by
  obtain ⟨before, old, after, rfl, inserted, -, new⟩ := insertField_split key value fields
  rw [inserted]
  grind

theorem sorted_insertField (sorted : Sorted fields) (key : String) (value : Json) :
    Sorted (insertField key value fields) := by
  obtain ⟨before, old, after, rfl, inserted, lower, new⟩ := insertField_split key value fields
  rw [inserted]
  rw [Sorted, List.append_assoc, List.pairwise_append] at sorted
  obtain ⟨first, second, across⟩ := sorted
  have upper : ∀ field ∈ after, key < field.1 := by
    rcases new with ⟨rfl, next⟩ | ⟨v, rfl⟩
    · cases after with
      | nil => simp
      | cons head tail =>
        have lt := next head rfl
        exact List.forall_mem_cons.2 ⟨lt, fun field mem =>
          String.lt_trans lt ((List.pairwise_cons.1 second).1 field mem)⟩
    · exact (List.pairwise_cons.1 second).1
  refine List.pairwise_append.2 ⟨first, List.pairwise_cons.2 ⟨upper, ?_⟩, fun a mem => ?_⟩
  · exact (List.pairwise_append.1 second).2.1
  · exact List.forall_mem_cons.2 ⟨lower a mem, fun b mem' => across a mem b (by simp [mem'])⟩

theorem perm_insertField (fresh : key ∉ fields.map (·.1)) (value : Json) :
    (insertField key value fields).Perm ((key, value) :: fields) := by
  obtain ⟨before, old, after, rfl, inserted, -, ⟨rfl, -⟩ | ⟨v, rfl⟩⟩ :=
    insertField_split key value fields
  · rw [inserted, List.append_nil]
    exact List.perm_middle
  · simp at fresh

theorem insertField_last (before : ∀ field ∈ fields, field.1 < key) (value : Json) :
    insertField key value fields = fields ++ [(key, value)] := by
  induction fields with
  | nil => rfl
  | cons first rest ih =>
    have lt := before first List.mem_cons_self
    rw [insertField, if_neg (String.lt_asymm lt), if_pos lt, List.cons_append,
      ih fun field mem => before field (List.mem_cons_of_mem _ mem)]

def insertAll (sorted fields : List (String × Json)) : List (String × Json) :=
  fields.foldl (fun sorted (k, v) => insertField k v sorted) sorted

theorem sorted_insertAll {sorted : List (String × Json)} (h : Sorted sorted)
    (fields : List (String × Json)) : Sorted (insertAll sorted fields) := by
  induction fields generalizing sorted with
  | nil => exact h
  | cons field rest ih => exact ih (sorted_insertField h field.1 field.2)

theorem mem_insertAll {sorted : List (String × Json)} (mem : field ∈ insertAll sorted fields) :
    field ∈ sorted ∨ field ∈ fields := by
  induction fields generalizing sorted with
  | nil => exact .inl mem
  | cons first rest ih =>
    rcases ih mem with mem | mem
    · rcases mem_insertField mem with rfl | mem
      · exact .inr List.mem_cons_self
      · exact .inl mem
    · exact .inr (List.mem_cons_of_mem _ mem)

theorem perm_insertAll {sorted : List (String × Json)}
    (distinct : ((sorted ++ fields).map (·.1)).Nodup) :
    (insertAll sorted fields).Perm (sorted ++ fields) := by
  induction fields generalizing sorted with
  | nil => simp [insertAll]
  | cons field rest ih =>
    have moved : (sorted ++ field :: rest).Perm (field :: sorted ++ rest) := List.perm_middle
    have distinct' : ((field :: sorted ++ rest).map (·.1)).Nodup :=
      (moved.map _).nodup_iff.1 distinct
    have fresh : field.1 ∉ sorted.map (·.1) := by
      simp only [List.cons_append, List.map_cons, List.nodup_cons, List.map_append,
        List.mem_append, not_or] at distinct'
      exact distinct'.1.1
    have inserted := (perm_insertField fresh field.2).append_right rest
    exact (ih ((inserted.map _).nodup_iff.2 distinct')).trans (inserted.trans moved.symm)

theorem insertAll_of_sorted {sorted : List (String × Json)} (h : Sorted (sorted ++ fields)) :
    insertAll sorted fields = sorted ++ fields := by
  induction fields generalizing sorted with
  | nil => simp [insertAll]
  | cons field rest ih =>
    obtain ⟨-, -, across⟩ := List.pairwise_append.1 h
    have last := insertField_last (fun f mem => across f mem field List.mem_cons_self) field.2
    have step : insertAll sorted (field :: rest) =
        insertAll (insertField field.1 field.2 sorted) rest := rfl
    rw [step, last, ih (by simpa using h)]
    simp

theorem Sorted.distinct (sorted : Sorted fields) : (fields.map (·.1)).Nodup := by
  refine List.pairwise_map.2 (sorted.imp fun lt eq => ?_)
  rw [eq] at lt
  exact String.lt_irrefl _ lt

end Json

/-! ## Reading makes new cells -/

/-- The objects and arrays of the first store are those of the second, which may have more. -/
structure Store.Carries (s s' : Store) : Prop where
  moreObjects : s.objects.size ≤ s'.objects.size
  objects : ∀ id < s.objects.size, s'.object id = s.object id
  moreArrays : s.arrays.size ≤ s'.arrays.size
  arrays : ∀ id < s.arrays.size, s'.elements id = s.elements id

/-- The second store has all that the first has, and maybe more objects and arrays. -/
structure Store.Adds (s s' : Store) : Prop extends s.Carries s' where
  functions : s'.functions = s.functions
  scopes : s'.scopes = s.scopes

namespace Store

variable {s s' s'' : Store}

theorem Carries.refl (s : Store) : s.Carries s :=
  ⟨Nat.le_refl _, fun _ _ => rfl, Nat.le_refl _, fun _ _ => rfl⟩

theorem Carries.trans (h : s.Carries s') (h' : s'.Carries s'') : s.Carries s'' where
  moreObjects := Nat.le_trans h.moreObjects h'.moreObjects
  objects id lt :=
    (h'.objects id (Nat.lt_of_lt_of_le lt h.moreObjects)).trans (h.objects id lt)
  moreArrays := Nat.le_trans h.moreArrays h'.moreArrays
  arrays id lt := (h'.arrays id (Nat.lt_of_lt_of_le lt h.moreArrays)).trans (h.arrays id lt)

theorem Adds.refl (s : Store) : s.Adds s :=
  ⟨.refl s, rfl, rfl⟩

theorem Adds.trans (h : s.Adds s') (h' : s'.Adds s'') : s.Adds s'' where
  toCarries := h.toCarries.trans h'.toCarries
  functions := h'.functions.trans h.functions
  scopes := h'.scopes.trans h.scopes

theorem adds_newList (s : Store) (items : List Value) : s.Adds (s.newList items).2 where
  moreObjects := Nat.le_refl _
  objects _ _ := rfl
  moreArrays := (extends_newList s items).more
  arrays := (extends_newList s items).same
  functions := rfl
  scopes := rfl

theorem adds_newRecord (s : Store) (entries : List (String × Value)) :
    s.Adds (s.newRecord entries).2 where
  moreObjects := by simp [newRecord, newObject]
  objects id lt := by
    simp only [object, newRecord, newObject, Array.getD_eq_getD_getElem?, Array.getElem?_push,
      if_neg (Nat.ne_of_lt lt)]
  moreArrays := Nat.le_refl _
  arrays _ _ := rfl
  functions := rfl
  scopes := rfl

theorem elements_newList (s : Store) (items : List Value) :
    ((s.newList items).2.elements s.arrays.size).toList = items := by
  simp [newList, newArray, elements]

theorem object_newRecord (s : Store) (entries : List (String × Value)) :
    (s.newRecord entries).2.object s.objects.size = ⟨.ofEntries entries, none⟩ := by
  simp [newRecord, newObject, object]

end Store

namespace Wire

theorem decodeItems_eq (r : Registry) (s : Store) (items : List Json) :
    decodeItems r s items = mapWith (fun j s => decodeValue r s j) items s := by
  induction items generalizing s with
  | nil => rw [decodeItems, mapWith]
  | cons j rest ih => simp only [decodeItems, mapWith, ih]

def decodeField (r : Registry) (f : String × Json) (s : Store) : (String × Value) × Store :=
  ((f.1, (decodeValue r s f.2).1), (decodeValue r s f.2).2)

theorem decodeFields_eq (r : Registry) (s : Store) (fields : List (String × Json)) :
    decodeFields r s fields = mapWith (decodeField r) fields s := by
  induction fields generalizing s with
  | nil => rw [decodeFields, mapWith]
  | cons f rest ih => simp only [decodeFields, mapWith, ih, decodeField]

theorem resolveFields?_eq_none {r : Registry} {fields : List (String × Json)}
    (unknown : ∀ text t, fields = [("ref", .string text)] → Token.ofText? text = some t →
      r.resolve? t = none) : resolveFields? r fields = none := by
  unfold resolveFields?
  split
  · next text =>
    cases read : Token.ofText? text with
    | none => rfl
    | some t => exact unknown text t rfl read
  · rfl

theorem decodeValue_object {r : Registry} {fields : List (String × Json)}
    (unknown : resolveFields? r fields = none) (s : Store) :
    decodeValue r s (.object fields) =
      (decodeFields r s fields).2.newRecord (decodeFields r s fields).1 := by
  simp only [decodeValue, unknown]

mutual

theorem adds_decodeValue (r : Registry) (s : Store) : (j : Json) → s.Adds (decodeValue r s j).2
  | .null | .bool _ | .int _ | .float _ | .string _ => by
    simp only [decodeValue]
    exact .refl s
  | .array items => by
    rw [decodeValue]
    exact (adds_decodeItems r s items).trans (Store.adds_newList _ _)
  | .object fields => by
    rw [decodeValue]
    split
    · exact .refl s
    · exact (adds_decodeFields r s fields).trans (Store.adds_newRecord _ _)

theorem adds_decodeItems (r : Registry) (s : Store) :
    (items : List Json) → s.Adds (decodeItems r s items).2
  | [] => by
    rw [decodeItems]
    exact .refl s
  | j :: rest => by
    rw [decodeItems]
    exact (adds_decodeValue r s j).trans (adds_decodeItems r _ rest)

theorem adds_decodeFields (r : Registry) (s : Store) :
    (fields : List (String × Json)) → s.Adds (decodeFields r s fields).2
  | [] => by
    rw [decodeFields]
    exact .refl s
  | (_, j) :: rest => by
    rw [decodeFields]
    exact (adds_decodeValue r s j).trans (adds_decodeFields r _ rest)

end

/-- Each item is read at some store on the way. -/
theorem decodeItems_each (r : Registry) (s : Store) (items : List Json) :
    List.Forall₂ (fun j v => ∃ t, s.Adds t ∧ v = (decodeValue r t j).1 ∧
      (decodeValue r t j).2.Adds (decodeItems r s items).2) items (decodeItems r s items).1 := by
  rw [decodeItems_eq]
  exact (mapWith_each Store.Adds.refl Store.Adds.trans (fun j s => adds_decodeValue r s j) items s).2

theorem decodeFields_each (r : Registry) (s : Store) (fields : List (String × Json)) :
    List.Forall₂ (fun f e => f.1 = e.1 ∧ ∃ t, s.Adds t ∧ e.2 = (decodeValue r t f.2).1 ∧
      (decodeValue r t f.2).2.Adds (decodeFields r s fields).2) fields (decodeFields r s fields).1 := by
  rw [decodeFields_eq]
  have step : ∀ f s, Store.Adds s (decodeField r f s).2 := fun f s => adds_decodeValue r s f.2
  refine (mapWith_each Store.Adds.refl Store.Adds.trans step fields s).2.imp ?_
  rintro f e ⟨t, from₁, rfl, to₁⟩
  exact ⟨rfl, t, from₁, rfl, to₁⟩

theorem keys_decodeFields (r : Registry) (s : Store) (fields : List (String × Json)) :
    fields.map (·.1) = (decodeFields r s fields).1.map (·.1) :=
  keys_of_forall₂ ((decodeFields_each r s fields).imp fun _ _ h => h.1)

end Wire

end EcmaMachine
