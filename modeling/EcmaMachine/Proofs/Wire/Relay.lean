import EcmaMachine.Proofs.Wire.Fields
import EcmaMachine.Proofs.Wire.Numbers
import EcmaMachine.Proofs.Wire.Tokens

/-!
Passing data on. What one side has written is read by another side into cells of its own, and
written again it is the same JSON: tokens that this side does not know stay plain objects on the
way.
-/

namespace EcmaMachine

namespace Json

/-- JSON as `Wire.encodeValue` writes it. -/
inductive Normal : Json → Prop
  | null : Normal .null
  | bool (b : Bool) : Normal (.bool b)
  | string (s : String) : Normal (.string s)
  | int {n : Int} (small : n.natAbs < Number.safeBound) : Normal (.int n)
  | float {x : Float} (fraction : Number.safeInteger? x = none) (finite : x.isFinite = true) :
    Normal (.float x)
  | array {items : List Json} (each : ∀ j ∈ items, Normal j) : Normal (.array items)
  | object {fields : List (String × Json)} (sorted : Sorted fields)
    (each : ∀ f ∈ fields, Normal f.2) : Normal (.object fields)

/-- None of the tokens in the JSON stands for anything on this side. -/
inductive Foreign (r : Registry) : Json → Prop
  | null : Foreign r .null
  | bool (b : Bool) : Foreign r (.bool b)
  | string (s : String) : Foreign r (.string s)
  | int (n : Int) : Foreign r (.int n)
  | float (x : Float) : Foreign r (.float x)
  | array {items : List Json} (each : ∀ j ∈ items, Foreign r j) : Foreign r (.array items)
  | object {fields : List (String × Json)}
    (unknown : ∀ text t, fields = [("ref", .string text)] → Token.ofText? text = some t →
      r.resolve? t = none)
    (each : ∀ f ∈ fields, Foreign r f.2) : Foreign r (.object fields)

/-- Where nothing was issued, every token is foreign. -/
theorem foreign_empty (fresh : Nat → Token) (j : Json) : j.Foreign (.empty fresh) := by
  cases j with
  | null => exact .null
  | bool b => exact .bool b
  | int n => exact .int n
  | float x => exact .float x
  | string text => exact .string text
  | array items =>
    refine .array fun j mem => ?_
    have := List.sizeOf_lt_of_mem mem
    exact foreign_empty fresh j
  | object fields =>
    refine .object (fun _ _ _ _ => rfl) fun f mem => ?_
    have := List.sizeOf_lt_of_mem mem
    have : sizeOf f.2 < sizeOf f := by cases f; simp only [Prod.mk.sizeOf_spec]; omega
    exact foreign_empty fresh f.2
termination_by sizeOf j

end Json

namespace Wire

variable {j : Json} {v : Value}

/-- The token of a thing is read as the thing itself. -/
theorem decodeValue_ref {R : Registry} (sound : R.Sound) {token : Token}
    (mem : (token, v) ∈ R.entries) (s : Store) :
    decodeValue R s (.object [("ref", .string token.text)]) = (v, s) := by
  have read := Token.ofText?_text (sound.width _ mem)
  have resolved := Registry.resolve?_of_mem sound mem
  simp only [decodeValue, resolveFields?, read, Option.bind_some, resolved]

/-! ## What is written -/

theorem normal_encodeNumber (x : Float) : (encodeNumber x).Normal := by
  simp only [encodeNumber]
  split
  · next n integer =>
    simp only [Number.safeInteger?] at integer
    split at integer
    · split at integer
      · next small =>
        cases integer
        exact .int small
      · cases integer
    · cases integer
  · next fraction =>
    split
    · next finite => exact .float fraction finite
    · exact .null

theorem normal_encodeToken (v : Value) (r : Registry) : (encodeToken v r).1.Normal :=
  .object (List.pairwise_singleton _ _) fun f mem => by
    obtain rfl := List.mem_singleton.1 mem
    exact .string _

def encodeField (s : Store) (fuel : Nat) (path : List Value) (entry : String × Value)
    (r : Registry) : (String × Json) × Registry :=
  ((entry.1, (encodeWithin s fuel path entry.2 r).1), (encodeWithin s fuel path entry.2 r).2)

section Containers

variable {s : Store} {path : List Value} {id : Nat}

/-- What goes as a token: functions, objects with a prototype, and what contains itself where it
comes again. -/
inductive Kept (s : Store) (path : List Value) : Value → Prop
  | function (f : FunctionId) : Kept s path (.function f)
  | prototyped {id : ObjectId} (kept : (s.object id).prototype.isSome = true) :
    Kept s path (.object id)
  | ancestor {v : Value} (handle : v.isHandle = true) (mem : v ∈ path) : Kept s path v

theorem encodeWithin_kept {v : Value} (kept : Kept s path v) (fuel : Nat) (r : Registry) :
    encodeWithin s (fuel + 1) path v r = encodeToken v r := by
  cases kept with
  | function f => rw [encodeWithin]
  | prototyped kept => rw [encodeWithin, if_pos (by simp [kept])]
  | ancestor handle mem =>
    cases v with
    | array id | object id => rw [encodeWithin, if_pos (by simp [mem])]
    | function f => rw [encodeWithin]
    | _ => cases handle

/-- The ways in which values are written. -/
inductive Way (s : Store) (path : List Value) : Value → Prop
  | flat {v : Value} (flat : v.isHandle = false) : Way s path v
  | token {v : Value} (kept : Kept s path v) : Way s path v
  | array {id : ArrayId} (fresh : .array id ∉ path) : Way s path (.array id)
  | object {id : ObjectId} (plain : (s.object id).prototype = none) (fresh : .object id ∉ path) :
    Way s path (.object id)

theorem way (s : Store) (path : List Value) (v : Value) : Way s path v := by
  by_cases mem : v ∈ path
  · cases handle : v.isHandle with
    | false => exact .flat handle
    | true => exact .token (.ancestor handle mem)
  · cases v with
    | function f => exact .token (.function f)
    | array id => exact .array mem
    | object id =>
      cases kept : (s.object id).prototype with
      | some p => exact .token (.prototyped (by rw [kept]; rfl))
      | none => exact .object kept mem
    | _ => exact .flat rfl

theorem encodeWithin_array (open_ : Value.array id ∉ path) (fuel : Nat) (r : Registry) :
    encodeWithin s (fuel + 1) path (.array id) r =
      (.array (mapWith (encodeWithin s fuel (.array id :: path)) (s.elements id).toList r).1,
        (mapWith (encodeWithin s fuel (.array id :: path)) (s.elements id).toList r).2) := by
  have none : ¬ path.contains (.array id) = true := by simpa using open_
  rw [encodeWithin, if_neg none]

theorem encodeWithin_object (plain : (s.object id).prototype = none)
    (open_ : Value.object id ∉ path) (fuel : Nat) (r : Registry) :
    encodeWithin s (fuel + 1) path (.object id) r =
      (Json.ofFields (mapWith (encodeField s fuel (.object id :: path))
        (s.object id).properties.entries r).1,
        (mapWith (encodeField s fuel (.object id :: path))
          (s.object id).properties.entries r).2) := by
  have none : ¬ ((s.object id).prototype.isSome || path.contains (.object id)) = true := by
    simpa [plain] using open_
  rw [encodeWithin, if_neg none]
  rfl

end Containers

/-- Writing takes nothing out of the registry. -/
theorem within_encodeWithin (s : Store) (fuel : Nat) (path : List Value) (v : Value)
    (r : Registry) : r.Within (encodeWithin s fuel path v r).2 := by
  have token : ∀ (v : Value) (r : Registry), r.Within (encodeToken v r).2 :=
    fun v r => (r.tokenFor_spec v).1
  induction fuel generalizing path v r with
  | zero => exact token v r
  | succ fuel ih =>
    cases way s path v with
    | flat flat => cases v <;> first | exact .refl r | cases flat
    | token kept =>
      rw [encodeWithin_kept kept]
      exact token v r
    | array fresh =>
      rw [encodeWithin_array fresh]
      exact (mapWith_each .refl .trans (fun v r => ih _ v r) _ r).1
    | @object id plain fresh =>
      rw [encodeWithin_object plain fresh]
      exact (mapWith_each (f := encodeField s fuel (.object id :: path)) .refl .trans
        (fun e r => ih _ e.2 r) _ r).1

theorem normal_encodeWithin (s : Store) (fuel : Nat) (path : List Value) (v : Value)
    (r : Registry) : (encodeWithin s fuel path v r).1.Normal := by
  induction fuel generalizing path v r with
  | zero => exact normal_encodeToken v r
  | succ fuel ih =>
    cases way s path v with
    | flat flat =>
      cases v with
      | undefined | null => exact .null
      | bool b => exact .bool b
      | number x => exact normal_encodeNumber x
      | string t => exact .string t
      | _ => cases flat
    | token kept =>
      rw [encodeWithin_kept kept]
      exact normal_encodeToken v r
    | array fresh =>
      rw [encodeWithin_array fresh]
      exact .array (mapWith_all (fun v _ r => ih _ v r) r)
    | @object id plain fresh =>
      rw [encodeWithin_object plain fresh]
      refine .object (Json.sorted_insertAll .nil _) fun f mem => ?_
      have all : ∀ f ∈ (mapWith (encodeField s fuel (.object id :: path))
          (s.object id).properties.entries r).1, f.2.Normal :=
        mapWith_all (p := fun f : String × Json => f.2.Normal) (fun entry _ r => ih _ entry.2 r) r
      exact (Json.mem_insertAll mem).elim (fun none => absurd none List.not_mem_nil) (all f)

/-! ## What is read -/

/-- The value has been made of the JSON: its objects are below `m` and its arrays below `n`, and
each is younger than what it holds. -/
inductive Image (s : Store) : (m n : Nat) → Json → Value → Prop
  | null {m n : Nat} : Image s m n .null .null
  | bool {m n : Nat} (b : Bool) : Image s m n (.bool b) (.bool b)
  | int {m n : Nat} (i : Int) : Image s m n (.int i) (.number (Float.ofInt i))
  | float {m n : Nat} (x : Float) : Image s m n (.float x) (.number x)
  | string {m n : Nat} (t : String) : Image s m n (.string t) (.string t)
  | array {m n id : Nat} {items : List Json} (known : id < n)
    (length : items.length = (s.elements id).toList.length)
    (each : ∀ p ∈ items.zip (s.elements id).toList, Image s m id p.1 p.2) :
    Image s m n (.array items) (.array id)
  | object {m n id : Nat} {fields : List (String × Json)} (known : id < m)
    (plain : (s.object id).prototype = none)
    (keys : fields.map (·.1) = (s.object id).properties.keys)
    (each : ∀ p ∈ fields.zip (s.object id).properties.entries, Image s id n p.1.2 p.2.2) :
    Image s m n (.object fields) (.object id)

theorem Image.mono {s s' : Store} {m n m' n' : Nat} (image : Image s m n j v) (adds : s.Adds s')
    (objects : m ≤ s.objects.size) (arrays : n ≤ s.arrays.size) (le : m ≤ m') (le' : n ≤ n') :
    Image s' m' n' j v := by
  induction image generalizing m' n' with
  | null => exact .null
  | bool b => exact .bool b
  | int i => exact .int i
  | float x => exact .float x
  | string t => exact .string t
  | array known length each ih =>
    have same := adds.arrays _ (Nat.lt_of_lt_of_le known arrays)
    refine .array (Nat.lt_of_lt_of_le known le') (by rw [same, length]) fun p mem => ?_
    rw [same] at mem
    exact ih p mem objects (Nat.le_of_lt (Nat.lt_of_lt_of_le known arrays)) le (Nat.le_refl _)
  | object known plain keys each ih =>
    have same := adds.objects _ (Nat.lt_of_lt_of_le known objects)
    refine .object (Nat.lt_of_lt_of_le known le) (by rw [same, plain]) (by rw [same, keys])
      fun p mem => ?_
    rw [same] at mem
    exact ih p mem (Nat.le_of_lt (Nat.lt_of_lt_of_le known objects)) arrays (Nat.le_refl _) le'

def Around (m n : Nat) (path : List Value) : Prop :=
  (∀ id, .object id ∈ path → m ≤ id) ∧ ∀ id, .array id ∈ path → n ≤ id

theorem encodeNumber_ofInt {n : Int} (small : n.natAbs < Number.safeBound) :
    encodeNumber (Float.ofInt n) = .int n := by
  simp only [encodeNumber, Number.safeInteger?_ofInt small]

/-- What was made of JSON is written as that JSON, and no token is needed for it. -/
theorem encodeWithin_image {s : Store} {m n : Nat} (image : Image s m n j v) (normal : j.Normal)
    {fuel : Nat} (enough : m + n ≤ fuel) {path : List Value} (around : Around m n path)
    (r : Registry) : encodeWithin s (fuel + 1) path v r = (j, r) := by
  induction image generalizing fuel path with
  | null | bool b | string t => rfl
  | int i =>
    cases normal with
    | int small => rw [encodeWithin, encodeNumber_ofInt small]
  | float x =>
    cases normal with
    | float fraction finite => simp only [encodeWithin, encodeNumber, fraction, finite, if_true]
  | @array m n id items known length each ih =>
    cases normal with
    | array normal =>
      obtain ⟨objects, arrays⟩ := around
      have closed : Value.array id ∉ path := fun mem => Nat.not_le_of_lt known (arrays id mem)
      have around' : Around m id (.array id :: path) := by
        refine ⟨fun other mem => ?_, fun other mem => ?_⟩
        · simpa using objects other (by simpa using mem)
        · rcases List.mem_cons.1 mem with same | mem
          · cases same
            exact Nat.le_refl _
          · exact Nat.le_trans (Nat.le_of_lt known) (arrays other mem)
      obtain ⟨fuel, rfl⟩ : ∃ less, fuel = less + 1 := ⟨fuel - 1, by omega⟩
      have fixed : List.Forall₂ (fun v j => encodeWithin s (fuel + 1) (.array id :: path) v r = (j, r))
          (s.elements id).toList items := by
        refine (List.forall₂_iff_zip.2 ⟨length, fun {j v} mem => ?_⟩).flip
        exact ih (j, v) mem (normal j (List.of_mem_zip mem).1) (by omega) around'
      rw [encodeWithin_array closed, mapWith_fixed fixed]
  | @object m n id fields known plain keys each ih =>
    cases normal with
    | object sorted normal =>
      obtain ⟨objects, arrays⟩ := around
      have closed : Value.object id ∉ path := fun mem => Nat.not_le_of_lt known (objects id mem)
      have around' : Around id n (.object id :: path) := by
        refine ⟨fun other mem => ?_, fun other mem => ?_⟩
        · rcases List.mem_cons.1 mem with same | mem
          · cases same
            exact Nat.le_refl _
          · exact Nat.le_trans (Nat.le_of_lt known) (objects other mem)
        · simpa using arrays other (by simpa using mem)
      obtain ⟨fuel, rfl⟩ : ∃ less, fuel = less + 1 := ⟨fuel - 1, by omega⟩
      have length : fields.length = (s.object id).properties.entries.length := by
        simpa [Dict.keys] using congrArg List.length keys
      have fixed : List.Forall₂ (fun entry f =>
          encodeField s (fuel + 1) (.object id :: path) entry r = (f, r))
          (s.object id).properties.entries fields := by
        refine (List.forall₂_iff_zip.2 ⟨length, fun {f entry} mem => ?_⟩).flip
        have same : f.1 = entry.1 := key_eq_of_mem_zip keys mem
        have value : encodeWithin s (fuel + 1) (.object id :: path) entry.2 r = (f.2, r) :=
          ih (f, entry) mem (normal f (List.of_mem_zip mem).1) (by omega) around'
        simp only [flip, encodeField, value, ← same]
      have written : Json.insertAll [] fields = fields := Json.insertAll_of_sorted sorted
      rw [encodeWithin_object plain closed, mapWith_fixed fixed]
      exact congrArg (fun fields => (Json.object fields, r)) written

theorem decodeValue_image {r : Registry} (normal : j.Normal) (foreign : j.Foreign r) (s : Store) :
    Image (decodeValue r s j).2 (decodeValue r s j).2.objects.size
      (decodeValue r s j).2.arrays.size j (decodeValue r s j).1 := by
  induction normal generalizing s with
  | null => exact .null
  | bool b => exact .bool b
  | string t => exact .string t
  | int small => exact .int _
  | float fraction finite => exact .float _
  | @array items normal ih =>
    cases foreign with
    | array foreign =>
      rw [decodeValue]
      have each := decodeItems_each r s items
      generalize decodeItems r s items = read at each
      obtain ⟨vs, t⟩ := read
      have adds := t.adds_newList vs
      have elements := t.elements_newList vs
      obtain ⟨length, each⟩ := List.forall₂_iff_zip.1 each
      refine .array (by simp [Store.newList, Store.newArray])
        (length.trans (congrArg List.length elements.symm)) ?_
      rintro ⟨j, v⟩ mem
      rw [elements] at mem
      obtain ⟨t₁, -, rfl, later⟩ := each mem
      have here := List.of_mem_zip mem
      refine (ih j here.1 (foreign j here.1) t₁).mono (later.trans adds) (Nat.le_refl _)
        (Nat.le_refl _) (later.trans adds).moreObjects later.moreArrays
  | @object fields sorted normal ih =>
    cases foreign with
    | object unknown foreign =>
      rw [decodeValue]
      simp only [resolveFields?_eq_none unknown]
      have each := decodeFields_each r s fields
      have keys := keys_decodeFields r s fields
      generalize decodeFields r s fields = read at each keys
      obtain ⟨entries, t⟩ := read
      have adds := t.adds_newRecord entries
      have object := t.object_newRecord entries
      obtain ⟨length, each⟩ := List.forall₂_iff_zip.1 each
      have set : (Dict.ofEntries entries).entries = entries := by
        refine Dict.entries_ofEntries ?_
        rw [← keys]
        exact sorted.distinct
      refine .object (by simp [Store.newRecord, Store.newObject]) (by rw [object])
        (by rw [object, Dict.keys, set]; exact keys) ?_
      rintro ⟨f, entry⟩ mem
      rw [object, set] at mem
      obtain ⟨-, t₁, -, value, later⟩ := each mem
      have here := List.of_mem_zip mem
      simp only [value]
      exact (ih f here.1 (foreign f here.1) t₁).mono (later.trans adds) (Nat.le_refl _)
        (Nat.le_refl _) later.moreObjects (later.trans adds).moreArrays

/-- A side that knows none of the tokens writes what it has read as it was. -/
theorem encodeValue_decodeValue {r : Registry} (normal : j.Normal) (foreign : j.Foreign r)
    (s : Store) : encodeValue (decodeValue r s j).2 r (decodeValue r s j).1 = (j, r) :=
  encodeWithin_image (decodeValue_image normal foreign s) normal (Nat.le_refl _)
    ⟨fun _ mem => absurd mem List.not_mem_nil, fun _ mem => absurd mem List.not_mem_nil⟩ r

end Wire

/-! ## Bindings that are saved -/

namespace SavedScopes

def saveField (s : Store) (entry : String × Value) (r : Registry) : (String × Json) × Registry :=
  ((entry.1, (Wire.encodeValue s r entry.2).1), (Wire.encodeValue s r entry.2).2)

theorem saved_each (s : Store) (entries : List (String × Value)) (r : Registry) :
    let saved := mapWith (saveField s) entries r
    r.Within saved.2 ∧ List.Forall₂ (fun e f => e.1 = f.1 ∧
      ∃ r', f.2 = (Wire.encodeValue s r' e.2).1 ∧ (Wire.encodeValue s r' e.2).2.Within saved.2)
      entries saved.1 := by
  have each := mapWith_each (f := saveField s) .refl .trans
    (fun e r => Wire.within_encodeWithin s _ [] e.2 r) entries r
  refine ⟨each.1, each.2.imp ?_⟩
  rintro e f ⟨r', -, rfl, later⟩
  exact ⟨rfl, r', rfl, later⟩

end SavedScopes

end EcmaMachine
