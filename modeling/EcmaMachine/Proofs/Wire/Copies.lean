import EcmaMachine.Proofs.Wire.Relay

/-!
Values that come back. A value that is read where it was written is a copy of itself: plain data
is made anew, and what went as a token is the very thing. A cycle is cut where it closes, so the
copy leads back into the original.
-/

namespace EcmaMachine

/-! ## What is sent -/

/-- The second value is sent with the first: an element of an array, a property of a plain
object. -/
inductive Store.Part (s : Store) : Value → Value → Prop
  | element {id : ArrayId} {v : Value} (mem : v ∈ s.elements id) : Part s (.array id) v
  | property {id : ObjectId} {entry : String × Value} (plain : (s.object id).prototype = none)
    (mem : entry ∈ (s.object id).properties.entries) : Part s (.object id) entry.2

/-- All that is sent with a value. -/
def Store.Reaches (s : Store) : Value → Value → Prop := Relation.ReflTransGen s.Part

namespace Value

/-- The value is not lost in JSON, and a plain object is not taken for a token. -/
def Portable (s : Store) (r : Registry) : Value → Prop
  | .undefined => False
  | .number x => x.isFinite = true
  | .object id => (s.object id).prototype = none → ∀ text t,
    (s.object id).properties.entries = [("ref", .string text)] → Token.ofText? text = some t →
      r.resolve? t = none
  | _ => True

def Sendable (s : Store) (r : Registry) (v : Value) : Prop :=
  ∀ u, s.Reaches v u → u.Portable s r

theorem Sendable.self {s : Store} {r : Registry} {v : Value} (h : v.Sendable s r) :
    v.Portable s r :=
  h v .refl

theorem Sendable.part {s : Store} {r : Registry} {v u : Value} (h : v.Sendable s r)
    (part : s.Part v u) : u.Sendable s r :=
  fun w reaches => h w (.head part reaches)

end Value

/-- No object has a key twice. -/
def Store.Keyed (s : Store) : Prop := ∀ id, (s.object id).properties.keys.Nodup

/-! ## Copies -/

/-- The second value is a copy of the first, which has the containers of `path` around it: what
went as a token, one of these containers too, is the very thing, and all else is made anew. -/
inductive Copies (s s' : Store) : (path : List Value) → Value → Value → Prop
  | primitive {path : List Value} {v v' : Value} (flat : v.isHandle = false)
    (same : v.strictEquals v' = true) : Copies s s' path v v'
  | function {path : List Value} (f : FunctionId) : Copies s s' path (.function f) (.function f)
  | prototyped {path : List Value} {id : ObjectId} (kept : (s.object id).prototype.isSome = true) :
    Copies s s' path (.object id) (.object id)
  | ancestor {path : List Value} {v : Value} (mem : v ∈ path) : Copies s s' path v v
  | array {path : List Value} {id id' : ArrayId} (fresh : .array id ∉ path)
    (known : id' < s'.arrays.size)
    (length : (s.elements id).toList.length = (s'.elements id').toList.length)
    (each : ∀ p ∈ (s.elements id).toList.zip (s'.elements id').toList,
      Copies s s' (.array id :: path) p.1 p.2) :
    Copies s s' path (.array id) (.array id')
  | object {path : List Value} {id id' : ObjectId} (fresh : .object id ∉ path)
    (plain : (s.object id).prototype = none) (known : id' < s'.objects.size)
    (plain' : (s'.object id').prototype = none)
    (keys : ∀ key, (s'.getOwn? id' key).isSome = (s.getOwn? id key).isSome)
    (each : ∀ key u u', s.getOwn? id key = some u → s'.getOwn? id' key = some u' →
      Copies s s' (.object id :: path) u u') :
    Copies s s' path (.object id) (.object id')

theorem Copies.mono {s t t' : Store} {path : List Value} {v v' : Value} (h : Copies s t path v v')
    (carries : t.Carries t') : Copies s t' path v v' := by
  induction h with
  | primitive flat same => exact .primitive flat same
  | function f => exact .function f
  | prototyped kept => exact .prototyped kept
  | ancestor mem => exact .ancestor mem
  | array fresh known length each ih =>
    have same := carries.arrays _ known
    refine .array fresh (Nat.lt_of_lt_of_le known carries.moreArrays) (by rw [same, length])
      fun p mem => ?_
    rw [same] at mem
    exact ih p mem
  | object fresh plain known plain' keys each ih =>
    have same := carries.objects _ known
    have own : ∀ key, t'.getOwn? _ key = t.getOwn? _ key := fun key => by
      rw [Store.getOwn?, same, Store.getOwn?]
    refine .object fresh plain (Nat.lt_of_lt_of_le known carries.moreObjects) (by rw [same, plain'])
      (fun key => by rw [own, keys]) fun key u u' here there => ?_
    exact ih key u u' here (own key ▸ there)

/-! ## Reading what was written -/

def Value.IsContainer (v : Value) : Prop :=
  (∃ id : ArrayId, v = .array id) ∨ ∃ id : ObjectId, v = .object id

def Store.Trail (s : Store) (path : List Value) : Prop :=
  path.Nodup ∧ ∀ v ∈ path, v.LivesIn s ∧ v.IsContainer

theorem Store.Trail.nil (s : Store) : s.Trail [] := ⟨List.nodup_nil, List.forall_mem_nil _⟩

/-- Objects and arrays in one row. -/
def Store.place (s : Store) : Value → Nat
  | .object id => id
  | .array id => s.objects.size + id
  | _ => 0

theorem Store.Trail.length_le {s : Store} {path : List Value} (trail : s.Trail path) :
    path.length ≤ s.objects.size + s.arrays.size := by
  have nodup : (path.map s.place).Nodup := by
    refine trail.1.map_on fun v memV u memU same => ?_
    obtain ⟨livesV, containerV⟩ := trail.2 v memV
    obtain ⟨livesU, containerU⟩ := trail.2 u memU
    have apart : ∀ {i k : Nat}, k < s.objects.size → s.objects.size + i ≠ k := fun lt eq =>
      Nat.not_lt.2 (Nat.le_add_right _ _) (eq ▸ lt)
    rcases containerV with ⟨i, rfl⟩ | ⟨i, rfl⟩ <;> rcases containerU with ⟨k, rfl⟩ | ⟨k, rfl⟩
    · exact congrArg Value.array (Nat.add_left_cancel same)
    · exact absurd same (apart livesU)
    · exact absurd same.symm (apart livesV)
    · exact congrArg Value.object same
  have known : ∀ n ∈ path.map s.place, n < s.objects.size + s.arrays.size := by
    intro n mem
    obtain ⟨v, inside, rfl⟩ := List.mem_map.1 mem
    obtain ⟨lives, container⟩ := trail.2 v inside
    rcases container with ⟨id, rfl⟩ | ⟨id, rfl⟩
    · exact Nat.add_lt_add_left lives _
    · exact Nat.lt_of_lt_of_le lives (Nat.le_add_right _ _)
  simpa using Store.length_le_of_nodup nodup known

theorem Store.Trail.cons {s : Store} {path : List Value} {v : Value} (trail : s.Trail path)
    (fresh : v ∉ path) (lives : v.LivesIn s) (container : v.IsContainer) : s.Trail (v :: path) :=
  ⟨List.nodup_cons.2 ⟨fresh, trail.1⟩, List.forall_mem_cons.2 ⟨⟨lives, container⟩, trail.2⟩⟩

namespace Wire

theorem decodeValue_token {r R : Registry} {v : Value} (sound : R.Sound)
    (within : (encodeToken v r).2.Within R) (t : Store) :
    decodeValue R t (encodeToken v r).1 = (v, t) :=
  decodeValue_ref sound
    ((show (r.tokenFor v).2.Within R from within).subset (r.tokenFor_spec v).2) t

/-- Nothing but a text is written as a text. -/
theorem eq_string_of_encodeWithin {s : Store} {fuel : Nat} {path : List Value} {v : Value}
    {r : Registry} {text : String} (h : (encodeWithin s fuel path v r).1 = .string text) :
    v = .string text := by
  cases fuel with
  | zero => cases h
  | succ fuel =>
    cases v with
    | string t =>
      cases h
      rfl
    | number x =>
      simp only [encodeWithin, encodeNumber] at h
      split at h
      · cases h
      · split at h <;> cases h
    | array id | object id =>
      simp only [encodeWithin] at h
      split at h <;> cases h
    | _ => cases h

section Restoring

variable {s : Store} {R : Registry} {fuel : Nat} {path : List Value} {r : Registry} {t : Store}

/-- What is read off the JSON is a copy of the value. -/
def Reads (s : Store) (R : Registry) (t : Store) (path : List Value) (v : Value) (j : Json) : Prop :=
  Copies s (decodeValue R t j).2 path v (decodeValue R t j).1

/-- Whatever is written below the path, with tokens of the registry, is read as a copy. -/
def Restores (s : Store) (R : Registry) (fuel : Nat) (path : List Value) : Prop :=
  ∀ (v : Value) (r : Registry) (t : Store), v.LivesIn s → v.Sendable s R →
    (encodeWithin s fuel path v r).2.Within R → s.Carries t →
    Reads s R t path v (encodeWithin s fuel path v r).1

theorem restores_number {x : Float} (finite : x.isFinite = true) :
    Reads s R t path (.number x) (encodeNumber x) := by
  simp only [encodeNumber]
  split
  · next n integer => exact .primitive rfl (Number.beq_ofInt integer)
  · simp only [finite, if_true]
    exact .primitive rfl (Number.beq_of_isFinite finite)

theorem restores_array {id : ArrayId} (closed : s.Closed) (known : id < s.arrays.size)
    (sendable : (Value.array id).Sendable s R) (fresh : Value.array id ∉ path)
    (ih : Restores s R fuel (.array id :: path))
    (within : (encodeWithin s (fuel + 1) path (.array id) r).2.Within R) (carries : s.Carries t) :
    Reads s R t path (.array id) (encodeWithin s (fuel + 1) path (.array id) r).1 := by
  rw [encodeWithin_array fresh] at within ⊢
  have written := (mapWith_each Registry.Within.refl .trans
    (fun v r => within_encodeWithin s fuel (.array id :: path) v r) (s.elements id).toList r).2
  generalize mapWith (encodeWithin s fuel (.array id :: path)) (s.elements id).toList r = sent
    at within written
  obtain ⟨items, r₁⟩ := sent
  have read := decodeItems_each R t items
  have more := adds_decodeItems R t items
  rw [Reads, decodeValue]
  generalize decodeItems R t items = received at read more
  obtain ⟨vs, t₁⟩ := received
  have fits := t₁.adds_newList vs
  have elements := t₁.elements_newList vs
  have both : List.Forall₂ (fun u u' => Copies s t₁ (.array id :: path) u u')
      (s.elements id).toList vs := by
    refine (forall₂_through written read).imp ?_
    rintro u _ ⟨mem, _, ⟨r', -, rfl, later⟩, t', from', rfl, to'⟩
    have inside := Array.mem_toList_iff.1 mem
    exact (ih u r' t' (closed.elements id known u inside) (sendable.part (.element inside))
      (later.trans within) (carries.trans from'.toCarries)).mono to'.toCarries
  obtain ⟨length, each⟩ := List.forall₂_iff_zip.1 both
  refine .array fresh (by simp [Store.newList, Store.newArray])
    (length.trans (congrArg List.length elements.symm)) ?_
  rintro ⟨u, u'⟩ mem
  rw [elements] at mem
  exact (each mem).mono fits.toCarries

theorem restores_object {id : ObjectId} (closed : s.Closed) (keyed : s.Keyed)
    (known : id < s.objects.size) (sendable : (Value.object id).Sendable s R)
    (plain : (s.object id).prototype = none) (fresh : Value.object id ∉ path)
    (ih : Restores s R fuel (.object id :: path))
    (within : (encodeWithin s (fuel + 1) path (.object id) r).2.Within R) (carries : s.Carries t) :
    Reads s R t path (.object id) (encodeWithin s (fuel + 1) path (.object id) r).1 := by
  let entries := (s.object id).properties.entries
  rw [encodeWithin_object plain fresh] at within ⊢
  have written := (mapWith_each (f := encodeField s fuel (.object id :: path))
    Registry.Within.refl .trans
    (fun e r => within_encodeWithin s fuel (.object id :: path) e.2 r) entries r).2
  generalize mapWith (encodeField s fuel (.object id :: path)) (s.object id).properties.entries r =
    sent at within written
  obtain ⟨fields, r₁⟩ := sent
  have keys : entries.map (·.1) = fields.map (·.1) := by
    refine keys_of_forall₂ (written.imp ?_)
    rintro e f ⟨r', -, rfl, -⟩
    rfl
  have distinct : (fields.map (·.1)).Nodup := keys ▸ keyed id
  -- The fields are sorted on the way, but none is lost.
  have perm : (Json.insertAll [] fields).Perm ([] ++ fields) := Json.perm_insertAll distinct
  have unknown : resolveFields? R (Json.insertAll [] fields) = none := by
    refine resolveFields?_eq_none fun text tok single => sendable.self plain text tok ?_
    rw [single, List.nil_append, List.singleton_perm] at perm
    subst perm
    obtain ⟨e, _, ⟨r', -, same, -⟩, rest, eq⟩ := List.forall₂_cons_right_iff.1 written
    cases List.forall₂_nil_right_iff.1 rest
    have value := eq_string_of_encodeWithin (congrArg Prod.snd same).symm
    have key : "ref" = e.1 := congrArg Prod.fst same
    exact eq.trans (by rw [← value, key])
  have read := decodeFields_each R t (Json.insertAll [] fields)
  have keys' := keys_decodeFields R t (Json.insertAll [] fields)
  rw [Reads, show Json.ofFields (fields, r₁).1 = .object (Json.insertAll [] fields) from rfl,
    decodeValue_object unknown]
  generalize decodeFields R t (Json.insertAll [] fields) = received at read keys'
  obtain ⟨entries', t₁⟩ := received
  have fits := t₁.adds_newRecord entries'
  have object := t₁.object_newRecord entries'
  have distinct' : (entries'.map (·.1)).Nodup := by
    rw [← keys', (perm.map _).nodup_iff]
    exact distinct
  have set : (Dict.ofEntries entries').entries = entries' := Dict.entries_ofEntries distinct'
  have own : ∀ key, (t₁.newRecord entries').2.getOwn? t₁.objects.size key =
      Dict.lookup key entries' := fun key => by
    rw [Store.getOwn?, object, Dict.get?, set]
  refine .object fresh plain (by simp [Store.newRecord, Store.newObject]) (by rw [object])
    (fun key => ?_) fun key u u' here there => ?_
  · rw [own, Bool.eq_iff_iff, Dict.isSome_lookup, ← keys', (perm.map _).mem_iff]
    rw [Store.getOwn?, Dict.get?, Dict.isSome_lookup]
    simp only [List.nil_append, ← keys]
    rfl
  · obtain ⟨f, memF, r', -, rfl, later⟩ := exists_of_forall₂ written (Dict.mem_of_lookup here)
    obtain ⟨e', memE, key', t', from', value', to'⟩ := exists_of_forall₂ read (perm.mem_iff.2 memF)
    rw [own] at there
    have same : e' = (key, u') :=
      List.inj_on_of_nodup_map distinct' memE (Dict.mem_of_lookup there) key'.symm
    subst same
    have lives := closed.properties id known _ (Dict.mem_of_lookup here)
    have part := Store.Part.property plain (Dict.mem_of_lookup here)
    have copy : Copies _ _ _ _ _ := ih u r' t' lives (sendable.part part) (later.trans within)
      (carries.trans from'.toCarries)
    have copy' : Copies s (decodeValue R t' _).2 (.object id :: path) u u' := value' ▸ copy
    exact copy'.mono (to'.trans fits).toCarries

/-- The fuel lasts, for each container around the value takes one and none is met twice. -/
theorem restores (closed : s.Closed) (keyed : s.Keyed) (sound : R.Sound) (trail : s.Trail path)
    (enough : s.objects.size + s.arrays.size < fuel + path.length) : Restores s R fuel path := by
  intro v r t lives sendable within carries
  induction fuel generalizing path v r t with
  | zero =>
    have short := trail.length_le
    omega
  | succ fuel ih =>
    have deeper : ∀ u, u ∉ path → u.LivesIn s →
        u.IsContainer → Restores s R fuel (u :: path) :=
      fun u fresh lives container v r t =>
        ih (trail.cons fresh lives container) (by simp only [List.length_cons]; omega) v r t
    cases way s path v with
    | flat flat =>
      cases v with
      | undefined => exact sendable.self.elim
      | null => exact .primitive rfl rfl
      | bool b | string text =>
        exact .primitive rfl (by simp [encodeWithin, decodeValue, Value.strictEquals])
      | number x => exact restores_number sendable.self
      | _ => cases flat
    | token kept =>
      rw [encodeWithin_kept kept] at within ⊢
      rw [Reads, decodeValue_token sound within t]
      cases kept with
      | function f => exact .function f
      | prototyped kept => exact .prototyped kept
      | ancestor _ mem => exact .ancestor mem
    | @array id fresh =>
      exact restores_array closed lives sendable fresh (deeper _ fresh lives (.inl ⟨id, rfl⟩)) within
        carries
    | @object id plain fresh =>
      exact restores_object closed keyed lives sendable plain fresh
        (deeper _ fresh lives (.inr ⟨id, rfl⟩)) within carries

end Restoring

end Wire

/-! ## The same data -/

/-- Two values are alike where `same` holds of their parts: functions and objects with a prototype
are the very same, arrays agree one by one, plain objects key by key. -/
def Store.Alike (s t : Store) (same : Value → Value → Prop) : Value → Value → Prop
  | .array id, .array id' => List.Forall₂ same (s.elements id).toList (t.elements id').toList
  | .object id, .object id' =>
    if (s.object id).prototype.isSome = true then id = id'
    else (t.object id').prototype = none ∧
      ∀ key, Option.Rel same (s.getOwn? id key) (t.getOwn? id' key)
  | v, v' => v.strictEquals v' = true

/-- No way down through two values tells them apart. -/
def Store.Bisimilar (s t : Store) (v v' : Value) : Prop :=
  ∃ same : Value → Value → Prop, (∀ u u', same u u' → s.Alike t same u u') ∧ same v v'

/-- The value and all that is sent with it is there and can be sent. -/
def Value.Ready (s : Store) (r : Registry) (v : Value) : Prop := v.LivesIn s ∧ v.Sendable s r

/-- A copy of what is ready, or the thing itself: where a cycle was cut, the copy goes over into
the original. -/
inductive Copied (s t : Store) (r : Registry) : Value → Value → Prop
  | copy {path : List Value} {v v' : Value} (around : ∀ p ∈ path, p.Ready s r) (ready : v.Ready s r)
    (copies : Copies s t path v v') : Copied s t r v v'
  | self {v : Value} (ready : v.Ready s r) : Copied s t r v v

section Alike

variable {s t : Store} {r : Registry} {v v' : Value}

variable (closed : s.Closed)
include closed

theorem Value.Ready.element {id : ArrayId} {v : Value}
    (ready : (Value.array id).Ready s r) (mem : v ∈ s.elements id) : v.Ready s r :=
  ⟨closed.elements id ready.1 v mem, ready.2.part (.element mem)⟩

theorem Value.Ready.property {id : ObjectId} {key : String} {v : Value}
    (ready : (Value.object id).Ready s r) (plain : (s.object id).prototype = none)
    (own : s.getOwn? id key = some v) : v.Ready s r :=
  have mem := Dict.mem_of_lookup own
  ⟨closed.properties id ready.1 _ mem, ready.2.part (.property plain mem)⟩

theorem alike_self (carries : s.Carries t) (ready : v.Ready s r) :
    s.Alike t (Copied s t r) v v := by
  cases v with
  | undefined => exact ready.2.self.elim
  | null => rfl
  | bool b | string text | function f => simp [Store.Alike, Value.strictEquals]
  | number x => exact Number.beq_of_isFinite ready.2.self
  | array id =>
    simp only [Store.Alike, carries.arrays id ready.1]
    exact List.forall₂_same.2 fun u mem => .self (ready.element closed (Array.mem_toList_iff.1 mem))
  | object id =>
    have same := carries.objects id ready.1
    simp only [Store.Alike]
    split
    · trivial
    · next plain =>
      have plain := Option.not_isSome_iff_eq_none.1 plain
      refine ⟨by rw [same, plain], fun key => ?_⟩
      rw [show t.getOwn? id key = s.getOwn? id key by rw [Store.getOwn?, same, Store.getOwn?]]
      cases own : s.getOwn? id key with
      | none => exact .none
      | some u => exact .some (.self (ready.property closed plain own))

theorem alike_of_copies (carries : s.Carries t) {path : List Value}
    (around : ∀ p ∈ path, p.Ready s r) (ready : v.Ready s r) (copies : Copies s t path v v') :
    s.Alike t (Copied s t r) v v' := by
  have inside : ∀ p ∈ v :: path, p.Ready s r := List.forall_mem_cons.2 ⟨ready, around⟩
  cases copies with
  | primitive flat same => cases v <;> first | exact same | cases flat
  | function f => simp [Store.Alike, Value.strictEquals]
  | prototyped kept => simp only [Store.Alike, kept, if_true]
  | ancestor mem => exact alike_self closed carries ready
  | array fresh known length each =>
    refine List.forall₂_iff_zip.2 ⟨length, fun {u u'} mem => .copy inside ?_ (each _ mem)⟩
    exact ready.element closed (Array.mem_toList_iff.1 (List.of_mem_zip mem).1)
  | object fresh plain known plain' keys each =>
    simp only [Store.Alike, plain, Option.isSome_none, Bool.false_eq_true, if_false]
    refine ⟨plain', fun key => ?_⟩
    have both := keys key
    cases own : s.getOwn? _ key with
    | none =>
      rw [own, Option.isSome_none, Option.isSome_eq_false_iff, Option.isNone_iff_eq_none] at both
      rw [both]
      exact .none
    | some u =>
      rw [own, Option.isSome_some, Option.isSome_iff_exists] at both
      obtain ⟨u', own'⟩ := both
      rw [own']
      exact .some (.copy inside (ready.property closed plain own) (each key u u' own own'))

theorem bisimilar_of_carried (carries : s.Carries t) (ready : v.Ready s r)
    (copies : Copies s t [] v v') : s.Bisimilar t v v' := by
  refine ⟨Copied s t r, fun u u' copied => ?_, .copy (by simp) ready copies⟩
  cases copied with
  | copy around ready copies => exact alike_of_copies closed carries around ready copies
  | self ready => exact alike_self closed carries ready

end Alike

/-- Values survive the wire. One who knows none of the tokens in what was sent reads it and sends
the same again, without new tokens of its own. Read where it was written, it is a copy that cannot
be told from the original, and nothing that was there before has changed. -/
theorem Wire.sent_values_survive (s : Store) (r : Registry) (v : Value) :
    let sent := encodeValue s r v
    (∀ (r' : Registry) (t : Store), sent.1.Foreign r' →
      let got := decodeValue r' t sent.1
      encodeValue got.2 r' got.1 = (sent.1, r')) ∧
    (s.Closed → s.Keyed → v.LivesIn s → sent.2.Sound → v.Sendable s sent.2 →
      let back := decodeValue sent.2 s sent.1
      s.Adds back.2 ∧ Copies s back.2 [] v back.1 ∧ s.Bisimilar back.2 v back.1) := by
  intro sent
  refine ⟨fun r' t foreign => ?_, fun closed keyed lives sound sendable => ?_⟩
  · exact encodeValue_decodeValue (normal_encodeWithin s _ [] v r) foreign t
  · have adds := adds_decodeValue sent.2 s sent.1
    have copies := restores closed keyed sound (.nil s) (by simp) v r s lives sendable (.refl _)
      (.refl s)
    exact ⟨adds, copies, bisimilar_of_carried closed adds.toCarries ⟨lives, sendable⟩ copies⟩

namespace Sample

open Wire

/-- An object and an array in one another's reach and their own, a twin that is there twice, a
function, and an object with a prototype that has something no JSON holds. -/
def knot : Store where
  objects := #[⟨⟨[("list", .array 0), ("call", .function 0), ("twin", .object 1),
      ("again", .object 1)]⟩, none⟩,
    ⟨⟨[("ref", .string "no token"), ("up", .object 0)]⟩, none⟩,
    ⟨⟨[("hidden", .undefined)]⟩, some 1⟩]
  arrays := #[#[.number (Float.ofInt 7), .null, .bool true, .array 0, .object 0, .object 2]]
  functions := #[⟨.host "log" "log", .empty⟩]
  scopes := #[]
  references := #[]

theorem knot_closed : knot.Closed where
  elements := by
    intro id lt
    obtain rfl : id = 0 := Nat.lt_one_iff.1 lt
    decide
  properties := by decide

theorem knot_keyed : knot.Keyed
  | 0 | 1 | 2 => by decide
  | _ + 3 => List.nodup_nil

theorem knot_sound : (encodeValue knot (.empty (.source 1)) (.object 0)).2.Sound := ⟨by decide, by decide⟩

theorem knot_sendable (r : Registry) : (Value.object 0).Sendable knot r := by
  have object : ∀ id, (Value.object id).Portable knot r := by
    intro id _ _ _ same
    rcases id with _ | _ | _ | _
    case succ.succ.succ => exact absurd same.symm (List.cons_ne_nil _ _)
    all_goals simp [knot, Store.object] at same
  have element : ∀ id, ∀ v ∈ knot.elements id, v.Portable knot r := by
    rintro (_ | _)
    · have seven : (Float.ofInt 7).isFinite = true := by decide +kernel
      simpa [knot, Store.elements, Value.Portable, seven] using ⟨object 0, object 2⟩
    · simp [knot, Store.elements]
  have property : ∀ id, (knot.object id).prototype = none →
      ∀ e ∈ (knot.object id).properties.entries, e.2.Portable knot r := by
    rintro (_ | _ | _ | _)
    case succ.succ.succ => exact fun _ e mem => absurd (show e ∈ [] from mem) List.not_mem_nil
    all_goals simp [knot, Store.object, Value.Portable]
  intro u reaches
  rcases reaches.cases_tail with rfl | ⟨w, -, part⟩
  · exact object 0
  · cases part with
    | element mem => exact element _ u mem
    | property plain mem => exact property _ plain _ mem

theorem knot_survives :
    let sent := encodeValue knot (.empty (.source 1)) (.object 0)
    (∀ t : Store, sent.1.Foreign (.empty (.source 2)) ∧
      let got := decodeValue (.empty (.source 2)) t sent.1
      encodeValue got.2 (.empty (.source 2)) got.1 = (sent.1, .empty (.source 2))) ∧
    (knot.Closed ∧ knot.Keyed ∧ (Value.object 0).LivesIn knot ∧ sent.2.Sound ∧
      (Value.object 0).Sendable knot sent.2) ∧
    let back := decodeValue sent.2 knot sent.1
    knot.Adds back.2 ∧ Copies knot back.2 [] (.object 0) back.1 ∧
      knot.Bisimilar back.2 (.object 0) back.1 :=
  have survives := Wire.sent_values_survive knot (.empty (.source 1)) (.object 0)
  ⟨fun t => ⟨Json.foreign_empty _ _, survives.1 (.empty (.source 2)) t (Json.foreign_empty _ _)⟩,
    ⟨knot_closed, knot_keyed, by decide, knot_sound, knot_sendable _⟩,
    survives.2 knot_closed knot_keyed (by decide) knot_sound (knot_sendable _)⟩

end Sample

end EcmaMachine
