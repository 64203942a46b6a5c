import Mathlib.Order.WellFounded
import EcmaMachine.Host.Globals
import EcmaMachine.Proofs.Wire.Copies

/-!
Data as JSON text. A value has a text exactly if writing it out in full, each array and each plain
object at every place where it stands, comes to an end and meets neither a function nor an object
with a prototype. The heap may be any, also one with cycles.
-/

namespace EcmaMachine

/-! ## Writing in full -/

/-- The JSON is the value written out in full. What stands in two places is written twice. -/
inductive Store.Unfolds (s : Store) : Value → Json → Prop
  | undefined : Unfolds s .undefined .null
  | null : Unfolds s .null .null
  | bool (b : Bool) : Unfolds s (.bool b) (.bool b)
  | number (x : Float) : Unfolds s (.number x) (Wire.encodeNumber x)
  | string (text : String) : Unfolds s (.string text) (.string text)
  | array {id : ArrayId} {items : List Json} (length : (s.elements id).toList.length = items.length)
    (each : ∀ p ∈ (s.elements id).toList.zip items, Unfolds s p.1 p.2) :
    Unfolds s (.array id) (.array items)
  | object {id : ObjectId} {fields : List (String × Json)} (plain : (s.object id).prototype = none)
    (keys : (s.object id).properties.entries.map (·.1) = fields.map (·.1))
    (each : ∀ p ∈ (s.object id).properties.entries.zip fields, Unfolds s p.1.2 p.2.2) :
    Unfolds s (.object id) (Json.ofFields fields)

/-- What JSON cannot hold: functions, objects with a prototype, and what has itself among its own
parts or theirs. -/
inductive Store.Unwritable (s : Store) : Value → Prop
  | function (f : FunctionId) : Unwritable s (.function f)
  | prototyped {id : ObjectId} (kept : (s.object id).prototype.isSome = true) :
    Unwritable s (.object id)
  | inside {v : Value} (cycle : Relation.TransGen s.Part v v) : Unwritable s v

section Lists

variable {α β : Type} {as : List α}

/-- A place of the first list has one of the second, if they are equally long. -/
theorem exists_mem_zip {bs : List β} (length : as.length = bs.length) {a : α} (mem : a ∈ as) :
    ∃ b, (a, b) ∈ as.zip bs := by
  have each : List.Forall₂ (fun a b => (a, b) ∈ as.zip bs) as bs :=
    List.forall₂_iff_zip.2 ⟨length, fun both => both⟩
  obtain ⟨b, -, both⟩ := exists_of_forall₂ each mem
  exact ⟨b, both⟩

theorem length_of_keys {entries : List (String × α)} {fields : List (String × β)}
    (keys : entries.map (·.1) = fields.map (·.1)) : entries.length = fields.length := by
  simpa using congrArg List.length keys

/-- Two lists agree if each place of them is the one that goes with the same place of a third. -/
theorem eq_of_zip {bs cs : List β} (length : as.length = bs.length)
    (length' : as.length = cs.length)
    (unique : ∀ a b c, (a, b) ∈ as.zip bs → (a, c) ∈ as.zip cs → b = c) : bs = cs := by
  induction as generalizing bs cs with
  | nil =>
    rw [List.eq_nil_of_length_eq_zero length.symm, List.eq_nil_of_length_eq_zero length'.symm]
  | cons a as ih =>
    cases bs with
    | nil => cases length
    | cons b bs =>
      cases cs with
      | nil => cases length'
      | cons c cs =>
        rw [unique a b c List.mem_cons_self List.mem_cons_self,
          ih (Nat.succ.inj length) (Nat.succ.inj length') fun a b c inside inside' =>
            unique a b c (List.mem_cons_of_mem _ inside) (List.mem_cons_of_mem _ inside')]

end Lists

namespace Store

variable {s : Store} {v u : Value} {j i : Json}

section

variable (h : s.Unfolds v j)
include h

theorem Unfolds.part (part : s.Part v u) : ∃ i, s.Unfolds u i := by
  cases part with
  | element mem =>
    cases h with
    | array length each =>
      obtain ⟨i, both⟩ := exists_mem_zip length (Array.mem_toList_iff.2 mem)
      exact ⟨i, each _ both⟩
  | property _ mem =>
    cases h with
    | object _ keys each =>
      obtain ⟨f, both⟩ := exists_mem_zip (length_of_keys keys) mem
      exact ⟨f.2, each _ both⟩

theorem Unfolds.reaches (reaches : s.Reaches v u) : ∃ i, s.Unfolds u i := by
  induction reaches with
  | refl => exact ⟨j, h⟩
  | tail _ part ih =>
    obtain ⟨i, here⟩ := ih
    exact here.part part

/-- Below what is written out in full there is no way down without an end. -/
theorem Unfolds.acc : Acc (Function.swap s.Part) v := by
  induction h with
  | array length each ih =>
    refine .intro _ fun u part => ?_
    cases part with
    | element mem =>
      obtain ⟨i, both⟩ := exists_mem_zip length (Array.mem_toList_iff.2 mem)
      exact ih _ both
  | object plain keys each ih =>
    refine .intro _ fun u part => ?_
    cases part with
    | property _ mem =>
      obtain ⟨f, both⟩ := exists_mem_zip (length_of_keys keys) mem
      exact ih _ both
  | _ => exact .intro _ fun u part => nomatch part

theorem Unfolds.acyclic : ¬ Relation.TransGen s.Part v v := by
  have ends : Acc (Relation.TransGen (Function.swap s.Part)) v := h.acc.transGen
  intro cycle
  have back := Relation.transGen_swap.2 cycle
  clear h cycle
  induction ends with
  | intro v _ ih => exact ih v back back

theorem Unfolds.writable : ¬ s.Unwritable v := by
  intro unwritable
  cases unwritable with
  | function f => cases h
  | prototyped kept =>
    cases h with
    | object plain =>
      rw [plain] at kept
      cases kept
  | inside cycle => exact h.acyclic cycle

theorem Unfolds.unique (h' : s.Unfolds v i) : j = i := by
  induction h generalizing i with
  | array length each ih =>
    cases h' with
    | array length' each' =>
      rw [eq_of_zip length length' fun a b c inside inside' =>
        ih (a, b) inside (each' (a, c) inside')]
  | object plain keys each ih =>
    cases h' with
    | object _ keys' each' =>
      refine congrArg Json.ofFields (eq_of_zip (length_of_keys keys) (length_of_keys keys') ?_)
      intro e f f' inside inside'
      have key := key_eq_of_mem_zip keys inside
      have key' := key_eq_of_mem_zip keys' inside'
      exact Prod.ext (key.symm.trans key') (ih (e, f) inside (each' (e, f') inside'))
  | _ =>
    cases h'
    rfl

end

/-! ## What the tokens tell -/

/-- What has parts is there. -/
theorem Part.livesIn (part : s.Part v u) : v.LivesIn s := by
  cases part with
  | @element id u mem =>
    refine lt_of_not_ge fun unknown => ?_
    simp [elements, Array.getElem?_eq_none unknown] at mem
  | @property id entry plain mem =>
    refine lt_of_not_ge fun unknown => ?_
    have nothing : s.object id = default := by simp [object, Array.getElem?_eq_none unknown]
    rw [nothing] at mem
    exact List.not_mem_nil mem

/-- One step further down. -/
theorem Trail.down {path : List Value} (trail : s.Trail path) (fresh : v ∉ path)
    (part : s.Part v u) : s.Trail (v :: path) := by
  refine trail.cons fresh part.livesIn ?_
  cases part with
  | element => exact .inl ⟨_, rfl⟩
  | property => exact .inr ⟨_, rfl⟩

end Store

namespace Wire

variable {s : Store} {fuel : Nat} {path : List Value} {v : Value}

theorem encodeToken_marks (v : Value) (r : Registry) : (encodeToken v r).2.entries ≠ [] :=
  List.ne_nil_of_mem (r.tokenFor_spec v).2

/-- Either no item asks for a token, and the results are theirs, or one does. -/
theorem mapWith_or_marks {α β : Type} {f : α → Registry → β × Registry} {good : α → β → Prop}
    {bad : α → Prop} {items : List α} (within : ∀ a (r : Registry), r.Within (f a r).2)
    (each : ∀ a ∈ items, (∃ b, good a b ∧ ∀ r, f a r = (b, r)) ∨
      bad a ∧ ∀ r, (f a r).2.entries ≠ []) :
    (∃ bs, List.Forall₂ good items bs ∧ ∀ r, mapWith f items r = (bs, r)) ∨
      (∃ a ∈ items, bad a) ∧ ∀ r, (mapWith f items r).2.entries ≠ [] := by
  induction items with
  | nil => exact .inl ⟨[], .nil, fun _ => rfl⟩
  | cons a rest ih =>
    rcases each a List.mem_cons_self with ⟨b, goodB, quiet⟩ | ⟨badA, marks⟩
    · rcases ih (fun a mem => each a (List.mem_cons_of_mem _ mem)) with
        ⟨bs, goods, quiets⟩ | ⟨⟨a', mem, badA'⟩, marks⟩
      · exact .inl ⟨b :: bs, .cons goodB goods, fun r => by simp only [mapWith, quiet, quiets]⟩
      · refine .inr ⟨⟨a', List.mem_cons_of_mem _ mem, badA'⟩, fun r => ?_⟩
        simp only [mapWith, quiet]
        exact marks r
    · refine .inr ⟨⟨a, List.mem_cons_self, badA⟩, fun r => ?_⟩
      have later : (f a r).2.Within (mapWith f rest (f a r).2).2 :=
        (mapWith_each Registry.Within.refl Registry.Within.trans within rest _).1
      exact fun none => marks r (List.prefix_nil.1 (none ▸ later))

/-- From the value one comes upon something that JSON cannot hold, or one of the containers around
it. -/
def Stuck (s : Store) (path : List Value) (v : Value) : Prop :=
  ∃ u, s.Reaches v u ∧ (u ∈ path ∨ s.Unwritable u)

/-- What a part comes upon, the whole does. Where that is the whole itself, it is in a cycle. -/
theorem Stuck.of_part {u : Value} (part : s.Part v u) (h : Stuck s (v :: path) u) :
    Stuck s path v := by
  obtain ⟨w, reaches, found⟩ := h
  rcases found with around | unwritable
  · rcases List.mem_cons.1 around with rfl | around
    · exact ⟨w, .refl, .inr (.inside (.head' part reaches))⟩
    · exact ⟨w, .head part reaches, .inl around⟩
  · exact ⟨w, .head part reaches, .inr unwritable⟩

/-- The value is written in full without a token, or a token is asked for and there is a reason. -/
def Exact (s : Store) (fuel : Nat) (path : List Value) (v : Value) : Prop :=
  (∃ j, s.Unfolds v j ∧ ∀ r, encodeWithin s fuel path v r = (j, r)) ∨
    Stuck s path v ∧ ∀ r, (encodeWithin s fuel path v r).2.entries ≠ []

theorem exact_kept (kept : Kept s path v) : Exact s (fuel + 1) path v := by
  refine .inr ⟨⟨v, .refl, ?_⟩, fun r => ?_⟩
  · cases kept with
    | function f => exact .inr (.function f)
    | prototyped kept => exact .inr (.prototyped kept)
    | ancestor _ mem => exact .inl mem
  · rw [encodeWithin_kept kept]
    exact encodeToken_marks v r

theorem exact_array {id : Nat} (fresh : Value.array id ∉ path)
    (each : ∀ u, s.Part (.array id) u → Exact s fuel (.array id :: path) u) :
    Exact s (fuel + 1) path (.array id) := by
  have items := mapWith_or_marks (within_encodeWithin s fuel (.array id :: path))
    fun u mem => each u (.element (Array.mem_toList_iff.1 mem))
  simp only [Exact, encodeWithin_array fresh]
  rcases items with ⟨js, unfold, quiet⟩ | ⟨⟨u, mem, stuck⟩, marks⟩
  · obtain ⟨length, each⟩ := List.forall₂_iff_zip.1 unfold
    refine .inl ⟨.array js, .array length fun p mem => each mem, fun r => ?_⟩
    rw [quiet]
  · exact .inr ⟨stuck.of_part (.element (Array.mem_toList_iff.1 mem)), marks⟩

theorem exact_object {id : Nat} (plain : (s.object id).prototype = none)
    (fresh : Value.object id ∉ path)
    (each : ∀ u, s.Part (.object id) u → Exact s fuel (.object id :: path) u) :
    Exact s (fuel + 1) path (.object id) := by
  have fields : ∀ e ∈ (s.object id).properties.entries,
      (∃ f : String × Json, (e.1 = f.1 ∧ s.Unfolds e.2 f.2) ∧
        ∀ r, encodeField s fuel (.object id :: path) e r = (f, r)) ∨
      Stuck s (.object id :: path) e.2 ∧
        ∀ r, (encodeField s fuel (.object id :: path) e r).2.entries ≠ [] := by
    intro e mem
    rcases each e.2 (.property plain mem) with ⟨j, unfold, quiet⟩ | stuck
    · exact .inl ⟨(e.1, j), ⟨rfl, unfold⟩, fun r => by rw [encodeField, quiet]⟩
    · exact .inr stuck
  have within : ∀ e (r : Registry), r.Within (encodeField s fuel (.object id :: path) e r).2 :=
    fun e r => within_encodeWithin s fuel (.object id :: path) e.2 r
  have all := mapWith_or_marks within fields
  simp only [Exact, encodeWithin_object plain fresh]
  rcases all with ⟨fs, unfold, quiet⟩ | ⟨⟨e, mem, stuck⟩, marks⟩
  · have keys := keys_of_forall₂ (unfold.imp fun _ _ both => both.1)
    obtain ⟨-, each⟩ := List.forall₂_iff_zip.1 unfold
    refine .inl ⟨Json.ofFields fs, .object plain keys fun p mem => (each mem).2, fun r => ?_⟩
    rw [quiet]
  · exact .inr ⟨stuck.of_part (.property plain mem), marks⟩

/-- The fuel lasts, for each container around the value takes one and none is met twice. -/
theorem exact_encodeWithin (trail : s.Trail path)
    (enough : s.objects.size + s.arrays.size < fuel + path.length) (v : Value) :
    Exact s fuel path v := by
  induction fuel generalizing path v with
  | zero =>
    have short := trail.length_le
    omega
  | succ fuel ih =>
    have deeper : v ∉ path → ∀ u, s.Part v u → Exact s fuel (v :: path) u := fun fresh u part =>
      ih (trail.down fresh part) (by simp only [List.length_cons]; omega) u
    cases way s path v with
    | flat flat =>
      cases v with
      | undefined => exact .inl ⟨_, .undefined, fun _ => rfl⟩
      | null => exact .inl ⟨_, .null, fun _ => rfl⟩
      | bool b => exact .inl ⟨_, .bool b, fun _ => rfl⟩
      | number x => exact .inl ⟨_, .number x, fun _ => rfl⟩
      | string text => exact .inl ⟨_, .string text, fun _ => rfl⟩
      | _ => cases flat
    | token kept => exact exact_kept kept
    | array fresh => exact exact_array fresh (deeper fresh)
    | object plain fresh => exact exact_object plain fresh (deeper fresh)

theorem mapWith_congr {α β σ : Type} {f g : α → σ → β × σ} {items : List α}
    (same : ∀ a ∈ items, ∀ s, f a s = g a s) (s : σ) : mapWith f items s = mapWith g items s := by
  induction items generalizing s with
  | nil => rfl
  | cons a rest ih =>
    simp only [mapWith, same a List.mem_cons_self,
      ih fun a mem => same a (List.mem_cons_of_mem _ mem)]

/-- Fuel for every container that is not yet around the value is as good as any more. -/
theorem encodeWithin_enough {more : Nat} (trail : s.Trail path)
    (enough : s.objects.size + s.arrays.size < fuel + path.length) (le : fuel ≤ more) (v : Value)
    (r : Registry) : encodeWithin s more path v r = encodeWithin s fuel path v r := by
  induction fuel generalizing more path v r with
  | zero =>
    have short := trail.length_le
    omega
  | succ fuel ih =>
    obtain ⟨more, rfl⟩ := Nat.exists_eq_succ_of_ne_zero (Nat.ne_zero_of_lt le)
    have deeper : v ∉ path → ∀ u, s.Part v u → ∀ r,
        encodeWithin s more (v :: path) u r = encodeWithin s fuel (v :: path) u r :=
      fun fresh u part => ih (trail.down fresh part) (by simp only [List.length_cons]; omega)
        (Nat.le_of_succ_le_succ le) u
    cases way s path v with
    | flat flat => cases v <;> first | rfl | cases flat
    | token kept => rw [encodeWithin_kept kept, encodeWithin_kept kept]
    | array fresh =>
      rw [encodeWithin_array fresh, encodeWithin_array fresh, mapWith_congr fun u mem =>
        deeper fresh u (.element (Array.mem_toList_iff.1 mem))]
    | @object id plain fresh =>
      have fields : ∀ e ∈ (s.object id).properties.entries, ∀ r,
          encodeField s more (.object id :: path) e r =
            encodeField s fuel (.object id :: path) e r := fun e mem r => by
        simp only [encodeField, deeper fresh e.2 (.property plain mem) r]
      rw [encodeWithin_object plain fresh, encodeWithin_object plain fresh, mapWith_congr fields]

end Wire

namespace Globals

variable {s : Store} {v : Value}

/-- Refused is what holds something unwritable, and all else is written in full. -/
theorem stringify_cases (data : v ≠ .undefined) (noFunction : ∀ f, v ≠ .function f) :
    (∃ j, s.Unfolds v j ∧ stringify s v = .ok (.string j.compact)) ∨
      (∃ u, s.Reaches v u ∧ s.Unwritable u) ∧
        stringify s v =
          .error ⟨"TypeError: Converting circular structure or class instance to JSON", none⟩ := by
  have unopened : stringify s v =
      if (Wire.encodeValue s (.empty (.source 0)) v).2.isEmpty then
        .ok (.string (Wire.encodeValue s (.empty (.source 0)) v).1.compact)
      else .error ⟨"TypeError: Converting circular structure or class instance to JSON", none⟩ := by
    cases v with
    | undefined => exact absurd rfl data
    | function f => exact absurd rfl (noFunction f)
    | _ => rfl
  rw [unopened, Wire.encodeValue]
  rcases Wire.exact_encodeWithin (.nil s) (Nat.lt_succ_self _) v with
    ⟨j, unfold, quiet⟩ | ⟨⟨u, reaches, found⟩, marks⟩
  · refine .inl ⟨j, unfold, ?_⟩
    rw [quiet]
    rfl
  · refine .inr ⟨⟨u, reaches, found.resolve_left List.not_mem_nil⟩, if_neg ?_⟩
    rw [Registry.isEmpty, List.isEmpty_iff]
    exact marks _

/-- `JSON.stringify` of data, in any heap: the writing ends by itself, for no bound on its depth
above the number of containers makes a difference. It fails exactly if the data holds a function,
an object with a prototype or a cycle, and otherwise gives the text of the data written in full.
The heap is left as it was. -/
theorem json_text_exact (s : Store) (v : Value) (rest : List Value) (data : v ≠ .undefined)
    (noFunction : ∀ f, v ≠ .function f) :
    (∀ (fuel : Nat) (r : Registry), s.objects.size + s.arrays.size < fuel →
      Wire.encodeWithin s fuel [] v r = Wire.encodeValue s r v) ∧
    (call? "JSON.stringify" (v :: rest) s = some (.error
        ⟨"TypeError: Converting circular structure or class instance to JSON", none⟩, []) ↔
      ∃ u, s.Reaches v u ∧ s.Unwritable u) ∧
    (∀ out, call? "JSON.stringify" (v :: rest) s = some (.ok out, []) ↔
      ∃ j, s.Unfolds v j ∧ out = (.string j.compact, s)) := by
  refine ⟨fun fuel r enough => ?_, ?_⟩
  · exact Wire.encodeWithin_enough (.nil s) (Nat.lt_succ_self _) enough v r
  have called : call? "JSON.stringify" (v :: rest) s = some ((stringify s v).map (·, s), []) := rfl
  rw [called]
  rcases stringify_cases data noFunction with
    ⟨j, unfold, text⟩ | ⟨⟨u, reaches, unwritable⟩, refused⟩
  · rw [text, Except.map]
    refine ⟨⟨nofun, ?_⟩, fun out => ⟨?_, ?_⟩⟩
    · rintro ⟨u, reaches, unwritable⟩
      obtain ⟨i, here⟩ := unfold.reaches reaches
      exact absurd unwritable here.writable
    · rintro ⟨⟩
      exact ⟨j, unfold, rfl⟩
    · rintro ⟨i, unfold', rfl⟩
      rw [unfold.unique unfold']
  · rw [refused, Except.map]
    refine ⟨⟨fun _ => ⟨u, reaches, unwritable⟩, fun _ => rfl⟩, fun out => ⟨nofun, ?_⟩⟩
    rintro ⟨i, unfold, -⟩
    obtain ⟨i', here⟩ := unfold.reaches reaches
    exact absurd unwritable here.writable

end Globals

namespace Sample

/-- An array that holds another one twice, and an array that holds itself. -/
def pond : Store := ⟨#[], #[#[.array 1, .array 1], #[.bool true], #[.array 2]], #[], #[], #[]⟩

theorem pond_text_exact :
    Globals.call? "JSON.stringify" [.array 0] pond =
      some (.ok (.string "[[true],[true]]", pond), []) ∧
    Globals.call? "JSON.stringify" [.array 2] pond = some (.error
      ⟨"TypeError: Converting circular structure or class instance to JSON", none⟩, []) := by
  have inner : pond.Unfolds (.array 1) (.array [.bool true]) :=
    .array rfl fun p mem => by
      obtain rfl := List.mem_singleton.1 mem
      exact .bool true
  have outer : pond.Unfolds (.array 0) (.array [.array [.bool true], .array [.bool true]]) :=
    .array rfl fun p mem => by
      obtain rfl | mem := List.mem_cons.1 mem
      · exact inner
      · obtain rfl := List.mem_singleton.1 mem
        exact inner
  have cycle : pond.Part (.array 2) (.array 2) := .element (Array.mem_singleton.2 rfl)
  refine ⟨?_, ?_⟩
  · exact ((Globals.json_text_exact pond (.array 0) [] nofun nofun).2.2 _).2 ⟨_, outer, rfl⟩
  · exact (Globals.json_text_exact pond (.array 2) [] nofun nofun).2.1.2
      ⟨_, .refl, .inside (.single cycle)⟩

end Sample

end EcmaMachine
