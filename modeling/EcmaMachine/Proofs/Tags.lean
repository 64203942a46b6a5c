import EcmaMachine.Proofs.Region.Run

/-!
References and tags belong to bindings. Whatever is done to the scopes, and whatever machines do in
between, a binding has one reference and no other binding has it; through it the binding is read as
it is at the time. A tag of a binding is what was last set there, if it was not deleted since.
-/

namespace EcmaMachine

variable {η : Type} {s t first : Store} {name : String} {owner e : ScopeId}

/-! ## Deeds -/

/-- What can be done to the scopes of a store. -/
inductive Deed
  | child (parent : ScopeId) (values : List (String × Value))
  | declare (id : ScopeId) (name : String) (v : Value)
  | assign (id : ScopeId) (name : String) (v : Value)
  | merge (id : ScopeId) (values : List (String × Value))
  | reference (id : ScopeId) (name : String)
  | setTag (id : ScopeId) (name key : String) (v : Value)
  | deleteTag (id : ScopeId) (name key : String)

abbrev TagPlace := ScopeId × String × String

abbrev Note := TagPlace × Option Value

namespace Deed

def perform (s : Store) : Deed → Store
  | child parent values => (s.childScope parent values).2
  | declare id name v => s.declare id name v
  | assign id name v => (s.assign? id name v).getD s
  | merge id values => s.declareAll id values
  | reference id name => ((s.reference? id name).map (·.2)).getD s
  | setTag id name key v => (s.setTag? id name key v).getD s
  | deleteTag id name key => s.deleteTag id name key

def note? (s : Store) : Deed → Option Note
  | setTag id name key v => (s.resolve? id name).map fun owner => ((owner, name, key), some v)
  | deleteTag id name key => (s.resolve? id name).map fun owner => ((owner, name, key), none)
  | _ => none

end Deed

/-- How one store came from another. The embedder and the host functions that are called do their
deeds, and what they like with all but the scopes; in between, any machine may take a step. What
became of the tags is written down, the latest first. -/
inductive Chronicle (η : Type) (s : Store) : List Note → Store → Prop
  | start : Chronicle η s [] s
  | deed {log : List Note} {t : Store} (d : Deed) :
    Chronicle η s log t → Chronicle η s ((d.note? t).toList ++ log) (d.perform t)
  | aside {log : List Note} {t t' : Store} : Chronicle η s log t → t'.scopes = t.scopes →
    t'.references = t.references → Chronicle η s log t'
  | step {log : List Note} {host : Host η} {l l' : Ledger} {m m' : State η} :
    Chronicle η s log m.store → (∀ {word this args}, ¬ m.CallsHost word this args) →
    l.step host m = some (l', m') → Chronicle η s log m'.store

/-! ## Steps -/

namespace Region

theorem whole_stays (m : State η) : whole.Stays m where
  store := rfl
  keeps := trivial
  stack f _ := whole_carries f
  agenda a _ := ⟨Nat.zero_le _, by cases a.2 <;> first | exact whole_has | exact whole_signals⟩
  held _ _ _ _ f _ := whole_carries f
  calls := Nat.zero_le _
  control := by
    cases m.control with
    | eval => exact whole_allows
    | bind => exact ⟨whole_allows, whole_has⟩
    | ret => exact ⟨whole_has, whole_has⟩
    | fail => exact whole_signals
    | apply => exact ⟨trivial, whole_has, fun _ _ => whole_has⟩
    | idle => trivial

theorem whole_admits (host : Host η) : whole.Admits host := by
  intro word this args ticket store kept _ _ _
  refine ⟨⟨trivial, fun _ => trivial⟩, ?_⟩
  cases (host.call word this args ticket store kept).reply with
  | value => exact whole_has
  | failure => exact whole_signals
  | call => exact ⟨trivial, whole_has, fun _ _ => whole_has⟩
  | hold => exact fun o _ => by cases o <;> first | exact whole_has | exact whole_signals

end Region

namespace Store

theorem tended_step {host : Host η} {l l' : Ledger} {m m' : State η}
    (quiet : ∀ {word this args}, ¬ m.CallsHost word this args)
    (stepped : l.step host m = some (l', m')) : m.store.Tended m'.store := by
  have keeps := ((Region.whole_stays m).step ⟨True, False⟩ (Region.whole_admits host)
    (Region.fits_of_links (fun _ _ _ => trivial) m) (.inl trivial)
    (.inr fun calls => absurd calls quiet) (Region.delivers_refl l) stepped).1
  exact keeps.faithful.tended.resolve_left id

/-! ## Tags -/

def tagAt (s : Store) (place : TagPlace) : Option Value :=
  ((s.scope place.1).tags.get? place.2.1).bind (·.get? place.2.2)

theorem tag?_eq (s : Store) (e : ScopeId) (name key : String) :
    s.tag? e name key = (s.resolve? e name).bind fun owner => s.tagAt (owner, name, key) := rfl

theorem Tended.tagAt (h : s.Tended t) (place : TagPlace) : t.tagAt place = s.tagAt place := by
  rw [Store.tagAt, h.tags, Store.tagAt]

end Store

namespace Deed

/-- Nothing is written down of a deed that has nothing to do with tags. -/
theorem tended {d : Deed} (unnoted : d.note? s = none) : s.Tended (d.perform s) := by
  cases d with
  | child parent values => exact s.tended_newScope rfl rfl
  | declare id name v => exact s.tended_declare id name v
  | assign id name v =>
    cases found : s.resolve? id name with
    | none => simpa [perform, Store.assign?, found] using .refl s
    | some owner => simpa [perform, Store.assign?, found] using s.tended_declare owner name v
  | merge id values =>
    refine (s.writes_modifyScope id _).tended rfl rfl (fun name was => ?_) rfl
    exact Dict.contains_setAll was values
  | reference id name =>
    cases given : s.reference? id name with
    | none => simpa [perform, given] using .refl s
    | some made => simpa [perform, given] using Store.tended_reference given
  | setTag id name key v =>
    have free : s.resolve? id name = none := Option.map_eq_none_iff.1 unnoted
    simpa [perform, Store.setTag?, free] using .refl s
  | deleteTag id name key =>
    have free : s.resolve? id name = none := Option.map_eq_none_iff.1 unnoted
    simpa [perform, Store.deleteTag, free] using .refl s

/-- What is written down is what becomes of the tag. -/
theorem noted {d : Deed} {place : TagPlace} {v : Option Value}
    (note : d.note? s = some (place, v)) : s.Refers (d.perform s) ∧
    ∀ p, (d.perform s).tagAt p = if p = place then v else s.tagAt p := by
  cases d with
  | setTag id name key w =>
    obtain ⟨owner, found, ⟨⟩⟩ := Option.map_eq_some_iff.1 note
    simp only [perform, Store.setTag?, found, Option.map_some, Option.getD_some]
    refine ⟨(s.writes_modifyScope owner _).refers rfl rfl fun _ was => was, fun p => ?_⟩
    obtain ⟨id, m, k⟩ := p
    rw [Store.tagAt, Store.scope_modifyScope (Store.lt_of_resolve found)]
    cases tags : (s.scope owner).tags.get? name <;>
      grind [Store.tagAt, Dict.get?_set_eq, Dict.get?_empty]
  | deleteTag id name key =>
    obtain ⟨owner, found, ⟨⟩⟩ := Option.map_eq_some_iff.1 note
    simp only [perform, Store.deleteTag, found]
    refine ⟨(s.writes_modifyScope owner _).refers rfl ?_ fun m was => ?_, fun p => ?_⟩
    · split <;> rfl
    · split <;> exact was
    · obtain ⟨id, m, k⟩ := p
      rw [Store.tagAt, Store.scope_modifyScope (Store.lt_of_resolve found)]
      cases tags : (s.scope owner).tags.get? name <;>
        grind [Store.tagAt, Dict.get?_set_eq, Dict.get?_erase, Dict.get?_erase_of_ne]
  | _ => cases note

end Deed

/-! ## Chronicles -/

namespace Store

structure Bare (s : Store) : Prop where
  none : s.references = #[]
  references : ∀ id, (s.scope id).references = .empty
  tags : ∀ id, (s.scope id).tags = .empty

theorem Bare.linked (h : s.Bare) : s.Linked := by
  intro id name r
  simp [h.references, h.none, Dict.get?_empty]

end Store

namespace Chronicle

variable {log : List Note}

theorem refers (h : Chronicle η s log t) : s.Refers t := by
  induction h with
  | start => exact .refl s
  | @deed _ t d _ ih =>
    cases note : d.note? t with
    | none => exact ih.trans (Deed.tended note).toRefers
    | some noted => exact ih.trans (Deed.noted note).1
  | aside _ scopes references ih => exact ih.trans (Store.tended_of_same scopes references).toRefers
  | step _ quiet stepped ih => exact ih.trans (Store.tended_step quiet stepped).toRefers

theorem tagAt_eq (h : Chronicle η first log s) (bare : first.Bare) (place : TagPlace) :
    s.tagAt place = (log.lookup place).join := by
  induction h with
  | start => simp [Store.tagAt, bare.tags, Dict.get?_empty]
  | @deed log t d _ ih =>
    cases note : d.note? t with
    | none => exact ((Deed.tended note).tagAt place).trans ih
    | some noted =>
      obtain ⟨changed, v⟩ := noted
      rw [(Deed.noted note).2, ih, Option.toList_some, List.singleton_append, List.lookup_cons]
      by_cases same : place = changed
      · simp [same]
      · rw [if_neg same, beq_eq_false_iff_ne.2 same]
  | aside _ scopes references ih =>
    exact ((Store.tended_of_same scopes references).tagAt place).trans ih
  | step _ quiet stepped ih => exact ((Store.tended_step quiet stepped).tagAt place).trans ih

end Chronicle

namespace Store

theorem exists_reference (linked : s.Linked) (found : s.resolve? e name = some owner) :
    ∃ r s', s.reference? e name = some (r, s') ∧ s'.references[r]? = some ⟨name, owner⟩ := by
  have some : (s.reference? e name).isSome = true := by simp [isSome_reference?, found]
  obtain ⟨⟨r, s'⟩, given⟩ := Option.isSome_iff_exists.1 some
  refine ⟨r, s', given, ?_⟩
  obtain ⟨owner', found', set | ⟨-, rfl, table, -⟩⟩ := reference?_cases given
  all_goals cases found.symm.trans found'
  · obtain ⟨set, rfl⟩ := set
    exact (linked owner name r).1 set
  · simp [table]

/-- Two bindings have one reference only if they are one. -/
theorem Linked.reference_eq_iff (linked : s.Linked) {r r' : ReferenceId} {name' : String}
    {owner' : ScopeId} (own : s.references[r]? = some ⟨name, owner⟩)
    (own' : s.references[r']? = some ⟨name', owner'⟩) : r' = r ↔ owner' = owner ∧ name' = name := by
  constructor
  · rintro rfl
    cases own.symm.trans own'
    exact ⟨rfl, rfl⟩
  · rintro ⟨rfl, rfl⟩
    have same := ((linked owner' name' r').2 own').symm.trans ((linked owner' name' r).2 own)
    exact Option.some.inj same

end Store

/-- References and tags belong to bindings. The reference that a name gets is the one of the binding
that the name means: the same one each time, and never that of another binding. It stands for the
value that the binding has at the time. A tag is the one that was last set for the binding, if it
was not deleted since. -/
theorem bindings_own_references_and_tags {log : List Note} (bare : first.Bare)
    (h : Chronicle η first log s) :
    (∀ e name owner, s.resolve? e name = some owner →
      ∃ r s', s.reference? e name = some (r, s') ∧ ∀ log t, Chronicle η s' log t →
        (∃ v, (t.references[r]?).bind t.referenceValue? = some v ∧ t.ownValue? owner name = some v ∧
          ∀ e', t.resolve? e' name = some owner → t.find? e' name = some v) ∧
        ∀ e' name' owner', t.resolve? e' name' = some owner' →
          ∃ r' t', t.reference? e' name' = some (r', t') ∧
            (r' = r ↔ owner' = owner ∧ name' = name)) ∧
    ∀ e name key, s.tag? e name key =
      (s.resolve? e name).bind fun owner => (log.lookup (owner, name, key)).join := by
  have linked : s.Linked := h.refers.linked bare.linked
  refine ⟨fun e name owner found => ?_, fun e name key => ?_⟩
  · obtain ⟨r, s', given, own⟩ := Store.exists_reference linked found
    refine ⟨r, s', given, fun log t later => ?_⟩
    have since : s.Refers t := (Store.tended_reference given).toRefers.trans later.refers
    have mine : t.references[r]? = some ⟨name, owner⟩ := later.refers.given r _ own
    refine ⟨?_, fun e' name' owner' found' => ?_⟩
    · have bound : s.binds owner name = true := List.find?_some (p := (s.binds · name)) found
      obtain ⟨v, own⟩ := Option.isSome_iff_exists.1 (since.bound owner name bound)
      refine ⟨v, ?_, own, fun e' found' => ?_⟩
      · rw [mine]
        exact own
      · rw [Store.find?_eq_resolve?, found']
        exact own
    · obtain ⟨r', t', given', own'⟩ := Store.exists_reference (since.linked linked) found'
      have last := (Store.tended_reference given').toRefers
      exact ⟨r', t', given',
        (last.linked (since.linked linked)).reference_eq_iff (last.given r _ mine) own'⟩
  · rw [Store.tag?_eq]
    exact congrArg _ (funext fun owner => h.tagAt_eq bare (owner, name, key))

namespace Sample

def den : Store := (Store.empty.rootScope [("x", .string "one")]).2

def marks : List Deed := [.child 0 [], .setTag 1 "x" "kind" (.bool true), .assign 1 "x" .null]

def reading : State Unit :=
  let site : Site := ⟨.root (.single 0) (.mk (.identifier "x") none), 1, ⟨[], true⟩⟩
  ⟨.eval site, [], [], { World.start () with store := marks.foldl Deed.perform den }⟩

def mute : Host Unit := ⟨fun _ _ _ _ store _ => ⟨.hold [], store, [], ()⟩⟩

def read : State Unit := ((Ledger.empty.step mute reading).map (·.2)).getD reading

theorem den_bindings :
    den.Bare ∧ Chronicle Unit den [((0, "x", "kind"), some (.bool true))] read.store ∧
    read.store.references = #[⟨"x", 0⟩] ∧ read.store.tag? 1 "x" "kind" = some (.bool true) ∧
    ∃ r s', read.store.reference? 1 "x" = some (r, s') ∧
      ∃ r' t', (s'.declare 0 "x" (.bool false)).reference? 0 "x" = some (r', t') ∧ r' = r := by
  have bare : den.Bare := by
    refine ⟨rfl, fun id => ?_, fun id => ?_⟩
    all_goals rcases id with _ | id <;> rfl
  have chronicle : Chronicle Unit den [((0, "x", "kind"), some (.bool true))] read.store := by
    have marked : Chronicle Unit den [((0, "x", "kind"), some (.bool true))] reading.store :=
      .deed (.assign 1 "x" .null)
        (.deed (.setTag 1 "x" "kind" (.bool true)) (.deed (.child 0 []) .start))
    have stepped : Ledger.empty.step mute reading = some (.empty, read) := rfl
    refine .step marked ?_ stepped
    rintro word this args ⟨f, config, name, properties, ⟨⟩, -⟩
  have both := bindings_own_references_and_tags bare chronicle
  refine ⟨bare, chronicle, rfl, both.2 1 "x" "kind", ?_⟩
  obtain ⟨r, s', given, later⟩ := both.1 1 "x" 0 rfl
  refine ⟨r, s', given, ?_⟩
  cases given
  have declared := later _ _ (.deed (.declare 0 "x" (.bool false)) .start)
  obtain ⟨r', t', given', same⟩ := declared.2 0 "x" 0 rfl
  exact ⟨r', t', given', same.2 ⟨rfl, rfl⟩⟩

end Sample

end EcmaMachine
