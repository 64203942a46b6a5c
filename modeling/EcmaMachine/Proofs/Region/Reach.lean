import EcmaMachine.Proofs.Region.Run
import EcmaMachine.Proofs.Region.Host

/-!
Confinement. A script works on what it can reach from the scope that it is evaluated in, and on what
is made meanwhile. If every host function keeps to what it can reach from its arguments, then all
else is left as it is by the whole evaluation, and nothing that is delivered leads there.
-/

namespace EcmaMachine

variable {η : Type}

/-! ## Reach -/

namespace Store

/-- What some places lead to, and what is not there yet. -/
def InReach (s : Store) (roots : Address → Prop) (p : Address) : Prop :=
  (∃ root, roots root ∧ s.LeadsTo root p) ∨ s.Lacks p

/-- A later store, after work that began at some places: nothing has been taken away, nothing out of
their reach is changed, and nothing in their reach leads out of it. -/
structure Confined (roots : Address → Prop) (s s' : Store) : Prop where
  larger : ∀ p, s'.Lacks p → s.Lacks p
  same : ∀ p, ¬ s.InReach roots p → s'.content p = s.content p
  closed : ∀ p q, s.InReach roots p → (s'.content p).Leads q → s.InReach roots q

def Near (s : Store) (roots : Address → Prop) (v : Value) : Prop :=
  ∀ p, v.address? = some p → s.InReach roots p

/-- All that a value leads to in a later store was in reach, or was not there. -/
def Confines (s : Store) (roots : Address → Prop) (s' : Store) (v : Value) : Prop :=
  ∀ p q, v.address? = some p → s'.LeadsTo p q → s.InReach roots q

variable {s s' s'' : Store} {roots roots' : Address → Prop} {p q : Address}

theorem leads_nothing (lacks : s.Lacks p) : ¬ (s.content p).Leads q := by
  have default_of {α : Type} (xs : Array α) {id : Nat} (d : α) (le : xs.size ≤ id) :
      xs.getD id d = d := by
    rw [Array.getD_eq_getD_getElem?, Array.getElem?_eq_none le]
    rfl
  intro leads
  cases p with
  | scope id =>
    rw [content, scope, default_of s.scopes default lacks] at leads
    cases leads with
    | value has _ => cases has with
      | bound found | caught found => cases found
    | parent found => cases found
  | object id =>
    rw [content, object, default_of s.objects default lacks] at leads
    cases leads with
    | value has _ => cases has with
      | property found => cases found
    | prototype found => cases found
  | array id =>
    rw [content, elements, default_of s.arrays #[] lacks] at leads
    cases leads with
    | value has _ => cases has with
      | element mem => exact Array.not_mem_empty _ mem
  | function id =>
    have none : s.function? id = none := Array.getElem?_eq_none lacks
    rw [content, none] at leads
    cases leads with
    | value has _ => cases has

theorem confined_refl (s : Store) (roots : Address → Prop) : s.Confined roots s where
  larger _ lacks := lacks
  same _ _ := rfl
  closed p q reach leads := by
    rcases reach with ⟨root, own, path⟩ | lacks
    · exact .inl ⟨root, own, path.tail leads⟩
    · exact absurd leads (leads_nothing lacks)

namespace Confined

variable (h : s.Confined roots s')
include h

theorem leadsTo (reach : s.InReach roots p) (path : s'.LeadsTo p q) : s.InReach roots q := by
  induction path with
  | refl => exact reach
  | tail _ leads ih => exact h.closed _ _ ih leads

theorem confines {v : Value} (near : s.Near roots v) : s.Confines roots s' v :=
  fun p _ address path => h.leadsTo (near p address) path

/-- Work that begins in reach stays in reach. -/
theorem inReach (own : ∀ p, roots' p → s.InReach roots p)
    (reach : s'.InReach roots' p) : s.InReach roots p := by
  rcases reach with ⟨root, at', path⟩ | lacks
  · exact h.leadsTo (own root at') path
  · exact .inr (h.larger p lacks)

theorem trans (own : ∀ p, roots' p → s.InReach roots p)
    (h' : s'.Confined roots' s'') : s.Confined roots s'' where
  larger p lacks := h.larger p (h'.larger p lacks)
  same p outside := by
    have outside' : ¬ s'.InReach roots' p := fun reach => outside (h.inReach own reach)
    rw [h'.same p outside', h.same p outside]
  closed p q reach leads := by
    by_cases inner : s'.InReach roots' p
    · exact h.inReach own (h'.closed p q inner leads)
    · rw [h'.same p inner] at leads
      exact h.closed p q reach leads

theorem edit {declares : ScopeId → String → Prop}
    {links : ObjectId → ObjectId → Prop} (edit : s'.Edit (s.InReach roots) declares links s'') :
    s.Confined roots s'' where
  larger p lacks := h.larger p (edit.larger p lacks)
  same p outside := by
    have known : ¬ s'.Lacks p := fun lacks => outside (.inr (h.larger p lacks))
    exact (edit.same p outside known).trans (h.same p outside)
  closed p q reach leads := by
    rcases edit.leads p with same | held
    · rw [same] at leads
      exact h.closed p q reach leads
    · exact held q leads

end Confined

end Store

def Region.reach (s : Store) (roots : Address → Prop) (since : Nat) : Region where
  holds _ := s.InReach roots
  declares _ _ := True
  links _ _ _ := True
  keeps := s.Confined roots
  since := since
  grows _ holds := holds
  fresh k lacks _ := .inr (k.larger _ lacks)
  anew _ _ := trivial
  closed k holds leads := k.closed _ _ holds leads
  edit k edit := k.edit edit

/-! ## Host functions -/

def Signal.value? : Signal → Option Value
  | thrown v | returned v => some v
  | host error => error.value
  | _ => none

def Outcome.value? : Outcome → Option Value
  | value v => some v
  | failure e => e.signal.value?

def Reply.values : Reply → List Value
  | value v => [v]
  | failure e => e.signal.value?.toList
  | call f this args => .function f :: this :: args
  | hold answers => answers.filterMap (·.value?)

/-- Host functions that touch and give nothing but what they reach from `this` and their arguments,
and what they make. -/
def Host.Confined (host : Host η) : Prop :=
  ∀ word this args ticket store kept,
    let roots := fun p => ∃ v ∈ this :: args, v.address? = some p
    let step := host.call word this args ticket store kept
    store.Confined roots step.store ∧ ∀ v ∈ step.reply.values, store.Near roots v

namespace Region

variable {R : Region} {t : Store}

theorem signals_iff {signal : Signal} :
    R.Signals t signal ↔ ∀ v ∈ signal.value?, R.Has t v := by
  cases signal <;> simp [Signals, Signal.value?]

theorem gives_iff {o : Outcome} : R.Gives t o ↔ ∀ v ∈ o.value?, R.Has t v := by
  cases o with
  | value v => simp [Gives, Outcome.value?]
  | failure e => exact signals_iff

theorem replies_iff {reply : Reply} :
    R.Replies t reply ↔ ∀ v ∈ reply.values, R.Has t v := by
  cases reply with
  | value v => simp [Replies, Reply.values]
  | failure e => simp [Replies, Reply.values, signals_iff]
  | call f this args => simp [Replies, Reply.values, has_function]
  | hold answers =>
    simp only [Replies, Reply.values, gives_iff, List.mem_filterMap]
    refine ⟨?_, fun h o mem v own => h v ⟨o, mem, own⟩⟩
    rintro h v ⟨o, mem, own⟩
    exact h o mem v own

theorem admits_of_confined {host : Host η} (confined : host.Confined) (s : Store)
    (roots : Address → Prop) (since : Nat) : (reach s roots since).Admits host := by
  intro word this args ticket store kept k own has
  obtain ⟨after, near⟩ := confined word this args ticket store kept
  have inside : ∀ p, (∃ v ∈ this :: args, v.address? = some p) → s.InReach roots p := by
    rintro p ⟨v, mem, address⟩
    exact List.forall_mem_cons.2 ⟨own, has⟩ v mem p address
  exact ⟨⟨k.trans inside after, id⟩,
    replies_iff.2 fun v mem p address => k.inReach inside (near v mem p address)⟩

end Region

/-- The functions of the bench are confined. -/
theorem Bench.host_confined : Bench.host.Confined := by
  intro word this args ticket store kept
  let R := Region.reach store (fun p => ∃ v ∈ this :: args, v.address? = some p) 0
  have own : ∀ v ∈ this :: args, R.Has store v :=
    fun v mem p address => .inl ⟨p, ⟨v, mem, address⟩, .refl⟩
  rw [List.forall_mem_cons] at own
  obtain ⟨next, replies⟩ := R.admits_bench word this args ticket store kept
    (Store.confined_refl _ _) own.1 own.2
  exact ⟨next.keeps, Region.replies_iff.1 replies⟩

/-! ## Evaluations -/

/-- Whatever happens in an evaluation, and after it with answers that are in reach, the store is
confined to the scope of the evaluation, and so are the values of all outcomes. -/
theorem evaluation_confined {host : Host η} (confined : host.Confined) (r : Realm η) (node : Node)
    (kept : Option TreeId) (scope : ScopeId) (config : Config) (recipient : Recipient) :
    let base := r.world.store
    let roots := fun p => p = .scope scope
    let begun := r.begun node kept scope config recipient
    let answers := fun (_ : Store) (ticket : Nat) (o : Outcome) =>
      r.world.held.size ≤ ticket ∧ ∀ v ∈ o.value?, base.Near roots v
    (∀ l s, Onward host answers begun.1 begun.2 l s →
      base.Confined roots s.store ∧
      ∀ id o s', s.advance host = .delivered id o s' →
        ∀ v ∈ o.value?, base.Confines roots s'.store v) ∧
    ∀ fuel,
      let r' := r.evalNode host fuel node kept scope config recipient
      base.Confined roots r'.world.store ∧
      ∀ (i : Nat) d, r.ledger.deliveries.size ≤ i → r'.ledger.deliveries[i]? = some d →
        ∀ v ∈ d.outcome.value?, base.Confines roots d.store v := by
  intro base roots begun answers
  let R := Region.reach base roots r.world.held.size
  have admits : R.Admits host := Region.admits_of_confined confined base roots _
  have own : base.InReach roots (.scope scope) := .inl ⟨_, rfl, .refl⟩
  have starts : R.Stays begun.2 := Region.stays_begun r (Store.confined_refl base roots) rfl
    ⟨own, fun _ _ _ _ _ => trivial⟩ kept config recipient
  have stays : ∀ {l s}, Onward host answers begun.1 begun.2 l s →
      R.Stays s ∧ R.Delivers begun.1 l :=
    Region.stays_onward admits (fun _ _ _ => trivial)
      (fun _ _ _ answer => ⟨answer.1, Region.gives_iff.2 answer.2⟩) starts
  refine ⟨fun l s onward => ?_, fun fuel => ?_⟩
  · obtain ⟨within, -⟩ := stays onward
    refine ⟨within.keeps, fun id o s' delivered v mem => ?_⟩
    have makes := within.advance ⟨True, True⟩ admits
      (Region.fits_of_links (fun _ _ _ => trivial) s) (.inl trivial) (.inl trivial)
    rw [delivered] at makes
    exact makes.2.keeps.confines (Region.gives_iff.1 makes.1 v mem)
  · obtain ⟨l, s, onward, ends⟩ :=
      Onward.exists_evalNode answers host fuel r node kept scope config recipient
    obtain ⟨within, delivers⟩ := stays onward
    rw [ends]
    refine ⟨within.keeps, fun i d le found v mem => ?_⟩
    obtain ⟨k, gives⟩ := delivers i d le found
    exact k.confines (Region.gives_iff.1 gives v mem)

namespace Sample

/-- Two scopes with one object each, and neither leads to the other. -/
def apart : Realm Bench :=
  let (a, store) := Store.empty.newRecord []
  let (b, store) := store.newRecord []
  let (both, store) := store.newFunction (.host "both" "bench.both")
  let (_, store) := store.rootScope [("a", a), ("both", .function both)]
  let (_, store) := store.rootScope [("b", b)]
  ⟨{ World.start Bench.empty with store }, .empty⟩

/-- `a.n = both(a)` -/
def link : Node :=
  let name (text : String) : Node := .mk (.identifier text) none
  let target : Node := .mk (.memberExpression (name "a") (name "n") false) none
  let value : Node := .mk (.callExpression (name "both") [name "a"]) none
  .mk (.assignmentExpression .assign target value) none

theorem out_of_reach {p : Address}
    (reach : apart.world.store.InReach (fun p => p = .scope 0) p) :
    p ≠ .object 1 ∧ p ≠ .scope 1 := by
  rcases reach with ⟨root, rfl, path⟩ | lacks
  · suffices own : p ∈ [.scope 0, .object 0, .function 0] by
      constructor <;> rintro rfl <;> simp at own
    induction path with
    | refl => simp
    | tail _ leads ih =>
      simp only [List.mem_cons, List.not_mem_nil, or_false] at ih
      rcases ih with rfl | rfl | rfl
      · cases leads with
        | parent found => cases found
        | value has address =>
          cases has with
          | bound found =>
            have entries : ∀ e ∈ [("a", Value.object 0), ("both", .function 0)],
                ∀ p, e.2.address? = some p → p ∈ [.scope 0, .object 0, .function 0] := by
              simp [Value.address?]
            obtain ⟨e, mem, rfl⟩ := Dict.get?_ofEntries_mem found
            exact entries e mem _ address
          | caught found => cases found
      · cases leads with
        | value has address => cases has with
          | property found => cases found
        | prototype found => cases found
      · cases leads with
        | value has address => cases has with
          | ofFunction found => cases found
  · constructor <;> rintro rfl <;> exact absurd lacks (Nat.not_le_of_lt Nat.one_lt_two)

theorem apart_confined :
    Bench.host.Confined ∧
    let r' := apart.evalNode Bench.host 60 link none 0 .plain (.caller 0)
    r'.world.store.content (.object 1) = apart.world.store.content (.object 1) ∧
    r'.world.store.content (.scope 1) = apart.world.store.content (.scope 1) ∧
    (r'.world.store.object 0).properties.get? "n" = some (.object 0) ∧
    r'.ledger.deliveries.size = 2 ∧
    ∀ (i : Nat) d, r'.ledger.deliveries[i]? = some d → ∀ v ∈ d.outcome.value?, ∀ p q,
      v.address? = some p → d.store.LeadsTo p q → q ≠ .object 1 := by
  have confined := evaluation_confined Bench.host_confined apart link none 0 .plain (.caller 0)
  obtain ⟨store, delivered⟩ := confined.2 60
  refine ⟨Bench.host_confined, ?_, ?_, by rfl, by rfl, ?_⟩
  · exact store.same _ fun reach => (out_of_reach reach).1 rfl
  · exact store.same _ fun reach => (out_of_reach reach).2 rfl
  · intro i d found v mem p q address path
    exact (out_of_reach (delivered i d (Nat.zero_le i) found v mem p q address path)).1

end Sample

end EcmaMachine
