import EcmaMachine.Proofs.Lineage.Chains

/-!
What `new` makes is an instance of its class and of the ancestors of the class, and of nothing else.
Prototypes are made when they are first asked for, by whatever comes first. But none is shared, and
each is linked to the one of the superclass when its class is made, so the links are always those of
the declarations.
-/

namespace EcmaMachine

/-- The classes that have been declared, with their superclasses. -/
abbrev Hierarchy := List (FunctionId × Option FunctionId)

namespace Hierarchy

variable {H : Hierarchy} {f g : FunctionId} {line : List FunctionId}

/-- The second class is the first or an ancestor of it. -/
def Descends (H : Hierarchy) : FunctionId → FunctionId → Prop :=
  Relation.ReflTransGen fun f g => (f, some g) ∈ H

/-- A class and its ancestors, nearest first. -/
inductive Ancestry (H : Hierarchy) : FunctionId → List FunctionId → Prop
  | root {f : FunctionId} (none : ∀ g, (f, some g) ∉ H) : Ancestry H f [f]
  | next {f g : FunctionId} {line : List FunctionId} (declared : (f, some g) ∈ H)
    (h : Ancestry H g line) : Ancestry H f (f :: line)

theorem Ancestry.mem_iff (h : H.Ancestry f line)
    (single : ∀ f g g', (f, some g) ∈ H → (f, some g') ∈ H → g = g') :
    g ∈ line ↔ H.Descends f g := by
  constructor
  · intro mem
    induction h with
    | root =>
      cases List.mem_singleton.1 mem
      exact .refl
    | next declared _ ih =>
      rcases List.mem_cons.1 mem with rfl | mem
      · exact .refl
      · exact .head declared (ih mem)
  · intro descends
    induction descends using Relation.ReflTransGen.head_induction_on generalizing line with
    | refl => cases h <;> exact List.mem_cons_self
    | head declared _ ih =>
      cases h with
      | root none => exact absurd declared (none _)
      | next declared' h =>
        cases single _ _ _ declared declared'
        exact List.mem_cons_of_mem _ (ih h)

end Hierarchy

/-! ## Prototypes -/

namespace Store

variable {t t' : Store} {H : Hierarchy} {f g : FunctionId} {o p q : ObjectId}

theorem Wired.unique (h : t.Wired f p) (h' : t.Wired f q) : p = q :=
  Value.object.inj (Option.some.inj (h.symm.trans h'))

theorem wired_prototypeOf (known : f < t.functions.size) :
    (t.prototypeOf f).2.Wired f (t.prototypeOf f).1 := by
  unfold prototypeOf
  split
  · next found => exact found
  · simp [Wired, functionProperties, function?, setFunctionProperty, modifyFunction, newObject,
      Array.getElem_modify, known, Dict.get?_set]

theorem object_setPrototype (away : o ≠ p) {prototype : Option ObjectId} :
    (t.setPrototype p prototype).object o = t.object o :=
  (getD_modify t.objects p o _ default).resolve_right fun same => away same.1

theorem Retains.setPrototype (h : t.Retains t') (new : t.objects.size ≤ p)
    {prototype : Option ObjectId} : t.Retains (t'.setPrototype p prototype) where
  larger := by simpa [Store.setPrototype, modifyObject] using h.larger
  kept o lt := by
    rw [object_setPrototype (Nat.ne_of_lt (Nat.lt_of_lt_of_le lt new))]
    exact h.kept o lt
  wired := h.wired

/-- No two functions share a prototype, and a prototype is linked to the one of the superclass, if
its function is a class that was declared with one. -/
structure Follows (t : Store) (H : Hierarchy) : Prop where
  known {f : FunctionId} {p : ObjectId} : t.Wired f p → p < t.objects.size
  alone {f g : FunctionId} {p : ObjectId} : t.Wired f p → t.Wired g p → f = g
  root {f : FunctionId} {p : ObjectId} : t.Wired f p → (∀ g, (f, some g) ∉ H) →
    (t.object p).prototype = none
  linked {f g : FunctionId} : (f, some g) ∈ H → ∃ p q, t.Wired f p ∧ t.Wired g q ∧ t.Inherits p q

theorem follows_nil (unwired : ∀ f p, ¬ t.Wired f p) : t.Follows [] :=
  ⟨fun wired => absurd wired (unwired _ _), fun wired => absurd wired (unwired _ _),
    fun wired => absurd wired (unwired _ _), nofun⟩

namespace Follows

theorem single (h : t.Follows H) (f g g' : FunctionId) (declared : (f, some g) ∈ H)
    (declared' : (f, some g') ∈ H) : g = g' := by
  obtain ⟨p, q, own, super, inherits⟩ := h.linked declared
  obtain ⟨p', q', own', super', inherits'⟩ := h.linked declared'
  cases own.unique own'
  cases inherits.symm.trans inherits'
  exact h.alone super super'

theorem loyal (h : t.Follows H) (loyal : t.Loyal t') : t'.Follows H where
  known wired := (loyal.fresh _ _ wired).elim
    (fun before => Nat.lt_of_lt_of_le (h.known before) loyal.larger) (·.2.1)
  alone {f g p} own other := by
    rcases loyal.fresh f p own with before | ⟨new, -, -, only⟩
    · rcases loyal.fresh g p other with before' | ⟨new, -⟩
      · exact h.alone before before'
      · exact absurd (h.known before) (Nat.not_lt_of_le new)
    · refine (only g other).elim Eq.symm fun before => ?_
      exact absurd (h.known before) (Nat.not_lt_of_le new)
  root {f p} wired none := by
    rcases loyal.fresh f p wired with before | ⟨-, -, last, -⟩
    · exact (loyal.kept p (h.known before)).trans (h.root before none)
    · exact last
  linked declared := by
    obtain ⟨p, q, own, super, inherits⟩ := h.linked declared
    exact ⟨p, q, loyal.wired _ _ own, loyal.wired _ _ super,
      (loyal.kept p (h.known own)).trans inherits⟩

/-- The prototype of a function is linked to the one of another, and a class is declared. -/
theorem setPrototype (h : t.Follows H) (own : t.Wired f p) (super : t.Wired g q)
    (none : (t.object p).prototype = none) :
    (t.setPrototype p (some q)).Follows ((f, some g) :: H) := by
  have apart : ∀ {f' p'}, t.Wired f' p' → f' ≠ f → p' ≠ p := by
    rintro f' p' wired away rfl
    exact away (h.alone wired own)
  refine ⟨fun wired => ?_, h.alone, fun {f' p'} wired none => ?_, fun {f' g'} declared => ?_⟩
  · have size : (t.setPrototype p (some q)).objects.size = t.objects.size := by
      simp [Store.setPrototype, modifyObject]
    exact size ▸ h.known wired
  · have away : f' ≠ f := by
      rintro rfl
      exact none g List.mem_cons_self
    rw [object_setPrototype (apart wired away)]
    exact h.root wired fun g' declared => none g' (List.mem_cons_of_mem _ declared)
  · rcases List.mem_cons.1 declared with same | declared
    · cases same
      refine ⟨p, q, own, super, ?_⟩
      have known : p < t.objects.size := h.known own
      simp [Inherits, object, Store.setPrototype, modifyObject, Array.getElem_modify, known]
    · obtain ⟨p', q', own', super', inherits⟩ := h.linked declared
      refine ⟨p', q', own', super', ?_⟩
      have away : p' ≠ p := by
        rintro rfl
        cases none.symm.trans inherits
      rw [Inherits, object_setPrototype away]
      exact inherits

theorem cons_none (h : t.Follows H) (f : FunctionId) : t.Follows ((f, none) :: H) where
  known := h.known
  alone := h.alone
  root wired none := h.root wired fun g declared => none g (List.mem_cons_of_mem _ declared)
  linked declared := h.linked ((List.mem_cons.1 declared).resolve_left nofun)

/-- A function that has no prototype yet is made a class. -/
theorem finishClass (h : t.Follows H) (known : f < t.functions.size)
    (unwired : ∀ p, ¬ t.Wired f p) {superclass : Option FunctionId}
    (super : ∀ g, superclass = some g → g < t.functions.size) (name : String) :
    (Store.finishClass name superclass f t).2.Follows ((f, superclass) :: H) ∧
      t.Retains (Store.finishClass name superclass f t).2 := by
  obtain ⟨p, wired, -⟩ | ⟨new, ⟨properties, made⟩, -⟩ := t.prototypeOf_cases f
  · exact absurd wired (unwired p)
  have own := wired_prototypeOf known
  have none : ((t.prototypeOf f).2.object (t.prototypeOf f).1).prototype = none := by
    simp [object, made, new, Array.getD_eq_getD_getElem?]
  have first := t.loyal_prototypeOf f
  have named : ∀ s : Store, s.Loyal (s.setFunctionProperty f "name" (.string name)) := fun s =>
    s.loyal_modifyFunction f fun d => Dict.get?_set_of_ne (by decide) d _
  cases superclass with
  | none =>
    exact ⟨((h.loyal first).cons_none f).loyal (named _), (first.trans (named _)).toRetains⟩
  | some g =>
    have size : (t.prototypeOf f).2.functions.size = t.functions.size := by
      unfold prototypeOf
      split <;> simp [setFunctionProperty, modifyFunction, newObject]
    have found := (t.prototypeOf f).2.loyal_prototypeOf g
    have other := wired_prototypeOf (size ▸ super g rfl)
    have before := (h.loyal first).known own
    have links := ((h.loyal first).loyal found).setPrototype (found.wired _ _ own) other
      ((found.kept _ before).trans none)
    exact ⟨links.loyal (named _), ((first.trans found).toRetains.setPrototype
      (Nat.le_of_eq new.symm)).trans (named _).toRetains⟩

end Follows

/-! ## Instances -/

/-- The object inherits from the prototype of the function. -/
def Stems (t : Store) (o : ObjectId) (f : FunctionId) : Prop :=
  o < t.objects.size ∧ ∃ p, t.Wired f p ∧ t.Inherits o p

theorem Stems.retains (h : t.Stems o f) (retains : t.Retains t') : t'.Stems o f := by
  obtain ⟨known, p, wired, inherits⟩ := h
  exact ⟨Nat.lt_of_lt_of_le known retains.larger, p, retains.wired f p wired,
    (retains.kept o known).trans inherits⟩

/-- A walk from the prototype of a class that is not cut passes those of its ancestors. -/
theorem Follows.exists_ancestry (h : t.Follows H) {fuel : Nat} {last : ObjectId}
    (wired : t.Wired f p) (ends : (lineage.walk t fuel (some p)).getLast? = some last)
    (none : (t.object last).prototype = none) :
    ∃ line, H.Ancestry f line ∧ List.Forall₂ t.Wired line (lineage.walk t fuel (some p)) := by
  induction fuel generalizing f p with
  | zero => cases ends
  | succ fuel ih =>
    by_cases super : ∃ g, (f, some g) ∈ H
    · obtain ⟨g, declared⟩ := super
      obtain ⟨p', q, own, other, inherits⟩ := h.linked declared
      cases wired.unique own
      rw [lineage.walk, inherits] at ends ⊢
      rw [List.getLast?_cons] at ends
      cases rest : (lineage.walk t fuel (some q)).getLast? with
      | none =>
        rw [rest] at ends
        cases ends
        cases none.symm.trans inherits
      | some _ =>
        rw [rest] at ends
        cases ends
        obtain ⟨line, ancestry, all⟩ := ih other rest
        exact ⟨f :: line, .next declared ancestry, .cons wired all⟩
    · have alone : lineage.walk t (fuel + 1) (some p) = [p] := by
        have root := h.root wired fun g declared => super ⟨g, declared⟩
        cases fuel <;> simp [lineage.walk, root]
      rw [alone]
      exact ⟨[f], .root fun g declared => super ⟨g, declared⟩, .cons wired .nil⟩

theorem Follows.exists_lineage (h : t.Follows H) (rooted : t.Rooted) (stems : t.Stems o f) :
    ∃ line ps, t.lineage o = o :: ps ∧ H.Ancestry f line ∧ List.Forall₂ t.Wired line ps := by
  obtain ⟨-, p, wired, inherits⟩ := stems
  obtain ⟨last, ends, none⟩ := rooted.lineage_ends o
  have walk : t.lineage o = o :: lineage.walk t t.objects.size (some p) := by
    rw [lineage, lineage.walk, inherits]
  rw [walk, List.getLast?_cons] at ends
  cases rest : (lineage.walk t t.objects.size (some p)).getLast? with
  | none =>
    rw [rest] at ends
    cases ends
    cases none.symm.trans inherits
  | some _ =>
    rw [rest] at ends
    cases ends
    obtain ⟨line, ancestry, all⟩ := h.exists_ancestry wired rest none
    exact ⟨line, _, walk, ancestry, all⟩

/-- The object is what `new` makes of the class: it is an instance of the class and its ancestors
alone, and what it does not have itself is looked up on their prototypes, nearest first. -/
structure IsInstance (t : Store) (H : Hierarchy) (o : ObjectId) (f : FunctionId) : Prop where
  instanceOf : ∀ g < t.functions.size, ∃ b t',
    t.binary .instanceOf (.object o) (.function g) = .ok (.bool b, t') ∧
      (b = true ↔ H.Descends f g)
  reads : ∃ line ps, H.Ancestry f line ∧ List.Forall₂ t.Wired line ps ∧ ∀ key,
    t.getProperty (.object o) key =
      .ok (((t.getOwn? o key).or (ps.findSome? (t.getOwn? · key))).getD .undefined, t)

theorem mem_iff_of_wired {line : List FunctionId} {ps : List ObjectId} (h : t.Follows H)
    (all : List.Forall₂ t.Wired line ps) (wired : t.Wired g q) : q ∈ ps ↔ g ∈ line := by
  induction all with
  | nil => simp
  | @cons f p line ps own _ ih =>
    have same : q = p ↔ g = f :=
      ⟨fun same => h.alone wired (same ▸ own), fun same => (same ▸ wired).unique own⟩
    rw [List.mem_cons, List.mem_cons, same, ih]

theorem Follows.isInstance (h : t.Follows H) (rooted : t.Rooted) (stems : t.Stems o f) :
    t.IsInstance H o f where
  instanceOf g known := by
    have step := (Region.prototypeOf (R := Region.live) rooted (f := g) known).1
    have later := h.loyal step.loyal
    obtain ⟨line, ps, walk, ancestry, all⟩ :=
      later.exists_lineage step.keeps (stems.retains step.loyal.toRetains)
    refine ⟨((t.prototypeOf g).2.lineage o |>.drop 1).contains (t.prototypeOf g).1, _, rfl, ?_⟩
    rw [walk, List.drop_one, List.tail_cons, List.contains_iff_mem,
      mem_iff_of_wired later all (wired_prototypeOf known), ancestry.mem_iff h.single]
  reads := by
    obtain ⟨line, ps, walk, ancestry, all⟩ := h.exists_lineage rooted stems
    refine ⟨line, ps, ancestry, all, fun key => ?_⟩
    simp only [getProperty, get?, walk, List.findSome?_cons]
    cases t.getOwn? o key <;> rfl

end Store

/-! ## Runs -/

structure Account where
  classes : Hierarchy
  instances : List (ObjectId × FunctionId)

variable {η : Type}

/-- The account after the next step of the machine: a class may be declared, or an object made by
`new`. -/
def State.account (s : State η) (a : Account) : Account :=
  match s.control, s.stack with
  | .ret v _, .classBody site name superclass :: _ =>
    match s.store.createClass site.toSpot site.scope name superclass (s.listed v) with
    | .ok (.function f, _) => { a with classes := (f, superclass) :: a.classes }
    | _ => a
  | .ret _ _, .newCall _ f :: _ =>
    { a with instances := ((s.store.prototypeOf f).2.objects.size, f) :: a.instances }
  | _, _ => a

/-- Ledger and machine on the way from a start, as `Onward`, with the account that is kept. No
`prototype` of a function is written or deleted on the way. -/
inductive Declaring (host : Host η) (answers : Store → Nat → Outcome → Prop) (a : Account)
    (l : Ledger) (s : State η) : Account → Ledger → State η → Prop
  | start : Declaring host answers a l s a l s
  | step {a' : Account} {l' l'' : Ledger} {s' s'' : State η} :
    Declaring host answers a l s a' l' s' → s'.rewires = false →
    l'.step host s' = some (l'', s'') → Declaring host answers a l s (s'.account a') l'' s''
  | answered {a' : Account} {l' : Ledger} {s' : State η} {ticket : Nat} {o : Outcome} :
    Declaring host answers a l s a' l' s' → answers s'.store ticket o →
    Declaring host answers a l s a' l' ⟨.idle, [], [(ticket, o)], s'.world⟩

structure Account.Kept (a : Account) (t : Store) : Prop where
  follows : t.Follows a.classes
  stems : ∀ o f, (o, f) ∈ a.instances → t.Stems o f

theorem Account.Kept.loyal {a : Account} {t t' : Store} (h : a.Kept t) (loyal : t.Loyal t') :
    a.Kept t' :=
  ⟨h.follows.loyal loyal, fun o f mem => (h.stems o f mem).retains loyal.toRetains⟩

namespace State.Orderly

variable {s s' : State η} {host : Host η} {l l' : Ledger} {a : Account} {v receiver : Value}
  {below : List Frame}

/-- A class is declared, of a function that had no prototype. -/
theorem account_classBody (h : s.Orderly) (kept : a.Kept s.store) {site : Site} {name : String}
    {superclass : Option FunctionId} (control : s.control = .ret v receiver)
    (top : s.stack = .classBody site name superclass :: below) :
    (s.account a).Kept (s.pop.resume v receiver (.classBody site name superclass)).store := by
  have ready := h.ready site name superclass (top ▸ List.mem_cons_self)
  have good := h.keeps.constructors control top
  have same : s.pop.listed v = s.listed v := rfl
  have store : s.pop.store = s.store := rfl
  simp only [account, control, top, State.resume, same, store]
  cases made : s.store.createClass site.toSpot site.scope name superclass (s.listed v) with
  | error signal => exact kept
  | ok found =>
    obtain ⟨cls, t'⟩ := found
    obtain ⟨f, t, given, finished⟩ := Store.exists_finishClass made
    obtain ⟨loyal, ready, good⟩ : s.store.Loyal t ∧ Craft.ofNew.ready t superclass ∧
        Craft.ofNew.good t superclass (.function f) := by
      rcases given with ⟨only, rfl⟩ | created
      · exact ⟨.refl _, ready, good _ (only ▸ List.mem_cons_self)⟩
      · have step := (Region.createFunction (R := Region.live) h.stays.keeps trivial created).1
        exact ⟨step.loyal, fun g super => step.holds (p := .function g) (ready g super),
          Craft.ofNew.made ready created⟩
    obtain ⟨_, callable, ⟨⟩, -, function⟩ := good
    have unwired : ∀ p, ¬ t.Wired f p := by
      intro p wired
      rw [Store.Wired, Store.functionProperties, function] at wired
      cases wired
    obtain ⟨follows, retains⟩ := (kept.follows.loyal loyal).finishClass
      (Array.getElem?_eq_some_iff.1 function).1 unwired ready name
    rw [finished] at follows retains
    obtain rfl : .function f = cls := congrArg Prod.fst finished
    refine Account.Kept.loyal ⟨follows, fun o f mem =>
      ((kept.stems o f mem).retains loyal.toRetains).retains retains⟩ ?_
    exact (Region.declare (R := .whole) trivial trivial Region.whole_has (.inl trivial)).loyal

/-- An object is made. -/
theorem account_newCall (h : s.Orderly) (kept : a.Kept s.store) {site : Site} {f : FunctionId}
    (control : s.control = .ret v receiver) (top : s.stack = .newCall site f :: below) :
    (s.account a).Kept (s.pop.resume v receiver (.newCall site f)).store := by
  have known : f < s.store.functions.size :=
    h.stays.stack (.newCall site f) (top ▸ List.mem_cons_self)
  have loyal : s.store.Loyal (s.pop.resume v receiver (.newCall site f)).store :=
    (s.store.loyal_prototypeOf f).trans
      (Region.emptyObject (R := .whole) trivial fun _ _ => trivial).1.loyal
  have later := kept.loyal loyal
  simp only [account, control, top]
  refine ⟨later.follows, fun o g mem => ?_⟩
  rcases List.mem_cons.1 mem with same | mem
  · cases same
    refine ⟨?_, (s.store.prototypeOf f).1, Store.wired_prototypeOf known, ?_⟩
    all_goals simp [State.resume, State.become, State.push, State.withStore, State.store, State.pop,
      Store.newObject, Store.Inherits, Store.object]
  · exact later.stems o g mem

theorem account_step (h : s.Orderly) (plain : host.SetsNoPrototypes) (loyal : host.IsLoyal)
    (kept : a.Kept s.store) (writes : s.rewires = false)
    (stepped : l.step host s = some (l', s')) : (s.account a).Kept s'.store := by
  have quiet : (∀ {site name superclass below v receiver},
      s.stack = .classBody site name superclass :: below → s.control ≠ .ret v receiver) →
      s.account a = a → (s.account a).Kept s'.store := by
    intro crafts same
    have abides : s.Abides host := ⟨loyal, crafts, writes⟩
    have step := h.stays.step ⟨False, True⟩ plain.admits h.fits (.inr abides) (.inl trivial)
      (Region.delivers_refl l) stepped
    rw [same]
    exact kept.loyal (step.1.faithful.loyal.resolve_left id)
  cases control : s.control with
  | ret v receiver =>
    rcases top : s.stack with _ | ⟨f, below⟩
    · exact quiet (by simp [top]) (by simp [account, control, top])
    · cases f with
      | classBody site name superclass =>
        rw [Ledger.step, State.advance_ret host control top rfl] at stepped
        cases stepped
        exact h.account_classBody kept control top
      | newCall site f =>
        rw [Ledger.step, State.advance_ret host control top rfl] at stepped
        cases stepped
        exact h.account_newCall kept control top
      | _ => exact quiet (by simp [top]) (by simp [account, control, top])
  | _ => exact quiet (by simp [control]) (by simp [account, control])

end State.Orderly

/-- Whatever tree is evaluated, if its classes have the form that texts give them, and if the host
functions leave the prototypes alone: as long as no `prototype` of a function is written or deleted,
every object that was made by `new` is an instance of its class and of the ancestors of that alone,
by the declarations so far, and finds its properties on their prototypes. The object is what the
constructor is applied to, and what `new` gives unless that returns a handle of its own. -/
theorem instances_follow_hierarchy {host : Host η} (plain : host.SetsNoPrototypes)
    (loyal : host.IsLoyal) (r : Realm η) (orderly : r.world.Orderly) {H : Hierarchy}
    (follows : r.world.store.Follows H) {node : Node} (formed : node.FormsClasses)
    (kept : Option TreeId) (scope : ScopeId) (config : Config) (recipient : Recipient) :
    let begun := r.begun node kept scope config recipient
    let answers := fun (store : Store) (_ : Nat) (o : Outcome) => ∀ v ∈ o.value?, v.LivesIn store
    ∀ a l s, Declaring host answers ⟨H, []⟩ begun.1 begun.2 a l s →
      s.store.Follows a.classes ∧
      (∀ o f, (o, f) ∈ a.instances → s.store.IsInstance a.classes o f) ∧
      (∀ site f below v receiver, s.stack = .newCall site f :: below →
        s.control = .ret v receiver →
        ∃ o s', (s.account a).instances = (o, f) :: a.instances ∧ l.step host s = some (l, s') ∧
          s'.stack = .construct o :: below ∧
          s'.control = .apply f (.object o) (s.listed v) site.config) ∧
      ∀ o below v receiver, s.stack = .construct o :: below → s.control = .ret v receiver →
        v.isHandle = false →
        l.step host s = some (l, ({ s with stack := below } : State η).give (.object o)) := by
  intro begun answers a l s declaring
  have now : s.Orderly ∧ a.Kept s.store := by
    induction declaring with
    | start =>
      exact ⟨orderly.begun formed kept scope config recipient, follows, fun _ _ => nofun⟩
    | step _ writes stepped ih =>
      exact ⟨ih.1.step plain stepped, ih.1.account_step plain loyal ih.2 writes stepped⟩
    | answered _ answer ih => exact ⟨ih.1.taken answer, ih.2⟩
  obtain ⟨orderly, all⟩ := now
  refine ⟨all.follows, fun o f mem => all.follows.isInstance orderly.stays.keeps (all.stems o f mem),
    fun site f below v receiver top control => ?_, fun o below v receiver top control other => ?_⟩
  · refine ⟨(s.store.prototypeOf f).2.objects.size, s.pop.resume v receiver (.newCall site f),
      by simp only [State.account, control, top], ?_, ?_, rfl⟩
    · rw [Ledger.step, State.advance_ret host control top rfl]
    · simp only [State.resume, State.become, State.push, State.withStore, State.pop, top,
        List.tail_cons]
      rfl
  · rw [Ledger.step, State.advance_ret host control top rfl, State.pop, top]
    simp only [State.resume, other, Bool.false_eq_true, if_false, List.tail_cons]

namespace Sample

def declare : Nat → Account → Ledger → State Unit → Option (Account × Ledger × State Unit)
  | 0, a, l, s => some (a, l, s)
  | n + 1, a, l, s =>
    if s.rewires then none
    else (l.step host s).bind fun r => declare n (s.account a) r.1 r.2

theorem declaring_of_declare {answers : Store → Nat → Outcome → Prop} {a₀ a a' : Account}
    {l₀ l l' : Ledger} {s₀ s s' : State Unit} {n : Nat}
    (before : Declaring host answers a₀ l₀ s₀ a l s) (ran : declare n a l s = some (a', l', s')) :
    Declaring host answers a₀ l₀ s₀ a' l' s' := by
  induction n generalizing a l s with
  | zero =>
    cases ran
    exact before
  | succ n ih =>
    unfold declare at ran
    split at ran
    · cases ran
    · next quiet =>
      obtain ⟨r, stepped, ran⟩ := Option.bind_eq_some_iff.1 ran
      exact ih (before.step (Bool.eq_false_iff.2 quiet) stepped) ran

/-- The object is made of the second class, and is an instance of both. -/
theorem heir_follows_hierarchy :
    host.SetsNoPrototypes ∧ host.IsLoyal ∧ realm.world.Orderly ∧ realm.world.store.Follows [] ∧
      heirTree.FormsClasses ∧
      ∃ (a : Account) (t : Store), a.classes = [(2, some 1), (1, none)] ∧ (2, 2) ∈ a.instances ∧
        t.IsInstance a.classes 2 2 := by
  have formed : heirTree.FormsClasses := (statement_of_parse parse_heirText).2.formsClasses .here
  have loyal : host.IsLoyal := fun _ _ _ _ _ _ => .refl _
  have follows : realm.world.store.Follows [] := Store.follows_nil fun f p wired => by
    cases f <;> cases wired
  refine ⟨host_setsNoPrototypes, loyal, realm_orderly, follows, formed, ?_⟩
  have ran : ((declare 50 ⟨[], []⟩ (realm.begun heirTree none 0 .plain (.caller 0)).1
      (realm.begun heirTree none 0 .plain (.caller 0)).2).any fun r =>
        r.1.classes == [(2, some 1), (1, none)] && r.1.instances.contains (2, 2)) = true := by
    decide +kernel
  obtain ⟨⟨a, l, s⟩, reached, met⟩ := (Option.any_eq_true _ _).1 ran
  simp only [Bool.and_eq_true, beq_iff_eq, List.contains_iff_mem] at met
  obtain ⟨-, all, -⟩ := instances_follow_hierarchy host_setsNoPrototypes loyal realm realm_orderly
    follows formed none 0 .plain (.caller 0) a l s (declaring_of_declare .start reached)
  exact ⟨a, s.store, met.1, met.2, all 2 2 met.2⟩

end Sample

end EcmaMachine
