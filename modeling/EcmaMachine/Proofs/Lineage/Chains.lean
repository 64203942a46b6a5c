import EcmaMachine.Proofs.Classes.Formed
import EcmaMachine.Proofs.Grammar.Expressions
import EcmaMachine.Proofs.History
import EcmaMachine.Proofs.Lineage.Basic
import EcmaMachine.Proofs.Region.Reach

/-!
Prototype chains stay finite. As long as classes have the form that texts give them, and host
functions set no prototypes, no object gets onto its own prototype chain in any evaluation.
-/

namespace EcmaMachine

variable {η : Type}

/-! ## What is left alone -/

def Closure.FormsClasses (c : Closure) : Prop :=
  (∀ p ∈ c.params, p.FormsClasses) ∧ c.body.FormsClasses

theorem Closure.FormsClasses.script {c : Closure} (h : c.FormsClasses) :
    Lexicon.free.formed.Script c :=
  ⟨fun p mem => ⟨trivial, h.1 p mem⟩, trivial, h.2⟩

/-- Nothing is taken out of the store, handles are of what is there, and no prototype is set. -/
structure Store.Unlinked (s s' : Store) : Prop where
  larger : ∀ p, s'.Lacks p → s.Lacks p
  live : ∀ p v, (s'.content p).Has v → v.LivesIn s'
  kept : ∀ o, o < s.objects.size → (s'.object o).prototype = (s.object o).prototype
  none : ∀ o, s.objects.size ≤ o → (s'.object o).prototype = none

theorem Store.Rooted.unlinked {s s' : Store} (h : s.Rooted) (unlinked : s.Unlinked s') :
    s'.Rooted := by
  have before : ∀ o p, s'.Inherits o p → s.Inherits o p := by
    intro o p inherits
    rcases Nat.lt_or_ge o s.objects.size with known | new
    · exact (unlinked.kept o known).symm.trans inherits
    · cases (unlinked.none o new).symm.trans inherits
  refine h.of_kept unlinked.live ?_ fun o p inherits => ?_
  · exact unlinked.larger (.object s'.objects.size) (Nat.le_refl s'.objects.size)
  · exact ⟨h.linked o p (before o p inherits), fun _ => before o p inherits⟩

/-- Host functions that set no prototypes. They give nothing but what is in the store, and the
functions of the script that they make form their classes. -/
structure Host.SetsNoPrototypes (host : Host η) : Prop where
  formed : ∀ word this args ticket store kept c,
    .closure c ∈ (host.call word this args ticket store kept).store.callables →
    .closure c ∈ store.callables ∨ c.FormsClasses
  unlinked : ∀ word this args ticket store kept, store.Rooted → this.LivesIn store →
    (∀ v ∈ args, v.LivesIn store) →
    let step := host.call word this args ticket store kept
    store.Unlinked step.store ∧ ∀ v ∈ step.reply.values, v.LivesIn step.store

namespace Host.SetsNoPrototypes

variable {host : Host η}

theorem obeys (h : host.SetsNoPrototypes) : Lexicon.free.formed.Obeys host := by
  intro word this args ticket store kept scripts
  refine ⟨fun c mem => ?_, fun _ _ => trivial, fun _ _ _ _ => trivial⟩
  rcases h.formed word this args ticket store kept c mem with known | made
  · exact scripts c known
  · exact made.script

theorem admits (h : host.SetsNoPrototypes) : Region.live.Admits host := by
  intro word this args ticket store kept k own has
  obtain ⟨unlinked, live⟩ := h.unlinked word this args ticket store kept k (Region.live_has.1 own)
    fun v mem => Region.live_has.1 (has v mem)
  exact ⟨⟨k.unlinked unlinked, fun lives => lives.grows unlinked.larger⟩,
    Region.replies_iff.2 fun v mem => Region.live_has.2 (live v mem)⟩

end Host.SetsNoPrototypes

theorem Craft.permits_ofNew (host : Host η) : Craft.ofNew.Permits host := by
  intro word this args ticket store kept
  generalize (host.call word this args ticket store kept).reply = reply
  cases reply with
  | hold os => exact fun o _ => by cases o <;> trivial
  | _ => trivial

/-! ## Evaluations -/

/-- All that the machine has at hand is in the store, whose prototype chains end, all classes have
the form that texts give them, and they are made in order. -/
structure State.Orderly (s : State η) : Prop where
  lawful : Lexicon.free.formed.Lawful s
  keeps : Craft.ofNew.Keeps s
  stays : Region.live.Stays s

/-- So it is when the machine rests, with the calls that are held. -/
def World.Orderly (w : World η) : Prop := State.Orderly ⟨.idle, [], [], w⟩

/-- Where no call is held, this is about the store alone. -/
theorem World.orderly_of_rooted {w : World η} (rooted : w.store.Rooted)
    (formed : ∀ c, .closure c ∈ w.store.callables → c.FormsClasses) (none : w.held = #[]) :
    w.Orderly where
  lawful := ⟨fun c mem => (formed c mem).script, trivial, fun busy => (busy rfl).elim,
    by simp [none], by simp⟩
  keeps := .idle ⟨by simp, by simp [none]⟩ rfl
  stays := ⟨⟨rfl, rooted, by simp, by simp, by simp [none], Nat.zero_le _⟩, trivial⟩

namespace State.Orderly

variable {s s' : State η} {host : Host η}

theorem ready (h : s.Orderly) (site : Site) (name : String) (superclass : Option FunctionId)
    (mem : .classBody site name superclass ∈ s.stack) : Craft.ofNew.ready s.store superclass :=
  (h.stays.stack _ mem).2.2

/-- Whenever a class is made, it is made of a new function. -/
theorem fits (h : s.Orderly) : Region.live.Fits s := by
  intro site name superclass below v receiver stack control
  have ready := h.ready site name superclass (stack ▸ List.mem_cons_self)
  have good := h.keeps.constructors control stack
  refine ⟨fun f mem => Region.crafts_of_new h.stays.keeps ready (good _ mem), ?_⟩
  intro spot scope f t made
  have next := (Region.createFunction (R := Region.live) h.stays.keeps trivial made).1
  exact Region.crafts_of_new next.keeps (fun g super => next.holds (p := .function g) (ready g super))
    (Craft.ofNew.made ready made)

theorem step (h : s.Orderly) (plain : host.SetsNoPrototypes) {l l' : Ledger}
    (stepped : l.step host s = some (l', s')) : s'.Orderly where
  lawful := h.lawful.step plain.obeys stepped
  keeps := h.keeps.step (Craft.permits_ofNew host) h.lawful.formed h.ready stepped
  stays :=
    (h.stays.step ⟨True, True⟩ plain.admits h.fits (.inl trivial) (.inl trivial)
      (Region.delivers_refl l) stepped).1.toStays

/-- The machine is left, and its world is taken up again with an answer. -/
theorem taken (h : s.Orderly) {ticket : Nat} {o : Outcome}
    (live : ∀ v ∈ o.value?, v.LivesIn s.store) :
    Orderly ⟨.idle, [], [(ticket, o)], s.world⟩ where
  lawful := ⟨h.lawful.scripts, trivial, fun busy => (busy rfl).elim, h.lawful.held,
    fun _ _ _ _ => trivial⟩
  keeps := by
    refine .idle ⟨List.forall_mem_singleton.2 ?_, h.keeps.waits.held⟩ rfl
    cases o <;> trivial
  stays := { h.stays with
    stack := List.forall_mem_nil _
    agenda := List.forall_mem_singleton.2
      ⟨Nat.zero_le _, Region.gives_iff.2 fun v mem => Region.live_has.2 (live v mem)⟩
    control := trivial }

theorem world (h : s.Orderly) : s.world.Orderly where
  lawful := ⟨h.lawful.scripts, trivial, fun busy => (busy rfl).elim, h.lawful.held, by simp⟩
  keeps := .idle ⟨by simp, h.keeps.waits.held⟩ rfl
  stays := { h.stays with
    stack := List.forall_mem_nil _
    agenda := List.forall_mem_nil _
    control := trivial }

end State.Orderly

theorem World.Orderly.begun {r : Realm η} (h : r.world.Orderly) {node : Node}
    (formed : node.FormsClasses) (kept : Option TreeId) (scope : ScopeId) (config : Config)
    (recipient : Recipient) : (r.begun node kept scope config recipient).2.Orderly where
  lawful := ⟨h.lawful.scripts, Lexicon.legal_program _ _ _,
    fun _ => ⟨trivial, formed⟩, h.lawful.held, by rintro a ⟨⟩⟩
  keeps := .calm ⟨⟨⟨List.forall_mem_nil _, h.keeps.waits.held⟩,
    List.forall_mem_cons.2 ⟨trivial, List.forall_mem_singleton.2 trivial⟩⟩, trivial⟩
  stays := { h.stays with
    stack := List.forall_mem_cons.2 ⟨trivial, List.forall_mem_singleton.2 trivial⟩
    agenda := List.forall_mem_nil _
    control := ⟨trivial, fun _ _ _ _ _ => trivial⟩ }

/-- Whatever tree is evaluated, if its classes have the form that texts give them, and if the host
functions set no prototypes: at every point of the evaluation, and after it with answers from
outside, no object is on its own prototype chain, and every walk along a chain ends at an object
that has no prototype. What the evaluation leaves is such that the next one may begin. -/
theorem prototype_chains_end {host : Host η} (plain : host.SetsNoPrototypes) (r : Realm η)
    (orderly : r.world.Orderly) {node : Node} (formed : node.FormsClasses) (kept : Option TreeId)
    (scope : ScopeId) (config : Config) (recipient : Recipient) :
    let begun := r.begun node kept scope config recipient
    let answers := fun (store : Store) (_ : Nat) (o : Outcome) => ∀ v ∈ o.value?, v.LivesIn store
    let ends := fun (w : World η) => w.Orderly ∧
      (∀ o, ¬ Relation.TransGen w.store.Inherits o o) ∧
      ∀ id, ∃ last, (w.store.lineage id).getLast? = some last ∧
        (w.store.object last).prototype = none
    (∀ l s, Onward host answers begun.1 begun.2 l s → ends s.world) ∧
    ∀ fuel, ends (r.evalNode host fuel node kept scope config recipient).world := by
  intro begun answers ends
  have starts : begun.2.Orderly := orderly.begun formed kept scope config recipient
  have all : ∀ l s, Onward host answers begun.1 begun.2 l s → ends s.world := by
    intro l s onward
    have now : s.Orderly := by
      induction onward with
      | start => exact starts
      | step _ stepped ih => exact ih.step plain stepped
      | answered _ answer ih => exact ih.taken answer
    exact ⟨now.world, now.stays.keeps.acyclic, now.stays.keeps.lineage_ends⟩
  refine ⟨all, fun fuel => ?_⟩
  obtain ⟨l, s, onward, ending⟩ :=
    Onward.exists_evalNode answers host fuel r node kept scope config recipient
  rw [ending]
  exact all l s onward

namespace Sample

def realm : Realm Unit := ⟨world [], .empty⟩

theorem host_setsNoPrototypes : host.SetsNoPrototypes where
  formed _ _ _ _ _ _ _ mem := .inl mem
  unlinked _ _ _ _ store _ k _ _ := by
    refine ⟨⟨fun _ lacks => lacks, k.live, fun _ _ => rfl, fun o out => ?_⟩, ?_⟩
    · have none : store.object o = default := by
        rw [Store.object, Array.getD_eq_getD_getElem?, Array.getElem?_eq_none out]
        rfl
      exact (congrArg Object.prototype none :)
    · simp [host, Reply.values, Outcome.value?, Value.LivesIn]

theorem realm_orderly : realm.world.Orderly := by
  have live : ∀ p q, (realm.world.store.content p).Leads q → q.LivesIn realm.world.store := by
    intro p q leads
    have known : ¬ realm.world.store.Lacks p := fun lacks => Store.leads_nothing lacks leads
    cases p with
    | scope id =>
      obtain rfl : id = 0 := Nat.lt_one_iff.1 (Nat.lt_of_not_le known)
      cases leads with
      | parent found => trivial
      | value has address =>
        cases has with
        | caught found => cases found
        | bound found =>
          obtain ⟨e, mem, rfl⟩ := Dict.get?_ofEntries_mem found
          rw [List.mem_singleton] at mem
          cases mem
          cases address
          exact Nat.one_pos
    | object id | array id => exact absurd (Nat.zero_le id) known
    | function id =>
      obtain rfl : id = 0 := Nat.lt_one_iff.1 (Nat.lt_of_not_le known)
      cases leads with
      | value has address => cases has with
        | ofFunction found => cases found
  refine World.orderly_of_rooted ⟨fun p v has => ?_, fun o p inherits => ?_, fun o path => ?_⟩ ?_ rfl
  · exact Value.livesIn_iff.2 fun q address => live p q (.value has address)
  · exact live (.object o) (.object p) (.prototype inherits)
  · obtain ⟨p, inherits, -⟩ := Relation.TransGen.head'_iff.1 path
    cases inherits
  · intro c mem
    simp [realm, world, Store.callables, Store.newFunction, Store.rootScope, Store.newScope,
      Store.empty] at mem

/-- `{ function f() {} class A extends f { … } A.prototype instanceof A }`, where the constructor of
the class is the name `f`. No text gives such a tree. -/
def selfMade : Node :=
  let name (text : String) : Node := .mk (.identifier text) none
  let function : Node := .mk (.functionDeclaration (some (name "f")) []
    (.mk (.blockStatement []) none) false false) none
  let method : Node :=
    .mk (.methodDefinition (name "constructor") (name "f") .constructor false false) none
  let cls : Node := .mk (.classDeclaration (some (name "A")) (some (name "f"))
    (.mk (.classBody [method]) none)) none
  let test : Node := .mk (.binaryExpression .instanceOf
    (.mk (.memberExpression (name "A") (name "prototype") false) none) (name "A")) none
  .mk (.program [.mk (.blockStatement [function, cls, .mk (.expressionStatement test) none]) none])
    none

/-- The prototype of the class is its own prototype. -/
theorem selfMade_inherits_itself :
    host.SetsNoPrototypes ∧ realm.world.Orderly ∧
      let r' := realm.evalNode host 100 selfMade none 0 .plain (.caller 0)
      ∃ o, Relation.TransGen r'.world.store.Inherits o o := by
  have inherits : (realm.evalNode host 100 selfMade none 0 .plain (.caller 0)).world.store.Inherits
      0 0 := by
    decide +kernel
  exact ⟨host_setsNoPrototypes, realm_orderly, 0, .single inherits⟩

/-- A class with a constructor of its own, one that inherits from it, and an object of that. -/
def heirText : String := "class A { constructor() {} } class B extends A {} new B()"

@[irreducible] def heirTree : Node := (parse heirText).toOption.getD (.mk (.program []) none)

theorem parse_heirText : parse heirText = .ok heirTree := by
  unfold heirTree
  exact parse_eq_ok (by decide +kernel) _

/-- The object inherits from both prototypes, and its chain ends there. -/
theorem heir_chains_end :
    host.SetsNoPrototypes ∧ realm.world.Orderly ∧ heirTree.FormsClasses ∧
      let store := (realm.evalNode host 200 heirTree none 0 .plain (.caller 0)).world.store
      store.lineage 2 = [2, 1, 0] ∧ (∀ o, ¬ Relation.TransGen store.Inherits o o) ∧
        ∃ last, (store.lineage 2).getLast? = some last ∧ (store.object last).prototype = none := by
  have formed : heirTree.FormsClasses := (statement_of_parse parse_heirText).2.formsClasses .here
  obtain ⟨-, ends⟩ := prototype_chains_end host_setsNoPrototypes realm realm_orderly formed none 0
    .plain (.caller 0)
  refine ⟨host_setsNoPrototypes, realm_orderly, formed, ?_, (ends 200).2.1, (ends 200).2.2 2⟩
  decide +kernel

end Sample

end EcmaMachine
