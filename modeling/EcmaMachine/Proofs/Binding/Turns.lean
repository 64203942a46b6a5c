import EcmaMachine.Proofs.Binding.Law
import EcmaMachine.Proofs.Lexicon.Scripts
import EcmaMachine.Proofs.Names
import EcmaMachine.Proofs.Region.Declarations

/-!
The order of a binding. A pattern has its turns: names, defaults and object patterns, as they stand
from left to right, a default before the pattern that it is for. A binding takes the turns in this
order and leaves out defaults only; where it fails, it stops. So it declares the names of the
pattern, and no others.
-/

namespace EcmaMachine

variable {η : Type} {host : Host η} {l l' : Ledger}

/-! ## Turns -/

def Turn.name? : Turn → Option String
  | .name own => some own
  | _ => none

def namesOf (turns : List Turn) : List String := turns.filterMap Turn.name?

def Act.turn : Act → Turn
  | .names name _ => .name name
  | .defaults site _ => .default site
  | .opens target _ => .object target

/-- Why a binding ends with this, if it does: a default has failed, or there is nothing to take the
properties of. -/
def Act.failure? : Act → Option Exception
  | .defaults _ (.failure e) => some e
  | .opens target .undefined =>
    some (.leaving (.type (.destructure "undefined")) target.node)
  | .opens target .null => some (.leaving (.type (.destructure "null")) target.node)
  | _ => none

/-- The turns are taken in their order, each at most once, and only defaults are left out; a binding
that fails stops there. -/
inductive InTurn : List Turn → List Act → Option Exception → Prop
  | done : InTurn [] [] none
  | made {turns acts failed} (act : Act) (rest : InTurn turns acts failed) :
    InTurn (act.turn :: turns) (act :: acts) failed
  | skipped {turns acts failed} (site : Site) (rest : InTurn turns acts failed) :
    InTurn (.default site :: turns) acts failed
  | stopped (turns : List Turn) (e : Exception) : InTurn turns [] (some e)

namespace InTurn

variable {turns turns' : List Turn} {acts acts' : List Act} {failed failed' : Option Exception}

theorem append (h : InTurn turns acts failed) (success : failed = none)
    (h' : InTurn turns' acts' failed') : InTurn (turns ++ turns') (acts ++ acts') failed' := by
  induction h with
  | done => exact h'
  | made act _ ih => exact (ih success).made act
  | skipped site _ ih => exact (ih success).skipped site
  | stopped => cases success

theorem extend (h : InTurn turns acts failed) (fails : failed ≠ none) (turns' : List Turn) :
    InTurn (turns ++ turns') acts failed := by
  induction h with
  | done => exact absurd rfl fails
  | made act _ ih => exact (ih fails).made act
  | skipped site _ ih => exact (ih fails).skipped site
  | stopped turns e => exact .stopped _ e

end InTurn

/-! ## Patterns of names and properties -/

namespace Node

variable {use use' : Use} {n m left right pattern : Node} {properties : List Node}

def isPlain (n : Node) : Use → Bool
  | .run => n.type.isExpression
  | .entry => true
  | .bind => n.shape.isPattern
  | .field => n.boundProperty.isOk

/-- Names, object patterns whose keys are known, and defaults that are expressions. -/
def Plain (use : Use) (n : Node) : Prop :=
  ∀ use' m, Uses (use, n) (use', m) → m.isPlain use' = true

theorem Plain.own (h : n.Plain use) : n.isPlain use = true := h use n .refl

theorem Plain.part (h : n.Plain use) (mem : (use', m) ∈ n.shape.uses use) : m.Plain use' :=
  fun _ _ uses => h _ _ (.head mem uses)

theorem plain_of_parts (own : n.isPlain use = true)
    (parts : ∀ part ∈ n.shape.uses use, part.2.Plain part.1) : n.Plain use := by
  intro use' m uses
  rcases Relation.ReflTransGen.cases_head uses with same | ⟨part, mem, later⟩
  · cases same
    exact own
  · exact parts part mem _ _ later

def looksPlain : Nat → Use → Node → Bool
  | 0, _, _ => false
  | depth + 1, use, n =>
    n.isPlain use && (n.shape.uses use).all fun part => looksPlain depth part.1 part.2

theorem plain_of_looksPlain {depth : Nat} (h : looksPlain depth use n = true) : n.Plain use := by
  induction depth generalizing use n with
  | zero => cases h
  | succ depth ih =>
    simp only [looksPlain, Bool.and_eq_true, List.all_eq_true] at h
    exact plain_of_parts h.1 fun part mem => ih (h.2 part mem)

theorem Plain.inner (h : n.Plain .bind) (shape : n.shape = .assignmentPattern left right) :
    left.Plain .bind :=
  h.part (by rw [shape]; exact List.mem_cons_self)

theorem Plain.default (h : n.Plain .bind) (shape : n.shape = .assignmentPattern left right) :
    right.Plain .run :=
  h.part (by rw [shape]; exact List.mem_cons_of_mem _ List.mem_cons_self)

theorem Plain.property (h : n.Plain .bind) (shape : n.shape = .objectPattern properties) :
    ∀ p ∈ properties, p.Plain .field :=
  fun _ mem => h.part (by rw [shape]; exact List.mem_map.2 ⟨_, mem, rfl⟩)

theorem Plain.target (h : n.Plain .field) {key : String}
    (bound : n.boundProperty = .ok (key, pattern)) : pattern.Plain .bind := by
  unfold boundProperty at bound
  split at bound
  · next shape =>
    split at bound <;> cases bound
    exact h.part (by rw [shape]; exact List.mem_cons_self)
  · cases bound

/-- What an expression runs in its own scope are expressions, too. -/
theorem Plain.uses_run (h : n.Plain .run) (uses : Uses (.run, n) (use, m)) :
    use = .run ∨ use = .entry := by
  generalize first : (Use.run, n) = a at uses
  generalize last : (use, m) = b at uses
  induction uses generalizing use m with
  | refl =>
    cases first.trans last.symm
    exact .inl rfl
  | @tail c _ uses mem ih =>
    subst first
    have plain := h c.1 c.2 uses
    obtain ⟨between, k⟩ := c
    cases last
    rcases ih rfl with rfl | rfl
    · have type : k.shape.type.isExpression = true := plain
      clear plain
      revert type mem
      cases k.shape <;> simp [Shape.uses, Shape.type, NodeType.isExpression] <;> grind
    · revert mem
      cases k.shape with
      | property => simp only [Shape.uses, List.mem_cons]; grind
      | _ => exact fun mem => absurd mem List.not_mem_nil

theorem Plain.ownName (h : n.Plain .run) (uses : Uses (.run, n) (use, m)) :
    m.ownName? use = none := by
  have plain := h _ _ uses
  rcases h.uses_run uses with rfl | rfl
  · have type : m.shape.type.isExpression = true := plain
    unfold ownName?
    cases shape : m.shape <;> rw [shape] at type <;> first
      | rfl
      | cases type
  · unfold ownName?
    cases m.shape <;> rfl

end Node

/-- A property of a value that is there can be read. -/
theorem Store.exists_getProperty (s : Store) {v : Value} (present : v.isNullish = false)
    (key : String) : ∃ item s', s.getProperty v key = .ok (item, s') := by
  unfold getProperty
  cases v with
  | undefined | null => cases present
  | _ =>
    dsimp only
    repeat' split
    all_goals exact ⟨_, _, rfl⟩

/-! ## What a binding leaves behind -/

theorem Act.failure?_opens (s : Store) (target : Site) (v : Value) :
    (Act.opens target v).failure? =
      if v.isNullish then some (.leaving (.type (.destructure (s.text v))) target.node) else none := by
  cases v <;> rfl

namespace Store

variable {s s' s'' : Store} {may may' : ScopeId → String → Prop} {id scope : ScopeId}
  {name : String} {turns turns' : List Turn} {acts acts' : List Act} {failed : Option Exception}
  {e : Exception}

theorem declared_declare (s : Store) (allowed : may id name) (v : Value) :
    s.Declared may (s.declare id name v) :=
  (Region.declare (R := .named may s 0) (declared_refl may s) trivial (fun _ _ => trivial)
    (.inl (.inr allowed))).keeps

theorem declared_getProperty {v item : Value} {key : String}
    (read : s.getProperty v key = .ok (item, s')) : s.Declared may s' :=
  (Region.getProperty (R := .named may s 0) (declared_refl may s) (fun _ _ => trivial) read).1.keeps

theorem Declared.mono (h : s.Declared may s') (le : ∀ id name, may id name → may' id name) :
    s.Declared may' s' :=
  (declared_refl may' s).trans le h

/-- A binding in a scope took these turns. It fails as the first of its acts that does; otherwise
the scope has got the names of the pattern. No other names were declared but those that others may
declare meanwhile. -/
structure Unpacked (may : ScopeId → String → Prop) (scope : ScopeId) (turns : List Turn)
    (acts : List Act) (failed : Option Exception) (s s' : Store) : Prop where
  order : InTurn turns acts failed
  failure : failed = acts.findSome? Act.failure?
  others : s.Declared (fun id name => may id name ∨ id = scope ∧ name ∈ namesOf turns) s'
  named : scope < s.scopes.size → failed = none → ∀ name ∈ namesOf turns, s'.binds scope name = true

theorem unpacked_done (s : Store) : s.Unpacked may scope [] [] none s :=
  ⟨.done, rfl, declared_refl _ s, fun _ _ _ mem => nomatch mem⟩

theorem unpacked_name (s : Store) (scope : ScopeId) (name : String) (v : Value) :
    s.Unpacked may scope [.name name] [.names name v] none (s.declare scope name v) where
  order := .made (.names name v) .done
  failure := rfl
  others := s.declared_declare (.inr ⟨rfl, List.mem_singleton_self name⟩) v
  named lt _ other mem := by
    cases List.mem_singleton.1 mem
    simp [binds_declare lt]

theorem unpacked_fails (quiet : s.Declared may s') (act : Act) (turns : List Turn)
    (fails : act.failure? = some e) :
    s.Unpacked may scope (act.turn :: turns) [act] (some e) s' where
  order := .made act (.stopped turns e)
  failure := by rw [List.findSome?_cons, fails]
  others := quiet.mono fun _ _ => .inl
  named := nofun

namespace Unpacked

theorem after (quiet : s.Declared may s') (h : s'.Unpacked may scope turns acts failed s'') :
    s.Unpacked may scope turns acts failed s'' where
  order := h.order
  failure := h.failure
  others := (quiet.mono fun _ _ => .inl).trans (fun _ _ => id) h.others
  named lt := h.named (Nat.lt_of_lt_of_le lt quiet.larger)

theorem skipped (h : s.Unpacked may scope turns acts failed s') (site : Site) :
    s.Unpacked may scope (.default site :: turns) acts failed s' :=
  { h with order := h.order.skipped site }

theorem made (h : s.Unpacked may scope turns acts failed s') (act : Act) (passes : act.failure? = none)
    (nameless : act.turn.name? = none) :
    s.Unpacked may scope (act.turn :: turns) (act :: acts) failed s' := by
  have same : namesOf (act.turn :: turns) = namesOf turns := List.filterMap_cons_none nameless
  refine ⟨h.order.made act, ?_, same ▸ h.others, same ▸ h.named⟩
  rw [List.findSome?_cons, passes]
  exact h.failure

theorem append (h : s.Unpacked may scope turns acts none s')
    (h' : s'.Unpacked may scope turns' acts' failed s'') :
    s.Unpacked may scope (turns ++ turns') (acts ++ acts') failed s'' := by
  have names : namesOf (turns ++ turns') = namesOf turns ++ namesOf turns' := List.filterMap_append
  refine ⟨h.order.append rfl h'.order, ?_, ?_, ?_⟩
  · rw [List.findSome?_append, ← h.failure]
    exact h'.failure
  · rw [names]
    exact (h.others.mono fun _ _ => .imp_right (.imp_right (List.mem_append_left _))).trans
      (fun _ _ => .imp_right (.imp_right (List.mem_append_right _))) h'.others
  · intro lt success name mem
    rw [names] at mem
    rcases List.mem_append.1 mem with mem | mem
    · exact h'.others.bound scope name (h.named lt rfl name mem)
    · exact h'.named (Nat.lt_of_lt_of_le lt h.others.larger) success name mem

theorem extend (h : s.Unpacked may scope turns acts (some e) s') (turns' : List Turn) :
    s.Unpacked may scope (turns ++ turns') acts (some e) s' where
  order := h.order.extend nofun turns'
  failure := h.failure
  others := by
    rw [namesOf, List.filterMap_append]
    exact h.others.mono fun _ _ => .imp_right (.imp_right (List.mem_append_left _))
  named := nofun

end Unpacked

end Store

theorem Supply.declared_next {s s' : Store} {p target : Site} {item : Value} {supply : Supply}
    {may : ScopeId → String → Prop} (read : supply.next s p = .ok (target, item, s')) :
    s.Declared may s' := by
  unfold next at read
  split at read
  · split at read
    · cases read
    · split at read <;> cases read
      exact Store.declared_getProperty ‹_›
  · cases read
    exact Store.declared_refl _ _

/-! ## Defaults -/

/-- An evaluation above `k` is taken apart from the frames below, and from all calls that are held. -/
def Bond.alone (k : List Frame) (agenda : Agenda) : Bond η := .beside (fun a b => b.size = a.size) k agenda

/-- The evaluation above `k` declares nothing that it may not. -/
def State.Modest (may : ScopeId → String → Prop) (start : Store) (k : List Frame) (s : State η) :
    Prop :=
  ∃ fs t, (Bond.alone k s.agenda).Done fs t s ∧ (Region.named may start 0).Stays t

namespace State.Modest

variable {may : ScopeId → String → Prop} {start : Store} {k : List Frame} {s s' : State η}

theorem declared (h : s.Modest may start k) : start.Declared may s.store := by
  obtain ⟨fs, t, done, stays⟩ := h
  obtain ⟨held, host, same, -⟩ := done.rel
  have keeps : start.Declared may t.world.store := stays.keeps
  rwa [State.store, same]

/-- What a state without calls in the air needs. -/
theorem of_frames {fs : List Frame} {control : Control} {agenda : Agenda} {w : World η}
    (built : Built (fun _ => True) fs) (fits : control.Fits (fun _ => True) fs)
    (keeps : start.Declared may w.store)
    (carries : ∀ f ∈ fs, (Region.named may start 0).Carries w.store f)
    (pursues : (Region.named may start 0).Pursues w.store control) :
    State.Modest may start k (⟨control, fs ++ k, agenda, w⟩ : State η) := by
  let blank := Array.replicate w.held.size (⟨[], false, false⟩ : Held)
  refine ⟨fs, ⟨control, fs, [], { w with held := blank }⟩, {
    stack := (List.append_nil fs).symm
    stack' := by simp [Bond.alone, Bond.beside, Bond.aside, Frame.mapConfig_id]
    agenda := rfl
    agenda' := rfl
    built
    rel := ⟨w.held, w.host, rfl, rfl, by simp [blank]⟩
    control := (Control.mapConfig_id control).symm
    fits }, {
    store := rfl
    keeps
    stack := carries
    agenda := List.forall_mem_nil _
    held := fun ticket h _ found => ?_
    calls := Nat.zero_le _
    control := pursues }⟩
  obtain ⟨_, rfl⟩ := Array.getElem?_eq_some_iff.1 found
  simp [blank]

theorem step (h : s.Modest may start k) (plainHost : host.DeclaresNothing) (busy : ¬ s.Hands k)
    (stepped : l.step host s = some (l', s')) (active : s'.control ≠ .idle) :
    s'.Modest may start k := by
  obtain ⟨fs, t, done, stays⟩ := h
  obtain ⟨held, _, world, rfl, size⟩ := done.rel
  have control : s.control = t.control := done.control.trans (Control.mapConfig_id _)
  have prompt : t.Prompt host True := by
    have prompt := prompt_of_step stepped active trivial
    simp only [State.Prompt, State.CallsHost, State.asked, control, State.store, world, size]
      at prompt
    exact prompt
  have busy' : ¬ t.Hands [] := by
    rintro ⟨stack, outcome⟩
    obtain rfl : fs = [] := by simpa [Bond.alone, Bond.beside, Bond.aside, stack] using done.stack
    exact busy ⟨done.stack', by rw [control]; exact outcome⟩
  have shared : (Bond.alone k s.agenda : Bond η).Shared :=
    Bond.shared_beside id fun _ _ _ same => by simp [same]
  have after := done.advance shared (fun _ _ _ _ _ _ => rfl)
    (prompt.mono fun _ => ⟨trivial, rfl⟩) busy'
  obtain ⟨l₁, t', s₁, here, there, linked⟩ := after.step l
  simp only [Bond.alone, Bond.beside, Bond.aside, Ledger.view_false] at there
  cases stepped.symm.trans there
  have admits := Region.admits_of_declaresNothing plainHost may start 0
  have stays' := (stays.step ⟨True, True⟩ admits (Region.fits_of_links (fun _ _ _ => trivial) t)
    (.inl trivial) (.inl trivial) (Region.delivers_refl l) here).1.toStays
  obtain ⟨fs', done'⟩ : ∃ fs', (Bond.alone k s.agenda).Done fs' t' s' := by
    cases linked with
    | next next =>
      rcases next with ⟨fs', done'⟩ | ⟨fs', stopped⟩
      · exact ⟨fs', done'⟩
      · exact ⟨fs', stopped.done stopped.refused⟩
    | held => exact absurd rfl active
    | rested rested => exact absurd rested.control' active
  have agenda : s'.agenda = s.agenda := done'.agenda'
  exact ⟨fs', t', agenda.symm ▸ done', stays'⟩

theorem answer (h : s.Modest may start k) {x : State η}
    (held : x.world.held[s.world.held.size]? = some ⟨s.stack, true, true⟩)
    (meanwhile : s.store.Declared may x.store) (o : Outcome) :
    (x.answer s.world.held.size o).Modest may start k := by
  have before := h.declared
  obtain ⟨fs, t, done, stays⟩ := h
  have stack : s.stack = fs ++ k := by
    simpa [Bond.alone, Bond.beside, Bond.aside, Frame.mapConfig_id] using done.stack'
  have store : (x.answer s.world.held.size o).world.store = x.store := by
    simp only [State.answer]
    split
    · cases o <;> rfl
    · rfl
  have keeps : start.Declared may (x.answer s.world.held.size o).world.store := by
    rw [store]
    exact before.trans (fun _ _ => id) meanwhile
  have own : t.stack = fs := by simpa [Bond.alone, Bond.beside, Bond.aside] using done.stack
  have next : (Region.named may start 0).Next t.store (x.answer s.world.held.size o).world.store :=
    ⟨keeps, id⟩
  have carries : ∀ f ∈ fs, (Region.named may start 0).Carries
      (x.answer s.world.held.size o).world.store f := fun f mem =>
    next.carries (stays.stack f (own.symm ▸ mem))
  have all : ∀ t v, (Region.named may start 0).Has t v := fun _ _ _ _ => trivial
  rw [State.answer_eq_finish held, stack]
  cases o with
  | value v => exact .of_frames done.built (.inl rfl) keeps carries ⟨all _ v, all _ .undefined⟩
  | failure e =>
    exact .of_frames done.built trivial keeps carries (Region.signals_iff.2 fun v _ => all _ v)

end State.Modest

theorem Thread.modest {S : Setup η} {may : ScopeId → String → Prop} {start : Store}
    {k : List Frame} {p q : Point η} (h : Thread S k p q)
    (plainHost : S.host.DeclaresNothing)
    (meanwhile : ∀ p q, S.others p q → p.2.store.Declared may q.2.store)
    (modest : p.2.Modest may start k) : q.2.control = .idle ∨ q.2.Modest may start k := by
  induction h with
  | here => exact .inr modest
  | @step _ _ p _ busy _ stepped later ih =>
    by_cases idle : p.2.control = .idle
    · exact .inl (later.of_idle idle ▸ idle)
    · exact ih (modest.step plainHost busy stepped idle)
  | answered o holds _ stepped held _ others _ ih =>
    obtain ⟨word, this, args, rfl, rfl⟩ := holds.exists_call stepped
    exact ih (modest.answer held
      (((plainHost ..).mono fun _ _ => False.elim).trans (fun _ _ => id) (meanwhile _ _ others)) o)

namespace Scene.Completes

variable {S : Setup η} {may : ScopeId → String → Prop} {k : List Frame}
  {c c' : Scene η} {site : Site} {o : Outcome} (h : c.Completes S k site o c')
  (plainHost : S.host.DeclaresNothing)
  (meanwhile : ∀ p q, S.others p q → p.2.store.Declared may q.2.store)
include h plainHost meanwhile

/-- A node declares in the scopes that were there before no names but its own, and those that others
declare meanwhile. -/
theorem declared (own : ∀ use m name, Node.Uses (.run, site.node) (use, m) →
      m.ownName? use = some name → may site.scope name) : c.store.Declared may c'.store := by
  have begins : (c.state (.eval site) k).Modest may c.store k :=
    .of_frames (show Built _ [] from trivial) trivial (Store.declared_refl may _)
      (List.forall_mem_nil _) ⟨trivial, fun use m name uses found => .inr (own use m name uses found)⟩
  rcases Thread.modest h plainHost meanwhile begins with idle | modest
  · exact absurd idle (c'.active_hand k o)
  · have last := modest.declared
    rwa [State.store, c'.world_hand] at last

/-- An expression declares no names in scopes that were there before. -/
theorem declared_of_plain (plain : site.node.Plain .run) : c.store.Declared may c'.store :=
  h.declared plainHost meanwhile fun use m name uses own => by
    rw [plain.ownName uses] at own
    cases own

end Scene.Completes

/-! ## Bindings -/

theorem Site.scope_of_mem_items {site child : Site} {children : List Node}
    (mem : child ∈ site.items children) : child.scope = site.scope := by
  simp only [items, List.mem_mapIdx] at mem
  obtain ⟨i, bound, rfl⟩ := mem
  rfl

namespace Binding

variable {scope : ScopeId} {p target : Site} {rest : List Site} {supply : Supply} {v : Value}

/-- Everything in the patterns is as it should be, and in the scope; there is something to read
properties from. -/
def Plain (scope : ScopeId) : Binding → Prop
  | .pattern target _ => target.scope = scope ∧ target.node.Plain .bind
  | .parts rest (.object source) =>
    (∀ p ∈ rest, p.scope = scope ∧ p.node.Plain .field) ∧ source.isNullish = false
  | .parts rest (.call ..) => ∀ p ∈ rest, p.scope = scope ∧ p.node.Plain .bind

theorem Plain.items {properties : List Node} (h : (pattern target v).Plain scope)
    (shape : target.node.shape = .objectPattern properties) (present : v.isNullish = false) :
    (parts (target.items properties) (.object v)).Plain scope :=
  ⟨fun _ mem => ⟨(Site.scope_of_mem_items mem).trans h.1,
    Lexicon.part_of_mem_items (h.2.property shape) mem⟩, present⟩

/-- The next place can be read. -/
theorem Plain.next (h : (parts (p :: rest) supply).Plain scope) (s : Store) :
    ∃ target item s', supply.next s p = .ok (target, item, s') ∧ (pattern target item).Plain scope ∧
      (parts rest supply.tail).Plain scope := by
  cases supply with
  | call site closure args =>
    obtain ⟨first, others⟩ := List.forall_mem_cons.1 h
    exact ⟨p, _, s, rfl, first, others⟩
  | object source =>
    obtain ⟨⟨inScope, first⟩, others⟩ := List.forall_mem_cons.1 h.1
    cases bound : p.node.boundProperty with
    | error e =>
      have own := first.own
      simp only [Node.isPlain, bound] at own
      cases own
    | ok found =>
      obtain ⟨key, pattern⟩ := found
      obtain ⟨item, s', read⟩ := s.exists_getProperty h.2 key
      refine ⟨p.part .target pattern, item, s', ?_, ⟨inScope, first.target bound⟩, others, h.2⟩
      simp only [Supply.next, bound, read]

end Binding

/-- A binding takes its turns in their order, fails as the first of its acts that does, and declares
the names whose turns it has taken. -/
theorem Scene.Unpacks.unpacked {S : Setup η} {k : List Frame} {b : Binding}
    {c c' : Scene η} {acts : List Act} {o : Outcome} {may : ScopeId → String → Prop} {scope : ScopeId}
    (h : c.Unpacks S k b acts o c') (plainHost : S.host.DeclaresNothing)
    (meanwhile : ∀ p q, S.others p q → p.2.store.Declared may q.2.store) (plain : b.Plain scope) :
    c.store.Unpacked may scope b.turns acts o.failure? c'.store := by
  have guarded : ∀ (c : Scene η) cell o, (c.guarded cell o).store = c.store :=
    fun c cell o => c.world.store_guarded cell o
  induction h with
  | @name _ v name target c shape =>
    obtain ⟨rfl, -⟩ := plain
    rw [Binding.turns, Site.turns_name shape]
    exact c.store.unpacked_name target.scope name v
  | given shape _ _ ih =>
    rw [Binding.turns, Site.turns_default shape]
    exact (ih ⟨plain.1, plain.2.inner shape⟩).skipped _
  | absent shape ends _ ih =>
    rw [guarded, Binding.turns, Site.turns_default shape]
    have quiet := ends.declared_of_plain plainHost meanwhile (plain.2.default shape)
    exact .after quiet ((ih ⟨plain.1, plain.2.inner shape⟩).made (.defaults _ _) rfl rfl)
  | defaultFails shape ends =>
    rw [guarded, Binding.turns, Site.turns_default shape]
    have quiet := ends.declared_of_plain plainHost meanwhile (plain.2.default shape)
    exact Store.unpacked_fails quiet (.defaults _ _) _ rfl
  | @nullish _ _ target v c shape nullish =>
    rw [Binding.turns, Site.turns_object shape]
    refine Store.unpacked_fails (Store.declared_refl _ _) (.opens target v) _ ?_
    rw [Act.failure?_opens c.store, nullish]
    rfl
  | @object _ _ _ _ _ target v c shape present _ ih =>
    rw [guarded, Binding.turns, Site.turns_object shape]
    refine (ih (plain.items shape present)).made (.opens target v) ?_ rfl
    rw [Act.failure?_opens c.store, present]
    rfl
  | unsupported other => cases other.symm.trans plain.2.own
  | done =>
    rw [Binding.turns_nil]
    exact Store.unpacked_done _
  | next read _ _ ih ih' =>
    obtain ⟨_, _, _, found, first, rest⟩ := plain.next _
    cases read.symm.trans found
    rw [Binding.turns_cons _ read]
    exact .after (Supply.declared_next read) ((ih first).append (ih' rest))
  | stops read _ ih =>
    obtain ⟨_, _, _, found, first, -⟩ := plain.next _
    cases read.symm.trans found
    rw [Binding.turns_cons _ read]
    exact .after (Supply.declared_next read) ((ih first).extend _)
  | refused failed =>
    obtain ⟨_, _, _, found, -⟩ := plain.next _
    cases failed.symm.trans found

end EcmaMachine
