import EcmaMachine.Proofs.Conduct.Basic

/-!
Conducts are kept when the machine begins to evaluate or to bind a node. Only a function declaration
asks whether two nodes are the same; it has to get the same answer in both runs.
-/

namespace EcmaMachine

/-! ## Declared functions -/

/-- The function of the script that a scope itself binds to the name of a declaration. -/
def Store.namesake? (s : Store) (scope : ScopeId) (id : Option Node) :
    Option (FunctionId × Closure) := do
  let name ← id.bind Node.identifierName?
  match ← s.ownValue? scope name with
  | .function f =>
    match (← s.function? f).callable with
    | .closure c => some (f, c)
    | _ => none
  | _ => none

theorem Store.namesake?_look (s : Store) (l : Lens) (scope : ScopeId) (id : Option Node) :
    (s.look l).namesake? scope id =
      (s.namesake? scope id).map fun found => (found.1, found.2.mapTree l.tree) := by
  simp only [namesake?, ownValue?_look, function?_look, Option.bind_eq_bind]
  cases id.bind Node.identifierName? with
  | none => rfl
  | some name =>
    simp only [Option.bind_some]
    cases s.ownValue? scope name with
    | none => rfl
    | some v =>
      cases v with
      | function f =>
        simp only [Option.bind_some]
        cases s.function? f with
        | none => rfl
        | some f => rcases f with ⟨_ | _ | _, _⟩ <;> rfl
      | _ => rfl

theorem Store.ownValue?_of_namesake {s : Store} {scope : ScopeId} {id : Option Node}
    {f : FunctionId} {c : Closure} (found : s.namesake? scope id = some (f, c)) :
    ∃ name, s.ownValue? scope name = some (.function f) := by
  simp only [namesake?, Option.bind_eq_bind, Option.bind_eq_some_iff] at found
  obtain ⟨name, -, v, own, found⟩ := found
  refine ⟨name, own.trans ?_⟩
  cases v with
  | function g =>
    obtain ⟨function, -, found⟩ := Option.bind_eq_some_iff.1 found
    split at found <;> cases found
    rfl
  | _ => cases found

theorem State.giveDeclared_eq {η : Type} (s : State η) (site : Site) (id : Option Node) :
    s.giveDeclared site id =
      match (s.store.namesake? site.scope id).filter (·.2.spot.isSame site.toSpot) with
      | some (f, _) => s.give (.function f)
      | none => s.giveFunction site := by
  simp only [giveDeclared, Store.namesake?, Option.bind_eq_bind]
  cases id.bind Node.identifierName? with
  | none => rfl
  | some name =>
    simp only [Option.bind_some]
    cases s.store.ownValue? site.scope name with
    | none => rfl
    | some v =>
      cases v with
      | function f =>
        simp only [Option.bind_some]
        cases s.store.function? f with
        | none => rfl
        | some found =>
          rcases found with ⟨c | _ | _, _⟩
          · by_cases same : c.spot.isSame site.toSpot = true <;>
              simp only [Option.bind_some, Option.filter, same] <;> rfl
          · rfl
          · rfl
      | _ => rfl

/-- If the node is a declaration, the function that it finds under its name comes from the very same
node, unless it comes from another one under the new names too. -/
def Site.Distinct (g : TreeId → TreeId) (site : Site) (s : Store) : Prop :=
  ∀ id params body generator isAsync f c,
    site.node.shape = .functionDeclaration id params body generator isAsync →
    s.namesake? site.scope id = some (f, c) →
    (c.spot.mapTree g).isSame (site.toSpot.mapTree g) = c.spot.isSame site.toSpot

namespace Conduct.Mid

variable {η : Type} {C : Conduct η} {p s t : State η} {fs : List Frame} {σ : Store} {site : Site}
  {scope : ScopeId}

/-! ## Names and functions -/

variable (h : C.Mid p fs σ s t)
include h

theorem evalBody (holds : C.region.holds σ (.scope site.scope))
    (admits : C.admits site.config) {body : List Node}
    (ok : ∀ n ∈ body, C.Runs σ (C.role fs) site n) :
    C.Next p (s.evalBody site body) (t.evalBody (C.site site) body) := by
  obtain rfl := C.store_eq h
  have seen : t.store.hoist site.scope ((C.site site).toSpot.items body) =
      Store.seen C.lens (s.store.hoist site.scope (site.toSpot.items body)) := by
    rw [C.look_eq h, ← Store.hoist_look, ← Spot.items_mapTree]
    rfl
  have spots : ∀ spot ∈ site.toSpot.items body, C.Runs s.store (C.role fs) site spot.node := by
    intro spot mem
    simp only [Spot.items, List.mem_mapIdx] at mem
    obtain ⟨i, bound, rfl⟩ := mem
    exact ok _ (List.getElem_mem bound)
  have scripts : C.lawful → C.lexicon.Scripts s.store →
      C.lexicon.Scripts (s.store.hoist site.scope (site.toSpot.items body)).2 := fun law known =>
    known.hoist site.scope fun spot mem => (spots spot mem).suits law
  simp only [State.evalBody, Terms.site_scope, seen]
  cases done : s.store.hoist site.scope (site.toSpot.items body) with | mk failed store
  rw [done] at scripts
  have hoisted := by
    refine Region.hoist (C.keeps h) holds ?_ done
    intro spot mem id params inner generator isAsync name shape named
    refine (spots spot mem).allows.own ?_
    simp only [Node.ownName?, shape, named]
  have after := C.write h ⟨hoisted.1.toMove, .inr hoisted.1.loyal, scripts⟩
  obtain none | e := failed
  · exact (after.pushSafe .last rfl trivial).visitAll admits .body
      fun n mem => (ok n mem).next hoisted.1.toNext
  · obtain ⟨_, _, _, defines, failed⟩ := Store.exists_createFunction_of_hoist (congrArg Prod.fst done)
    exact after.fail ⟨hoisted.2 e rfl, C.plain (Store.isCraft_of_createFunction defines failed),
      fun _ => C.lexicon.ordinary (Store.ordinary_of_createFunction failed)⟩

theorem readName (holds : C.region.holds σ (.scope site.scope))
    (admits : C.admits site.config) (name : String) :
    C.Next p (s.readName site name) (t.readName (C.site site) name) := by
  obtain rfl := C.store_eq h
  simp only [State.readName, Terms.site_scope, Terms.site_config, C.look_eq h, Store.find?_look,
    C.references admits]
  cases found : s.store.find? site.scope name with
  | none =>
    cases known : globalConstant? name with
    | none => exact h.refuse rfl
    | some v =>
      unfold globalConstant? at known
      split at known <;> cases known
      all_goals exact h.give nofun
  | some v =>
    have has := Region.has_find (C.keeps h) holds found
    cases site.config.references with
    | false => simpa using h.give has
    | true =>
      have bound : (s.store.reference? site.scope name).isSome = true := by
        simp [Store.isSome_reference?, ← Store.isSome_find?_iff, found]
      obtain ⟨⟨r, store⟩, made⟩ := Option.isSome_iff_exists.1 bound
      have next := Region.reference (C.keeps h) holds made
      have done := (h.step next (Store.callables_of_reference made)).give (next.has has)
      simp only [made, if_true]
      cases forgets : C.lens.forgets with
      | false => simpa [Store.reference?_look s.store C.lens _ _ forgets, made, Store.seen] using done
      | true =>
        -- the second run hands out no reference, and its store does not show the first's
        have same : t.withStore (store.look C.lens) = t := by
          have kept := Store.look_reference? C.lens forgets made
          rw [kept, ← C.look_eq h]
          rfl
        rw [same] at done
        simpa using done

theorem giveLiteral {value : Option LiteralValue} {isRegex : Bool}
    (suits : C.lawful → (isRegex = true → C.lexicon.takes .closed (.unsupported .literal .regex)) ∧
      ∀ json, value = some (.unsupported json) →
        C.lexicon.takes .closed (.unsupported .literal (.literalValue json))) :
    C.Next p (s.giveLiteral value isRegex) (t.giveLiteral value isRegex) := by
  simp only [State.giveLiteral]
  split
  · next regex => exact h.reject rfl fun law => C.lexicon.widened ((suits law).1 regex)
  · split
    case h_5 json => exact h.reject rfl fun law => C.lexicon.widened ((suits law).2 json rfl)
    all_goals exact h.give nofun

section

variable (holds : C.region.holds σ (.scope site.scope))
  (defines : site.node.functionParts?.isSome = true)
  (suits : C.lawful → C.lexicon.Defines site.node)
include holds defines suits

theorem giveFunction : C.Next p (s.giveFunction site) (t.giveFunction (C.site site)) := by
  obtain rfl := C.store_eq h
  have seen : t.store.createFunction (C.site site).toSpot (C.site site).scope =
      (s.store.createFunction site.toSpot site.scope).map (Store.seen C.lens) := by
    rw [C.look_eq h]
    exact Store.createFunction_look s.store C.lens site.toSpot site.scope
  simp only [State.giveFunction, seen]
  cases made : s.store.createFunction site.toSpot site.scope with
  | ok found =>
    obtain ⟨next, function⟩ := Region.createFunction (C.keeps h) holds made
    have later : C.Later s.store found.2 := ⟨next.toMove, .inr next.loyal, fun law scripts =>
      scripts.createFunction (suits law) made⟩
    exact give (C.write h later) (Region.has_function.2 function)
  | error signal =>
    exact h.fail ⟨Region.signals_createFunction made,
      C.plain (Store.isCraft_of_createFunction defines made),
      fun _ => C.lexicon.ordinary (Store.ordinary_of_createFunction made)⟩

theorem giveDeclared {id : Option Node} (distinct : ∀ f c, σ.namesake? site.scope id = some (f, c) →
      (c.spot.mapTree C.lens.tree).isSame (site.toSpot.mapTree C.lens.tree) =
        c.spot.isSame site.toSpot) :
    C.Next p (s.giveDeclared site id) (t.giveDeclared (C.site site) id) := by
  obtain rfl := C.store_eq h
  rw [State.giveDeclared_eq, State.giveDeclared_eq, C.look_eq h, Terms.site_scope,
    Store.namesake?_look]
  cases named : s.store.namesake? site.scope id with
  | none => exact h.giveFunction holds defines suits
  | some found =>
    obtain ⟨f, c⟩ := found
    have same : (c.mapTree C.lens.tree).spot.isSame (C.site site).toSpot =
      c.spot.isSame site.toSpot := distinct f c named
    simp only [Option.map_some, Option.filter, same]
    by_cases own : c.spot.isSame site.toSpot = true
    · obtain ⟨name, found⟩ := Store.ownValue?_of_namesake named
      simp only [own]
      exact h.give (Region.has_of_content (C.keeps h) holds (.bound found))
    · simp only [own]
      exact h.giveFunction holds defines suits

end

theorem assign (holds : C.region.holds σ (.scope scope)) (name : String)
    {v result : Value} (has : C.region.Has σ v) (own : C.region.Has σ result) :
    C.Next p (s.assign scope name v result) (t.assign scope name v result) := by
  obtain rfl := C.store_eq h
  simp only [State.assign, C.look_eq h, Store.resolve?_look, Store.declare_look]
  cases found : s.store.resolve? scope name with
  | none => exact h.refuse rfl
  | some owner =>
    obtain ⟨holds, bound⟩ := Region.holds_resolve (C.keeps h) holds found
    have next := Region.declare (C.keeps h) holds has (.inr bound)
    exact (h.step next rfl).give (next.has own)

/-! ## Members, objects and patterns -/

theorem visitMember {object property : Node} {computed : Bool}
    {access : Access} (ok : C.Runs σ .closed site object)
    (key : computed = true → C.region.Allows σ site.scope .run property)
    (suits : C.lawful → Shape.KeyParts C.lexicon.part C.lexicon.takes property computed)
    (reads : C.region.Reads σ access) (receives : C.tracks → access = .callee → Receives fs) :
    C.Next p (s.visitMember site object property computed access)
      (t.visitMember (C.site site) object property computed access) := by
  refine visit (C.push h.guard (f := .memberObject site property computed access) rfl
    ⟨⟨key, reads⟩, List.forall_mem_singleton.2 ok.admits, fun tracks wants => ?_, trivial,
      fun law => ⟨fun _ => ⟨_, rfl⟩, nofun, suits law⟩⟩) .object ok
  cases access with
  | callee => exact receives tracks rfl
  | _ => cases wants

/-- A member that may be run is evaluated in its parts. -/
theorem visitMemberOf {member object property : Node} {computed : Bool}
    {access : Access} (ok : C.Runs σ .closed site member)
    (shape : member.shape = .memberExpression object property computed)
    (reads : C.region.Reads σ access) (receives : C.tracks → access = .callee → Receives fs) :
    C.Next p (s.visitMember site object property computed access)
      (t.visitMember (C.site site) object property computed access) := by
  have suits : C.lawful → C.lexicon.part .closed object ∧
      Shape.KeyParts C.lexicon.part C.lexicon.takes property computed := fun law => by
    simpa only [shape, Shape.Parts] using C.lexicon.parts (ok.suits law)
  refine h.visitMember (ok.part (by simp [shape, Shape.uses]) (suits · |>.1)) (fun isComputed => ?_)
    (suits · |>.2) reads receives
  exact ok.allows.part (by simp [shape, Shape.uses, isComputed])

theorem visitCallee {callee : Node} (ok : C.Runs σ .closed site callee) (receives : Receives fs) :
    C.Next p (s.visitCallee site callee) (t.visitCallee (C.site site) callee) := by
  simp only [State.visitCallee]
  split
  · next shape =>
    let member := site.part (.slot .callee) callee
    have own : C.Runs σ .closed member callee := ok
    exact C.enter h ok.admits fun h => C.enter h own.admits fun h =>
      h.visitMemberOf own shape trivial fun _ _ => receives
  · exact h.visit .callee ok

theorem nextProperty (shielded : C.lawful → Shielded fs) {object : ObjectId}
    (holds : C.region.holds σ (.object object)) {entries : List Site}
    (ok : ∀ entry ∈ entries, C.Ok σ .closed entry.scope entry.config .entry entry.node) :
    C.Next p (s.nextProperty object entries) (t.nextProperty object (entries.map C.site)) := by
  cases entries with
  | nil => exact h.give (Region.has_object.2 holds)
  | cons entry rest =>
    rw [List.forall_mem_cons] at ok
    obtain ⟨own, ok⟩ := ok
    have push := h.push (.objectRest object rest) rfl ⟨holds, fun site mem => (ok site mem).allows⟩
      (fun site mem => (ok site mem).admits) fun law =>
        ⟨fun _ => shielded law, nofun, fun site mem => (ok site mem).suits law⟩
    rw [State.nextProperty, List.map_cons, State.nextProperty]
    refine C.enter push own.admits fun h => ?_
    have part : ∀ {m}, (.run, m) ∈ entry.node.shape.uses .entry →
      (C.lawful → C.lexicon.part .closed m) → C.Runs σ .closed entry m := fun mem => own.part mem
    have suits : C.lawful → entry.node.shape.EntryParts C.lexicon.part C.lexicon.takes := own.suits
    simp only [Terms.site_node, Node.type]
    generalize entry.node.shape = shape at part suits
    cases shape with
    | property key value kind computed shorthand method =>
      cases kind with
      | init =>
        have runs : C.Runs σ .closed entry value := part List.mem_cons_self (suits · |>.2.2)
        cases computed with
        | true =>
          exact (h.guarded (.propertyKey entry object value) rfl rfl ⟨holds, runs.allows⟩
            (List.forall_mem_singleton.2 own.admits) runs.suits).visit .key
              (part (by simp [Shape.uses]) (suits · |>.1 rfl))
        | false =>
          simp only [Bool.false_eq_true, if_false]
          split
          · exact (h.guard.pushSafe (.propertyValue object _) rfl holds).visit .value runs
          · next named =>
            exact h.guard.reject rfl fun law => C.lexicon.widened ((suits law).2.1 rfl named)
      | _ => exact h.reject rfl fun law => C.lexicon.widened (suits law)
    | _ => exact h.reject rfl fun law => C.lexicon.widened (suits law)

theorem bindProperties (shielded : C.lawful → Shielded fs) {source : Value}
    (has : C.region.Has σ source) {properties : List Site}
    (ok : ∀ x ∈ properties, C.Ok σ .closed x.scope x.config .field x.node) :
    C.Next p (s.bindProperties source properties)
      (t.bindProperties source (properties.map C.site)) := by
  obtain rfl := C.store_eq h
  cases properties with
  | nil => exact h.give has
  | cons x rest =>
    rw [List.forall_mem_cons] at ok
    obtain ⟨own, ok⟩ := ok
    have part : ∀ {m}, (.bind, m) ∈ x.node.shape.uses .field →
      (C.lawful → C.lexicon.pattern m) → C.Binds s.store x m := fun mem => own.part mem
    have suits : C.lawful → x.node.shape.BoundParts C.lexicon.pattern C.lexicon.takes := own.suits
    simp only [State.bindProperties, List.map_cons, Terms.site_node, Node.type, C.look_eq h,
      Store.getProperty_look]
    generalize x.node.shape = shape at part suits
    cases shape with
    | property key target kind computed shorthand method =>
      simp only
      split
      · cases read : s.store.getProperty source _ with
        | error fault => exact h.fail (Terms.raises_type (Store.isCraft_of_getProperty read))
        | ok found =>
          obtain ⟨next, item⟩ := Region.getProperty (C.keeps h) has read
          have binds : C.Binds s.store x target := part (by simp [Shape.uses]) (suits · |>.2)
          exact ((h.step next (Store.callables_of_getProperty read)).push (.bindRest rest source) rfl
            ⟨fun site mem => next.allows (ok site mem).allows, next.has has⟩
            (fun site mem => (ok site mem).admits) fun law =>
              ⟨fun _ => shielded law, Bool.false_ne_true.elim, fun site mem =>
                (ok site mem).suits law⟩).bind
              (binds.next next.toNext) item
      · exact h.refuse rfl
    | _ => exact h.reject rfl fun law => C.lexicon.widened (suits law)

theorem bindPattern (ok : C.Binds σ site site.node) {v : Value}
    (has : C.region.Has σ v) : C.Next p (s.bind site v) (t.bind (C.site site) v) := by
  have part : ∀ {use m}, (use, m) ∈ site.node.shape.uses .bind →
    (C.lawful → C.lexicon.Admits .closed use m) → C.Ok σ .closed site.scope site.config use m :=
    fun mem => ok.part mem
  have own : ∀ {name}, site.node.ownName? .bind = some name → C.region.declares site.scope name :=
    ok.allows.own
  have suits := fun law => C.lexicon.patterns (ok.suits law)
  unfold Node.ownName? at own
  simp only [State.bind, Terms.site_node, Terms.site_scope, Node.type]
  generalize site.node.shape = shape at part own suits
  cases shape with
  | identifier name =>
    obtain rfl := C.store_eq h
    have next := Region.declare (C.keeps h) ok.holds has (.inl (own rfl))
    simp only [C.look_eq h, Store.declare_look]
    exact (h.step next rfl).give (next.has has)
  | assignmentPattern left right =>
    have binds : C.Binds σ site left := part (by simp [Shape.uses]) (suits · |>.1)
    have runs : C.Runs σ .closed site right := part (by simp [Shape.uses]) (suits · |>.2)
    simp only
    split
    · exact (h.guarded (.bindTo (site.part .target left)) rfl rfl binds.allows
        (List.forall_mem_singleton.2 ok.admits) binds.suits).eval runs
    · exact h.bind binds has
  | objectPattern properties =>
    simp only
    split
    · rw [C.store_eq h, C.look_eq h, Store.text_look]
      exact h.refuse rfl
    · rw [Terms.items_site]
      exact h.guard.bindProperties (fun _ => ⟨_, rfl⟩) has fun x =>
        .items fun n mem => part (List.mem_map_of_mem mem) (suits · n mem)
  | _ => exact h.reject rfl fun law => C.lexicon.widened (suits law)

/-! ## Operators, loops and classes -/

theorem visitUpdate (operator : UpdateOp) {argument : Node} (before : Bool)
    (ok : C.Runs σ .closed site argument) (suits : C.lawful → argument.shape.isTarget = false →
      C.lexicon.takes .closed (.unsupported argument.type .updateTarget)) :
    C.Next p (s.visitUpdate site operator argument before)
      (t.visitUpdate (C.site site) operator argument before) := by
  refine C.enter h ok.admits fun h => ?_
  split
  · refine C.enter h ok.admits fun {s t} h => ?_
    simp only [C.store_eq h, C.look_eq h, Terms.site_scope, Store.find?_look, Store.toNumber_look]
    cases σ.find? site.scope _ with
    | none => exact h.refuse rfl
    | some old => exact h.assign ok.holds _ nofun nofun
  · next shape => exact h.visitMemberOf ok shape trivial nofun
  · next name member =>
    exact h.reject rfl fun law => C.lexicon.widened (suits law (Shape.isTarget_eq_false name member))

theorem visitUnary (operator : UnaryOp) {argument : Node} (ok : C.Runs σ .closed site argument) :
    C.Next p (s.visitUnary site operator argument)
      (t.visitUnary (C.site site) operator argument) := by
  simp only [State.visitUnary, C.store_eq h, C.look_eq h, Terms.site_scope, Store.find?_look]
  split
  · exact h.give nofun
  · split
    · next shape _ => exact C.enter h ok.admits fun h => h.visitMemberOf ok shape trivial nofun
    · exact (h.pushSafe (.unary _) rfl trivial).visit .argument ok

theorem visitFor {left right : Node} {frame frame' : LoopTarget → Frame}
    (ok : C.Runs σ .closed site right)
    (head : C.lawful → Shape.HeadParts C.lexicon.pattern C.lexicon.takes (C.role fs) left)
    (sites : ∀ target, (frame target).sites = [site])
    (routine : ∀ target, (frame target).isRoutine = true)
    (once : ∀ target, (frame target).isLooping = false)
    (mapped : ∀ target, frame' target = C.frame (frame target))
    (carries : ∀ target, loopTarget left = .ok target → C.region.Carries σ (frame target))
    (suits : ∀ target, C.lawful → C.lexicon.Target target →
      C.lexicon.Carries (C.role fs) (frame target)) :
    C.Next p (s.visitFor site left right frame) (t.visitFor (C.site site) left right frame') := by
  simp only [State.visitFor, mapped]
  unfold Shape.HeadParts at head
  cases found : loopTarget left with
  | error signal =>
    rw [found] at head
    exact h.reject (isBare_of_loopTarget found) head
  | ok target =>
    have known : C.lawful → C.lexicon.Target target := fun law => by
      have head := head law
      rw [found] at head
      cases target with
      | assign name => trivial
      | declare pattern => exact head
    exact (h.guarded (frame target) (routine target) (once target) (carries target found)
      (by simpa [sites target] using ok.admits) fun law => suits target law (known law)).visit
        .right ok

theorem testWhile (shielded : C.lawful → Shielded fs)
    (looped : C.lawful → Looped fs) {test body : Node} (ok : C.Runs σ .closed site test)
    (rounds : C.Runs σ (C.role fs).looping site body) :
    C.Next p (s.testWhile site test body) (t.testWhile (C.site site) test body) :=
  (h.push (.whileTest site test body) rfl ⟨ok.allows, rounds.allows⟩
    (List.forall_mem_singleton.2 ok.admits) fun law =>
      ⟨fun _ => shielded law, fun _ => looped law, ok.suits law, rounds.suits law⟩).visit .test ok

theorem visitClassBody (shielded : C.lawful → Shielded fs)
    (crafts : C.crafts) {name : String} (declares : C.region.declares site.scope name)
    {superclass : Option FunctionId}
    (super : ∀ f, superclass = some f → C.region.holds σ (.function f)) {body : Node}
    (ok : C.Runs σ (C.role fs) site body) :
    C.Next p (s.visitClassBody site name superclass body)
      (t.visitClassBody (C.site site) name superclass body) :=
  visit (C.push h (f := .classBody site name superclass) rfl
    ⟨⟨ok.holds, declares, super⟩, List.forall_mem_singleton.2 ok.admits, nofun, crafts,
      fun law => ⟨fun _ => shielded law, nofun, trivial⟩⟩) .body ok

/-! ## All nodes -/

theorem start {r : Role} (ok : C.Runs σ r site site.node)
    (begins : C.lawful → C.lexicon.Begins fs site.node) (distinct : site.Distinct C.lens.tree σ)
    (crafts : site.node.type = .classDeclaration → C.crafts) :
    C.Next p (s.start site) (t.start (C.site site)) := by
  obtain rfl := C.store_eq h
  have holds := ok.holds
  have admits := ok.admits
  have here : ∀ x ∈ [site], C.admits x.config := List.forall_mem_singleton.2 admits
  have k := C.keeps h
  have allow : ∀ {use m} (_ : (use, m) ∈ site.node.shape.uses .run := by simp [Shape.uses]),
    C.region.Allows s.store site.scope use m := ok.allows.part
  have part : ∀ {r m} (_ : C.lawful → C.lexicon.part r m)
      (_ : (.run, m) ∈ site.node.shape.uses .run := by simp [Shape.uses]),
    C.Runs s.store r site m := fun suits mem => ok.part mem suits
  have parts : ∀ {r : Role} {use : Use} {children : List Node},
      site.node.shape.uses .run = children.map (use, ·) →
      (C.lawful → ∀ n ∈ children, C.lexicon.Admits r use n) →
      ∀ n ∈ children, C.Ok s.store r site.scope site.config use n :=
    fun uses suits n mem => ok.part (uses ▸ List.mem_map_of_mem mem) (suits · n mem)
  have own : ∀ {name}, site.node.ownName? .run = some name → C.region.declares site.scope name :=
    ok.allows.own
  have defines := fun law => Lexicon.defines_of_part (ok.suits law)
  have function : site.node.functionParts?.isSome = true →
    C.Next p (s.giveFunction site) (t.giveFunction (C.site site)) :=
    fun isSome => h.giveFunction holds isSome defines
  have declared : ∀ {id params body generator isAsync},
      site.node.shape = .functionDeclaration id params body generator isAsync →
      C.Next p (s.giveDeclared site id) (t.giveDeclared (C.site site) id) := by
    intro id params body generator isAsync shape
    refine h.giveDeclared holds (by simp [Node.functionParts?, shape]) defines ?_
    exact fun f c => distinct id params body generator isAsync f c shape
  obtain ⟨next, child⟩ := Region.emptyScope k holds
  have inner : ∀ {r use n}, (C.lawful → C.lexicon.Admits r use n) →
      C.Ok (s.store.childScope site.scope []).2 r (s.store.childScope site.scope []).1 site.config
        use n :=
    fun suits => ⟨Region.allows_new k child _ _, admits, suits⟩
  have suits := fun law => (begins law).parts
  have closed := fun law => (begins law).closed
  unfold Node.ownName? at own
  unfold Node.functionParts? at function
  unfold Node.type at crafts closed
  simp only [State.start, State.refuse, Terms.site_node, Terms.site_scope, C.look_eq h,
    Store.childScope_look, Node.type]
  generalize site.node.shape = shape at allow part parts own function declared crafts suits closed
  cases shape with
  | program body => exact h.evalBody holds admits (parts rfl suits)
  | blockStatement body =>
    let site' : Site := { site with scope := (s.store.childScope site.scope []).1 }
    have own : C.admits site'.config := admits
    exact (h.step next rfl).evalBody child own fun n mem => inner (suits · n mem)
  | expressionStatement expression => exact h.visit .expression (part suits)
  | emptyStatement | debuggerStatement | templateElement => exact h.give (Region.has_plain rfl)
  | variableDeclaration declarations kind =>
    exact (h.pushSafe (.instead .undefined) rfl (Region.has_plain rfl)).visitAll admits .declarations
      (parts rfl suits)
  | variableDeclarator id init =>
    have h := h.guard.pushSafe (.instead .undefined) rfl (Region.has_plain rfl)
    have binds : C.Binds s.store site id := ⟨allow, admits, (suits · |>.1)⟩
    cases init with
    | none => exact h.bind binds (Region.has_plain rfl)
    | some init =>
      exact (h.push (.bindTo (site.part .target id)) rfl binds.allows
        (List.forall_mem_singleton.2 admits) fun law =>
          ⟨fun _ => ⟨_, rfl⟩, Bool.false_ne_true.elim, binds.suits law⟩).visit .init
            (part (suits · |>.2 init rfl))
  | ifStatement test consequent alternate =>
    refine (h.guarded (.branch site consequent alternate) rfl rfl ⟨allow, fun n mem => allow ?_⟩
      here (suits · |>.2)).visit .test (part (suits · |>.1))
    simpa [Shape.uses] using .inr (.inr mem)
  | whileStatement test body =>
    exact h.guard.once.testWhile (fun _ => ⟨_, rfl⟩) (fun _ => ⟨_, rfl⟩)
      (part (suits · |>.1)) (part (suits · |>.2))
  | forStatement => exact h.refuse rfl
  | forInStatement left right body | forOfStatement left right body =>
    refine h.visitFor (part (suits · |>.2.1) ?_) (suits · |>.1) (fun _ => rfl) (fun _ => rfl)
      (fun _ => rfl) (fun _ => rfl) (fun target found => ?_)
      fun target law known => ⟨known, (suits law).2.2⟩
    · simp only [Shape.uses]
      split <;> simp
    · cases target with
      | assign name => exact allow (by simp [Shape.uses, found])
      | declare pattern => exact holds
  | functionDeclaration id => exact declared rfl
  | returnStatement argument =>
    cases argument with
    | none => exact h.fail ⟨Region.has_plain rfl, C.plain rfl, (suits · |>.1 .undefined)⟩
    | some argument =>
      exact (h.guarded .returns rfl rfl trivial (List.forall_mem_nil _) (suits · |>.1)).visit
        .argument (part (suits · |>.2 argument rfl))
  | throwStatement argument =>
    exact (h.guarded .throws rfl rfl trivial (List.forall_mem_nil _) fun _ => trivial).visit
      .argument (part suits)
  | tryStatement block handler finalizer =>
    refine visit (C.pushCell h (f := (.tryBlock site · handler finalizer)) (fun _ => rfl)
      fun c => ⟨⟨holds, fun n mem => allow ?_⟩, here, fun _ => Bool.false_ne_true.elim, trivial,
        fun law => ⟨Bool.false_ne_true.elim, Bool.false_ne_true.elim, (suits law).2⟩⟩)
          .block (part (suits · |>.1))
    simpa [Shape.uses] using .inr mem
  | catchClause param body =>
    have has : C.region.Has s.store ((s.store.caught? site.scope).getD .undefined) :=
      Region.has_getD fun v => Region.has_caught k holds
    simp only [Store.caught?_look, Store.seen]
    let site' : Site := { site with scope := (s.store.childScope site.scope []).1 }
    cases param with
    | none => exact (h.step next rfl).visit .body (inner (suits · |>.2))
    | some param =>
      exact ((h.step next rfl).guarded (.catchBody site' body) rfl rfl
        (Region.allows_new k child .run body) (List.forall_mem_singleton.2 admits)
        (suits · |>.2)).bind (inner (suits · |>.1 param rfl)) (next.has has)
  | breakStatement label | continueStatement label =>
    cases label with
    | none => exact h.reject rfl suits
    | some label => exact h.refuse rfl
  | classDeclaration id superClass body =>
    dsimp only
    cases named : id.bind Node.identifierName? with
    | none => exact h.reject rfl (suits · |>.1 named)
    | some name =>
      have declares : C.region.declares site.scope name := by
        cases id with
        | none => cases named
        | some id => exact own named
      cases superClass with
      | none =>
        exact h.guard.visitClassBody (fun _ => ⟨_, rfl⟩) (crafts rfl) declares (by simp)
          (part (suits · |>.2.2))
      | some super =>
        exact visit (C.push h.guard (f := .superclass site name body) rfl
          ⟨⟨holds, declares, allow⟩, here, fun _ => Bool.false_ne_true.elim,
            crafts rfl, fun law => ⟨fun _ => ⟨_, rfl⟩, Bool.false_ne_true.elim, (suits law).2.2⟩⟩)
            .superClass (part (suits · |>.2.1 super rfl))
  | classBody body => exact (h.pushSafe .relist rfl trivial).visitAll admits .body (parts rfl suits)
  | methodDefinition key value kind =>
    cases kind with
    | constructor => exact h.visit .value (part suits)
    | _ => exact h.refuse rfl
  | identifier name => exact h.readName holds admits name
  | literal value raw regex => exact h.giveLiteral suits
  | thisExpression =>
    simp only [Store.find?_look]
    exact h.give (Region.has_getD fun v => Region.has_find k holds)
  | arrayExpression elements => exact h.visitItems admits .elements (parts rfl suits)
  | objectExpression properties =>
    have bare : ∀ id, none = some id → C.region.holds s.store (.object id) := by rintro _ ⟨⟩
    obtain ⟨next, object⟩ := Region.emptyObject k bare
    simp only [Store.newObject_look]
    refine C.enter (h.step next rfl) admits fun h => ?_
    rw [Terms.items_site]
    exact h.guard.nextProperty (fun _ => ⟨_, rfl⟩) object fun x =>
      .items fun n mem => (parts rfl suits n mem).next next.toNext
  | property | objectPattern => exact h.reject rfl suits
  | functionExpression | arrowFunctionExpression => exact function rfl
  | memberExpression object key computed =>
    exact h.visitMember (part (suits · |>.1))
      (fun isComputed => allow (by simp [Shape.uses, isComputed])) (suits · |>.2) trivial
      (by rintro _ ⟨⟩)
  | callExpression callee arguments =>
    refine (h.guarded (.callee site callee arguments) rfl rfl (fun n mem => allow ?_) here
      fun law => ⟨closed law rfl, (suits law).2⟩).visitCallee (part (suits · |>.1)) trivial
    simpa [Shape.uses] using .inr mem
  | newExpression callee arguments =>
    refine (h.guarded (.newCallee site callee arguments) rfl rfl (fun n mem => allow ?_) here
      fun law => ⟨closed law rfl, (suits law).2⟩).visit .callee (part (suits · |>.1))
    simpa [Shape.uses] using .inr mem
  | assignmentExpression operator left right =>
    exact (h.guarded (.assignment site operator left) rfl rfl allow here
      fun law => ⟨(suits law).1, (suits law).2.1⟩).visit .right (part (suits · |>.2.2))
  | updateExpression operator argument before =>
    exact h.visitUpdate operator before (part (suits · |>.2)) (suits · |>.1)
  | unaryExpression operator argument =>
    exact h.visitUnary operator (part suits)
  | binaryExpression operator left right =>
    exact (h.guarded (.binaryLeft site operator right) rfl rfl allow here
      (suits · |>.2)).visit .left (part (suits · |>.1))
  | logicalExpression operator left right =>
    exact (h.guarded (.logical site operator right) rfl rfl allow here
      (suits · |>.2)).visit .left (part (suits · |>.1))
  | conditionalExpression test consequent alternate =>
    refine (h.guarded (.branch site consequent (some alternate)) rfl rfl ⟨allow, ?_⟩ here
      fun law => ?_).visit .test (part (suits · |>.1))
    · rintro n ⟨⟩
      exact allow
    · have role : C.role fs = .closed := closed law rfl
      rw [role]
      exact ⟨(suits law).2.1, fun n mem => by cases mem; exact (suits law).2.2⟩
  | sequenceExpression expressions =>
    exact (h.pushSafe .last rfl trivial).visitAll admits .expressions (parts rfl suits)
  | templateLiteral quasis expressions =>
    exact (h.pushSafe (.template _) rfl trivial).visitAll admits .expressions (parts rfl suits)
  | assignmentPattern left right =>
    dsimp only
    cases named : left.identifierName? with
    | none => exact h.reject rfl (suits · |>.2.1 named)
    | some name =>
      exact (h.pushSafe (.declare site.scope name) rfl ⟨holds, own named⟩).visit .right
        (part (suits · |>.2.2))

end Conduct.Mid

end EcmaMachine
