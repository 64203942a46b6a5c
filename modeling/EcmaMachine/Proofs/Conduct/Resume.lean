import EcmaMachine.Proofs.Conduct.Evaluate

/-!
Conducts are kept when an outcome is handed to a frame, be it a value or a failure, and when a
function of the script is called.
-/

namespace EcmaMachine

/-! ## Results of operations -/

namespace Terms

variable {T : Terms} {σ σ' : Store} {v w : Value}

def Results (T : Terms) (σ : Store) : Except Signal (Value × Store) → Prop
  | .ok (v, σ') => T.region.Step σ σ' ∧ T.region.Has σ' v ∧ σ'.callables = σ.callables
  | .error signal => ∀ r, T.Raises σ r signal

theorem results_mapError {result : Except TypeFault (Value × Store)}
    (kept : ∀ v σ', result = .ok (v, σ') →
      T.region.Step σ σ' ∧ T.region.Has σ' v ∧ σ'.callables = σ.callables)
    (plain : ∀ fault, result = .error fault → (Signal.type fault).isCraft = false) :
    T.Results σ (result.mapError .type) := by
  cases result with
  | error fault => exact fun _ => raises_type (plain fault rfl)
  | ok found => exact kept found.1 found.2 rfl

/-- What an assignment stores: the value itself, or that of an operation on what was there. -/
theorem results_combined (k : T.region.keeps σ) (operator : AssignOp)
    {old : Unit → Except Signal (Value × Store)} (before : ∀ u, T.Results σ (old u))
    (has : T.region.Has σ v) : T.Results σ (State.combined σ operator old v) := by
  unfold State.combined
  split
  · exact ⟨.refl k, has, rfl⟩
  · next op _ =>
    have before := before ()
    cases read : old () with
    | error signal =>
      rw [read] at before
      exact before
    | ok found =>
      rw [read] at before
      refine results_mapError (fun w σ' done => ?_) fun _ => Store.isCraft_of_binary
      obtain ⟨next, has⟩ := Region.binary before.1.keeps (before.1.has has) done
      exact ⟨before.1.trans next, has, (Store.callables_of_binary done).trans before.2.2⟩

end Terms

theorem State.combined_look (store : Store) (l : Lens) (operator : AssignOp)
    (old : Unit → Except Signal (Value × Store)) {old' : Unit → Except Signal (Value × Store)}
    (same : old' () = (old ()).map (Store.seen l)) (v : Value) :
    combined (store.look l) operator old' v =
      (combined store operator old v).map (Store.seen l) := by
  simp only [combined]
  cases operator.applied? with
  | none => rfl
  | some op =>
    simp only [same]
    cases old () with
    | error signal => rfl
    | ok before =>
      change Except.mapError Signal.type ((before.2.look l).binary op before.1 v) =
        (Except.mapError Signal.type (before.2.binary op before.1 v)).map (Store.seen l)
      rw [Store.binary_look]
      cases before.2.binary op before.1 v <;> rfl

theorem State.fillTemplate_look (store : Store) (l : Lens) (strands : List String)
    (values : List Value) :
    fillTemplate (store.look l) strands values = fillTemplate store strands values := by
  induction strands generalizing values with
  | nil => rfl
  | cons strand strands ih => cases values <;> simp only [fillTemplate, ih, Store.text_look]

namespace Lexicon

variable {η : Type} {s : State η} {f : Frame} {fs : List Frame}

theorem stop_eq_none (h : f.cell? = none) (way : Way) : f.stop way = none := by
  cases f with
  | guard | once | body | program | tryBlock | tryHandler => cases h
  | _ => cases way <;> rfl

/-- A frame that takes a value fails only above a cell that lets one failure through. -/
theorem quiet_resume (stack : s.stack = fs) (plain : f.isPlain = true)
    (shielded : f.isRisky = true → Shielded fs) (v receiver : Value) :
    Quiet .failure fs (s.resume v receiver f) := by
  cases risky : f.isRisky with
  | true => exact .inl (shielded risky)
  | false =>
    cases f with
    | last | instead | declare | relist | propertyValue | construct | unary | template =>
      exact .inr ⟨rfl, stack⟩
    | exit | guard | once | body | program | tryBlock | tryHandler | deliver => cases plain
    | _ => cases risky

theorem stack_visit (stack : s.stack = fs) (site : Site) (slot : Slot) (child : Node) :
    (s.visit site slot child).stack = fs ∨
      ∃ site' slot', (s.visit site slot child).stack = .exit site' slot' :: fs := by
  refine State.enter_cases
    (Q := fun t => t.stack = fs ∨ ∃ site' slot', t.stack = .exit site' slot' :: fs) ?_
    fun _ => .inl stack
  exact .inr ⟨site, some slot, congrArg (Frame.exit site (some slot) :: ·) stack⟩

/-- Frames that take up no jump hand a failure on. -/
theorem takes_exit {L : Lexicon} {site : Site} {slot : Option Slot} {signal : Signal}
    (h : L.takes (L.role (.exit site slot :: fs)) signal) : L.takes (L.role fs) signal := by
  cases slot <;> simp only [role] at h <;> split at h
  · exact L.widened h
  · exact h
  · exact h
  · exact L.widened h

/-- Nothing but a jump ends in the body of a function. -/
theorem takes_closed {L : Lexicon} {signal : Signal} (h : L.takes .body signal)
    (returned : ∀ v, signal ≠ .returned v) (broken : ∀ label, signal ≠ .broken label)
    (continued : ∀ label, signal ≠ .continued label) : L.takes .closed signal :=
  L.unbroken (L.unreturned (r := Role.closed.looping) h returned) (broken none) (continued none)

end Lexicon

variable {η : Type} {C : Conduct η} {p s t : State η} {f : Frame} {fs : List Frame} {σ : Store}
  {site : Site} {v : Value} {e : Exception} {way : Way}

namespace Conduct.Mid

/-! ## Loops -/

variable {next : Rounds} (h : C.Mid p fs σ s t) (shielded : C.lawful → Shielded fs)
  (looped : C.lawful → Looped fs) (admits : C.admits site.config)
  (remaining : C.region.Remaining σ site.scope next)
  (suits : C.lawful → C.lexicon.Remaining (C.role fs) next)
include h shielded looped admits remaining suits

/-- A round with a fresh cell. -/
theorem round :
    C.Mid p (.round site s.world.spent.size next :: fs) σ (s.pushCell (.round site · next))
      (t.pushCell (.round (C.site site) · next)) :=
  C.pushCell h (f := (.round site · next)) (fun _ => rfl) fun _ =>
    ⟨remaining, List.forall_mem_singleton.2 admits, nofun, trivial, fun law =>
      ⟨fun _ => shielded law, fun _ => looped law, suits law⟩⟩

theorem nextRound : C.Next p (s.nextRound site next) (t.nextRound (C.site site) next) := by
  cases next with
  | tested test body =>
    exact h.testWhile shielded looped ⟨remaining.1, admits, (suits · |>.1)⟩
      ⟨remaining.2, admits, (suits · |>.2)⟩
  | each target body items =>
    obtain ⟨loops, has⟩ := remaining
    cases items with
    | nil => exact h.give (Region.has_plain rfl)
    | cons item items =>
      rw [List.forall_mem_cons] at has
      have others : C.region.Remaining σ site.scope (.each target body items) := ⟨loops, has.2⟩
      have store : ∀ s : State η,
          ({ s with world := s.world.newCell.2 } : State η).store = s.store := fun _ => rfl
      obtain rfl := C.store_eq h
      have k := C.keeps h
      cases target with
      | assign name =>
        simp only [State.nextRound, store, C.look_eq h, Store.assign?_look, Terms.site_scope]
        cases assigned : s.store.assign? site.scope name item with
        | none => exact refuse (C.newCell h) rfl
        | some σ' =>
          have next := Region.assign k loops.holds has.1 assigned
          exact ((h.step next (Store.callables_of_assign assigned)).round shielded looped admits
            (next.remaining others) suits).visit .body
              ⟨next.allows loops, admits, (suits · |>.2)⟩
      | declare pattern =>
        simp only [State.nextRound, store, C.look_eq h, Store.childScope_look, Store.seen,
          Terms.site_scope]
        obtain ⟨next, child⟩ := Region.emptyScope k loops
        let inner : Site := { site with scope := (s.store.childScope site.scope []).1 }
        have binds : C.Binds (s.store.childScope site.scope []).2 inner pattern :=
          ⟨Region.allows_new k child .bind pattern, admits, (suits · |>.1)⟩
        refine bind (C.pushCell (h.step next rfl)
          (f := (.roundBody inner · body site (.each (.declare pattern) body items)))
          (fun _ => rfl) fun _ => ⟨⟨Region.allows_new k child .run body, next.remaining others⟩,
            ?_, fun _ => Bool.false_ne_true.elim, trivial, fun law => ⟨fun _ => shielded law,
              fun _ => looped law, (suits law).2, suits law⟩⟩) binds (next.has has.1)
        simp [Frame.sites, inner, admits]

end Conduct.Mid

namespace Conduct.Top

/-! ## Outcomes that go on -/

variable (h : C.Top f fs σ s t)
include h

/-- A value goes on over the frames below. -/
theorem passValue {σ' : Store} {s' t' : State η} (free : f.stop .value = none)
    (mid : C.Mid s.pop fs σ' s' t') {receiver : Value}
    (pursues : C.Pursues σ' fs (.ret v receiver)) :
    C.Given .value f s (s'.become (.ret v receiver)) (t'.become (.ret v receiver)) := by
  have stack : C.lawful → s'.stack = fs := C.stack_eq mid
  refine C.given h free (fun law => ⟨fun other ne => ?_, .inr (stack law)⟩)
    (C.become (.ret v receiver) mid pursues)
  cases other with
  | value => exact (ne rfl).elim
  | failure => exact .inr ⟨rfl, stack law⟩

/-- A failure goes on over the frames below. -/
theorem passFailure {s' t' : State η} (free : f.stop .failure = none)
    (mid : C.Mid s.pop fs σ s' t') (raises : C.Raises σ (C.role fs) e.signal) :
    C.Given .failure f s (s'.fail e) (t'.fail e) := by
  have stack : C.lawful → s'.stack = fs := C.stack_eq mid
  refine C.given h free (fun law => ⟨fun other ne => ?_, .inr (stack law)⟩) (mid.fail raises)
  cases other with
  | value => exact .inr ⟨rfl, stack law⟩
  | failure => exact (ne rfl).elim

theorem giveOnce {cell : Cell} (own : f.cell? = some cell)
    (stop : f.stop .value = some cell) (has : C.region.Has σ v) :
    C.Given way f s (s.pop.giveOnce cell v) (t.pop.giveOnce cell v) :=
  C.once h own (fun h => h.give has) fun _ _ stack other => by
    cases other with
    | value => exact .inl stop
    | failure => exact .inr (.inr ⟨rfl, stack⟩)

/-! ## Loops and try statements -/

theorem again (shielded : C.lawful → Shielded fs)
    (looped : C.lawful → Looped fs) (admits : C.admits site.config) {cell : Cell}
    (own : f.cell? = some cell) {next : Rounds} (remaining : C.region.Remaining σ site.scope next)
    (suits : C.lawful → C.lexicon.Remaining (C.role fs) next) :
    C.Given way f s (s.pop.again site cell next) (t.pop.again (C.site site) cell next) :=
  C.once h own (fun h => h.nextRound shielded looped admits remaining suits) fun law _ _ other => by
    cases other with
    | value => exact .inr (.inl (looped law))
    | failure => exact .inr (.inl (shielded law))

theorem finishTry {cell : Cell}
    (own : f.cell? = some cell) (stops : ∀ way, f.stop way = some cell) {finalizer : Option Node}
    {o : Outcome} (ok : ∀ n ∈ finalizer, C.Runs σ (C.role fs) site n)
    (tells : C.Tells σ (C.role fs) o) :
    C.Given way f s (s.pop.finishTry site cell finalizer o)
      (t.pop.finishTry (C.site site) cell finalizer o) := by
  cases finalizer with
  | none => exact C.once h own (fun h => h.finish tells) fun _ _ _ other => .inl (stops other)
  | some node =>
    have suits : C.lawful → ∀ e, o = .failure e → C.lexicon.takes (C.role fs) e.signal := by
      rintro law e rfl
      exact tells.takes law
    have bears : ∀ c, C.Bears σ (.guard c :: fs) (.finalizer o) := by
      intro c
      have fits : C.lawful → C.lexicon.Fits (.guard c :: fs) (.finalizer o) := fun law =>
        ⟨fun _ => ⟨c, rfl⟩, nofun, suits law⟩
      cases o with
      | value v => exact ⟨tells, List.forall_mem_nil _, nofun, trivial, fits⟩
      | failure e => exact ⟨tells.signals, List.forall_mem_nil _, nofun, tells.may, fits⟩
    have inside : ∀ {s t : State η}, C.Mid s fs σ s t →
        C.Next s (((s.pushCell .guard).push (.finalizer o)).visit site .finalizer node)
          (((t.pushCell .guard).push (.finalizer o)).visit (C.site site) .finalizer node) :=
      fun h => (C.push h.guard (f := .finalizer o) rfl (bears _)).visit .finalizer (ok node rfl)
    exact C.once h own inside fun _ _ _ other => .inl (stops other)

end Conduct.Top

namespace Conduct.Mid

variable {key : String} {target : Value}

/-! ## Members -/

variable (h : C.Mid p fs σ s t)
include h

theorem settle {result : Except TypeFault (Value × Store)}
    (kept : ∀ v σ', result = .ok (v, σ') → C.Later σ σ' ∧ C.region.Has σ' v)
    (plain : ∀ fault, result = .error fault → (Signal.type fault).isCraft = false) :
    C.Next p (s.settle result) (t.settle (result.map (Store.seen C.lens))) := by
  cases result with
  | error fault => exact h.fail (Terms.raises_type (plain fault rfl))
  | ok found =>
    obtain ⟨later, has⟩ := kept found.1 found.2 rfl
    exact give (C.write h later) has

theorem assignName {scope : ScopeId} (holds : C.region.holds σ (.scope scope))
    (operator : AssignOp) (name : String) (has : C.region.Has σ v) :
    C.Next p (s.assignName scope operator name v) (t.assignName scope operator name v) := by
  obtain rfl := C.store_eq h
  simp only [State.assignName, C.look_eq h, Store.find?_look]
  generalize made : State.combined s.store operator _ v = result
  have results : C.Results s.store result := by
    rw [← made]
    refine Terms.results_combined (C.keeps h) operator (fun _ => ?_) has
    split
    · next found => exact ⟨.refl (C.keeps h), Region.has_find (C.keeps h) holds found, rfl⟩
    · exact fun _ => Terms.raises_of_bare rfl fun _ => C.lexicon.ordinary rfl
  rw [State.combined_look s.store C.lens operator _ ?same v, made]
  case same => cases s.store.find? scope name <;> rfl
  cases result with
  | error signal => exact h.fail (results _)
  | ok found =>
    exact (h.step results.1 results.2.2).assign (results.1.holds holds) name results.2.1 results.2.1

section

variable (own : C.region.Has σ target)
  (wires : C.rewires ∨ ∀ f, target = .function f → key ≠ "prototype")
include own wires

theorem assignMember (operator : AssignOp) (has : C.region.Has σ v) :
    C.Next p (s.assignMember target key operator v) (t.assignMember target key operator v) := by
  obtain rfl := C.store_eq h
  have old : C.Results s.store ((s.store.getProperty target key).mapError .type) :=
    Terms.results_mapError (fun _ _ read => by
      obtain ⟨next, has⟩ := Region.getProperty (C.keeps h) own read
      exact ⟨next, has, Store.callables_of_getProperty read⟩) fun _ => Store.isCraft_of_getProperty
  have results := Terms.results_combined (C.keeps h) operator (fun _ => old) has
  simp only [State.assignMember, C.look_eq h, Store.getProperty_look]
  rw [State.combined_look s.store C.lens operator fun _ =>
    (s.store.getProperty target key).mapError .type]
  · generalize State.combined s.store operator _ v = result at results
    cases result with
    | error signal => exact h.fail (results _)
    | ok found =>
      obtain ⟨step, has, same⟩ := results
      simp only [Except.map, Store.seen, Store.setProperty_look]
      cases wrote : found.2.setProperty target key found.1 with
      | error fault => exact h.fail (Terms.raises_type (Store.isCraft_of_setProperty wrote))
      | ok store =>
        obtain ⟨next, loyal⟩ := Region.setProperty step.keeps (step.has own) has wrote
        exact give (C.write h ⟨step.toMove.trans next,
          wires.imp_right fun other => step.loyal.trans (loyal other), fun _ scripts =>
            scripts.congr ((Store.callables_of_setProperty wrote).trans same)⟩) (next.has has)
  · cases s.store.getProperty target key <;> rfl

theorem updateMember (operator : UpdateOp) (before : Bool) :
    C.Next p (s.updateMember target key operator before)
      (t.updateMember target key operator before) := by
  obtain rfl := C.store_eq h
  simp only [State.updateMember, C.look_eq h, Store.getProperty_look]
  cases read : s.store.getProperty target key with
  | error fault => exact h.fail (Terms.raises_type (Store.isCraft_of_getProperty read))
  | ok found =>
    obtain ⟨step, -⟩ := Region.getProperty (C.keeps h) own read
    simp only [Except.map, Bind.bind, Except.bind, Store.seen, Store.toNumber_look,
      Store.setProperty_look]
    cases wrote : found.2.setProperty target key _ with
    | error fault => exact h.fail (Terms.raises_type (Store.isCraft_of_setProperty wrote))
    | ok store =>
      have number : ∀ x, C.region.Has found.2 (.number x) := fun _ => Region.has_plain rfl
      obtain ⟨next, loyal⟩ := Region.setProperty step.keeps (step.has own) (number _) wrote
      exact give (C.write h ⟨step.toMove.trans next,
        wires.imp_right fun other => step.loyal.trans (loyal other), fun _ scripts =>
          scripts.congr ((Store.callables_of_setProperty wrote).trans
            (Store.callables_of_getProperty read))⟩) (Region.has_plain rfl)

end

theorem useMember (own : C.region.Has σ target) {access : Access}
    (reads : C.region.Reads σ access) (receives : C.tracks → access = .callee → Receives fs)
    (wires : access ≠ .read → access ≠ .callee →
      C.rewires ∨ ∀ f, target = .function f → key ≠ "prototype") :
    C.Next p (s.useMember target key access) (t.useMember target key access) := by
  obtain rfl := C.store_eq h
  have k := C.keeps h
  cases access with
  | read =>
    simp only [State.useMember, C.look_eq h, Store.getProperty_look]
    exact h.settle (fun _ _ read => (Region.getProperty k own read).imp_left
      (.of_step · (Store.callables_of_getProperty read))) fun _ => Store.isCraft_of_getProperty
  | callee =>
    simp only [State.useMember, C.look_eq h, Store.getProperty_look]
    cases read : s.store.getProperty target key with
    | error fault => exact h.fail (Terms.raises_type (Store.isCraft_of_getProperty read))
    | ok found =>
      obtain ⟨next, has⟩ := Region.getProperty k own read
      exact C.become (.ret found.1 target) (h.step next (Store.callables_of_getProperty read))
        ⟨has, next.has own, fun tracks => .inr (receives tracks rfl)⟩
  | assign operator v => exact h.assignMember own (wires nofun nofun) operator reads
  | update operator before => exact h.updateMember own (wires nofun nofun) operator before
  | delete =>
    simp only [State.useMember, C.look_eq h, Store.deleteProperty_look]
    cases deleted : s.store.deleteProperty target key with
    | error fault => exact h.fail (Terms.raises_type (Store.isCraft_of_deleteProperty deleted))
    | ok store =>
      obtain ⟨next, loyal⟩ := Region.deleteProperty k own deleted
      exact give (C.write h ⟨next, (wires nofun nofun).imp_right loyal, fun _ scripts =>
        scripts.congr (Store.callables_of_deleteProperty deleted)⟩) nofun

theorem visitKey (own : C.region.Has σ target)
    (admits : C.admits site.config) {property : Node} {computed : Bool}
    (allows : computed = true → C.region.Allows σ site.scope .run property)
    (suits : C.lawful → Shape.KeyParts C.lexicon.part C.lexicon.takes property computed) :
    C.Next p (s.visitKey site target property computed)
      (t.visitKey (C.site site) target property computed) := by
  obtain rfl := C.store_eq h
  cases computed with
  | true => exact h.visit .property ⟨allows rfl, admits, suits⟩
  | false =>
    simp only [State.visitKey, C.look_eq h, Store.getProperty_look, Bool.false_eq_true, if_false]
    cases named : property.identifierName? with
    | none => exact h.reject rfl fun law => C.lexicon.widened (suits law named)
    | some name =>
      have key : C.admits (site.part (.slot .property) property).config := admits
      have shown : ∀ found : Value × Store, C.region.Step s.store found.2 →
          found.2.callables = s.store.callables → C.region.Has found.2 found.1 →
          C.Next p ((s.withStore found.2).enter site (some .property) fun s =>
              (s.push (.instead (.string name))).enter (site.part (.slot .property) property) none
                fun s => s.give found.1)
            ((t.withStore (found.2.look C.lens)).enter (C.site site) (some .property) fun t =>
              (t.push (.instead (.string name))).enter
                ((C.site site).part (.slot .property) property) none fun t => t.give found.1) := by
        intro found next same has
        exact C.enter (h.step next same) admits fun h =>
          C.enter (h.pushSafe (.instead (.string name)) rfl nofun) key fun h => h.give has
      dsimp only
      cases read : s.store.getProperty target name with
      | error fault => exact shown (.undefined, s.store) (.refl (C.keeps h)) rfl nofun
      | ok found =>
        obtain ⟨next, has⟩ := Region.getProperty (C.keeps h) own read
        exact shown found next (Store.callables_of_getProperty read) has

theorem visitTarget (operator : AssignOp) {left : Node}
    (ok : C.Runs σ .closed site left) (suits : C.lawful → left.shape.isTarget = false →
      C.lexicon.takes .closed (.unsupported left.type (.assignmentTarget left.type)))
    (has : C.region.Has σ v) :
    C.Next p (s.visitTarget site operator left v) (t.visitTarget (C.site site) operator left v) := by
  refine C.enter h ok.admits fun h => ?_
  split
  · have name : C.admits (site.part (.slot .left) left).config := ok.admits
    exact C.enter h name fun h => h.assignName ok.holds operator _ has
  · next shape => exact h.visitMemberOf ok shape has nofun
  · next name member =>
    exact h.reject rfl fun law => C.lexicon.widened (suits law (Shape.isTarget_eq_false name member))

/-! ## Functions -/

theorem runBody {closure : Closure} (closed : C.lawful → C.role fs = .closed)
    (body : C.Runs σ (if closure.isExpression then .closed else .body) site closure.body) :
    C.Next p (s.runBody site closure) (t.runBody (C.site site) (closure.mapTree C.lens.tree)) := by
  have same : (closure.mapTree C.lens.tree).isExpression = closure.isExpression := rfl
  simp only [State.runBody, same]
  split at body
  · next isExpression =>
    rw [if_pos isExpression, if_pos isExpression]
    exact h.eval ⟨body.allows, body.admits, fun law => closed law ▸ body.suits law⟩
  · next isBlock =>
    rw [if_neg isBlock, if_neg isBlock]
    exact eval (C.pushCell h (f := .body) (fun _ => rfl) fun _ =>
      ⟨trivial, List.forall_mem_nil _, nofun, trivial, fun _ => ⟨nofun, nofun, trivial⟩⟩) body

theorem nextParam (shielded : C.lawful → Shielded fs)
    (closed : C.lawful → C.role fs = .closed) {closure : Closure}
    (script : C.lawful → C.lexicon.Script closure)
    (allows : C.region.Allows σ site.scope .run closure.body) (admits : C.admits site.config)
    {params : List Site} (ok : ∀ x ∈ params, C.Binds σ x x.node) {args : List Value}
    (has : ∀ v ∈ args, C.region.Has σ v) :
    C.Next p (s.nextParam site closure params args)
      (t.nextParam (C.site site) (closure.mapTree C.lens.tree) (params.map C.site) args) := by
  cases params with
  | nil => exact h.runBody closed ⟨allows, admits, (script · |>.2)⟩
  | cons param params =>
    rw [List.forall_mem_cons] at ok
    have others : ∀ v ∈ args.tail, C.region.Has σ v := fun v mem => has v (List.mem_of_mem_tail mem)
    have first : C.region.Has σ (args.head?.getD .undefined) :=
      Region.has_getD fun v found => has v (List.mem_of_mem_head? found)
    exact (h.push (.bindParams site closure params args.tail) rfl
      ⟨allows, fun x mem => (ok.2 x mem).allows, others⟩
      (List.forall_mem_cons.2 ⟨admits, fun x mem => (ok.2 x mem).admits⟩) fun law =>
        ⟨fun _ => shielded law, nofun, closed law, script law, fun x mem =>
          (ok.2 x mem).suits law⟩).bind ok.1 first

theorem applyClosure (closure : Closure)
    (holds : C.region.holds σ (.scope closure.scope)) {this : Value} (own : C.region.Has σ this)
    {args : List Value} (has : ∀ v ∈ args, C.region.Has σ v) (config : Config)
    (admits : C.admits config) (closed : C.lawful → C.role fs = .closed)
    (script : C.lawful → C.lexicon.Script closure) :
    C.Next p (s.applyClosure closure this args config)
      (t.applyClosure (closure.mapTree C.lens.tree) this args (C.config config)) := by
  obtain rfl := C.store_eq h
  have values : ∀ e ∈ if closure.isArrow then [] else [("this", this)],
      C.region.Has s.store e.2 := by
    split
    · exact nofun
    · exact List.forall_mem_singleton.2 own
  obtain ⟨next, child⟩ := Region.childScope (C.keeps h) holds values
  let made := s.store.childScope closure.scope (if closure.isArrow then [] else [("this", this)])
  let site : Site := ⟨closure.spot, made.1, config⟩
  have params : ∀ x ∈ site.items closure.params, C.Binds made.2 x x.node := fun x =>
    .items fun n mem => ⟨Region.allows_new (C.keeps h) child .bind n, admits, (script · |>.1 n mem)⟩
  have body : C.region.Allows made.2 site.scope .run closure.body :=
    Region.allows_new (C.keeps h) child .run closure.body
  have bound := (h.step next rfl).guard.nextParam (fun _ => ⟨_, rfl⟩) closed script body admits
    params (next.all has)
  rw [← Terms.items_site] at bound
  have seen : t.store.childScope (closure.mapTree C.lens.tree).scope
      (if (closure.mapTree C.lens.tree).isArrow then [] else [("this", this)]) =
      Store.seen C.lens made := by
    rw [C.look_eq h]
    exact Store.childScope_look s.store C.lens _ _
  simp only [State.applyClosure, seen]
  exact bound

/-! ## Values -/

/-- What a plain frame does with a value. The cells have no part in it. -/
theorem resumePlain (plain : f.isPlain = true) (bears : C.Bears σ fs f)
    {receiver : Value} (has : C.region.Has σ v) (own : C.region.Has σ receiver)
    (crafted : ∀ site name superclass, f = .classBody site name superclass →
      C.rewires ∧ C.region.Crafted σ superclass (s.listed v))
    (wires : ∀ g access, f = .memberKey (.function g) access → access ≠ .read → access ≠ .callee →
      C.rewires ∨ σ.text v ≠ "prototype") :
    C.Next p (s.resume v receiver f) (t.resume v receiver (C.frame f)) := by
  have listed := h.has_listed has
  have same := h.listed v
  obtain ⟨carries, admits, receives, calm, fits⟩ := bears
  have suits := fun law => (fits law).carries
  have shielded : f.isRisky = true → C.lawful → Shielded fs := fun risky law => (fits law).shielded risky
  obtain rfl := C.store_eq h
  have k := C.keeps h
  have seen := C.look_eq h
  have here : ∀ {site : Site}, f.sites = [site] → C.admits site.config :=
    fun sites => admits _ (sites ▸ List.mem_cons_self)
  cases f with
  | items rest done =>
    exact h.nextItem (shielded rfl)
      (fun site mem => ⟨carries.1 site mem, admits site mem, (suits · site mem)⟩)
      (List.forall_mem_cons.2 ⟨has, carries.2⟩)
  | last =>
    simp only [State.resume, Terms.frame, Frame.map, same]
    exact h.give (Region.has_getD fun w found => listed w (List.mem_of_getLast? found))
  | instead w => exact h.give carries
  | bindTo target => exact h.bind ⟨carries, here rfl, suits⟩ has
  | bindRest properties source =>
    exact h.bindProperties (shielded rfl) carries.2
      fun x mem => ⟨carries.1 x mem, admits x mem, (suits · x mem)⟩
  | bindParams site closure params args =>
    exact h.nextParam (shielded rfl) (suits · |>.1) (suits · |>.2.1) carries.1
      (admits site List.mem_cons_self) (fun x mem => ⟨carries.2.1 x mem,
        admits x (List.mem_cons_of_mem site mem), (suits · |>.2.2 x mem)⟩) carries.2.2
  | declare scope name =>
    have next := Region.declare k carries.1 has (.inl carries.2)
    simp only [State.resume, Terms.frame, Frame.map, seen, Store.declare_look]
    exact (h.step next rfl).give (next.has has)
  | branch site consequent alternate =>
    simp only [State.resume, Terms.frame, Frame.map]
    split
    · exact h.visit .consequent ⟨carries.1, here rfl, (suits · |>.1)⟩
    · cases alternate with
      | none => exact h.give (Region.has_plain rfl)
      | some node => exact h.visit .alternate ⟨carries.2 node rfl, here rfl, (suits · |>.2 node rfl)⟩
  | whileTest site test body =>
    simp only [State.resume, Terms.frame, Frame.map]
    split
    · have remaining : C.region.Remaining s.store site.scope (.tested test body) := carries
      exact (h.round (shielded rfl) (fun law => (fits law).looped rfl) (here rfl) remaining suits).visit
        .body ⟨carries.2, here rfl, (suits · |>.2)⟩
    · exact h.give (Region.has_plain rfl)
  | forIn site target body =>
    simp only [State.resume, Terms.frame, Frame.map, seen, Store.enumerableKeys_look]
    refine h.once.nextRound (shielded rfl) (fun _ => ⟨_, rfl⟩) (here rfl)
      ⟨carries, fun w mem => ?_⟩ suits
    obtain ⟨key, -, rfl⟩ := List.mem_map.1 mem
    exact Region.has_plain rfl
  | forOf site target right body =>
    simp only [State.resume, Terms.frame, Frame.map, seen, Store.elements_look]
    cases v with
    | array id =>
      refine h.once.nextRound (shielded rfl) (fun _ => ⟨_, rfl⟩) (here rfl)
        ⟨carries, fun w mem => ?_⟩ suits
      exact Region.has_elements k (Region.has_array.1 has) (Array.mem_toList_iff.1 mem)
    | _ => exact h.refuse rfl
  | returns => exact h.fail ⟨has, C.plain rfl, (suits · v)⟩
  | throws => exact h.fail ⟨has, C.plain rfl, fun _ => C.lexicon.ordinary rfl⟩
  | finalizer o =>
    cases o with
    | value w => exact h.give carries
    | failure e => exact h.fail ⟨carries, calm, (suits · e rfl)⟩
  | catchBody site body => exact h.visit .body ⟨carries, here rfl, suits⟩
  | superclass site name body =>
    obtain ⟨holds, declares, allows⟩ := carries
    simp only [State.resume, Terms.frame, Frame.map, seen, Store.text_look]
    cases v with
    | function f =>
      refine h.visitClassBody (shielded rfl) calm declares ?_ ⟨allows, here rfl, suits⟩
      rintro g ⟨⟩
      exact Region.has_function.1 has
    | _ => exact h.refuse rfl
  | classBody site name superclass =>
    obtain ⟨holds, declares, super⟩ := carries
    have made : t.store.createClass (C.site site).toSpot site.scope name superclass (s.listed v) =
        (s.store.createClass site.toSpot site.scope name superclass (s.listed v)).map
          (Store.seen C.lens) := by
      rw [seen]
      exact Store.createClass_look s.store C.lens site.toSpot site.scope name superclass _
    simp only [State.resume, Terms.frame, Frame.map, same, Terms.site_scope, made]
    cases done : s.store.createClass site.toSpot site.scope name superclass (s.listed v) with
    | error signal =>
      exact h.fail ⟨Region.signals_createClass done, C.crafty calm, fun _ =>
        C.lexicon.ordinary (Store.ordinary_of_createClass done)⟩
    | ok found =>
      obtain ⟨rewires, crafted⟩ := crafted _ _ _ rfl
      obtain ⟨next, has⟩ := Region.createClass k holds super listed crafted done
      have named := Region.declare next.keeps (next.holds holds) has (.inl declares)
      simp only [Except.map, Store.seen, Store.declare_look]
      exact give (C.write h ⟨next.trans named.toMove, .inl rewires, fun _ scripts =>
        (scripts.createClass done).congr rfl⟩) (named.has has)
  | relist =>
    obtain ⟨next, has⟩ := Region.newList k listed
    simp only [State.resume, Terms.frame, Frame.map, same, seen, Store.newList_look]
    exact (h.step next rfl).give has
  | objectRest object rest =>
    exact h.nextProperty (shielded rfl) carries.1
      fun site mem => ⟨carries.2 site mem, admits site mem, (suits · site mem)⟩
  | propertyKey site object value =>
    simp only [State.resume, Terms.frame, Frame.map, seen, Store.text_look]
    exact (h.pushSafe (.propertyValue object _) rfl carries.1).visit .value
      ⟨carries.2, here rfl, suits⟩
  | propertyValue object key =>
    have next : C.region.Step s.store (s.store.setOwn object key v) := Region.setOwn k carries has
    simp only [State.resume, Terms.frame, Frame.map, seen, Store.setOwn_look]
    exact (h.step next rfl).give (next.has has)
  | memberObject site property computed access =>
    refine visitKey (C.push h (f := .memberKey v access) rfl
      ⟨⟨has, carries.2⟩, List.forall_mem_nil _, fun tracks wants => receives tracks ?_, trivial,
        fun law => ⟨fun _ => shielded rfl law, Bool.false_ne_true.elim, trivial⟩⟩) has (here rfl)
          carries.1 suits
    cases access with
    | callee => rfl
    | _ => cases wants
  | memberKey target access =>
    simp only [State.resume, Terms.frame, Frame.map, seen, Store.text_look]
    refine h.useMember carries.1 carries.2 (fun tracks callee => receives tracks (by rw [callee]; rfl))
      fun written other => ?_
    cases target with
    | function g => exact (wires g access rfl written other).imp_right fun away _ _ => away
    | _ => exact .inr (by rintro _ ⟨⟩)
  | callee site callee arguments =>
    exact (h.push (.call site callee v receiver) rfl ⟨has, own⟩
      (List.forall_mem_singleton.2 (here rfl)) fun law => ⟨fun _ => shielded rfl law,
        Bool.false_ne_true.elim, (suits law).1⟩).visitAll (here rfl) .arguments
          fun n mem => ⟨carries n mem, here rfl, (suits · |>.2 n mem)⟩
  | call site callee function this =>
    simp only [State.resume, Terms.frame, Frame.map, same]
    cases function with
    | function f =>
      exact C.become (.apply f this (s.listed v) site.config) h
        ⟨Region.has_function.1 carries.1, carries.2, listed, here rfl, suits⟩
    | _ => exact h.refuse rfl
  | newCallee site callee arguments =>
    cases v with
    | function f =>
      have arrow : ((t.store.function? f).any (·.callable.isArrow)) =
          (s.store.function? f).any (·.callable.isArrow) := by
        rw [seen, Store.function?_look]
        cases s.store.function? f with
        | none => rfl
        | some found => exact Callable.mapTree_isArrow _ found.callable
      simp only [State.resume, Terms.frame, Frame.map, arrow]
      split
      · exact h.refuse rfl
      · exact (h.push (.newCall site f) rfl (Region.has_function.1 has)
          (List.forall_mem_singleton.2 (here rfl)) fun law => ⟨fun _ => shielded rfl law,
            Bool.false_ne_true.elim, (suits law).1⟩).visitAll (here rfl) .arguments
              fun n mem => ⟨carries n mem, here rfl, (suits · |>.2 n mem)⟩
    | _ => exact h.refuse rfl
  | newCall site f =>
    obtain ⟨found, prototype⟩ := Region.prototypeOf k carries
    have linked : ∀ id, some (s.store.prototypeOf f).1 = some id →
        C.region.holds (s.store.prototypeOf f).2 (.object id) := by
      rintro id ⟨⟩
      exact prototype
    obtain ⟨next, made⟩ := Region.emptyObject found.keeps linked
    have next := found.trans next
    simp only [State.resume, Terms.frame, Frame.map, same, seen, Store.prototypeOf_look, Store.seen,
      Store.newObject_look]
    exact C.become (.apply f _ (s.listed v) site.config)
      ((h.step next (s.store.callables_prototypeOf f)).pushSafe (.construct _) rfl made)
      ⟨next.holds carries, Region.has_object.2 made, next.all listed, here rfl, suits⟩
  | construct made =>
    simp only [State.resume, Terms.frame, Frame.map]
    split
    · exact h.give has
    · exact h.give (Region.has_object.2 carries)
  | assignment site operator left =>
    exact h.visitTarget operator ⟨carries, here rfl, (suits · |>.2)⟩ (suits · |>.1) has
  | unary operator =>
    simp only [State.resume, Terms.frame, Frame.map, seen, Store.unary_look]
    exact h.give (Region.has_unary operator)
  | binaryLeft site operator right =>
    exact (h.push (.binaryRight operator v) rfl has (List.forall_mem_nil _) fun law =>
      ⟨fun _ => shielded rfl law, Bool.false_ne_true.elim, trivial⟩).visit .right ⟨carries, here rfl, suits⟩
  | binaryRight operator left =>
    simp only [State.resume, Terms.frame, Frame.map, seen, Store.binary_look]
    exact h.settle (fun _ _ done => (Region.binary k has done).imp_left
      (.of_step · (Store.callables_of_binary done))) fun _ => Store.isCraft_of_binary
  | logical site operator right =>
    simp only [State.resume, Terms.frame, Frame.map]
    split
    · exact h.give has
    · exact h.visit .right ⟨carries, here rfl, suits⟩
  | template strands =>
    simp only [State.resume, Terms.frame, Frame.map, same, seen, State.fillTemplate_look]
    exact h.give (Region.has_plain rfl)
  | _ => cases plain

end Conduct.Mid

namespace Conduct.Top

theorem resume (h : C.Top f fs σ s t) (inner : f.isInner = true) (bears : C.Bears σ fs f)
    {receiver : Value} (has : C.region.Has σ v) (own : C.region.Has σ receiver)
    (receives : C.tracks → receiver = .undefined ∨ Receives (f :: fs))
    (crafted : ∀ site name superclass, f = .classBody site name superclass →
      C.rewires ∧ C.region.Crafted σ superclass (s.listed v))
    (wires : ∀ g access, f = .memberKey (.function g) access → access ≠ .read → access ≠ .callee →
      C.rewires ∨ σ.text v ≠ "prototype") :
    C.Given .value f s (s.pop.resume v receiver f) (t.pop.resume v receiver (C.frame f)) := by
  have plain : f.isPlain = true → C.Given .value f s (s.pop.resume v receiver f)
      (t.pop.resume v receiver (C.frame f)) := fun plain => by
    have mid := C.pop h (Frame.isExit_of_isPlain plain)
    have cell := Frame.cell_of_isPlain plain
    refine C.given h (Lexicon.stop_eq_none cell _) (fun law => ⟨fun other ne => ?_, .inl cell⟩)
      (mid.resumePlain plain bears has own crafted wires)
    cases other with
    | value => exact (ne rfl).elim
    | failure => exact Lexicon.quiet_resume (C.stack_eq mid law) plain (bears.fits law).shielded v _
  have carries := bears.carries
  have admits := bears.admits
  have suits := fun law => (bears.fits law).carries
  have shielded := fun law => (bears.fits law).shielded
  have looped := fun law => (bears.fits law).looped
  cases f with
  | exit site slot =>
    exact h.passValue rfl (C.leave (.value v) h (admits site List.mem_cons_self)) ⟨has, own, receives⟩
  | guard cell => exact h.passValue rfl (C.pop h rfl) ⟨has, own, receives⟩
  | once cell | program cell => exact h.giveOnce rfl rfl has
  | body cell => exact h.giveOnce rfl rfl nofun
  | round site cell next =>
    exact h.again (shielded · rfl) (looped · rfl) (admits site List.mem_cons_self) rfl carries suits
  | roundBody site cell body outer next =>
    have swap := C.swap h (.body site outer cell body next) ⟨carries.2,
      List.forall_mem_singleton.2 (admits outer (by simp [Frame.sites])), nofun, trivial, fun law =>
        ⟨fun _ => shielded law rfl, fun _ => looped law rfl, (suits law).2⟩⟩
    refine C.swapped h (.body ..) (fun law => ⟨fun other => ?_,
      Lexicon.stack_visit (C.stack_eq swap law) ..⟩)
      (swap.visit .body ⟨carries.1, admits site List.mem_cons_self, (suits · |>.1)⟩)
    cases other with
    | value => exact looped law rfl
    | failure => exact shielded law rfl
  | tryBlock site cell handler finalizer =>
    exact h.finishTry rfl (fun way => by cases way <;> rfl)
      (fun n mem => ⟨carries.2 n mem, admits site List.mem_cons_self, (suits · |>.2 n mem)⟩) has
  | tryHandler site cell finalizer =>
    exact h.finishTry rfl (fun way => by cases way <;> rfl)
      (fun n mem => ⟨carries n mem, admits site List.mem_cons_self, (suits · n mem)⟩) has
  | deliver recipient => cases inner
  | _ => exact plain rfl

/-! ## Failures -/

theorem look_pop (h : C.Top f fs σ s t) : t.pop.store = s.pop.store.look C.lens := by
  obtain ⟨-, rfl, look⟩ := C.top_eq h
  exact look

theorem handle {cell : Cell} {handler finalizer : Option Node}
    (h : C.Top (.tryBlock site cell handler finalizer) fs σ s t)
    (bears : C.Bears σ fs (.tryBlock site cell handler finalizer))
    (raises : C.Raises σ (C.role fs) e.signal) :
    C.Given .failure (.tryBlock site cell handler finalizer) s
      (s.pop.handle site cell handler finalizer e)
      (t.pop.handle (C.site site) cell handler finalizer e) := by
  have admits : C.admits site.config := bears.admits site List.mem_cons_self
  have suits := fun law => (bears.fits law).carries
  obtain ⟨holds, allows⟩ := bears.carries
  have finish : C.Given .failure (.tryBlock site cell handler finalizer) s
      (s.pop.finishTry site cell finalizer (.failure e))
      (t.pop.finishTry (C.site site) cell finalizer (.failure e)) :=
    h.finishTry rfl (fun way => by cases way <;> rfl)
      (fun n mem => ⟨allows n mem, admits, (suits · |>.2 n mem)⟩) raises
  have seen : t.pop.store = s.pop.store.look C.lens := h.look_pop
  obtain ⟨keeps, rfl, -⟩ := C.top_eq h
  cases handler with
  | none => exact finish
  | some node =>
    simp only [State.handle, seen, Exception.caught?, Signal.caught?_look, Terms.site_scope]
    cases taken : e.signal.caught? s.pop.store with
    | none => exact finish
    | some caught =>
      obtain ⟨found, has⟩ := Region.caught keeps raises.signals taken
      obtain ⟨next, child⟩ := Region.catchScope found.keeps (found.holds holds) has
      have swap := (C.swap h (.handler site cell (some node) finalizer)
        ⟨allows, List.forall_mem_singleton.2 admits, nofun, trivial, fun law =>
          ⟨nofun, nofun, (suits law).2⟩⟩).step (found.trans next)
            (show caught.2.callables = _ from Signal.callables_of_caught taken)
      let inner : Site := { site with scope := (caught.2.catchScope site.scope caught.1).1 }
      have runs : C.Runs (caught.2.catchScope site.scope caught.1).2 (C.role fs) inner node :=
        ⟨Region.allows_new found.keeps child .run node, admits, (suits · |>.1 node rfl)⟩
      simp only [Option.map_some, Store.seen, Store.catchScope_look]
      exact C.swapped h (.handler ..) (fun law => ⟨fun other => by cases other <;> exact ⟨cell, rfl⟩,
        Lexicon.stack_visit (C.stack_eq swap law) ..⟩) (swap.visit .handler runs)

theorem unwind (h : C.Top f fs σ s t) (inner : f.isInner = true) (bears : C.Bears σ fs f)
    (raises : C.Raises σ (C.role (f :: fs)) e.signal) :
    C.Given .failure f s (s.pop.unwind e f) (t.pop.unwind e (C.frame f)) := by
  have carries := bears.carries
  have admits := bears.admits
  have suits := fun law => (bears.fits law).carries
  have shielded := fun law => (bears.fits law).shielded
  have looped := fun law => (bears.fits law).looped
  cases f with
  | exit site slot =>
    have left := fun o => C.leave o h (admits site List.mem_cons_self)
    have passes : C.Raises σ (C.role fs) e.signal := raises.to Lexicon.takes_exit
    cases slot with
    | none =>
      exact h.passFailure rfl (left (.failure (e.located site.node))) (e.signal_located _ ▸ passes)
    | some slot => exact h.passFailure rfl (left (.failure e)) passes
  | guard cell =>
    exact C.once h rfl (fun h => h.fail raises) fun _ _ stack other => by
      cases other with
      | value => exact .inr (.inr ⟨rfl, stack⟩)
      | failure => exact .inl rfl
  | body cell =>
    have seen : t.pop.store = s.pop.store.look C.lens := h.look_pop
    have stray : ∀ {signal : Signal}, (signal.isBare && signal.isOrdinary) = true →
        C.Raises σ (C.role fs) signal := fun bare => by
      rw [Bool.and_eq_true] at bare
      exact Terms.raises_of_bare bare.1 fun _ => C.lexicon.ordinary bare.2
    simp only [State.unwind, Terms.frame, Frame.map, seen, Signal.text_look]
    split
    · next v raised =>
      rw [raised] at raises
      exact h.giveOnce rfl rfl raises.signals
    · exact h.passFailure rfl (C.pop h rfl) (stray rfl)
    · exact h.passFailure rfl (C.pop h rfl) (stray rfl)
    · next returned broken continued =>
      exact h.passFailure rfl (C.pop h rfl) (raises.to fun takes =>
        C.lexicon.widened (Lexicon.takes_closed takes returned broken continued))
  | program cell =>
    simp only [State.unwind, Terms.frame, Frame.map]
    split
    · next v raised =>
      rw [raised] at raises
      exact h.giveOnce rfl rfl raises.signals
    · next returned =>
      exact h.passFailure rfl (C.pop h rfl) (raises.to (C.lexicon.unreturned · returned))
  | round site cell next =>
    have mid := C.pop h rfl
    have stack : C.lawful → s.pop.stack = fs := C.stack_eq mid
    simp only [State.unwind, Terms.frame, Frame.map]
    split
    · refine C.given h rfl (fun law => ⟨fun other ne => ?_, .inr (stack law)⟩)
        (mid.give (Region.has_plain rfl))
      cases other with
      | value => exact .inl (looped law rfl)
      | failure => exact (ne rfl).elim
    · exact h.again (shielded · rfl) (looped · rfl) (admits site List.mem_cons_self) rfl carries suits
    · next broken continued =>
      exact h.passFailure rfl mid (raises.to (C.lexicon.unbroken · broken continued))
  | tryBlock site cell handler finalizer => exact h.handle bears raises
  | tryHandler site cell finalizer =>
    exact h.finishTry rfl (fun way => by cases way <;> rfl)
      (fun n mem => ⟨carries n mem, admits site List.mem_cons_self, (suits · n mem)⟩) raises
  | bindTo target => exact h.passFailure rfl (C.pop h rfl) (raises.to C.lexicon.widened)
  | deliver recipient => cases inner
  | _ => exact h.passFailure rfl (C.pop h rfl) raises

end Conduct.Top

end EcmaMachine
