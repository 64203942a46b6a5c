import EcmaMachine.Proofs.Classes.Assembly
import EcmaMachine.Proofs.Classes.Formed
import EcmaMachine.Proofs.Jumps

/-!
Texts are supported. Some failures are reserved for trees that no text gives: nodes that stand where
nothing can be done with them, and classes without a proper constructor. In a history of texts none
of them ever comes up.
-/

namespace EcmaMachine

variable {η : Type}

/-! ## Reserved failures -/

def Signal.isForeign : Signal → Bool
  | .notImplemented _ limitation => limitation.isForeign
  | _ => false

/-- Signals that are reserved for trees that were not parsed. -/
def Signal.isReserved (signal : Signal) : Bool := signal.isForeign || signal.isCraft

/-! ## Trees of texts -/

theorem Shape.Parts.anywhere {P : Node → Prop} {pattern : Node → Prop} {T : Signal → Prop}
    {shape : Shape Node} {r r' : Role} (h : shape.Parts (fun _ => P) pattern (fun _ => T) r) :
    shape.Parts (fun _ => P) pattern (fun _ => T) r' := by
  cases shape <;> exact h

theorem Role.isForeign_of_takes {r : Role} {s : Signal} (h : r.takes s) : s.isForeign = false := by
  unfold Role.takes at h
  split at h
  · rfl
  · rfl
  · rfl
  · cases s with
    | notImplemented type limitation => simpa [Signal.isOrdinary, Signal.isForeign] using h
    | _ => rfl

def Lexicon.ofShapes : Lexicon where
  part _ n := ∃ r, Runs r n
  pattern := Binds
  takes _ s := s.isForeign = false
  outer _ := .closed
  parts := by
    rintro r n ⟨r', runs⟩
    have parts : n.shape.Parts (fun _ n => ∃ r, Runs r n) Binds (fun _ s => s.isForeign = false) r' :=
      (orderly.parts runs).mono (fun r _ h => ⟨r, h⟩) (fun _ => id) fun _ _ => Role.isForeign_of_takes
    exact parts.anywhere
  patterns h := (orderly.patterns h).mono (fun r _ h => ⟨r, h⟩) (fun _ => id)
    fun _ _ => Role.isForeign_of_takes
  blank := ⟨_, Lexicon.sealed.blank⟩
  ordinary {r s} h := by
    cases s with
    | notImplemented type limitation => simpa [Signal.isOrdinary, Signal.isForeign] using h
    | _ => rfl
  widened := id
  unreturned h _ := h
  unbroken h _ _ := h

theorem Lexicon.hasTexts_formed : ofShapes.formed.HasTexts := by
  intro text tree n parsed within
  have sound := (statement_of_parse parsed).2
  have defines : ofShapes.Defines n := by
    intro parts found
    obtain ⟨params, body⟩ := (sound n within).1 parts found
    exact ⟨params, _, body⟩
  exact defines.formed (sound.formsClasses within)

theorem Signal.isForeign_of_isReserved {s : Signal} (h : s.isReserved = false) :
    s.isForeign = false ∧ s.isCraft = false := by
  simpa [isReserved] using h

/-! ## Classes of texts -/

/-- All that is asked of a constructor is that it is a function. -/
def Craft.ofFunctions : Craft where
  may signal := signal.isCraft = false
  plain := id
  ready _ _ := True
  good _ _ v := ∃ f, v = .function f
  isFunction := id
  made {_ _ _ _ _ f} _ _ := ⟨f, rfl⟩
  created _ := id
  listed _ := id

theorem Outcome.Lacks.tells {o : Outcome} (h : o.Lacks Signal.isReserved) : Craft.ofFunctions.Tells o := by
  cases o with
  | value v => trivial
  | failure e => exact (Signal.isForeign_of_isReserved (h e rfl)).2

theorem Host.Scripted.permits {host : Host η} (h : host.Scripted Signal.isReserved) :
    Craft.ofFunctions.Permits host := by
  intro word this args ticket store kept
  have failure := h.failure word this args ticket store kept
  have answers := h.answers word this args ticket store kept
  generalize (host.call word this args ticket store kept).reply = reply at failure answers
  cases reply with
  | failure e => exact (Signal.isForeign_of_isReserved (failure e rfl)).2
  | hold os => exact fun o mem => (answers os rfl o mem).tells
  | _ => trivial

/-! ## Histories -/

structure State.Supported (s : State η) : Prop where
  lawful : Lexicon.ofShapes.formed.Lawful s
  keeps : Craft.ofFunctions.Keeps s

namespace State.Supported

variable {s : State η} {host : Host η}

theorem failure (h : s.Supported) {e : Exception} (failed : s.control = .fail e) :
    e.signal.isReserved = false := by
  have foreign : e.signal.isForeign = false := by
    have suits := h.lawful.suits (by rw [failed]; nofun)
    rwa [failed] at suits
  have craft : e.signal.isCraft = false := by
    cases h.keeps with
    | calm h =>
      have pursues := h.control
      rwa [failed] at pursues
    | @busy _ want h suits =>
      rw [failed] at suits
      cases want <;> exact suits
    | idle h idle => simp [failed] at idle
  simp [Signal.isReserved, foreign, craft]

/-- In a history of texts all states are supported. -/
theorem of_history (scripted : host.Scripted Signal.isReserved) {states : List (State η)} {l : Ledger}
    (h : History (.scripted Signal.isReserved) host states l) : ∀ s ∈ states, s.Supported := by
  induction h with
  | @start l w left fresh =>
    rw [List.forall_mem_singleton]
    exact ⟨⟨left.scripts Lexicon.hasTexts_formed Lexicon.scripts_empty, trivial, fun busy => (busy rfl).elim, by simp [fresh], by simp⟩,
      .idle ⟨by simp, by simp [fresh]⟩ rfl⟩
  | @step s s' past l l' h stepped ih =>
    have now := ih s List.mem_cons_self
    have obeys := scripted.obeys Lexicon.hasTexts_formed
      fun lacks => (Signal.isForeign_of_isReserved lacks).1
    exact List.forall_mem_cons.2 ⟨⟨now.lawful.step obeys stepped, now.keeps.step scripted.permits
      now.lawful.formed (fun _ _ _ _ => trivial) stepped⟩, ih⟩
  | @change s past l h idle w left spent held agenda answers l' recipients ih =>
    have now := ih s List.mem_cons_self
    have waits := now.keeps.waits
    refine List.forall_mem_cons.2 ⟨⟨⟨left.scripts Lexicon.hasTexts_formed now.lawful.scripts, trivial,
      fun busy => (busy rfl).elim, held ▸ now.lawful.held, fun a mem e failed => ?_⟩, ?_⟩, ih⟩
    · exact (Signal.isForeign_of_isReserved (answers a mem e failed)).1
    · exact .idle ⟨fun a mem => (answers a mem).tells, held ▸ waits.held⟩ rfl
  | @evaluate s past l h idle site evaluates recipient ih =>
    have now := ih s List.mem_cons_self
    have waits := now.keeps.waits
    obtain ⟨text, parsed⟩ := evaluates
    have tree := statement_of_parse parsed
    refine List.forall_mem_cons.2 ⟨⟨⟨now.lawful.scripts, ?_, fun _ => ?_, now.lawful.held,
      now.lawful.agenda⟩, .calm ⟨⟨⟨waits.agenda, waits.held⟩, ?_⟩, trivial⟩⟩, ih⟩
    · exact Lexicon.legal_program _ _ _
    · exact ⟨⟨_, tree.1 true fun _ => rfl⟩, tree.2.formsClasses .here⟩
    · exact List.forall_mem_cons.2 ⟨trivial, List.forall_mem_singleton.2 trivial⟩
  | @call s past l h idle f this args config recipient ih =>
    have now := ih s List.mem_cons_self
    have waits := now.keeps.waits
    refine List.forall_mem_cons.2 ⟨⟨⟨now.lawful.scripts, ?_, fun _ => ?_, now.lawful.held,
      now.lawful.agenda⟩, .calm ⟨⟨⟨waits.agenda, waits.held⟩, ?_⟩, trivial⟩⟩, ih⟩
    · exact Lexicon.legal_call _ _
    · rfl
    · exact List.forall_mem_singleton.2 trivial

end State.Supported

/-- In every history of texts, with functions that come from texts too, nothing ever fails for a
reason that is reserved for other trees: neither inside, where it could be caught, nor outside. -/
theorem texts_never_fail_reserved {host : Host η} (scripted : host.Scripted Signal.isReserved)
    {states : List (State η)} {l : Ledger} (h : History (.scripted Signal.isReserved) host states l) :
    ∀ s ∈ states, (∀ e, s.control = .fail e → e.signal.isReserved = false) ∧
      ∀ id e t, s.advance host = .delivered id (.failure e) t → e.signal.isReserved = false := by
  intro s mem
  have now := State.Supported.of_history scripted h s mem
  refine ⟨fun e => now.failure, fun id e t delivered => ?_⟩
  rcases State.fails_of_delivered delivered with ⟨failed, -⟩ | ⟨v, thrown⟩
  · exact now.failure failed
  · rw [thrown]
    rfl

namespace Sample

/-- Classes and patterns, the last of them with a member that is not supported. -/
def craftText : String :=
  "class A { constructor({a: b = 1}) { this.c = b } } f(new A({}).c); class B extends A { d() {} }"

@[irreducible] def craftTree : Node := (parse craftText).toOption.getD (.mk (.program []) none)

theorem parse_craftText : parse craftText = .ok craftTree := by
  unfold craftTree
  exact parse_eq_ok (by decide +kernel) _

def craftRun : Ledger × List (State Unit) :=
  (Ledger.empty.addRecipient (.caller 0)).2.record host 200
    (.program ⟨.root (.single 0) craftTree, 0, .plain⟩ 0 (world [])) [⟨.idle, [], [], world []⟩]

def tellsMember : Progress Unit → Bool
  | .delivered 0 (.failure ⟨.notImplemented _ .classMember, _⟩) _ => true
  | _ => false

/-- What is reported is not supported, but not reserved for other trees. -/
theorem craftRun_never_fails_reserved :
    host.Scripted Signal.isReserved ∧ History (.scripted Signal.isReserved) host craftRun.2 craftRun.1 ∧
      ∃ s ∈ craftRun.2, ∃ e t, s.advance host = .delivered 0 (.failure e) t ∧
        (∃ type, e.signal = .notImplemented type .classMember) ∧ e.signal.isReserved = false := by
  have history : History (.scripted Signal.isReserved) host craftRun.2 craftRun.1 :=
    ((history_start _).evaluate rfl ⟨craftText, parse_craftText⟩ (.caller 0)).record 200
  have reports : (craftRun.2.any fun s => tellsMember (s.advance host)) = true := by decide +kernel
  obtain ⟨s, mem, test⟩ := List.any_eq_true.1 reports
  refine ⟨host_scripted _, history, s, mem, ?_⟩
  unfold tellsMember at test
  split at test
  · next delivered =>
    have all := (texts_never_fail_reserved (host_scripted _) history s mem).2
    exact ⟨_, _, delivered, ⟨_, rfl⟩, all _ _ _ delivered⟩
  · cases test

end Sample

end EcmaMachine
