import EcmaMachine.Proofs.Remote.Origin

/-!
Requests and replies between two sides. The peer may answer in any order and the replies may arrive
in any order and more than once: each caller is told once, by its own reply.
-/

namespace EcmaMachine

variable {η θ : Type}

/-! ## Replies that the peer makes -/

def Outcome.throws : Outcome → Bool
  | .value _ => false
  | .failure _ => true

namespace Ledger

/-- What a reply says of an outcome: its value, or the value that the failure is told with. -/
def replyJson (s : Store) (registry : Registry) : Outcome → Json
  | .value v => (Wire.encodeValue s registry v).1
  | .failure e => (Wire.encodeValue (errorValue s e).2 registry (errorValue s e).1).1

def replyText (throws : Bool) : String := if throws then "cerr(error)" else "c(result)"

def replyCallee (throws : Bool) : String := if throws then "cerr" else "c"

def replyName (throws : Bool) : String := if throws then "error" else "result"

theorem calls_replyText (throws : Bool) :
    Calls (replyText throws) (replyCallee throws) (replyName throws) := by
  cases throws with
  | false => exact calls_value
  | true => exact calls_failure

def replyMessage (scopes : SavedScopes) (throws : Bool) (j : Json) : Message :=
  ⟨.text (replyText throws), scopes.insert (replyName throws) j⟩

theorem replyTo_eq (s : Store) (registry : Registry) (scopes : SavedScopes) (o : Outcome) :
    (replyTo s registry scopes o).1 = replyMessage scopes o.throws (replyJson s registry o) := by
  cases o <;> rfl

variable {host : Host η} {l l' : Ledger} {s : State η} {w : World η} {recipient : Recipient}
  {o : Outcome}

/-- On the run from here an outcome goes to the recipient with this number, when ledger and world
are these. -/
def Reports (host : Host η) (l : Ledger) (s : State η) (id : Nat) (o : Outcome) (l' : Ledger)
    (w : World η) : Prop :=
  ∃ n s' s'', l.after host n s = some (l', s') ∧ s'.advance host = .delivered id o s'' ∧
    w = s''.world

/-- The reply under the tag is that to an outcome which the run from here has reported. -/
def RepliesTo (host : Host η) (l : Ledger) (s : State η) (tag : Nat) (reply : Message) : Prop :=
  ∃ id context scopes o l' w c, l.Reports host s id o l' w ∧
    l'.recipients[id]? = some (.reply context scopes tag) ∧ l'.context? context = some c ∧
    reply = replyMessage scopes o.throws (replyJson w.store c.registry o)

/-- The second ledger has the replies of the first and others, made so. No tag is used twice, if
none was before. -/
structure Adds (made : Nat → Message → Prop) (l l' : Ledger) : Prop where
  distinct : (l.replies.toList.map (·.1)).Nodup → (l'.replies.toList.map (·.1)).Nodup
  stay : ∀ x ∈ l.replies, x ∈ l'.replies
  new : ∀ x ∈ l'.replies, x ∈ l.replies ∨ made x.1 x.2

namespace Adds

variable {made made' : Nat → Message → Prop} {l'' : Ledger}

theorem of_same (same : l'.replies = l.replies) : Adds made l l' :=
  ⟨fun distinct => same ▸ distinct, fun _ mem => same ▸ mem, fun _ mem => .inl (same ▸ mem)⟩

theorem of_push {tag : Nat} {reply : Message} (unused : tag ∉ l.replies.toList.map (·.1))
    (is : made tag reply) (pushed : l'.replies = l.replies.push (tag, reply)) : Adds made l l' := by
  refine ⟨fun distinct => ?_, fun x mem => pushed ▸ Array.mem_push_of_mem _ mem, fun x mem => ?_⟩
  · rw [pushed, Array.toList_push, List.map_append, List.map_singleton]
    refine List.nodup_append.2 ⟨distinct, List.nodup_singleton _, fun a mem b last same => ?_⟩
    rw [same, List.mem_singleton.1 last] at mem
    exact unused mem
  · rw [pushed] at mem
    rcases Array.mem_push.1 mem with mem | rfl
    · exact .inl mem
    · exact .inr is

theorem trans (h : Adds made l l') (h' : Adds made l' l'') : Adds made l l'' where
  distinct d := h'.distinct (h.distinct d)
  stay x mem := h'.stay x (h.stay x mem)
  new x mem := (h'.new x mem).elim (h.new x) .inr

theorem mono (h : Adds made l l') (more : ∀ tag reply, made tag reply → made' tag reply) :
    Adds made' l l' :=
  { h with new := fun x mem => (h.new x mem).imp_right (more _ _) }

end Adds

/-- A reply is made for a recipient that wants one. -/
theorem adds_receive (l : Ledger) (w : World η) (recipient : Recipient) (o : Outcome) :
    Adds (fun tag reply => ∃ context scopes c, recipient = .reply context scopes tag ∧
      l.context? context = some c ∧
      reply = replyMessage scopes o.throws (replyJson w.store c.registry o))
      l (l.receive w recipient o).1 := by
  cases recipient with
  | caller tag | defaults => exact .of_same rfl
  | handler onError =>
    cases o with
    | value v => exact .of_same rfl
    | failure e => cases onError <;> exact .of_same rfl
  | reply context scopes tag =>
    cases found : l.context? context with
    | none => exact .of_same (by simp only [receive, found])
    | some c =>
      have kept : (l.setRegistry context (replyTo w.store c.registry scopes o).2.1).replies =
        l.replies := rfl
      by_cases used : l.replies.any (·.1 == tag) = true
      · exact .of_same (by simp only [receive, found, kept, used, if_true])
      · refine .of_push ?_ ⟨context, scopes, c, rfl, found, rfl⟩
          (by simp only [receive, found, kept, used, ← replyTo_eq]; rfl)
        intro mem
        obtain ⟨reply, inside, same⟩ := List.mem_map.1 mem
        exact used (Array.any_eq_true'.2 ⟨reply, Array.mem_toList_iff.1 inside, by simpa using same⟩)

theorem recipients_settle (host : Host η) (fuel : Nat) (l : Ledger) (s : State η) :
    (l.settle host fuel s).1.recipients = l.recipients := by
  induction fuel generalizing l s with
  | zero => rfl
  | succ fuel ih =>
    cases stepped : l.step host s with
    | none => rw [settle_of_rest stepped]
    | some next =>
      have once : l.after host 1 s = some next := after_succ stepped 0
      rw [settle_of_step stepped, ih, recipients_after once]

theorem RepliesTo.of_step {s' : State η} {tag : Nat} {reply : Message}
    (stepped : l.step host s = some (l', s')) (h : l'.RepliesTo host s' tag reply) :
    l.RepliesTo host s tag reply := by
  obtain ⟨id, context, scopes, o, l'', w, c, ⟨n, t, u, reached, rest⟩, found⟩ := h
  exact ⟨id, context, scopes, o, l'', w, c, ⟨n + 1, t, u, (after_succ stepped n).trans reached, rest⟩,
    found⟩

theorem adds_step {s' : State η} (stepped : l.step host s = some (l', s')) :
    Adds (l.RepliesTo host s) l l' := by
  simp only [step] at stepped
  split at stepped
  · cases stepped
    exact .of_same rfl
  · cases stepped
  · next id o t advance =>
    obtain rfl : (l.take id o t).1 = l' := congrArg Prod.fst (Option.some.inj stepped)
    cases known : l.recipients[id]? with
    | none => exact .of_same (by simp only [take, known])
    | some recipient =>
      simp only [take, known]
      refine (adds_receive l t.world recipient o).mono ?_
      rintro tag reply ⟨context, scopes, c, rfl, found, form⟩
      exact ⟨id, context, scopes, o, l, t.world, c, ⟨0, s, t, rfl, advance, rfl⟩, known, found, form⟩

/-- The replies that are there after a run: those from before, and others that it made. -/
theorem adds_settle (host : Host η) (fuel : Nat) (l : Ledger) (s : State η) :
    Adds (l.RepliesTo host s) l (l.settle host fuel s).1 := by
  induction fuel generalizing l s with
  | zero => exact .of_same rfl
  | succ fuel ih =>
    cases stepped : l.step host s with
    | none =>
      rw [settle_of_rest stepped]
      exact .of_same rfl
    | some next =>
      rw [settle_of_step stepped]
      exact (adds_step stepped).trans ((ih next.1 next.2).mono fun _ _ => .of_step stepped)

end Ledger

/-! ## Messages that the peer evaluates -/

theorem Source.fails_of_resolve {source : MessageSource} {cache cache' : Option ParseCache}
    {err : SyntaxError} (h : (Source.ofMessage source).resolve cache = (.error err, cache')) :
    ∃ text, source = .text text ∧ parse text = .error err := by
  cases source with
  | node n => cases h
  | text text =>
    refine ⟨text, rfl, ?_⟩
    cases cache with
    | none =>
      cases parsed : parse text <;> simp only [Source.ofMessage, resolve, parsed] at h <;> cases h
      rfl
    | some c =>
      simp only [Source.ofMessage, resolve, ParseCache.lookup] at h
      split at h
      · cases h
      · cases parsed : parse text <;> rw [parsed] at h <;> cases h
        rfl

namespace Realm

def responding (r : Realm θ) (context : Nat) (message : Message) (tag : Nat) :
    Option (Ledger × State θ) :=
  match r.ledger.context? context with
  | none => none
  | some c =>
    let restored := message.scopes.restore r.world.store c.registry c.scope
    match (Source.ofMessage message.source).resolve c.cache with
    | (.error _, _) => none
    | (.ok found, cache) =>
      some (beginning r.ledger { r.world with store := restored.2 } context c found cache restored.1
        (.reply context message.scopes tag))

variable (host : Host θ) {r : Realm θ} {context : Nat} {message : Message} {tag : Nat}

theorem respond_of_responding {l : Ledger} {s : State θ}
    (h : r.responding context message tag = some (l, s)) (fuel : Nat) :
    l.recipients = r.ledger.recipients.push (.reply context message.scopes tag) ∧
    l.replies = r.ledger.replies ∧
    r.respond host fuel context message tag =
      ⟨(l.settle host fuel s).2, (l.settle host fuel s).1⟩ := by
  cases found : r.ledger.context? context with
  | none => simp only [responding, found] at h; cases h
  | some c =>
    simp only [responding, found] at h
    split at h
    · cases h
    · next resolved cache resolves =>
      obtain ⟨rfl, rfl⟩ := Prod.mk.inj (Option.some.inj h)
      refine ⟨rfl, rfl, ?_⟩
      let restored := message.scopes.restore r.world.store c.registry c.scope
      simp only [respond, found]
      exact evaluate_of_resolve found resolves { r.world with store := restored.2 } fuel
        (.reply context message.scopes tag) restored.1

theorem respond_of_unparsed (h : r.responding context message tag = none) (fuel : Nat) :
    r.respond host fuel context message tag = r ∨
    ∃ (text : String) (err : SyntaxError) (l : Ledger) (w : World θ),
      message.source = .text text ∧ parse text = .error err ∧
      l.recipients = r.ledger.recipients ∧ l.replies = r.ledger.replies ∧
      r.respond host fuel context message tag =
        let received := l.receive w (.reply context message.scopes tag)
          (.failure (.plain (.parse err)))
        Realm.mk received.2 received.1 := by
  cases found : r.ledger.context? context with
  | none => exact .inl (by simp only [respond, found])
  | some c =>
    simp only [responding, found] at h
    split at h
    · next err cache resolves =>
      obtain ⟨text, source, fails⟩ := Source.fails_of_resolve resolves
      let restored := message.scopes.restore r.world.store c.registry c.scope
      refine .inr ⟨text, err, r.ledger.setCache context cache,
        { r.world with store := restored.2 }, source, fails, rfl, rfl, ?_⟩
      simp only [respond, found]
      change evaluate host fuel ⟨{ r.world with store := restored.2 }, r.ledger⟩ _ _ _ _ _ = _
      simp only [evaluate, found, resolves]
    · cases h

end Realm

/-! ## Both sides -/

/-- Who takes part: the hosts of the two sides, and the contexts that they use. -/
structure Parties (η θ : Type) where
  originHost : Host η
  peerHost : Host θ
  origin : Nat
  peer : Nat

/-- The two sides and what has passed between them. -/
structure Exchange (η θ : Type) where
  origin : Realm η
  peer : Realm θ
  /-- The requests, each under its tag. -/
  sent : List (Nat × Message)
  /-- Where the runs of the peer began. -/
  runs : List (Ledger × State θ)
  /-- The tags of the replies that were delivered. -/
  delivered : List Nat

namespace Exchange

variable {p : Parties η θ} {e e' : Exchange η θ} {message : Message} {tag : Nat}

/-- What may happen next. Messages are evaluated in any order; a call that the host of the peer
has held may be answered at any time; replies are delivered in any order, and again. -/
inductive Step (p : Parties η θ) : Exchange η θ → Exchange η θ → Prop
  /-- A request under a new tag. The tokens that it takes are fresh. -/
  | request {e : Exchange η θ} {source : MessageSource} {bindings : List (String × Value)}
    {tag : Nat} {message : Message} {origin : Realm η} (unused : tag ∉ e.sent.map (·.1))
    (silent : e.origin.deliveriesFor tag = [])
    (made : e.origin.request p.origin source bindings (.caller tag) = (some message, origin))
    (fresh : ∀ c, origin.ledger.context? p.origin = some c → c.registry.Sound) :
    Step p e { e with origin, sent := (tag, message) :: e.sent }
  | respond {e : Exchange η θ} {tag : Nat} {message : Message} (mem : (tag, message) ∈ e.sent)
    (fuel : Nat) : Step p e { e with
      peer := e.peer.respond p.peerHost fuel p.peer message tag
      runs := (e.peer.responding p.peer message tag).toList ++ e.runs }
  | answer {e : Exchange η θ} {ticket : Nat} {outcome : Outcome} {fuel : Nat} {peer : Realm θ}
    (given : e.peer.answer? p.peerHost fuel ticket outcome = some peer) :
    Step p e { e with
      peer
      runs := (e.peer.ledger, ⟨.idle, [], [(ticket, outcome)], e.peer.world⟩) :: e.runs }
  | deliver {e : Exchange η θ} {tag : Nat} {reply : Message}
    (mem : (tag, reply) ∈ e.peer.ledger.replies) (fuel : Nat) :
    Step p e { e with
      origin := e.origin.deliver p.originHost (fuel + Ledger.replySteps) p.origin reply
      delivered := tag :: e.delivered }

/-- Nothing has passed yet: the peer owes nobody a reply, and nobody watches the scripts of the
origin. -/
structure Begins (p : Parties η θ) (e : Exchange η θ) : Prop where
  ready : ∃ c, e.origin.Ready p.origin c ∧ c.registry.Sound
  sent : e.sent = []
  delivered : e.delivered = []
  replies : e.peer.ledger.replies = #[]
  free : ∀ context scopes tag, .reply context scopes tag ∉ e.peer.ledger.recipients

/-- The source of the message is evaluated on the peer; the outcome is for the recipient with this
number. -/
def Evaluates (p : Parties η θ) (e : Exchange η θ) (tag : Nat) (message : Message) (id : Nat) :
    Prop :=
  ∃ (r : Realm θ) (l : Ledger) (s : State θ), r.responding p.peer message tag = some (l, s) ∧
    r.ledger.recipients.size = id ∧ (l, s) ∈ e.runs

/-- What the source of a message has come to on the peer, with the ledger and the store at that
time: what its recipient gets on this run or on a later one, or why it is no script. -/
inductive Came (p : Parties η θ) (e : Exchange η θ) (tag : Nat) (message : Message) :
    Outcome → Ledger → Store → Prop
  | evaluated {id : Nat} {l l' : Ledger} {s : State θ} {o : Outcome} {w : World θ}
    (evaluates : e.Evaluates p tag message id) (run : (l, s) ∈ e.runs)
    (reports : l.Reports p.peerHost s id o l' w) : Came p e tag message o l' w.store
  | unparsed {text : String} {err : SyntaxError} {l : Ledger} {store : Store}
    (source : message.source = .text text) (fails : parse text = .error err) :
    Came p e tag message (.failure (.plain (.parse err))) l store

theorem Evaluates.mono {id : Nat} (h : e.Evaluates p tag message id) (more : e.runs ⊆ e'.runs) :
    e'.Evaluates p tag message id := by
  obtain ⟨r, l, s, begun, size, run⟩ := h
  exact ⟨r, l, s, begun, size, more run⟩

theorem Came.mono {o : Outcome} {l : Ledger} {store : Store} (h : e.Came p tag message o l store)
    (more : e.runs ⊆ e'.runs) : e'.Came p tag message o l store := by
  cases h with
  | evaluated evaluates run reports => exact .evaluated (evaluates.mono more) (more run) reports
  | unparsed source fails => exact .unparsed source fails

/-- The reply is the one to the message under this tag. -/
def Replied (p : Parties η θ) (e : Exchange η θ) (tag : Nat) (message reply : Message) : Prop :=
  ∃ o l store c, e.Came p tag message o l store ∧ l.context? p.peer = some c ∧
    reply = Ledger.replyMessage message.scopes o.throws (Ledger.replyJson store c.registry o)

theorem Replied.mono {reply : Message} (h : e.Replied p tag message reply) (more : e.runs ⊆ e'.runs) :
    e'.Replied p tag message reply := by
  obtain ⟨o, l, store, c, came, rest⟩ := h
  exact ⟨o, l, store, c, came.mono more, rest⟩

def Wanted (p : Parties η θ) (e : Exchange η θ) (recipients : Array Recipient) : Prop :=
  ∀ (id : Nat) context scopes tag, recipients[id]? = some (.reply context scopes tag) →
    context = p.peer ∧ ∃ message, message.scopes = scopes ∧ (tag, message) ∈ e.sent ∧
      e.Evaluates p tag message id

theorem Wanted.mono {recipients : Array Recipient} (h : e.Wanted p recipients)
    (sent : e.sent ⊆ e'.sent) (runs : e.runs ⊆ e'.runs) : e'.Wanted p recipients := by
  intro id context scopes tag known
  obtain ⟨here, message, same, inside, evaluates⟩ := h id context scopes tag known
  exact ⟨here, message, same, sent inside, evaluates.mono runs⟩

/-- What is always true of the peer: each of its replies is to a message that was sent. -/
structure Fair (p : Parties η θ) (e : Exchange η θ) : Prop where
  wanted : e.Wanted p e.peer.ledger.recipients
  distinct : (e.peer.ledger.replies.toList.map (·.1)).Nodup
  replied : ∀ x ∈ e.peer.ledger.replies, ∃ message, (x.1, message) ∈ e.sent ∧
    e.Replied p x.1 message x.2

structure Fairer (p : Parties η θ) (e e' : Exchange η θ) : Prop where
  fair : e'.Fair p
  replies : ∀ x ∈ e.peer.ledger.replies, x ∈ e'.peer.ledger.replies

/-- Whatever the peer does, it is fair if each new reply is to a message that was sent. -/
theorem Fair.adds (h : e.Fair p) (wanted : e'.Wanted p e'.peer.ledger.recipients)
    (sent : e.sent ⊆ e'.sent) (runs : e.runs ⊆ e'.runs)
    (adds : Ledger.Adds (fun tag reply => ∃ message, (tag, message) ∈ e'.sent ∧
      e'.Replied p tag message reply) e.peer.ledger e'.peer.ledger) : e.Fairer p e' := by
  refine ⟨⟨wanted, adds.distinct h.distinct, fun x mem => ?_⟩, adds.stay⟩
  rcases adds.new x mem with before | made
  · obtain ⟨message, inside, replied⟩ := h.replied x before
    exact ⟨message, sent inside, replied.mono runs⟩
  · exact made

theorem Fair.more (h : e.Fair p) (peer : e'.peer = e.peer) (sent : e.sent ⊆ e'.sent)
    (runs : e.runs ⊆ e'.runs) : e.Fairer p e' :=
  h.adds (peer ▸ h.wanted.mono sent runs) sent runs (.of_same (by rw [peer]))

/-- A run of the peer makes replies only to those who want one. -/
theorem Fair.run (h : e.Fair p) {l : Ledger} {s : State θ} {fuel : Nat}
    (replies : l.replies = e.peer.ledger.replies)
    (wanted : e'.Wanted p l.recipients)
    (peer : e'.peer.ledger = (l.settle p.peerHost fuel s).1) (sent : e'.sent = e.sent)
    (runs : e.runs ⊆ e'.runs) (new : (l, s) ∈ e'.runs) : e.Fairer p e' := by
  refine h.adds ?_ (sent ▸ List.Subset.refl _) runs (peer ▸ (Ledger.Adds.of_same replies).trans ?_)
  · rw [peer, Ledger.recipients_settle]
    exact wanted
  · refine (Ledger.adds_settle p.peerHost fuel l s).mono ?_
    rintro tag reply ⟨id, context, scopes, o, l', w, c, reports, known, found, reply⟩
    have ⟨n, s', s'', reached, _, _⟩ := reports
    rw [Ledger.recipients_after reached] at known
    obtain ⟨rfl, message, rfl, inside, evaluates⟩ := wanted id _ _ _ known
    exact ⟨message, inside, o, l', w.store, c, .evaluated evaluates new reports, found, reply⟩

theorem Fair.respond (h : e.Fair p) (mem : (tag, message) ∈ e.sent) (fuel : Nat) :
    e.Fairer p { e with
      peer := e.peer.respond p.peerHost fuel p.peer message tag
      runs := (e.peer.responding p.peer message tag).toList ++ e.runs } := by
  cases begun : e.peer.responding p.peer message tag with
  | some start =>
    obtain ⟨recipients, replies, run⟩ :=
      Realm.respond_of_responding p.peerHost (l := start.1) (s := start.2) begun fuel
    have new : start ∈ (some start).toList ++ e.runs := List.mem_append_left _ (by simp)
    have more : e.runs ⊆ (some start).toList ++ e.runs := List.subset_append_right _ _
    refine h.run replies ?_ (congrArg Realm.ledger run) rfl more new
    intro id context scopes tag' known
    rw [recipients, Array.getElem?_push] at known
    split at known
    · next last =>
      cases known
      exact ⟨rfl, message, rfl, mem, e.peer, start.1, start.2, begun, last.symm, new⟩
    · obtain ⟨here, message', same, inside, evaluates⟩ := h.wanted id context scopes tag' known
      exact ⟨here, message', same, inside, evaluates.mono more⟩
  | none =>
    rcases Realm.respond_of_unparsed p.peerHost begun fuel with same |
      ⟨text, err, l, w, source, fails, recipients, replies, run⟩
    · exact h.more same (List.Subset.refl _) (List.Subset.refl _)
    · let o : Outcome := .failure (.plain (.parse err))
      have ledger : (e.peer.respond p.peerHost fuel p.peer message tag).ledger =
          (l.receive w (.reply p.peer message.scopes tag) o).1 := congrArg Realm.ledger run
      refine h.adds ?_ (List.Subset.refl _) (List.Subset.refl _) ?_
      · rw [ledger, Ledger.recipients_receive, recipients]
        exact h.wanted.mono (List.Subset.refl _) (List.Subset.refl _)
      · rw [ledger]
        refine (Ledger.Adds.of_same replies).trans ((Ledger.adds_receive l w _ o).mono ?_)
        rintro _ reply ⟨_, _, c, ⟨⟩, found, form⟩
        exact ⟨message, mem, o, l, w.store, c, .unparsed source fails, found, form⟩

theorem Fair.step (h : e.Fair p) (step : e.Step p e') : e.Fairer p e' := by
  cases step with
  | request _ _ _ _ => exact h.more rfl (List.subset_cons_self _ _) (List.Subset.refl _)
  | respond mem fuel => exact h.respond mem fuel
  | @answer ticket outcome fuel peer given =>
    simp only [Realm.answer?] at given
    split at given
    · have peer := congrArg Realm.ledger (Option.some.inj given).symm
      exact h.run rfl (h.wanted.mono (List.Subset.refl _) (List.subset_cons_self _ _)) peer rfl
        (List.subset_cons_self _ _) List.mem_cons_self
    · cases given
  | deliver _ _ => exact h.more rfl (List.Subset.refl _) (List.Subset.refl _)

end Exchange

/-! ## What the origin owes its callers -/

/-- A request with the two cells that tell whether it was answered. -/
structure Pledge where
  tag : Nat
  message : Message
  recipient : Nat
  done : Cell
  failed : Cell

namespace Pledge

def cell (q : Pledge) (throws : Bool) : Cell := if throws then q.failed else q.done

/-- The functions that answer the request are there under their names. -/
structure Kept (q : Pledge) (r : Realm η) (c : Context) : Prop where
  alone : q.message.scopes.outer = []
  sorted : Json.Sorted q.message.scopes.values
  answers : ∀ throws, Answers r.world.store c.registry q.message.scopes.values
    (Ledger.replyCallee throws) q.recipient (q.cell throws) throws
  known : r.ledger.recipients[q.recipient]? = some (.caller q.tag)
  cells : ∀ throws, q.cell throws < r.world.answered.size

/-- The caller was told once, what the reply says. -/
def Told (q : Pledge) (r : Realm η) (c : Context) (reply : Message) : Prop :=
  ∃ throws j d registry, reply = Ledger.replyMessage q.message.scopes throws j ∧
    r.world.isAnswered (q.cell throws) = true ∧ r.deliveriesFor q.tag = [d] ∧
    registry.Within c.registry ∧ d.Reads registry throws j

variable {q : Pledge} {r r' : Realm η} {c c' : Context}

theorem Kept.mono (h : q.Kept r c) (within : c.registry.Within c'.registry)
    (functions : ∀ (f : FunctionId) x, r.world.store.function? f = some x →
      r'.world.store.function? f = some x)
    (recipients : ∀ (id : Nat) x, r.ledger.recipients[id]? = some x → r'.ledger.recipients[id]? = some x)
    (answered : r.world.answered.size ≤ r'.world.answered.size) : q.Kept r' c' where
  alone := h.alone
  sorted := h.sorted
  answers throws := by
    obtain ⟨token, f, properties, mem, registered, function⟩ := h.answers throws
    exact ⟨token, f, properties, mem, within.subset registered, functions _ _ function⟩
  known := recipients _ _ h.known
  cells throws := Nat.lt_of_lt_of_le (h.cells throws) answered

theorem Told.mono {reply : Message} (h : q.Told r c reply)
    (within : c.registry.Within c'.registry)
    (answered : ∀ b, r.world.isAnswered (q.cell b) = true → r'.world.isAnswered (q.cell b) = true)
    (same : r'.deliveriesFor q.tag = r.deliveriesFor q.tag) : q.Told r' c' reply := by
  obtain ⟨throws, j, d, registry, form, closed, once, before, reads⟩ := h
  exact ⟨throws, j, d, registry, form, answered throws closed, same.trans once,
    before.trans within, reads⟩

/-- The reply to a request is delivered: its caller is told, unless it was told before. -/
theorem Kept.deliver (host : Host η) {context : Nat} (h : q.Kept r c) (ready : r.Ready context c)
    (sound : c.registry.Sound) (throws : Bool) (j : Json) (fuel : Nat) :
    ∃ d : Delivery, d.Reads c.registry throws j ∧
      r.Tells (r.deliver host (fuel + Ledger.replySteps) context
        (Ledger.replyMessage q.message.scopes throws j)) context c q.tag (q.cell throws) d := by
  let fields := Json.insertField (Ledger.replyName throws) j q.message.scopes.values
  have message : Ledger.replyMessage q.message.scopes throws j =
      ⟨.text (Ledger.replyText throws), ⟨fields, []⟩⟩ := by
    rw [Ledger.replyMessage, SavedScopes.insert, h.alone]
  have answers : Answers r.world.store c.registry fields (Ledger.replyCallee throws) q.recipient
      (q.cell throws) throws := by
    obtain ⟨token, f, properties, mem, rest⟩ := h.answers throws
    have other : Ledger.replyCallee throws ≠ Ledger.replyName throws := by cases throws <;> decide
    exact ⟨token, f, properties, Json.mem_insertField_of_ne mem other j, rest⟩
  obtain ⟨d, -, reads, tells⟩ := Realm.deliver_tells host ready sound (Ledger.calls_replyText throws)
    (Json.sorted_insertField h.sorted _ j) answers (Json.mem_insertField_self _ j _) h.known fuel
  exact ⟨d, reads, message ▸ tells⟩

end Pledge

namespace Exchange

variable {p : Parties η θ} {e e' : Exchange η θ} {c : Context} {pledges : List Pledge}

/-- What is always true of the origin: whoever waits for a reply that has not been delivered was
told nothing, and all others were told once. -/
structure Holds (p : Parties η θ) (e : Exchange η θ) (c : Context) (pledges : List Pledge) :
    Prop where
  ready : e.origin.Ready p.origin c
  sound : c.registry.Sound
  sent : e.sent = pledges.map fun q => (q.tag, q.message)
  tags : (pledges.map (·.tag)).Nodup
  apart : ∀ q ∈ pledges, ∀ q' ∈ pledges, ∀ b b', q.cell b = q'.cell b' → q = q' ∧ b = b'
  kept : ∀ q ∈ pledges, q.Kept e.origin c
  arrived : ∀ tag ∈ e.delivered, tag ∈ pledges.map (·.tag)
  silent : ∀ q ∈ pledges, q.tag ∉ e.delivered →
    (∀ b, e.origin.world.isAnswered (q.cell b) = false) ∧ e.origin.deliveriesFor q.tag = []
  told : ∀ q ∈ pledges, q.tag ∈ e.delivered →
    ∃ reply, (q.tag, reply) ∈ e.peer.ledger.replies ∧ q.Told e.origin c reply

theorem Holds.pledge_eq (h : e.Holds p c pledges) {q q' : Pledge} (mem : q ∈ pledges)
    (mem' : q' ∈ pledges) (same : q.tag = q'.tag) : q = q' :=
  List.inj_on_of_nodup_map h.tags mem mem' same

/-- The peer goes on; the origin does not. -/
theorem Holds.peer (h : e.Holds p c pledges) (origin : e'.origin = e.origin)
    (sent : e'.sent = e.sent) (delivered : e'.delivered = e.delivered)
    (replies : ∀ x ∈ e.peer.ledger.replies, x ∈ e'.peer.ledger.replies) : e'.Holds p c pledges where
  ready := origin ▸ h.ready
  sound := h.sound
  sent := sent ▸ h.sent
  tags := h.tags
  apart := h.apart
  kept := origin ▸ h.kept
  arrived := delivered ▸ h.arrived
  silent := by
    rw [origin, delivered]
    exact h.silent
  told q mem inside := by
    rw [delivered] at inside
    obtain ⟨reply, made, told⟩ := h.told q mem inside
    exact ⟨reply, replies _ made, origin ▸ told⟩

theorem Holds.request (h : e.Holds p c pledges) {origin : Realm η} {source : MessageSource}
    {tag : Nat} {fields : List (String × Json)} (asks : e.origin.Asks origin p.origin c tag fields)
    (unused : tag ∉ e.sent.map (·.1)) (silent : e.origin.deliveriesFor tag = [])
    (fresh : ∀ c, origin.ledger.context? p.origin = some c → c.registry.Sound) :
    ∃ c' pledges', Holds p { e with origin, sent := (tag, ⟨source, ⟨fields, []⟩⟩) :: e.sent } c'
      pledges' := by
  obtain ⟨c', ready, within, resume, reject⟩ := asks.ready
  let size := e.origin.world.answered.size
  let q : Pledge := ⟨tag, ⟨source, ⟨fields, []⟩⟩, e.origin.ledger.recipients.size, size, size + 1⟩
  have answered := asks.answered
  have sizes : origin.world.answered.size = size + 2 := by simp [answered, size]
  have old : ∀ cell < size, origin.world.isAnswered cell = e.origin.world.isAnswered cell := by
    intro cell lt
    simp only [World.isAnswered, answered, Array.getD_eq_getD_getElem?, Array.getElem?_push,
      Array.size_push]
    rw [if_neg (by omega), if_neg (by omega)]
  have new : ∀ b, origin.world.isAnswered (q.cell b) = false := by
    have last : (e.origin.world.answered.push false).size = size + 1 := Array.size_push _
    intro b
    simp only [World.isAnswered, answered, Array.getD_eq_getD_getElem?]
    cases b with
    | false =>
      simp only [Pledge.cell, q, size, Array.getElem?_push, Array.size_push]
      simp
    | true => rw [show q.cell true = size + 1 from rfl, ← last, Array.getElem?_push_size]; rfl
  have later : ∀ b, size ≤ q.cell b ∧ q.cell b < size + 2 := by
    intro b
    cases b <;> simp [Pledge.cell, q]
  have same : ∀ other, origin.deliveriesFor other = e.origin.deliveriesFor other := fun other => by
    simp only [Realm.deliveriesFor, asks.deliveries]
  have unused' : tag ∉ pledges.map (·.tag) := by
    rw [h.sent, List.map_map] at unused
    exact unused
  have kept : ∀ q' ∈ pledges, q'.Kept origin c' := fun q' mem => by
    refine (h.kept q' mem).mono within asks.functions (fun id x known => ?_) (by omega)
    rw [asks.known]
    exact getElem?_push_of_some known _
  refine ⟨c', q :: pledges, ?_⟩
  constructor
  case ready => exact ready
  case sound => exact fresh c' ready.found
  case sent => rw [List.map_cons, ← h.sent]
  case tags => exact List.nodup_cons.2 ⟨unused', h.tags⟩
  case apart =>
    have across : ∀ q' ∈ pledges, ∀ b b', q.cell b ≠ q'.cell b' := fun q' mem b b' eq =>
      Nat.not_lt.2 (later b).1 (eq ▸ (h.kept q' mem).cells b')
    rintro q₁ (_ | ⟨_, mem₁⟩) q₂ (_ | ⟨_, mem₂⟩) b b' eq
    · cases b <;> cases b' <;> simp [Pledge.cell, q] at eq ⊢
    · exact absurd eq (across q₂ mem₂ b b')
    · exact absurd eq.symm (across q₁ mem₁ b' b)
    · exact h.apart q₁ mem₁ q₂ mem₂ b b' eq
  case kept =>
    rintro q' (_ | ⟨_, mem⟩)
    · refine ⟨rfl, asks.sorted, ?_, by simp [asks.known, q], fun b => ?_⟩
      · rintro (_ | _)
        · exact resume
        · exact reject
      · rw [sizes]
        exact (later b).2
    · exact kept q' mem
  case arrived => exact fun tag mem => List.mem_cons_of_mem _ (h.arrived tag mem)
  case silent =>
    rintro q' (_ | ⟨_, mem⟩) notYet
    · exact ⟨new, (same tag).trans silent⟩
    · obtain ⟨open_, none⟩ := h.silent q' mem notYet
      exact ⟨fun b => (old _ ((h.kept q' mem).cells b)).trans (open_ b), (same _).trans none⟩
  case told =>
    rintro q' (_ | ⟨_, mem⟩) inside
    · exact absurd (h.arrived tag inside) unused'
    · obtain ⟨reply, made, told⟩ := h.told q' mem inside
      exact ⟨reply, made, told.mono within
        (fun b => (old _ ((h.kept q' mem).cells b)).trans) (same _)⟩

theorem eq_of_replyMessage {scopes : SavedScopes} {b b' : Bool} {j j' : Json}
    (sorted : Json.Sorted scopes.values)
    (h : Ledger.replyMessage scopes b j = Ledger.replyMessage scopes b' j') : b = b' ∧ j = j' := by
  have source := congrArg Message.source h
  obtain rfl : b = b' := by
    cases b <;> cases b' <;> first | rfl | simp [Ledger.replyMessage, Ledger.replyText] at source
  let name := Ledger.replyName b
  have values : Json.insertField name j scopes.values = Json.insertField name j' scopes.values :=
    congrArg (·.scopes.values) h
  have mem : (name, j) ∈ Json.insertField name j' scopes.values :=
    values ▸ Json.mem_insertField_self name j scopes.values
  have same := List.inj_on_of_nodup_map (Json.sorted_insertField sorted name j').distinct mem
    (Json.mem_insertField_self name j' scopes.values) rfl
  exact ⟨rfl, (Prod.mk.inj same).2⟩

/-- A reply is delivered to the one who waits for it. -/
theorem Holds.deliver (h : e.Holds p c pledges) (fair : e.Fair p) {tag : Nat} {reply : Message}
    (mem : (tag, reply) ∈ e.peer.ledger.replies) (fuel : Nat) :
    ∃ c' , Holds p { e with
        origin := e.origin.deliver p.originHost (fuel + Ledger.replySteps) p.origin reply
        delivered := tag :: e.delivered } c' pledges ∧
      ∀ other ≠ tag, (e.origin.deliver p.originHost (fuel + Ledger.replySteps) p.origin
        reply).deliveriesFor other = e.origin.deliveriesFor other := by
  obtain ⟨message, sent, o, l, store, cp, came, found, form⟩ := fair.replied _ mem
  rw [h.sent] at sent
  obtain ⟨q, memQ, same⟩ := List.mem_map.1 sent
  obtain ⟨rfl, rfl⟩ := Prod.mk.inj same
  generalize Ledger.replyJson store cp.registry o = j at form
  generalize o.throws = throws at form
  have kept := h.kept q memQ
  obtain ⟨d, reads, tells⟩ := kept.deliver p.originHost h.ready h.sound throws j fuel
  simp only at form
  rw [← form] at tells
  generalize e.origin.deliver p.originHost (fuel + Ledger.replySteps) p.origin reply = origin at tells
  obtain ⟨c', ready, registry⟩ := tells.ready
  have spoken : origin.world.isAnswered (q.cell throws) = true := by
    simp [World.isAnswered, tells.answered,
      Array.getElem?_setIfInBounds_self_of_lt (kept.cells throws)]
  have others : ∀ q' ∈ pledges, ∀ b, q'.tag ≠ q.tag →
      origin.world.isAnswered (q'.cell b) = e.origin.world.isAnswered (q'.cell b) := by
    intro q' mem' b ne
    have other : q.cell throws ≠ q'.cell b :=
      fun eq => ne (congrArg Pledge.tag (h.apart q memQ q' mem' throws b eq).1).symm
    simp [World.isAnswered, tells.answered, Array.getElem?_setIfInBounds_ne other]
  refine ⟨c', ?_, tells.others⟩
  constructor
  case ready => exact ready
  case sound => exact registry ▸ h.sound
  case sent => exact h.sent
  case tags => exact h.tags
  case apart => exact h.apart
  case kept =>
    intro q' mem'
    refine (h.kept q' mem').mono (registry ▸ .refl _) (fun f x known => ?_) tells.recipients ?_
    · rw [Store.function?, tells.functions]
      exact known
    · rw [tells.answered, Array.size_setIfInBounds]
  case arrived =>
    rintro tag (_ | ⟨_, inside⟩)
    · exact List.mem_map_of_mem memQ
    · exact h.arrived tag inside
  case silent =>
    intro q' mem' notYet
    simp only [List.mem_cons, not_or] at notYet
    obtain ⟨open_, none⟩ := h.silent q' mem' notYet.2
    exact ⟨fun b => (others q' mem' b notYet.1).trans (open_ b),
      (tells.others _ notYet.1).trans none⟩
  case told =>
    intro q' mem' inside
    by_cases own : q'.tag = q.tag
    · obtain rfl := h.pledge_eq mem' memQ own
      by_cases before : q'.tag ∈ e.delivered
      · -- The tag has one reply, so this one has called the same function before.
        obtain ⟨reply', made, throws', j', d', registry', form', closed, once, within, reads'⟩ :=
          h.told q' mem' before
        have again : (q'.tag, reply') = (q'.tag, reply) := List.inj_on_of_nodup_map fair.distinct
          (Array.mem_toList_iff.2 made) (Array.mem_toList_iff.2 mem) rfl
        obtain rfl := (Prod.mk.inj again).2
        obtain ⟨rfl, -⟩ := eq_of_replyMessage kept.sorted (form'.symm.trans form)
        have told := tells.own
        rw [closed, once] at told
        exact ⟨reply', mem, throws', j', d', registry', form', spoken, told, registry ▸ within, reads'⟩
      · refine ⟨reply, mem, throws, j, ?_⟩
        obtain ⟨open_, none⟩ := h.silent q' mem' before
        have told := tells.own
        rw [open_ throws, none] at told
        exact ⟨d, c.registry, form, spoken, told, registry ▸ .refl _, reads⟩
    · rcases List.mem_cons.1 inside with same | inside
      · exact absurd same own
      · obtain ⟨reply', made, told⟩ := h.told q' mem' inside
        exact ⟨reply', made, told.mono (registry ▸ .refl _)
          (fun b => (others q' mem' b own).trans) (tells.others _ own)⟩

theorem Holds.step (h : e.Holds p c pledges) (fair : e.Fair p) (step : e.Step p e') :
    ∃ c' pledges', e'.Holds p c' pledges' := by
  have replies := (fair.step step).replies
  cases step with
  | @request source bindings tag message origin unused silent made fresh =>
    obtain ⟨fields, r', request, asks⟩ := Realm.request_asks h.ready source bindings tag
    rw [request] at made
    obtain ⟨rfl, rfl⟩ : ⟨source, ⟨fields, []⟩⟩ = message ∧ r' = origin := by
      simpa using made
    exact h.request asks unused silent fresh
  | respond _ _ | answer _ => exact ⟨c, pledges, h.peer rfl rfl rfl replies⟩
  | deliver mem fuel =>
    obtain ⟨c', holds, -⟩ := h.deliver fair mem fuel
    exact ⟨c', pledges, holds⟩

theorem Begins.holds (h : e.Begins p) : e.Fair p ∧ ∃ c pledges, e.Holds p c pledges := by
  obtain ⟨c, ready, sound⟩ := h.ready
  have empty : ∀ {α : Type} {P : α → Prop}, ∀ x ∈ ([] : List α), P x := fun x mem => by cases mem
  refine ⟨⟨fun _ _ _ _ known => absurd (Array.mem_of_getElem? known) (h.free _ _ _), ?_, ?_⟩, c, [],
    ready, sound, by simp [h.sent], List.nodup_nil, empty, empty, by simp [h.delivered], empty, empty⟩
  · simp [h.replies]
  · simp [h.replies]

theorem holds_of_run {start : Exchange η θ} (begins : start.Begins p)
    (run : Relation.ReflTransGen (Step p) start e) : e.Fair p ∧ ∃ c pledges, e.Holds p c pledges := by
  induction run with
  | refl => exact begins.holds
  | tail _ step ih =>
    obtain ⟨fair, c, pledges, holds⟩ := ih
    exact ⟨(fair.step step).fair, holds.step fair step⟩

/-- Each caller is told exactly once, and by its own reply. Until the reply to a request is
delivered its caller is told nothing; then it is told, once and for all, what the source of the
request has come to on the peer, as it is read off the reply. A reply tells nobody else. -/
theorem replies_tell_own_caller_once {start : Exchange η θ} (begins : start.Begins p)
    (run : Relation.ReflTransGen (Step p) start e) :
    (∀ tag message, (tag, message) ∈ e.sent →
      (tag ∉ e.delivered → e.origin.deliveriesFor tag = []) ∧
      (tag ∈ e.delivered → ∃ o l store peer c registry d, e.Came p tag message o l store ∧
        l.context? p.peer = some peer ∧ e.origin.ledger.context? p.origin = some c ∧
        registry.Within c.registry ∧ e.origin.deliveriesFor tag = [d] ∧
        d.Reads registry o.throws (Ledger.replyJson store peer.registry o))) ∧
    ∀ tag reply fuel, (tag, reply) ∈ e.peer.ledger.replies → ∀ other ≠ tag,
      (e.origin.deliver p.originHost (fuel + Ledger.replySteps) p.origin reply).deliveriesFor other =
        e.origin.deliveriesFor other := by
  obtain ⟨fair, c, pledges, holds⟩ := holds_of_run begins run
  refine ⟨fun tag message sent => ?_, fun tag reply fuel mem => ?_⟩
  · rw [holds.sent] at sent
    obtain ⟨q, memQ, same⟩ := List.mem_map.1 sent
    obtain ⟨rfl, rfl⟩ := Prod.mk.inj same
    refine ⟨fun notYet => (holds.silent q memQ notYet).2, fun arrived => ?_⟩
    obtain ⟨reply, made, throws, j, d, registry, form, -, once, within, reads⟩ :=
      holds.told q memQ arrived
    obtain ⟨message, sent', o, l, store, peer, came, found, form'⟩ := fair.replied _ made
    rw [holds.sent] at sent'
    obtain ⟨q', memQ', same'⟩ := List.mem_map.1 sent'
    obtain ⟨tag', rfl⟩ := Prod.mk.inj same'
    obtain rfl := holds.pledge_eq memQ memQ' tag'.symm
    obtain ⟨rfl, rfl⟩ := eq_of_replyMessage (holds.kept q memQ).sorted (form.symm.trans form')
    exact ⟨o, l, store, peer, c, registry, d, came, found, holds.ready.found, within, once, reads⟩
  · exact (holds.deliver fair mem fuel).choose_spec.2

end Exchange

namespace Sample

def parties : Parties Unit Unit := ⟨host, host, 0, 0⟩

def root (registry : Registry) : Context := ⟨0, .plain, .log, registry, none, false⟩

def side (registry : Registry) : Realm Unit :=
  let r := Realm.empty ()
  ⟨{ r.world with store := (r.world.store.rootScope []).2 },
    { r.ledger with contexts := #[root registry] }⟩

def twoSides : Exchange Unit Unit := ⟨side (.empty (.source 1)), side (.empty (.source 2)), [], [], []⟩

def question (tag : Nat) : MessageSource :=
  let name : Node := .mk (.identifier "result") none
  .node (if tag = 0 then name else .mk (.throwStatement name) none)

def luggage : List (String × Value) := [("result", .string "kept"), ("c", .bool true)]

def letter (tag : Nat) : Message :=
  let token (n : Nat) : Json := .object [("ref", .string (Token.source 1 (2 * tag + n)).text)]
  ⟨question tag, ⟨[("c", token 0), ("cerr", token 1), ("result", .string "kept")], []⟩⟩

def registry (n : Nat) : Registry :=
  ⟨.source 1, 2 * n, (List.range (2 * n)).map fun m => (.source 1 m, .function m)⟩

def asked : Nat → Realm Unit
  | 0 => side (registry 0)
  | n + 1 => (asked n).requested 0 (root (registry n)) luggage (.caller n) (registry (n + 1))

theorem sortedEntries_luggage (f g : Value) :
    (Dict.setAll (.ofEntries luggage) [("c", f), ("cerr", g)]).sortedEntries =
      [("c", f), ("cerr", g), ("result", .string "kept")] := by
  have entries : Dict.setAll (.ofEntries luggage) [("c", f), ("cerr", g)] =
    ⟨[("result", .string "kept"), ("c", f), ("cerr", g)]⟩ := rfl
  rw [entries]
  simp [Dict.sortedEntries, List.mergeSort]

theorem request_letter (tag : Nat) (lt : tag < 2) :
    (asked tag).request 0 (question tag) luggage (.caller tag) =
      (some (letter tag), asked (tag + 1)) := by
  obtain rfl | rfl : tag = 0 ∨ tag = 1 := by omega
  all_goals
    rw [Realm.request_saved (c := root (registry _)) rfl (by decide), Realm.requestNames,
      sortedEntries_luggage]
    rfl

theorem sound_registry {n : Nat} (lt : n < 3) : (registry n).Sound := by
  have all : ∀ n < 3, ((registry n).entries.map (·.1)).Nodup ∧
    ∀ entry ∈ (registry n).entries, entry.1.bits < 2 ^ 128 := by decide
  exact ⟨(all n lt).1, (all n lt).2⟩

theorem twoSides_begins : twoSides.Begins parties where
  ready := ⟨root (registry 0), ⟨rfl, rfl, by simp [root], by decide⟩,
    sound_registry (by decide)⟩
  sent := rfl
  delivered := rfl
  replies := rfl
  free := fun _ _ _ => by simp [twoSides, side, Realm.empty, Ledger.empty]

theorem context_asked : ∀ n, (asked n).ledger.context? 0 = some (root (registry n))
  | 0 => rfl
  | n + 1 => Ledger.context?_setRegistry (context_asked n) (registry (n + 1))

theorem sound_asked {n : Nat} (lt : n < 3) (c : Context)
    (found : (asked n).ledger.context? 0 = some c) : c.registry.Sound := by
  obtain rfl := Option.some.inj ((context_asked n).symm.trans found)
  exact sound_registry lt

/-- The two sides when both questions are on their way. -/
def waiting : Exchange Unit Unit :=
  { twoSides with origin := asked 2, sent := [(1, letter 1), (0, letter 0)] }

theorem run_waiting : Relation.ReflTransGen (Exchange.Step parties) twoSides waiting :=
  .tail (.single (.request (by decide) rfl (request_letter 0 (by decide)) (sound_asked (by decide))))
    (.request (by decide) rfl (request_letter 1 (by decide)) (sound_asked (by decide)))

def respondTo (e : Exchange Unit Unit) (tag : Nat) : Exchange Unit Unit :=
  { e with
    peer := e.peer.respond host 100 0 (letter tag) tag
    runs := (e.peer.responding 0 (letter tag) tag).toList ++ e.runs }

/-- The two sides when both replies are made, that to the later question first. -/
def crossing : Exchange Unit Unit := respondTo (respondTo waiting 1) 0

theorem run_crossing : Relation.ReflTransGen (Exchange.Step parties) twoSides crossing :=
  .tail (.tail run_waiting (.respond (.head _) 100)) (.respond (.tail _ (.head _)) 100)

def deliverTo (e : Exchange Unit Unit) (tag : Nat) (reply : Message) : Exchange Unit Unit :=
  { e with
    origin := e.origin.deliver host (0 + Ledger.replySteps) 0 reply
    delivered := tag :: e.delivered }

theorem step_deliverTo {e : Exchange Unit Unit} {tag : Nat} {reply : Message}
    (made : (tag, reply) ∈ e.peer.ledger.replies) :
    Exchange.Step parties e (deliverTo e tag reply) :=
  .deliver made 0

theorem exists_reply (tag : Nat) (asked : tag ∈ [1, 0]) :
    ∃ reply, (tag, reply) ∈ crossing.peer.ledger.replies := by
  have tags : crossing.peer.ledger.replies.toList.map (·.1) = [1, 0] := by decide +kernel
  obtain ⟨⟨_, reply⟩, mem, rfl⟩ := List.mem_map.1 (tags ▸ asked)
  exact ⟨reply, Array.mem_toList_iff.1 mem⟩

/-- The replies are delivered out of order, one of them twice. -/
theorem crossing_replies_tell :
    twoSides.Begins parties ∧ ∃ e, Relation.ReflTransGen (Exchange.Step parties) twoSides e ∧
      e.delivered = [0, 1, 0] ∧ ∀ tag ∈ [1, 0], ∃ o l store peer c registry d,
        e.Came parties tag (letter tag) o l store ∧ l.context? 0 = some peer ∧
        e.origin.ledger.context? 0 = some c ∧ registry.Within c.registry ∧
        e.origin.deliveriesFor tag = [d] ∧
        d.Reads registry o.throws (Ledger.replyJson store peer.registry o) := by
  obtain ⟨first, memFirst⟩ := exists_reply 0 (by decide)
  obtain ⟨second, memSecond⟩ := exists_reply 1 (by decide)
  let e := deliverTo (deliverTo (deliverTo crossing 0 first) 1 second) 0 first
  have run : Relation.ReflTransGen (Exchange.Step parties) twoSides e :=
    .tail (.tail (.tail run_crossing (step_deliverTo memFirst)) (step_deliverTo memSecond))
      (step_deliverTo memFirst)
  refine ⟨twoSides_begins, e, run, rfl, ?_⟩
  have told := (Exchange.replies_tell_own_caller_once twoSides_begins run).1
  intro tag mem
  have sent : (tag, letter tag) ∈ waiting.sent := by
    rcases List.mem_pair.1 mem with rfl | rfl <;> simp [waiting]
  have arrived : tag ∈ [0, 1, 0] := by
    rcases List.mem_pair.1 mem with rfl | rfl <;> simp
  exact (told tag (letter tag) sent).2 arrived

end Sample

end EcmaMachine
