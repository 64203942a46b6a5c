import EcmaMachine.Proofs.Grammar.Yields

/-!
Where a match stands. A run only moves forward over the text, so every rule that matched starts
at a place of the text and covers what stands there; a token covers one of the texts that its
expression spells.
-/

namespace EcmaMachine

/-! ## Places -/

namespace Position

def next (p : Position) (c : Char) : Position :=
  if c == '\n' then ⟨p.line + 1, 0⟩ else ⟨p.line, p.column + 1⟩

def after (p : Position) (w : List Char) : Position := w.foldl next p

end Position

namespace Grammar

variable {cur : Cursor}

namespace Cursor

/-- The second place is the one behind the text `w`, which stands at the first. -/
structure Leads (a : Cursor) (w : List Char) (b : Cursor) : Prop where
  rest : a.rest = w ++ b.rest
  offset : b.offset = a.offset + w.length
  pos : b.pos = a.pos.after w

variable {a b c : Cursor} {v w : List Char}

theorem Leads.refl (a : Cursor) : a.Leads [] a := ⟨rfl, rfl, rfl⟩

theorem Leads.trans (h : a.Leads v b) (h' : b.Leads w c) : a.Leads (v ++ w) c := by
  refine ⟨?_, ?_, ?_⟩
  · rw [h.rest, h'.rest, List.append_assoc]
  · rw [h'.offset, h.offset, List.length_append, Nat.add_assoc]
  · rw [h'.pos, h.pos, Position.after, Position.after, Position.after, List.foldl_append]

theorem leads_past {d : Char} {rest : List Char} (h : a.rest = d :: rest) :
    a.Leads [d] (a.past d rest) :=
  ⟨h, rfl, rfl⟩

theorem leads_of_past? {cs : List Char} (h : a.past? cs = some b) : a.Leads cs b := by
  induction cs generalizing a with
  | nil =>
    cases h
    exact .refl _
  | cons d cs ih =>
    unfold past? at h
    split at h
    · next e rest eq =>
      split at h
      · next same =>
        cases beq_iff_eq.1 same
        exact (leads_past eq).trans (ih h)
      · cases h
    · cases h

end Cursor

/-! ### Skipping -/

open Cursor (Leads leads_past)

theorem leads_skipSpace (cs : List Char) (h : cur.rest = cs) :
    ∃ w, cur.Leads w (skipSpace cur cs) := by
  induction cs generalizing cur with
  | nil => exact ⟨[], h, rfl, rfl⟩
  | cons c rest ih =>
    unfold skipSpace
    split
    · obtain ⟨w, onward⟩ := @ih (cur.past c rest) rfl
      exact ⟨c :: w, (leads_past h).trans onward⟩
    · exact ⟨[], h, rfl, rfl⟩

theorem leads_skipLine {cur : Cursor} (cs : List Char) (h : cur.rest = cs) :
    ∃ w, cur.Leads w (skipLine cur cs) := by
  induction cs generalizing cur with
  | nil => exact ⟨[], h, rfl, rfl⟩
  | cons c rest ih =>
    unfold skipLine
    split
    · exact ⟨[], h, rfl, rfl⟩
    · obtain ⟨w, onward⟩ := @ih (cur.past c rest) rfl
      exact ⟨c :: w, (leads_past h).trans onward⟩

theorem leads_skipBlock {stop : Cursor} (cs : List Char) (h : cur.rest = cs)
    (found : skipBlock cur cs = some stop) : ∃ w, cur.Leads w stop := by
  fun_induction skipBlock cur cs with
  | case1 cur rest =>
    cases found
    exact ⟨['*', '/'], (leads_past h).trans (leads_past rfl)⟩
  | case2 cur c rest _ ih =>
    obtain ⟨w, onward⟩ := ih rfl found
    exact ⟨c :: w, (leads_past h).trans onward⟩
  | case3 => cases found

theorem leads_comment {stop : Cursor} (h : comment? cur = some stop) : ∃ w, cur.Leads w stop := by
  unfold comment? at h
  split at h
  · next rest eq =>
    cases h
    obtain ⟨w, onward⟩ := @leads_skipLine ((cur.past '/' _).past '/' rest) rest rfl
    exact ⟨_, ((leads_past eq).trans (leads_past rfl)).trans onward⟩
  · next rest eq =>
    obtain ⟨w, onward⟩ := leads_skipBlock rest rfl h
    exact ⟨_, ((leads_past eq).trans (leads_past rfl)).trans onward⟩
  · cases h

theorem leads_skipComments (fuel : Nat) (cur : Cursor) :
    ∃ w, cur.Leads w (skipComments fuel cur) := by
  induction fuel generalizing cur with
  | zero => exact ⟨[], .refl cur⟩
  | succ fuel ih =>
    unfold skipComments
    split
    · next next found =>
      obtain ⟨u, toNext⟩ := leads_comment found
      obtain ⟨v, toText⟩ := leads_skipSpace next.rest rfl
      obtain ⟨w, onward⟩ := ih (skipSpace next next.rest)
      exact ⟨_, (toNext.trans toText).trans onward⟩
    · exact ⟨[], .refl cur⟩

theorem leads_skip (cur : Cursor) : ∃ w, cur.Leads w (skip cur) := by
  obtain ⟨u, toText⟩ := leads_skipSpace cur.rest rfl
  unfold skip
  simp only
  split
  · next next found =>
    obtain ⟨v, toNext⟩ := leads_comment found
    obtain ⟨v', toText'⟩ := leads_skipSpace next.rest rfl
    obtain ⟨w, onward⟩ := leads_skipComments (skipSpace cur cur.rest).rest.length
      (skipSpace next next.rest)
    exact ⟨_, ((toText.trans toNext).trans toText').trans onward⟩
  · exact ⟨u, toText⟩

/-! ## What an expression covers -/

variable {ρ : Type}

namespace Peg

/-- All texts that an expression may cover if nothing is skipped, where these are known without
looking at other rules. -/
def texts : Peg ρ → Option (List (List Char))
  | .text cs => some [cs]
  | .seq a b => do
    let us ← a.texts
    let vs ← b.texts
    some (us.flatMap fun u => vs.map (u ++ ·))
  | .alt a b => do
    let us ← a.texts
    let vs ← b.texts
    some (us ++ vs)
  | .finish | .unless _ | .ahead _ => some [[]]
  | .char _ | .call _ | .star _ | .again _ | .opt _ => none

/-- Whether an expression covers some text wherever it matches, if the `solid` rules do. -/
def eats (solid : ρ → Bool) : Peg ρ → Bool
  | .text cs => !cs.isEmpty
  | .char _ => true
  | .call r => solid r
  | .seq a b => a.eats solid || b.eats solid
  | .alt a b => a.eats solid && b.eats solid
  | .finish | .star _ | .again _ | .opt _ | .unless _ | .ahead _ => false

end Peg

namespace Rules

variable {g : Rules ρ} {solid : ρ → Bool} {mode : Mode} {cur stop : Cursor} {ps : List (Pair ρ)}

/-- The grammar skips forward, and its solid rules cover some text. -/
structure Forward (g : Rules ρ) (solid : ρ → Bool) : Prop where
  skip : ∀ cur : Cursor, ∃ w, cur.Leads w (g.skip cur)
  eats : ∀ r, solid r = true → (g.define r).body.eats solid = true

theorem Forward.between (h : g.Forward solid) (mode : Mode) (cur : Cursor) :
    ∃ w, cur.Leads w (g.between mode cur) ∧ (mode = .atomic → w = []) := by
  cases mode with
  | spaced =>
    obtain ⟨w, leads⟩ := h.skip cur
    exact ⟨w, leads, nofun⟩
  | atomic | compound => exact ⟨[], .refl cur, fun _ => rfl⟩

inductive Strung : Cursor → List (Pair ρ) → Cursor → Prop
  | nil {a b : Cursor} {w : List Char} (leads : a.Leads w b) : Strung a [] b
  | cons {a b : Cursor} {p : Pair ρ} {ps : List (Pair ρ)} {v w : List Char}
    (leads : a.Leads v p.start) (covers : p.start.Leads w p.stop) (rest : Strung p.stop ps b) :
    Strung a (p :: ps) b

theorem Strung.before {a b c : Cursor} {w : List Char} (leads : a.Leads w b)
    (h : Strung b ps c) : Strung a ps c := by
  cases h with
  | nil leads' => exact .nil (leads.trans leads')
  | cons leads' covers rest => exact .cons (leads.trans leads') covers rest

theorem Strung.append {a b c : Cursor} {qs : List (Pair ρ)} (h : Strung a ps b)
    (h' : Strung b qs c) : Strung a (ps ++ qs) c := by
  induction h with
  | nil leads => exact h'.before leads
  | cons leads covers _ ih => exact .cons leads covers (ih h')

/-- What a match of `e` from one place to another covers, with the matches `ps` inside. -/
structure Covers (solid : ρ → Bool) (mode : Mode) (e : Peg ρ) (cur stop : Cursor)
    (ps : List (Pair ρ)) (w : List Char) : Prop where
  leads : cur.Leads w stop
  token : mode = .atomic → ∀ known, e.texts = some known → w ∈ known
  some : e.eats solid = true → w ≠ []
  strung : Strung cur ps stop

/-- A match of an expression that promises nothing about its text. -/
theorem Covers.vague {e : Peg ρ} {w : List Char} (texts : e.texts = none)
    (eats : e.eats solid = false) (leads : cur.Leads w stop) (strung : Strung cur ps stop) :
    Covers solid mode e cur stop ps w :=
  ⟨leads, by simp [texts], by simp [eats], strung⟩

/-- An expression that may stay where it is covers nothing then. -/
theorem Covers.stay {e : Peg ρ} (stays : e.stays = true) : Covers solid mode e cur cur [] [] := by
  have none : e.eats solid ≠ true := by cases e <;> first | exact Bool.false_ne_true | cases stays
  refine ⟨.refl cur, ?_, fun eats => (none eats).elim, .nil (.refl cur)⟩
  intro _ known eq
  cases e <;> cases stays <;> cases eq <;> exact List.mem_singleton_self []

theorem Matches.covers (forward : g.Forward solid) {e : Peg ρ} (h : g.Matches mode e cur ps stop) :
    ∃ w, Covers solid mode e cur stop ps w := by
  induction h with
  | text past =>
    have leads := Cursor.leads_of_past? past
    refine ⟨_, leads, ?_, by simp [Peg.eats], .nil leads⟩
    rintro - known ⟨⟩
    exact List.mem_singleton_self _
  | @char _ _ _ c _ next =>
    exact ⟨[c], leads_past next, by rintro _ _ ⟨⟩, fun _ => List.cons_ne_nil _ _,
      .nil (leads_past next)⟩
  | @token r _ _ _ _ ih =>
    obtain ⟨w, covers⟩ := ih
    exact ⟨w, covers.leads, by rintro _ _ ⟨⟩, fun eats => covers.some (forward.eats r eats),
      .nil covers.leads⟩
  | @call _ r cur _ _ _ _ ih =>
    obtain ⟨w, covers⟩ := ih
    exact ⟨w, covers.leads, by rintro _ _ ⟨⟩, fun eats => covers.some (forward.eats r eats),
      .cons (.refl cur) covers.leads (.nil (.refl _))⟩
  | @seq mode _ _ _ _ mid _ _ _ _ ihA ihB =>
    obtain ⟨u, left⟩ := ihA
    obtain ⟨v, right⟩ := ihB
    obtain ⟨gap, skipped, none⟩ := forward.between mode mid
    refine ⟨_, (left.leads.trans skipped).trans right.leads, ?_, ?_,
      left.strung.append (right.strung.before skipped)⟩
    · intro atomic known eq
      obtain ⟨us, textsA, eq⟩ := Option.bind_eq_some_iff.1 eq
      obtain ⟨vs, textsB, eq⟩ := Option.bind_eq_some_iff.1 eq
      cases eq
      rw [none atomic, List.append_nil, List.mem_flatMap]
      exact ⟨u, left.token atomic us textsA, List.mem_map_of_mem (right.token atomic vs textsB)⟩
    · intro eats empty
      simp only [List.append_eq_nil_iff] at empty
      rcases Bool.or_eq_true_iff.1 eats with eats | eats
      · exact left.some eats empty.1.1
      · exact right.some eats empty.2
  | left _ ih =>
    obtain ⟨w, covers⟩ := ih
    refine ⟨w, covers.leads, ?_, fun eats => covers.some (Bool.and_eq_true_iff.1 eats).1,
      covers.strung⟩
    intro atomic known eq
    obtain ⟨us, textsA, eq⟩ := Option.bind_eq_some_iff.1 eq
    obtain ⟨vs, textsB, eq⟩ := Option.bind_eq_some_iff.1 eq
    cases eq
    exact List.mem_append_left _ (covers.token atomic us textsA)
  | right _ ih =>
    obtain ⟨w, covers⟩ := ih
    refine ⟨w, covers.leads, ?_, fun eats => covers.some (Bool.and_eq_true_iff.1 eats).2,
      covers.strung⟩
    intro atomic known eq
    obtain ⟨us, textsA, eq⟩ := Option.bind_eq_some_iff.1 eq
    obtain ⟨vs, textsB, eq⟩ := Option.bind_eq_some_iff.1 eq
    cases eq
    exact List.mem_append_right _ (covers.token atomic vs textsB)
  | star _ _ ihA ihB =>
    obtain ⟨u, first⟩ := ihA
    obtain ⟨v, rest⟩ := ihB
    exact ⟨_, .vague rfl rfl (first.leads.trans rest.leads) (first.strung.append rest.strung)⟩
  | @again mode _ cur _ _ _ _ _ _ ihA ihB =>
    obtain ⟨gap, skipped, -⟩ := forward.between mode cur
    obtain ⟨u, first⟩ := ihA
    obtain ⟨v, rest⟩ := ihB
    exact ⟨_, .vague rfl rfl ((skipped.trans first.leads).trans rest.leads)
      ((first.strung.append rest.strung).before skipped)⟩
  | opt _ ih =>
    obtain ⟨w, covers⟩ := ih
    exact ⟨w, .vague rfl rfl covers.leads covers.strung⟩
  | stay stays => exact ⟨[], .stay stays⟩

end Rules

/-! ## Matches in a text -/

/-- How a match stands in the text `cs`: from a place of the text on it covers what its rule
says. If the rule begins with another rule, so does the match. -/
structure Pair.Stands (g : Rules ρ) (solid : ρ → Bool) (cs : List Char) (p : Pair ρ) : Prop where
  place : ∃ before, (Cursor.start cs).Leads before p.start
  covers : ∃ w, p.start.Leads w p.stop ∧ (solid p.rule = true → w ≠ []) ∧
    ((g.define p.rule).mode = some .atomic →
      ∀ known, (g.define p.rule).body.texts = some known → w ∈ known)
  first : (g.define p.rule).mode ≠ some .atomic → ∀ r e,
    (g.define p.rule).body = .seq (.call r) e →
      ∃ q qs, p.inner = q :: qs ∧ q.rule = r ∧ q.start = p.start
  strung : Rules.Strung p.start p.inner p.stop

/-- All matches inside stand in the text too. -/
inductive Pair.Placed (g : Rules ρ) (solid : ρ → Bool) (cs : List Char) : Pair ρ → Prop
  | mk {p : Pair ρ} (stands : p.Stands g solid cs)
    (inner : ∀ q ∈ p.inner, q.Placed g solid cs) : Pair.Placed g solid cs p

namespace Pair

variable {g : Rules ρ} {solid : ρ → Bool} {cs : List Char} {p : Pair ρ}

theorem Placed.stands (h : p.Placed g solid cs) : p.Stands g solid cs := by
  cases h with
  | mk stands _ => exact stands

theorem Placed.of_inner (h : p.Placed g solid cs) {q : Pair ρ} (mem : q ∈ p.inner) :
    q.Placed g solid cs := by
  cases h with
  | mk _ inner => exact inner q mem

/-- The text of a match is what stands between its places. -/
theorem text_of_leads {w : List Char} (h : p.start.Leads w p.stop) : p.text = w := by
  have length : p.stop.offset - p.start.offset = w.length := by
    have := h.offset
    omega
  rw [text, length, h.rest, List.take_left]

/-- The text of a token is one of those that its rule spells. -/
theorem Placed.mem_texts (h : p.Placed g solid cs) (known : List (List Char))
    (atomic : (g.define p.rule).mode = some .atomic)
    (texts : (g.define p.rule).body.texts = some known) : p.text ∈ known := by
  obtain ⟨w, leads, -, token⟩ := h.stands.covers
  rw [text_of_leads leads]
  exact token atomic known texts

/-- A match divides the text into what stands before it and what stands there, which begins with
the text of the match. -/
theorem Placed.divides (h : p.Placed g solid cs) :
    ∃ before after, cs = before ++ (p.text ++ after) ∧
      p.start.pos = (Position.mk 1 0).after before ∧ (solid p.rule = true → p.text ≠ []) := by
  obtain ⟨before, place⟩ := h.stands.place
  obtain ⟨w, leads, some, -⟩ := h.stands.covers
  have rest := place.rest
  rw [leads.rest] at rest
  rw [text_of_leads leads]
  exact ⟨before, p.stop.rest, rest, place.pos, some⟩

end Pair

namespace Rules

variable {g : Rules ρ} {solid : ρ → Bool} {cs : List Char}

section

variable (forward : g.Forward solid) {mode : Mode} {r : ρ} {cur stop : Cursor}
include forward

/-- A rule that is called at a place stands there, if what it called stands in the text. -/
theorem placed_call {inner : List (Pair ρ)} (place : ∃ before, (Cursor.start cs).Leads before cur)
    (spaced : mode ≠ .atomic)
    (body : g.Matches ((g.define r).mode.getD mode) (g.define r).body cur inner stop)
    (placed : ∀ q ∈ inner, q.Placed g solid cs) :
    (Pair.mk r cur stop inner).Placed g solid cs := by
  obtain ⟨w, covers⟩ := body.covers forward
  refine .mk ⟨place, ⟨w, covers.leads, fun eats => covers.some (forward.eats r eats), ?_⟩, ?_,
    covers.strung⟩ placed
  · intro atomic
    exact covers.token (by rw [show (g.define r).mode = _ from atomic]; rfl)
  · intro other r' e eq
    have open' : (g.define r).mode.getD mode ≠ .atomic := by
      cases own : (g.define r).mode with
      | none => exact spaced
      | some m => exact fun eq => other (own.trans (congrArg some eq))
    rw [show (g.define r).body = _ from eq] at body
    generalize (g.define r).mode.getD mode = mode' at body open'
    cases body with
    | seq left _ =>
      cases left with
      | token => exact (open' rfl).elim
      | call => exact ⟨_, _, rfl, rfl, rfl⟩
      | stay stays => cases stays
    | stay stays => cases stays

theorem Matches.placed {e : Peg ρ}
    {ps : List (Pair ρ)} (h : g.Matches mode e cur ps stop)
    (place : ∃ before, (Cursor.start cs).Leads before cur) : ∀ p ∈ ps, p.Placed g solid cs := by
  -- where the run reaches, the next part of it starts
  have onward {a b : Cursor} (leads : ∃ w, a.Leads w b)
      (place : ∃ before, (Cursor.start cs).Leads before a) :
      ∃ before, (Cursor.start cs).Leads before b := by
    obtain ⟨w, leads⟩ := leads
    obtain ⟨before, place⟩ := place
    exact ⟨_, place.trans leads⟩
  have reached {mode e a b} {qs : List (Pair ρ)} (h : g.Matches mode e a qs b) :
      ∃ w, a.Leads w b :=
    (h.covers forward).imp fun _ covers => covers.leads
  have skipped (mode : Mode) (a : Cursor) : ∃ w, a.Leads w (g.between mode a) :=
    (forward.between mode a).imp fun _ leads => leads.1
  induction h with
  | text | char | token | stay => exact List.forall_mem_nil _
  | call spaced body ih =>
    exact List.forall_mem_singleton.2 (placed_call forward place spaced body (ih place))
  | @seq mode _ _ _ _ mid _ _ left _ ihA ihB =>
    exact List.forall_mem_append.2 ⟨ihA place,
      ihB (onward (skipped mode mid) (onward (reached left) place))⟩
  | left _ ih | right _ ih | opt _ ih => exact ih place
  | star first _ ihA ihB =>
    exact List.forall_mem_append.2 ⟨ihA place, ihB (onward (reached first) place)⟩
  | @again mode _ cur _ _ _ _ first _ ihA ihB =>
    have place' := onward (skipped mode cur) place
    exact List.forall_mem_append.2 ⟨ihA place', ihB (onward (reached first) place')⟩

/-- The match of a whole text stands in it. -/
theorem placed_of_parse {p : Pair ρ}
    (h : g.parse? r cs = some p) : p.Placed g solid cs := by
  unfold parse? at h
  split at h
  · next ran =>
    cases h
    exact (matches_of_run ran).placed forward ⟨[], .refl _⟩ p (List.mem_singleton_self p)
  · cases h

end

end Rules

/-! ## The script language -/

/-- All rules cover some text, but for the end of the text, a program, the inside of a string and
a hole in an array. -/
def Rule.isSolid : Rule → Bool
  | .finish | .program | .doubleQuoted | .singleQuoted | .arrayHole => false
  | _ => true

theorem forward_script : script.Forward Rule.isSolid := by
  refine ⟨leads_skip, fun r solid => ?_⟩
  cases r <;> first | rfl | cases solid

end Grammar

end EcmaMachine
