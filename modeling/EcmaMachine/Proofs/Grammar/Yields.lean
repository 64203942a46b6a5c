import EcmaMachine.Tree.Parser

/-!
What a match looks like. The rules that match inside a rule come in one of the orders that the
rule's expression allows, and these can be computed from the expression.
-/

namespace EcmaMachine.Grammar

variable {ρ : Type}

namespace Peg

/-! ## The orders that an expression allows -/

def Yields : Peg ρ → List ρ → Prop
  | .call r, rs => rs = [r]
  | .seq a b, rs => ∃ xs ys, a.Yields xs ∧ b.Yields ys ∧ rs = xs ++ ys
  | .alt a b, rs => a.Yields rs ∨ b.Yields rs
  | .star a, rs | .again a, rs =>
    ∃ xss : List (List ρ), (∀ xs ∈ xss, a.Yields xs) ∧ rs = xss.flatten
  | .opt a, rs => rs = [] ∨ a.Yields rs
  | .text _, rs | .char _, rs | .finish, rs | .unless _, rs | .ahead _, rs => rs = []

def rules : Peg ρ → List ρ
  | .call r => [r]
  | .seq a b | .alt a b => a.rules ++ b.rules
  | .star a | .again a | .opt a => a.rules
  | .text _ | .char _ | .finish | .unless _ | .ahead _ => []

theorem Yields.mem_rules {e : Peg ρ} {rs : List ρ} (h : e.Yields rs) {r : ρ} (mem : r ∈ rs) :
    r ∈ e.rules := by
  induction e generalizing rs with
  | call r' =>
    cases h
    exact mem
  | seq a b ihA ihB =>
    obtain ⟨xs, ys, left, right, rfl⟩ := h
    rcases List.mem_append.1 mem with mem | mem
    · exact List.mem_append_left _ (ihA left mem)
    · exact List.mem_append_right _ (ihB right mem)
  | alt a b ihA ihB =>
    rcases h with h | h
    · exact List.mem_append_left _ (ihA h mem)
    · exact List.mem_append_right _ (ihB h mem)
  | star a ih | again a ih =>
    obtain ⟨xss, all, rfl⟩ := h
    obtain ⟨xs, known, mem⟩ := List.mem_flatten.1 mem
    exact ih (all xs known) mem
  | opt a ih =>
    rcases h with rfl | h
    · cases mem
    · exact ih h mem
  | text | char | finish | «unless» | ahead =>
    cases h
    cases mem

/-- All sequences that an expression without repetitions may match, by the kinds of the rules. Rules
without a kind are left out. -/
def forms {κ : Type} [BEq κ] (kind : ρ → Option κ) : Peg ρ → Option (List (List κ))
  | .call r => some [(kind r).toList]
  | .seq a b => do
    let xss ← a.forms kind
    let yss ← b.forms kind
    some (xss.flatMap fun xs => yss.map (xs ++ ·)).eraseDups
  | .alt a b => do
    let xss ← a.forms kind
    let yss ← b.forms kind
    some (xss ++ yss).eraseDups
  | .opt a => do
    let xss ← a.forms kind
    some ([] :: xss).eraseDups
  | .star _ | .again _ => none
  | .text _ | .char _ | .finish | .unless _ | .ahead _ => some [[]]

theorem Yields.mem_forms {κ : Type} [BEq κ] [LawfulBEq κ] {kind : ρ → Option κ} {e : Peg ρ}
    {rs : List ρ} (h : e.Yields rs) {known : List (List κ)} (forms : e.forms kind = some known) :
    rs.filterMap kind ∈ known := by
  induction e generalizing rs known with
  | call r =>
    cases h
    cases forms
    cases own : kind r <;> simp [own]
  | seq a b ihA ihB =>
    obtain ⟨xs, ys, left, right, rfl⟩ := h
    obtain ⟨xss, formsA, forms⟩ := Option.bind_eq_some_iff.1 forms
    obtain ⟨yss, formsB, forms⟩ := Option.bind_eq_some_iff.1 forms
    cases forms
    rw [List.mem_eraseDups, List.mem_flatMap, List.filterMap_append]
    exact ⟨_, ihA left formsA, List.mem_map_of_mem (ihB right formsB)⟩
  | alt a b ihA ihB =>
    obtain ⟨xss, formsA, forms⟩ := Option.bind_eq_some_iff.1 forms
    obtain ⟨yss, formsB, forms⟩ := Option.bind_eq_some_iff.1 forms
    cases forms
    rw [List.mem_eraseDups]
    rcases h with h | h
    · exact List.mem_append_left _ (ihA h formsA)
    · exact List.mem_append_right _ (ihB h formsB)
  | opt a ih =>
    obtain ⟨xss, formsA, forms⟩ := Option.bind_eq_some_iff.1 forms
    cases forms
    rw [List.mem_eraseDups]
    rcases h with rfl | h
    · exact List.mem_cons_self
    · exact List.mem_cons_of_mem _ (ih h formsA)
  | star a ih | again a ih => cases forms
  | text | char | finish | «unless» | ahead =>
    cases h
    cases forms
    exact List.mem_singleton_self _

end Peg

/-! ## Runs -/

/-- Whether an expression may match without moving on. -/
def Peg.stays : Peg ρ → Bool
  | .finish | .star _ | .again _ | .opt _ | .unless _ | .ahead _ => true
  | .text _ | .char _ | .call _ | .seq _ _ | .alt _ _ => false

namespace Rules

/-- An expression matches from one place to another, with the rules `ps` inside. What a run does is
among this, without its depth. -/
inductive Matches (g : Rules ρ) : Mode → Peg ρ → Cursor → List (Pair ρ) → Cursor → Prop
  | text {mode cs cur stop} (past : cur.past? cs = some stop) : Matches g mode (.text cs) cur [] stop
  | char {mode p cur c rest} (next : cur.rest = c :: rest) :
    Matches g mode (.char p) cur [] (cur.past c rest)
  | token {r cur inner stop}
    (body : Matches g ((g.define r).mode.getD .atomic) (g.define r).body cur inner stop) :
    Matches g .atomic (.call r) cur [] stop
  | call {mode r cur inner stop} (spaced : mode ≠ .atomic)
    (body : Matches g ((g.define r).mode.getD mode) (g.define r).body cur inner stop) :
    Matches g mode (.call r) cur [.mk r cur stop inner] stop
  | seq {mode a b cur ps mid qs stop} (left : Matches g mode a cur ps mid)
    (right : Matches g mode b (g.between mode mid) qs stop) :
    Matches g mode (.seq a b) cur (ps ++ qs) stop
  | left {mode a b cur ps stop} (left : Matches g mode a cur ps stop) :
    Matches g mode (.alt a b) cur ps stop
  | right {mode a b cur ps stop} (right : Matches g mode b cur ps stop) :
    Matches g mode (.alt a b) cur ps stop
  | star {mode a cur ps mid qs stop} (first : Matches g mode a cur ps mid)
    (rest : Matches g mode (.again a) mid qs stop) : Matches g mode (.star a) cur (ps ++ qs) stop
  | again {mode a cur ps mid qs stop} (first : Matches g mode a (g.between mode cur) ps mid)
    (rest : Matches g mode (.again a) mid qs stop) : Matches g mode (.again a) cur (ps ++ qs) stop
  | opt {mode a cur ps stop} (inner : Matches g mode a cur ps stop) :
    Matches g mode (.opt a) cur ps stop
  | stay {mode e cur} (stays : e.stays = true) : Matches g mode e cur [] cur

variable {g : Rules ρ} {mode : Mode} {e : Peg ρ} {cur stop : Cursor} {ps : List (Pair ρ)}

theorem matches_of_run {fuel : Nat} (h : g.run fuel mode e cur = some (ps, stop)) :
    g.Matches mode e cur ps stop := by
  induction fuel generalizing mode e cur stop ps with
  | zero => cases h
  | succ fuel ih =>
    cases e with
    | text cs =>
      obtain ⟨_, past, eq⟩ := Option.map_eq_some_iff.1 h
      cases eq
      exact .text past
    | char p =>
      simp only [run] at h
      split at h
      · next eq =>
        split at h <;> cases h
        exact .char eq
      · cases h
    | finish | «unless» a | ahead a =>
      simp only [run] at h
      split at h <;> cases h
      exact .stay rfl
    | call r =>
      simp only [run] at h
      split at h
      · cases h
      · next ran =>
        split at h
        · next atomic =>
          cases beq_iff_eq.1 atomic
          cases h
          exact .token (ih ran)
        · next other =>
          cases h
          exact .call (by simpa using other) (ih ran)
    | seq a b =>
      simp only [run] at h
      split at h
      · cases h
      · next ran =>
        split at h <;> cases h
        next ran' => exact .seq (ih ran) (ih ran')
    | alt a b =>
      simp only [run] at h
      split at h
      · next ran =>
        cases h
        exact .left (ih ran)
      · exact .right (ih h)
    | star a =>
      simp only [run] at h
      split at h
      · cases h
        exact .stay rfl
      · next ran =>
        split at h <;> cases h
        next ran' => exact .star (ih ran) (ih ran')
    | again a =>
      simp only [run] at h
      split at h
      · cases h
        exact .stay rfl
      · next ran =>
        split at h <;> cases h
        next ran' => exact .again (ih ran) (ih ran')
    | opt a =>
      simp only [run] at h
      split at h
      · next ran =>
        cases h
        exact .opt (ih ran)
      · cases h
        exact .stay rfl

end Rules

/-! ## What a match finds -/

/-- The rules inside a rule are in an order that the rule allows; a token has none inside. -/
inductive Pair.Valid (g : Rules ρ) : Pair ρ → Prop
  | mk {r : ρ} {start stop : Cursor} {inner : List (Pair ρ)}
    (atomic : (g.define r).mode = some .atomic → inner = [])
    (yields : (g.define r).mode ≠ some .atomic → (g.define r).body.Yields (inner.map Pair.rule))
    (valid : ∀ p ∈ inner, p.Valid g) : Pair.Valid g (.mk r start stop inner)

namespace Rules

variable {g : Rules ρ} {e : Peg ρ} {mode : Mode} {ps : List (Pair ρ)}

structure Finds (g : Rules ρ) (mode : Mode) (e : Peg ρ) (ps : List (Pair ρ)) : Prop where
  atomic : mode = .atomic → ps = []
  yields : mode ≠ .atomic → e.Yields (ps.map Pair.rule)
  valid : ∀ p ∈ ps, p.Valid g

theorem finds_nil (h : e.Yields []) : g.Finds mode e [] :=
  ⟨fun _ => rfl, fun _ => h, nofun⟩

theorem Finds.mono {a : Peg ρ} (h : g.Finds mode a ps) (yields : ∀ rs, a.Yields rs → e.Yields rs) :
    g.Finds mode e ps :=
  ⟨h.atomic, fun other => yields _ (h.yields other), h.valid⟩

theorem Finds.append {a b : Peg ρ} {qs : List (Pair ρ)} (left : g.Finds mode a ps)
    (right : g.Finds mode b qs) (yields : ∀ xs ys, a.Yields xs → b.Yields ys → e.Yields (xs ++ ys))
   :
    g.Finds mode e (ps ++ qs) := by
  refine ⟨?_, ?_, ?_⟩
  · intro atomic
    rw [left.atomic atomic, right.atomic atomic, List.append_nil]
  · intro other
    rw [List.map_append]
    exact yields _ _ (left.yields other) (right.yields other)
  · intro p mem
    rcases List.mem_append.1 mem with mem | mem
    · exact left.valid p mem
    · exact right.valid p mem

/-- A rule that is called in some mode is found, if its expression is. -/
theorem Finds.call {mode : Mode} {r : ρ} {inner : List (Pair ρ)} {start stop : Cursor}
    (h : g.Finds ((g.define r).mode.getD mode) (g.define r).body inner) (spaced : mode ≠ .atomic) :
    g.Finds mode (.call r) [.mk r start stop inner] := by
  refine ⟨fun atomic => (spaced atomic).elim, fun _ => rfl, ?_⟩
  intro p mem
  cases List.mem_singleton.1 mem
  refine .mk (fun atomic => h.atomic (by simp [atomic])) (fun other => h.yields ?_) h.valid
  intro eq
  cases own : (g.define r).mode with
  | none =>
    rw [own] at eq
    exact spaced eq
  | some m =>
    rw [own] at eq
    exact other (own.trans (congrArg some eq))

theorem Matches.finds {cur stop : Cursor} (h : g.Matches mode e cur ps stop) :
    g.Finds mode e ps := by
  induction h with
  | text | char => exact finds_nil rfl
  | token _ _ => exact ⟨fun _ => rfl, fun other => (other rfl).elim, List.forall_mem_nil _⟩
  | call spaced _ ih => exact ih.call spaced
  | seq _ _ left right => exact left.append right fun xs ys left right => ⟨xs, ys, left, right, rfl⟩
  | left _ ih => exact ih.mono fun _ => .inl
  | right _ ih | opt _ ih => exact ih.mono fun _ => .inr
  | star _ _ first rest | again _ _ first rest =>
    refine first.append rest ?_
    rintro xs ys left ⟨yss, right, rfl⟩
    exact ⟨xs :: yss, List.forall_mem_cons.2 ⟨left, right⟩, rfl⟩
  | @stay _ e _ stays =>
    cases e with
    | finish | «unless» | ahead => exact finds_nil rfl
    | star | again => exact finds_nil ⟨[], List.forall_mem_nil _, rfl⟩
    | opt => exact finds_nil (.inl rfl)
    | _ => cases stays

/-- The match of a whole text. -/
theorem valid_of_parse {r : ρ} {cs : List Char} {p : Pair ρ} (h : g.parse? r cs = some p) :
    p.Valid g ∧ p.rule = r := by
  unfold parse? at h
  split at h
  · next ran =>
    cases h
    have found := (matches_of_run ran).finds
    have yields := found.yields nofun
    exact ⟨found.valid p (List.mem_singleton_self p), List.head_eq_of_cons_eq yields⟩
  · cases h

end Rules

end EcmaMachine.Grammar
