import EcmaMachine.Proofs.Bond.Basic

/-!
What observers see of an event, and what they let through. An event goes to the observers of a
config in turn, so each of them sees it at most once, and only if those before have let it pass.
-/

namespace EcmaMachine

namespace Observer

/-- Keeps all events, whatever it makes of them. -/
def Records (o : Observer) : Prop :=
  ∀ notes store e, (o.watch notes store e).notes.events = e :: notes.events

def Willing (o : Observer) : Prop :=
  ∀ notes store e, e.isEnter = true → (o.watch notes store e).refusal = none

end Observer

namespace World

variable {η : Type} {o : Observer} {spy : Nat}

theorem notify_apart (w : World η) (e : Event) {ids : List Nat} (apart : spy ∉ ids) :
    (w.notify e ids).2.observers[spy]? = w.observers[spy]? := by
  induction ids generalizing w with
  | nil => rfl
  | cons id rest ih =>
    have ne : id ≠ spy := fun eq => apart (eq ▸ List.mem_cons_self)
    have later : spy ∉ rest := fun mem => apart (List.mem_cons_of_mem id mem)
    simp only [notify]
    split
    · exact ih w later
    · split
      · simp [Array.getElem?_setIfInBounds_ne ne]
      · rw [ih _ later]
        simp [Array.getElem?_setIfInBounds_ne ne]

theorem notify_first (w : World η) (e : Event) {rest : List Nat} (apart : spy ∉ rest)
    (watching : w.observers[spy]? = some o) :
    (w.notify e (spy :: rest)).2.observers[spy]? =
      some { o with notes := (o.watch o.notes w.store e).notes } := by
  have lt : spy < w.observers.size := (Array.getElem?_eq_some_iff.1 watching).1
  simp only [notify, watching]
  split
  · simp [lt, Observer.see]
  · rw [notify_apart _ _ apart]
    simp [lt, Observer.see]

/-- Whoever is named once in the list sees the event at most once. -/
theorem notify_single (w : World η) (e : Event) {ids : List Nat} (single : ids.Nodup)
    (watching : w.observers[spy]? = some o) :
    ∃ o', (w.notify e ids).2.observers[spy]? = some o' ∧
      (o' = o ∨ o' = { o with notes := (o.watch o.notes w.store e).notes }) := by
  induction ids generalizing w with
  | nil => exact ⟨o, watching, .inl rfl⟩
  | cons id rest ih =>
    obtain ⟨apart, later⟩ := List.nodup_cons.1 single
    by_cases same : id = spy
    · subst same
      exact ⟨_, notify_first w e apart watching, .inr rfl⟩
    · simp only [notify]
      split
      · exact ih w later watching
      · split
        · exact ⟨o, by simp [Array.getElem?_setIfInBounds_ne same, watching], .inl rfl⟩
        · exact ih _ later (by simp [Array.getElem?_setIfInBounds_ne same, watching])

/-- What an observer remembers has no part in what it does. -/
theorem watch_noted {w : World η} {id : Nat} (found : w.observers[id]? = some o) (notes : Notes)
    (trace log : Array String) (other : Nat) :
    ({ w with observers := w.observers.setIfInBounds id { o with notes }, trace, log } :
      World η).observers[other]?.map (·.watch) = w.observers[other]?.map (·.watch) := by
  by_cases same : id = other
  · subst same
    have lt : id < w.observers.size := (Array.getElem?_eq_some_iff.1 found).1
    simp only [found, Array.getElem?_setIfInBounds_self_of_lt lt, Option.map_some]
  · simp [Array.getElem?_setIfInBounds_ne same]

theorem watch_notify (w : World η) (e : Event) (ids : List Nat) (other : Nat) :
    (w.notify e ids).2.observers[other]?.map (·.watch) = w.observers[other]?.map (·.watch) := by
  induction ids generalizing w with
  | nil => rfl
  | cons id rest ih =>
    cases found : w.observers[id]? with
    | none =>
      simp only [notify, found]
      exact ih w
    | some o =>
      simp only [notify, found]
      split
      · exact watch_noted found _ _ _ other
      · exact (ih _).trans (watch_noted found _ _ _ other)

def Admits (w : World η) (ids : List Nat) : Prop :=
  ∀ id ∈ ids, ∀ o, w.observers[id]? = some o → o.Willing

variable {w w' : World η} {ids : List Nat}

theorem Admits.of_watch (h : w.Admits ids)
    (same : ∀ id : Nat, w'.observers[id]?.map (·.watch) = w.observers[id]?.map (·.watch)) :
    w'.Admits ids := by
  intro id mem o' found'
  have watch := same id
  rw [found', Option.map_some] at watch
  obtain ⟨o, found, eq⟩ := Option.map_eq_some_iff.1 watch.symm
  exact fun notes store e enter => eq ▸ h id mem o found notes store e enter

theorem Admits.noted (h : w.Admits ids) {id : Nat} (found : w.observers[id]? = some o)
    (notes : Notes) (trace log : Array String) :
    ({ w with observers := w.observers.setIfInBounds id { o with notes }, trace, log } :
      World η).Admits ids :=
  h.of_watch (watch_noted found notes trace log)

theorem Admits.notify (h : w.Admits ids) (e : Event) (watchers : List Nat) :
    (w.notify e watchers).2.Admits ids :=
  h.of_watch (watch_notify w e watchers)

theorem Admits.refusal (h : w.Admits ids) {watchers : List Nat} (sub : watchers ⊆ ids) {e : Event}
    (enter : e.isEnter = true) : (w.notify e watchers).1 = none := by
  induction watchers generalizing w with
  | nil => rfl
  | cons id rest ih =>
    have later : rest ⊆ ids := List.subset_of_cons_subset sub
    cases found : w.observers[id]? with
    | none =>
      simp only [World.notify, found]
      exact ih h later
    | some o =>
      have willing : (o.see w.store e).refusal = none :=
        h id (sub List.mem_cons_self) o found _ _ e enter
      simp only [World.notify, found, willing]
      exact ih (h.noted found _ _ _) later

theorem Admits.tell_enter (h : w.Admits ids) {site : Site} (sub : site.config.observers ⊆ ids)
    (slot : Option Slot) : (w.tell site slot .enter).1 = none :=
  h.refusal sub rfl

end World

end EcmaMachine
