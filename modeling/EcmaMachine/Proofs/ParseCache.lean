import Mathlib.Data.Finset.Card
import EcmaMachine.Tree.Parser

/-!
The cache of parsed texts. It answers as the parser does, and it keeps each text that parses once.
-/

namespace EcmaMachine.ParseCache

section

variable {cache : ParseCache} {text : String} {tree : Node}

/-- What is kept is what the texts parse to. -/
def Sound (cache : ParseCache) : Prop :=
  ∀ entry ∈ cache.entries, EcmaMachine.parse entry.text = .ok entry.tree

theorem Sound.concat (sound : cache.Sound)
    (parsed : EcmaMachine.parse text = .ok tree) (number kept : Nat) :
    Sound ⟨cache.entries ++ [⟨text, number, tree⟩], kept⟩ := by
  intro entry mem
  rcases List.mem_append.1 mem with old | last
  · exact sound entry old
  · rw [List.mem_singleton.1 last]
    exact parsed

/-- A text is found, or parsed and added, or refused. -/
theorem lookup_cases (cache : ParseCache) (text : String) :
    (∃ entry ∈ cache.entries, entry.text = text ∧ cache.find? text = some entry ∧
      cache.lookup text = (.ok entry, cache)) ∨
    (text ∉ cache.entries.map CacheEntry.text ∧ ∃ tree, EcmaMachine.parse text = .ok tree ∧
      cache.lookup text = (.ok ⟨text, cache.kept, tree⟩,
        ⟨cache.entries ++ [⟨text, cache.kept, tree⟩], cache.kept + 1⟩)) ∨
    (text ∉ cache.entries.map CacheEntry.text ∧ ∃ e, EcmaMachine.parse text = .error e ∧
      cache.lookup text = (.error e, cache)) := by
  cases found : cache.find? text with
  | some entry =>
    have same : entry.text = text := by simpa using List.find?_some found
    exact .inl ⟨entry, List.mem_of_find?_eq_some found, same, rfl,
      by simp only [ParseCache.lookup, found]⟩
  | none =>
    have absent : text ∉ cache.entries.map CacheEntry.text := by
      simp only [List.mem_map, not_exists, not_and]
      intro entry mem same
      exact List.find?_eq_none.1 found entry mem (by simp [same])
    cases parsed : EcmaMachine.parse text with
    | ok tree => exact .inr (.inl ⟨absent, tree, rfl, by simp only [ParseCache.lookup, found, parsed]⟩)
    | error e => exact .inr (.inr ⟨absent, e, rfl, by simp only [ParseCache.lookup, found, parsed]⟩)

theorem Sound.lookup (sound : cache.Sound)
    (parsed : EcmaMachine.parse text = .ok tree) :
    ∃ number cache', cache.lookup text = (.ok ⟨text, number, tree⟩, cache') ∧ cache'.Sound := by
  rcases cache.lookup_cases text with ⟨entry, mem, same, -, answer⟩ | ⟨-, tree', parsed', answer⟩ |
    ⟨-, e, failed, -⟩
  · have kept := sound entry mem
    rw [same, parsed] at kept
    refine ⟨entry.number, cache, ?_, sound⟩
    rw [answer, Except.ok.inj kept, ← same]
  · cases parsed.symm.trans parsed'
    exact ⟨cache.kept, _, answer, sound.concat parsed _ _⟩
  · cases parsed.symm.trans failed

theorem Sound.lookup_error (sound : cache.Sound)
    {e : SyntaxError} (failed : EcmaMachine.parse text = .error e) :
    cache.lookup text = (.error e, cache) := by
  rcases cache.lookup_cases text with ⟨entry, mem, same, -, -⟩ | ⟨-, tree, parsed, -⟩ |
    ⟨-, e', failed', answer⟩
  · have kept := sound entry mem
    rw [same, failed] at kept
    cases kept
  · cases failed.symm.trans parsed
  · cases failed.symm.trans failed'
    exact answer

theorem Sound.parse (sound : cache.Sound) (text : String) :
    (cache.parse text).1 = EcmaMachine.parse text := by
  cases parsed : EcmaMachine.parse text with
  | ok tree =>
    obtain ⟨number, cache', answer, -⟩ := sound.lookup parsed
    simp only [ParseCache.parse, answer]
    rfl
  | error e =>
    simp only [ParseCache.parse, sound.lookup_error parsed]
    rfl

end

/-! ## What is kept -/

/-- The cache keeps these texts and no others, each once and under a number of its own. -/
structure Keeps (cache : ParseCache) (texts : List String) : Prop where
  sound : cache.Sound
  mem : ∀ text, text ∈ cache.entries.map CacheEntry.text ↔ text ∈ texts
  nodup : (cache.entries.map CacheEntry.text).Nodup
  below : ∀ entry ∈ cache.entries, entry.number < cache.kept
  apart : (cache.entries.map CacheEntry.number).Nodup

theorem keeps_clear (cache : ParseCache) : cache.clear.Keeps [] where
  sound _ mem := nomatch mem
  mem _ := .rfl
  nodup := .nil
  below _ mem := nomatch mem
  apart := .nil

namespace Keeps

variable {cache : ParseCache} {texts : List String}

theorem lookup (h : cache.Keeps texts) (text : String) :
    (cache.lookup text).2.Keeps
      (if (EcmaMachine.parse text).isOk then text :: texts else texts) := by
  rcases cache.lookup_cases text with ⟨entry, mem, same, -, answer⟩ | ⟨absent, tree, parsed, answer⟩ |
    ⟨-, e, failed, answer⟩ <;> rw [answer]
  · have kept : text ∈ texts := (h.mem text).1 (List.mem_map.2 ⟨entry, mem, same⟩)
    refine { h with mem := fun other => (h.mem other).trans ?_ }
    split <;> grind
  · have number : cache.kept ∉ cache.entries.map CacheEntry.number := by
      intro mem
      obtain ⟨entry, mem, same⟩ := List.mem_map.1 mem
      exact Nat.ne_of_lt (h.below entry mem) same
    have ok : (EcmaMachine.parse text).isOk = true := by rw [parsed]; rfl
    simp only [ok, if_true]
    exact {
      sound := h.sound.concat parsed _ _
      mem := by
        intro other
        rw [List.map_append, List.mem_append, h.mem other, List.map_singleton, List.mem_singleton,
          List.mem_cons]
        exact Or.comm
      nodup := by
        rw [List.map_append, List.map_singleton, ← List.concat_eq_append]
        exact h.nodup.concat absent
      below := by
        intro entry mem
        rcases List.mem_append.1 mem with old | last
        · exact Nat.lt_succ_of_lt (h.below entry old)
        · rw [List.mem_singleton.1 last]
          exact Nat.lt_succ_self _
      apart := by
        rw [List.map_append, List.map_singleton, ← List.concat_eq_append]
        exact h.apart.concat number }
  · have bad : ¬ (EcmaMachine.parse text).isOk = true := by
      rw [failed]
      exact Bool.false_ne_true
    rwa [if_neg bad]

theorem size (h : cache.Keeps texts) : cache.size = texts.toFinset.card := by
  have same : (cache.entries.map CacheEntry.text).toFinset = texts.toFinset := by
    ext text
    simp only [List.mem_toFinset, h.mem]
  rw [← same, List.toFinset_card_of_nodup h.nodup, List.length_map]
  rfl

end Keeps

/-! ## Calls one after another -/

inductive Call
  | parse (text : String)
  | clear

def Call.text? : Call → Option String
  | parse text => some text
  | clear => none

def perform (cache : ParseCache) : Call → ParseCache
  | .parse text => (cache.parse text).2
  | .clear => cache.clear

def after (calls : List Call) : ParseCache := calls.foldl perform empty

/-- The texts that were parsed with success since the cache was cleared last. -/
def parsedSince (calls : List Call) : List String :=
  ((calls.reverse.takeWhile (·.text?.isSome)).filterMap Call.text?).filter fun text =>
    (EcmaMachine.parse text).isOk

theorem keeps_after (calls : List Call) : (after calls).Keeps (parsedSince calls) := by
  induction calls using List.reverseRecOn with
  | nil => exact keeps_clear empty
  | append_singleton calls call ih =>
    have last : after (calls ++ [call]) = (after calls).perform call := by
      simp [after]
    rw [last]
    cases call with
    | clear =>
      have none : parsedSince (calls ++ [.clear]) = [] := by simp [parsedSince, Call.text?]
      rw [none]
      exact keeps_clear _
    | parse text =>
      have next : parsedSince (calls ++ [.parse text]) =
          if (EcmaMachine.parse text).isOk then text :: parsedSince calls
          else parsedSince calls := by
        simp [parsedSince, Call.text?, List.filter_cons]
      rw [next]
      exact ih.lookup text

/-! ## Entries that stay -/

variable {cache : ParseCache} {text : String} {entry : CacheEntry}

theorem find?_of_lookup (answer : (cache.lookup text).1 = .ok entry) :
    (cache.lookup text).2.find? text = some entry := by
  rcases cache.lookup_cases text with ⟨found, -, -, kept, same⟩ | ⟨absent, tree, -, same⟩ |
    ⟨-, e, -, same⟩ <;> rw [same] at answer ⊢ <;> cases answer
  · exact kept
  · have before : cache.entries.find? (·.text == text) = none := by
      simp only [List.find?_eq_none, beq_iff_eq]
      exact fun entry mem same => absent (List.mem_map.2 ⟨entry, mem, same⟩)
    simp [find?, before]

/-- An entry stays, whatever is parsed later. -/
theorem find?_lookup (found : cache.find? text = some entry) (other : String) :
    (cache.lookup other).2.find? text = some entry := by
  rcases cache.lookup_cases other with ⟨_, -, -, -, same⟩ | ⟨-, tree, -, same⟩ | ⟨-, e, -, same⟩ <;>
    rw [same]
  · exact found
  · simp only [find?] at found
    simp [find?, found]
  · exact found

def lookupAll (cache : ParseCache) (texts : List String) : ParseCache :=
  texts.foldl (fun cache text => (cache.lookup text).2) cache

theorem find?_lookupAll (found : cache.find? text = some entry) (texts : List String) :
    (cache.lookupAll texts).find? text = some entry := by
  induction texts generalizing cache with
  | nil => exact found
  | cons first rest ih => exact ih (find?_lookup found first)

theorem Keeps.lookupAll {known : List String} (h : cache.Keeps known) (texts : List String) :
    ∃ known, (cache.lookupAll texts).Keeps known := by
  induction texts generalizing cache known with
  | nil => exact ⟨known, h⟩
  | cons first rest ih => exact ih (h.lookup first)

end EcmaMachine.ParseCache
