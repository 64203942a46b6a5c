/-!
Running along a list while something changes.
-/

namespace EcmaMachine

/-- Applies `f` to each item in turn, passing on the state that it leaves. -/
def mapWith {α β σ : Type} (f : α → σ → β × σ) : List α → σ → List β × σ
  | [], s => ([], s)
  | a :: rest, s =>
    let (b, s) := f a s
    let (bs, s) := mapWith f rest s
    (b :: bs, s)

end EcmaMachine
