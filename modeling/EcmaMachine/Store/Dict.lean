/-!
Dictionaries in insertion order. A key keeps its place while it is overwritten; removed and set
again, it goes to the end.
-/

namespace EcmaMachine

structure Dict (α : Type) where
  entries : List (String × α)

namespace Dict

variable {α : Type}

def empty : Dict α := ⟨[]⟩

instance : Inhabited (Dict α) := ⟨empty⟩

def lookup (key : String) : List (String × α) → Option α
  | [] => none
  | (k, v) :: rest => if k == key then some v else lookup key rest

def get? (d : Dict α) (key : String) : Option α := lookup key d.entries

def contains (d : Dict α) (key : String) : Bool := (d.get? key).isSome

def write (key : String) (value : α) : List (String × α) → List (String × α)
  | [] => [(key, value)]
  | (k, v) :: rest => if k == key then (key, value) :: rest else (k, v) :: write key value rest

def set (d : Dict α) (key : String) (value : α) : Dict α := ⟨write key value d.entries⟩

def erase (d : Dict α) (key : String) : Dict α :=
  ⟨d.entries.filter fun (k, _) => k != key⟩

def keys (d : Dict α) : List String := d.entries.map (·.1)

def isEmpty (d : Dict α) : Bool := d.entries.isEmpty

/-- Sets every entry in turn. -/
def setAll (d : Dict α) (entries : List (String × α)) : Dict α :=
  entries.foldl (fun d (k, v) => d.set k v) d

def ofEntries (entries : List (String × α)) : Dict α := empty.setAll entries

/-- The entries by key, in the order of their characters. -/
def sortedEntries (d : Dict α) : List (String × α) :=
  d.entries.mergeSort fun a b => a.1 ≤ b.1

end Dict

end EcmaMachine
