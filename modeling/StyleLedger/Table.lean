/-!
Tables that remember the order in which their keys arrived.

A key that is written again keeps its place; a key that was erased and is written again goes to the
end. All lists of this library that are addressed by a name are tables of this kind, because their
order shows in the style sheet and in the store.

Some keys can be spelled in more than one way. `Keyed` says what a key is found under, and a table
keeps the first spelling of a key unless it is told to take over another one.
-/

namespace StyleLedger

/-- What a key is found under: two keys with the same `key` are spellings of one. -/
class Keyed (κ : Type) where
  key : κ → κ

open Keyed (key)

/-- Unless something else is said, a key has only one spelling. -/
instance (priority := low) {κ : Type} : Keyed κ := ⟨fun k => k⟩

/-- The keys of a table addressed by pairs. -/
instance {κ ι : Type} [Keyed κ] [Keyed ι] : Keyed (κ × ι) := ⟨fun k => (key k.1, key k.2)⟩

@[simp] theorem key_string (s : String) : key s = s := rfl

/-- A list of entries, at most one per key when built by `put`. -/
structure Table (κ α : Type) where
  entries : List (κ × α) := []
deriving Repr, DecidableEq, Inhabited

namespace Table

variable {κ α : Type}

/-- The table without entries. -/
def empty : Table κ α := {}

/-- The keys, in order. -/
def keys (t : Table κ α) : List κ := t.entries.map (·.1)

/-- The values, in the order of their keys. -/
def values (t : Table κ α) : List α := t.entries.map (·.2)

/-- The number of entries. -/
def size (t : Table κ α) : Nat := t.entries.length

/-- Whether there is no entry. -/
def isEmpty (t : Table κ α) : Bool := t.entries.isEmpty

/-- The entries that satisfy a test. -/
def filter (p : κ → α → Bool) (t : Table κ α) : Table κ α :=
  ⟨t.entries.filter fun e => p e.1 e.2⟩

section Lookup

variable [DecidableEq κ] [Keyed κ]

/-- The value in a list of entries. -/
def lookup (k : κ) : List (κ × α) → Option α
  | [] => none
  | e :: es => if key e.1 = key k then some e.2 else lookup k es

/-- Writes a value into a list of entries, in place or at the end. -/
def write (k : κ) (v : α) : List (κ × α) → List (κ × α)
  | [] => [(k, v)]
  | e :: es => if key e.1 = key k then (e.1, v) :: es else e :: write k v es

/-- The value of a key. -/
def get? (t : Table κ α) (k : κ) : Option α := lookup k t.entries

/-- Whether a key has a value. -/
def contains (t : Table κ α) (k : κ) : Bool := (t.get? k).isSome

/-- Writes a value: in place if the key is there, at the end otherwise. -/
def put (t : Table κ α) (k : κ) (v : α) : Table κ α := ⟨write k v t.entries⟩

/-- Takes over the spelling of a key. -/
def respell (t : Table κ α) (k : κ) : Table κ α :=
  ⟨t.entries.map fun e => if key e.1 = key k then (k, e.2) else e⟩

/-- Removes a key. -/
def erase (t : Table κ α) (k : κ) : Table κ α := ⟨t.entries.filter fun e => key e.1 ≠ key k⟩

/-- The table that results from writing some entries in order. -/
def ofList (es : List (κ × α)) : Table κ α :=
  es.foldl (fun t e => t.put e.1 e.2) empty

/-- How often each item of a list occurs, in the order of their first occurrence. -/
def counts (xs : List κ) : List (κ × Nat) :=
  (xs.foldl (fun (t : Table κ Nat) x => t.put x ((t.get? x).getD 0 + 1)) empty).entries

/-- The items of a list that share a key, in the order of the first item of each key. -/
def groups (key : α → κ) (xs : List α) : List (κ × List α) :=
  (xs.foldl (fun (t : Table κ (List α)) x =>
    t.put (key x) ((t.get? (key x)).getD [] ++ [x])) empty).entries

@[simp] theorem get?_empty (k : κ) : (empty : Table κ α).get? k = none := rfl

theorem lookup_write (k l : κ) (v : α) (es : List (κ × α)) :
    lookup l (write k v es) = if key l = key k then some v else lookup l es := by
  induction es with
  | nil => simp only [write, lookup, eq_comm]
  | cons e es ih =>
    by_cases he : key e.1 = key k
    · by_cases hl : key e.1 = key l
      · have hlk : key l = key k := hl.symm.trans he
        simp [write, lookup, he, hlk]
      · have hlk : key l ≠ key k := fun h => hl (he.trans h.symm)
        simp [write, lookup, he, hlk, Ne.symm hlk]
    · by_cases hl : key e.1 = key l
      · have hlk : key l ≠ key k := fun h => he (hl.trans h)
        simp [write, lookup, hl, hlk]
      · simp [write, lookup, he, hl, ih]

/-- A written key has the new value, every other key its old one. -/
theorem get?_put (t : Table κ α) (k l : κ) (v : α) :
    (t.put k v).get? l = if key l = key k then some v else t.get? l :=
  lookup_write k l v t.entries

end Lookup

end Table

end StyleLedger
