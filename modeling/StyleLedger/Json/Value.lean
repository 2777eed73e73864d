import StyleLedger.Decimal.Shortest
import StyleLedger.Text.Quoted
import StyleLedger.Table

/-!
Structured values: what blobs and the configuration file hold, and what a cell of the store holds.

* `Json.shown` — a value in words, as messages and text settings show it.
* `Json.isTrue` — whether a value counts as true.
* `Json.same` — equality, decided structurally (`same_iff`).
* `Json.key` — what a value is found under: equal numbers, and truth values as numbers, are
  spellings of one value.
-/

namespace StyleLedger

/-- A number of a structured value: an integer of any size, or a number of the binary format. -/
inductive Numeral
  | integer (n : Int)
  | real (x : Binary)
deriving Repr, DecidableEq, Inhabited

/-- A structured value. The fields of an object are in the order of their first mention. -/
inductive Json
  | null
  | bool (b : Bool)
  | number (n : Numeral)
  | text (s : String)
  | array (items : List Json)
  | object (fields : List (String × Json))
deriving Repr, Inhabited

namespace Numeral

/-- A number in digits: integers in full, other numbers in the shortest form. -/
def shown : Numeral → String
  | integer n => toString n
  | real x => x.text

/-- Every number but zero counts as true. -/
def isTrue : Numeral → Bool
  | integer n => n != 0
  | real x => !x.isZero

/-- The integer that a number is equal to. -/
def whole? : Numeral → Option Int
  | integer n => some n
  | real x => x.whole?

/-- A finite number as a fraction with a positive denominator. -/
def fraction? : Numeral → Option (Int × Nat)
  | integer n => some (n, 1)
  | real x => x.fraction?

/-- Whether a number is not greater than another. What is not a number comes last. -/
def le (a b : Numeral) : Bool :=
  match a.fraction?, b.fraction? with
  | some (n, d), some (m, e) => n * e ≤ m * d
  | some _, none => b != real (.infinite true)
  | none, some _ => a == real (.infinite true)
  | none, none => a == real (.infinite true) || b != real (.infinite true)

/-- The greater of two numbers, the first of two equal ones. -/
def greater (a b : Numeral) : Numeral :=
  if b.le a then a else b

@[simp] theorem greater_integer (a b : Int) :
    greater (integer a) (integer b) = integer (max a b) := by
  have hle : (integer b).le (integer a) = decide (b ≤ a) := by simp [le, fraction?]
  rw [greater, hle]
  by_cases h : b ≤ a
  · rw [if_pos (decide_eq_true h), Int.max_eq_left h]
  · rw [if_neg (by simpa using h), Int.max_eq_right (by omega)]

/-- The number that is greater by one. -/
def next : Numeral → Numeral
  | integer n => integer (n + 1)
  | real x => real x.next

end Numeral

namespace Json

/-- An integer as a value. -/
def int (n : Int) : Json := number (.integer n)

/-- A text that may be absent as a value. -/
def textOrNull : Option String → Json
  | none => null
  | some s => text s

/-- A field of an object. -/
def field? (name : String) (fields : List (String × Json)) : Option Json :=
  Table.lookup name fields

mutual

/-- A value inside words: texts stand in quotes. -/
def quoted : Json → String
  | null => "None"
  | bool true => "True"
  | bool false => "False"
  | number n => n.shown
  | text s => Text.quoted s
  | array items => "[" ++ ", ".intercalate (quotedItems items) ++ "]"
  | object fields => "\x7b" ++ ", ".intercalate (quotedFields fields) ++ "\x7d"

/-- The items of an array inside words. -/
def quotedItems : List Json → List String
  | [] => []
  | v :: vs => quoted v :: quotedItems vs

/-- The fields of an object inside words. -/
def quotedFields : List (String × Json) → List String
  | [] => []
  | (name, v) :: fs => (Text.quoted name ++ ": " ++ quoted v) :: quotedFields fs

end

/-- A value in words: a text is itself. -/
def shown : Json → String
  | text s => s
  | v => v.quoted

@[simp] theorem shown_text (s : String) : (text s).shown = s := rfl

/-- Absent, false, zero and empty values do not count as true. -/
def isTrue : Json → Bool
  | null => false
  | bool b => b
  | number n => n.isTrue
  | text s => !s.isEmpty
  | array items => !items.isEmpty
  | object fields => !fields.isEmpty

/-- Whether a value is a text. -/
def isText : Json → Bool
  | text _ => true
  | _ => false

/-- Whether a value is null. -/
def isNull : Json → Bool
  | null => true
  | _ => false

/-- Whether a value has no parts, so that it can be the key of a table. -/
def isScalar : Json → Bool
  | array _ => false
  | object _ => false
  | _ => true

/-- The value itself if it counts as true, another one otherwise. -/
def orElse (v other : Json) : Json :=
  if v.isTrue then v else other

/-! ## Order -/

/-- The number that a value is, truth values included. -/
def numeral? : Json → Option Numeral
  | bool b => some (.integer (if b then 1 else 0))
  | number n => some n
  | _ => none

/-- The integer that a value is. -/
def integer? : Json → Option Int
  | bool b => some (if b then 1 else 0)
  | number (.integer n) => some n
  | _ => none

/-- Whether a value is not greater than another: numbers by their size, texts by their
characters. -/
def le (a b : Json) : Bool :=
  match a.numeral?, b.numeral? with
  | some m, some n => m.le n
  | _, _ => decide (a.shown ≤ b.shown)

/-- Whether some values have an order: all are numbers, or all are texts. One value alone always
has. -/
def haveOrder (vs : List Json) : Bool :=
  vs.length < 2 || vs.all (·.numeral?.isSome) || vs.all isText

/-! ## Equality -/

mutual

/-- Whether two values are the same. -/
def same : Json → Json → Bool
  | null, null => true
  | bool a, bool b => a == b
  | number m, number n => decide (m = n)
  | text s, text t => s == t
  | array vs, array ws => sameItems vs ws
  | object fs, object gs => sameFields fs gs
  | _, _ => false

/-- Whether two lists of items are the same. -/
def sameItems : List Json → List Json → Bool
  | [], [] => true
  | v :: vs, w :: ws => same v w && sameItems vs ws
  | _, _ => false

/-- Whether two lists of fields are the same. -/
def sameFields : List (String × Json) → List (String × Json) → Bool
  | [], [] => true
  | (a, v) :: fs, (b, w) :: gs => a == b && same v w && sameFields fs gs
  | _, _ => false

end

mutual

theorem same_iff (v w : Json) : same v w = true ↔ v = w := by
  cases v <;> cases w <;> simp [same]
  · exact sameItems_iff _ _
  · exact sameFields_iff _ _

theorem sameItems_iff (vs ws : List Json) : sameItems vs ws = true ↔ vs = ws := by
  match vs, ws with
  | [], [] => simp [sameItems]
  | [], _ :: _ => simp [sameItems]
  | _ :: _, [] => simp [sameItems]
  | v :: vs, w :: ws => simp [sameItems, same_iff v w, sameItems_iff vs ws]

theorem sameFields_iff (fs gs : List (String × Json)) : sameFields fs gs = true ↔ fs = gs := by
  match fs, gs with
  | [], [] => simp [sameFields]
  | [], _ :: _ => simp [sameFields]
  | _ :: _, [] => simp [sameFields]
  | (a, v) :: fs, (b, w) :: gs => simp [sameFields, same_iff v w, sameFields_iff fs gs]

end

/-- Whether two values are the same can be decided. -/
instance : DecidableEq Json := fun v w => decidable_of_iff _ (same_iff v w)

/-! ## Spellings -/

mutual

/-- What a value is found under. The fields of an object are found in any order. -/
def key : Json → Json
  | null => null
  | bool b => int (if b then 1 else 0)
  | number n =>
    match n.whole? with
    | some k => int k
    | none => number n
  | text s => text s
  | array items => array (keyItems items)
  | object fields => object ((keyFields fields).mergeSort fun a b => a.1 ≤ b.1)

/-- What the items of an array are found under. -/
def keyItems : List Json → List Json
  | [] => []
  | v :: vs => key v :: keyItems vs

/-- What the values of fields are found under. -/
def keyFields : List (String × Json) → List (String × Json)
  | [] => []
  | (name, v) :: fs => (name, key v) :: keyFields fs

end

instance : Keyed Json := ⟨key⟩

@[simp] theorem key_null : Keyed.key null = null := by
  simp [Keyed.key, key]

@[simp] theorem key_text (s : String) : Keyed.key (text s) = text s := by
  simp [Keyed.key, key]

@[simp] theorem key_textOrNull (s : Option String) :
    Keyed.key (textOrNull s) = textOrNull s := by
  cases s <;> simp [textOrNull]

/-- Whether two values are spellings of one. -/
def alike (v w : Json) : Bool :=
  decide (v.key = w.key)

end Json

end StyleLedger
