import StyleLedger.Table
import StyleLedger.Descriptor.Basic

/-!
Buckets: the properties written for one selector, layer, scope and wrapper.

An index holds its buckets in the order in which they were first written, and a clock that says
which bucket was written last. Four operations address buckets in three ways:

* `add` and `set` address exactly one key. Adding gives way to a property that is there; setting
  replaces it in place.
* `delete` addresses the bucket of a selector and a layer that was written last, whatever its scope
  and wrapper.
* `drop` addresses every bucket of a selector and a layer.

Selectors, layers, names and values are texts when a statement has written them, and null where a
layer or a scope is absent; a stored row may bring any other value.
-/

namespace StyleLedger

/-- What a bucket is for. -/
structure BucketKey where
  selector : Json
  layer : Json := .null
  scopeRoot : Json := .null
  scopeLimit : Json := .null
  descriptor : Option Descriptor := none
deriving Repr, DecidableEq, Inhabited

/-- What the key of a bucket is found under. -/
def BucketKey.key (k : BucketKey) : BucketKey :=
  { selector := k.selector.key, layer := k.layer.key, scopeRoot := k.scopeRoot.key
    scopeLimit := k.scopeLimit.key, descriptor := Keyed.key k.descriptor }

instance : Keyed BucketKey := ⟨BucketKey.key⟩

/-- A property in a bucket. The value keeps its token references and spacing macros, which are
resolved when a style sheet is made. -/
structure StyleProperty where
  value : Json
  rowId : Json
  sequence : Json
  spacingMode : Json := .null
  originFile : Json := .null
  migrationId : Json := .null
deriving Repr, DecidableEq, Inhabited

/-- The properties of a bucket, by name, and the cell of the time it was written last. -/
structure Bucket where
  properties : Table Json StyleProperty := {}
  touched : Json := .int 0
deriving Repr, DecidableEq, Inhabited

/-- The time a bucket was written last: the number in its cell, without a fraction. -/
def Bucket.time (b : Bucket) : Int :=
  match b.touched.numeral?.bind (·.fraction?) with
  | some (n, d) => n / d
  | none => 0

/-- The time of a bucket that a statement has written. -/
@[simp] theorem Bucket.time_int (properties : Table Json StyleProperty) (n : Int) :
    ({ properties, touched := .int n } : Bucket).time = n := by
  simp [Bucket.time, Json.numeral?, Json.int, Numeral.fraction?]

/-- Buckets by key, and the clock. -/
structure BucketIndex where
  buckets : Table BucketKey Bucket := {}
  clock : Int := 0
deriving Repr, DecidableEq, Inhabited

/-- Whether a key is for a selector and a layer. -/
def BucketKey.isFor (k : BucketKey) (selector layer : Json) : Bool :=
  k.selector.alike selector && k.layer.alike layer

namespace BucketIndex

/-- The bucket of a key. -/
def get? (index : BucketIndex) (k : BucketKey) : Option Bucket :=
  index.buckets.get? k

/-- Writes a bucket as the one written last. -/
def putTouched (index : BucketIndex) (k : BucketKey) (properties : Table Json StyleProperty) :
    BucketIndex :=
  let now := index.clock + 1
  { buckets := index.buckets.put k { properties, touched := .int now }, clock := now }

/-- The properties of a key, none if it has no bucket. -/
def propertiesOf (index : BucketIndex) (k : BucketKey) : Table Json StyleProperty :=
  ((index.get? k).map (·.properties)).getD {}

/-! ## Writes to one key -/

/-- Marks a bucket, if there is one, as the one written last; says whether there is. -/
def touch (index : BucketIndex) (k : BucketKey) : BucketIndex × Bool :=
  match index.get? k with
  | some b => (index.putTouched k b.properties, true)
  | none => (index, false)

/-- Adds a property unless the bucket holds it; says whether it was added. The bucket counts as
written either way. -/
def add (index : BucketIndex) (k : BucketKey) (name : Json) (p : StyleProperty) :
    BucketIndex × Bool :=
  let properties := index.propertiesOf k
  if properties.contains name then (index.putTouched k properties, false)
  else (index.putTouched k (properties.put name p), true)

/-- A property overwritten by another: it keeps its row and its number. -/
def overwrite (old new : StyleProperty) : StyleProperty :=
  { new with rowId := old.rowId, sequence := old.sequence }

/-- Sets a property, in place if the bucket holds it. -/
def set (index : BucketIndex) (k : BucketKey) (name : Json) (p : StyleProperty) : BucketIndex :=
  let properties := index.propertiesOf k
  let p := match properties.get? name with
    | some old => overwrite old p
    | none => p
  index.putTouched k (properties.put name p)

/-! ## Writes to a selector and a layer -/

/-- The later written of two buckets, the first of two equally late ones. -/
def later (a b : BucketKey × Bucket) : BucketKey × Bucket :=
  if a.2.time < b.2.time then b else a

/-- The bucket of a selector and a layer that was written last. -/
def mostRecent? (index : BucketIndex) (selector layer : Json) :
    Option (BucketKey × Bucket) :=
  match index.buckets.entries.filter (·.1.isFor selector layer) with
  | [] => none
  | b :: bs => some (bs.foldl later b)

/-- Deletes a property, or all of them when none is named, from the bucket written last; says
whether something was deleted. A bucket without properties goes. -/
def delete (index : BucketIndex) (selector layer : Json) (name : Option Json) :
    BucketIndex × Bool :=
  match index.mostRecent? selector layer with
  | none => (index, false)
  | some (k, b) =>
    let left? : Option (Table Json StyleProperty) := match name with
      | none => some {}
      | some n => if b.properties.contains n then some (b.properties.erase n) else none
    match left? with
    | none => (index, false)
    | some left =>
      let buckets := if left.isEmpty then index.buckets.erase k
        else index.buckets.put k { b with properties := left }
      ({ index with buckets }, true)

/-- Drops every bucket of a selector and a layer; says how many. -/
def drop (index : BucketIndex) (selector layer : Json) : BucketIndex × Nat :=
  let buckets := index.buckets.filter fun k _ => !k.isFor selector layer
  ({ index with buckets }, index.buckets.size - buckets.size)

/-! ## Bookkeeping -/

/-- The cells with the numbers of all properties. -/
def sequenceCells (index : BucketIndex) : List Json :=
  index.buckets.values.flatMap fun b => b.properties.values.map (·.sequence)

/-- The numbers of all properties. -/
def sequences (index : BucketIndex) : List Numeral :=
  index.sequenceCells.filterMap Json.numeral?

/-- The number of the next property: one more than the greatest in use. -/
def nextSequence (index : BucketIndex) : Numeral :=
  match index.sequences with
  | [] => .integer 1
  | n :: ns => (ns.foldl Numeral.greater n).next

/-- Puts a stored bucket back; the clock does not fall behind it. -/
def restore (index : BucketIndex) (k : BucketKey) (b : Bucket) : BucketIndex :=
  { buckets := index.buckets.put k b, clock := max index.clock b.time }

end BucketIndex

end StyleLedger
