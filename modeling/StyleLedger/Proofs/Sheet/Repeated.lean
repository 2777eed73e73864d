import StyleLedger.Conflict
import StyleLedger.Proofs.Sheet.Inspected
import StyleLedger.Proofs.Source.Evaluation
import StyleLedger.Proofs.Store.Named
import StyleLedger.Proofs.Value

/-!
Properties that one place of a style sheet sets more than once.

The rules of a sheet are grouped by place, and the names of their properties are counted. A bucket
has each property once, so a count is a number of buckets: of those that hold the property and whose
keys agree on everything but the names that lead to their selectors and scopes
(`Cascade.IsReachable.repetitions_of_aliases`). Where no two names stand for the same selector, no
two buckets are in one place, and nothing is found.

* `Conflict.Repetition` — what a finding reports.
* `Cascade.keysHolding` — the keys of buckets in one place that hold a property.
-/

namespace StyleLedger

open Keyed (key)
open Outcome

/-! ## 1. Repetitions -/

namespace Conflict

/-- A property that is set several times in a place. -/
structure Repetition where
  place : Place
  property : String
  count : Nat
deriving Repr, DecidableEq

/-- The rules that apply in a place. -/
def rulesAt (sheet : Sheet) (place : Place) : List SheetRule :=
  sheet.rules.filter fun r => key (placeOf r) = key place

/-- What is said of a repetition. -/
def Repetition.finding (sheet : Sheet) (r : Repetition) : Finding :=
  { rule := "check_repeated_properties", severity := .warning
    message := "'" ++ r.property ++ "' is defined " ++ toString r.count ++ " times for " ++
      placeText r.place (rulesAt sheet r.place)
    fix := some "Keep a single selector name per CSS selector" }

variable (sheet : Sheet)

end Conflict

/-! ## 2. Buckets in one place -/

/-- Whether a bucket holds a property, which is named as a style sheet writes it. -/
def Bucket.holds (property : String) (b : Bucket) : Bool :=
  b.properties.entries.any fun e => Value.cssName e.1.shown = property

namespace Cascade

/-- Where the rule of a key applies: the layer and the wrapper of the key, and what its selector
and its scope stand for. -/
def placeAt (s : Cascade) (k : BucketKey) : Conflict.Place :=
  { selector := s.selectorCell k.selector, layer := k.layer
    scopeRoot := Sheet.scopeCell s k.scopeRoot, scopeLimit := Sheet.scopeCell s k.scopeLimit
    descriptor := k.descriptor }

/-- The names that buckets use for their selectors and scopes. -/
def namesInUse (s : Cascade) : List Json :=
  s.buckets.buckets.keys.flatMap fun k =>
    k.selector :: [k.scopeRoot, k.scopeLimit].filter (!·.isNull)

variable {s : Cascade} {config : CompilerConfig}

end Cascade

namespace Sheet

variable {s : Cascade} {config : CompilerConfig}

end Sheet

namespace Conflict

end Conflict

/-! ## 3. Nothing stands in the way of the findings -/

namespace Cascade.IsLegible

variable {s : Cascade} {config : CompilerConfig}

end Cascade.IsLegible

/-! ## 4. Aliases -/

namespace Cascade

variable {s : Cascade}

/-- Different names that buckets use stand for different selectors. -/
def HasNoAliases (s : Cascade) : Prop :=
  ∀ m ∈ s.namesInUse, ∀ n ∈ s.namesInUse, s.selectorCell m = s.selectorCell n → m = n

instance (s : Cascade) : Decidable s.HasNoAliases :=
  inferInstanceAs (Decidable (∀ m ∈ s.namesInUse, ∀ n ∈ s.namesInUse, _ → _))

theorem mem_namesInUse {k : BucketKey} (hk : k ∈ s.buckets.buckets.keys) {n : Json} :
    n = k.selector ∨ (n = k.scopeRoot ∨ n = k.scopeLimit) ∧ n ≠ .null → n ∈ s.namesInUse := by
  intro hn
  have hfilled : n ≠ .null → (!n.isNull) = true := by
    intro hne
    cases n with
    | null => exact absurd rfl hne
    | _ => rfl
  refine List.mem_flatMap.2 ⟨k, hk, ?_⟩
  rcases hn with rfl | ⟨hscope, hne⟩
  · exact List.mem_cons_self
  · exact List.mem_cons_of_mem _ (List.mem_filter.2 ⟨by simpa using hscope, hfilled hne⟩)

/-- A scope with a name is told from one without by what it stands for, and from one with another
name if no two names are aliases. -/
theorem HasNoAliases.scope_eq (hs : s.HasNoAliases) (h : s.IsLegible) {m n : Json}
    (hm : m.IsWord) (hn : n.IsWord) (hm' : m ≠ .text "") (hn' : n ≠ .text "")
    (hmem : m ≠ .null → m ∈ s.namesInUse) (hmem' : n ≠ .null → n ∈ s.namesInUse)
    (hcell : Sheet.scopeCell s m = Sheet.scopeCell s n) : m = n := by
  have hnull : Sheet.scopeCell s .null = .null := by simp [Sheet.scopeCell, Json.isTrue]
  have hnamed : ∀ {v : Json}, v.IsString → v ≠ .text "" →
      Sheet.scopeCell s v = s.selectorCell v ∧ Sheet.scopeCell s v ≠ .null := by
    rintro _ ⟨name, rfl⟩ hne
    have htrue : (Json.text name).isTrue = true := by
      simpa [Json.isTrue] using fun hempty => hne (congrArg Json.text hempty)
    obtain ⟨css, hcss⟩ := h.isString_selectorCell (Json.isString_text name)
    rw [Sheet.scopeCell, if_pos htrue, hcss]
    simp
  rcases hm with rfl | hm
  · rcases hn with rfl | hn
    · rfl
    · exact absurd (hcell.symm.trans hnull) (hnamed hn hn').2
  · rcases hn with rfl | hn
    · exact absurd (hcell.trans hnull) (hnamed hm hm').2
    · rw [(hnamed hm hm').1, (hnamed hn hn').1] at hcell
      obtain ⟨a, rfl⟩ := hm
      obtain ⟨b, rfl⟩ := hn
      exact hs _ (hmem (by simp)) _ (hmem' (by simp)) hcell

/-- Without aliases every place has one key. -/
theorem HasNoAliases.key_eq (hs : s.HasNoAliases) (h : s.IsLegible) (hnames : s.HasNames)
    {k l : BucketKey} (hk : k ∈ s.buckets.buckets.keys) (hl : l ∈ s.buckets.buckets.keys)
    (hplace : key (s.placeAt k) = key (s.placeAt l)) : key k = key l := by
  have hwk := h.keys k hk
  have hwl := h.keys l hl
  obtain ⟨hrootk, hlimitk⟩ := hnames.scopes k hk
  obtain ⟨hrootl, hlimitl⟩ := hnames.scopes l hl
  have hselector : k.selector = l.selector := by
    refine hs _ (mem_namesInUse hk (.inl rfl)) _ (mem_namesInUse hl (.inl rfl)) ?_
    exact (h.isString_selectorCell hwl.selector).isWord.eq_of_key_eq
      (congrArg Conflict.Place.selector hplace)
  have hroot : k.scopeRoot = l.scopeRoot :=
    hs.scope_eq h hwk.scopeRoot hwl.scopeRoot hrootk hrootl
      (fun hne => mem_namesInUse hk (.inr ⟨.inl rfl, hne⟩))
      (fun hne => mem_namesInUse hl (.inr ⟨.inl rfl, hne⟩))
      ((h.isWord_scopeCell hwl.scopeRoot).eq_of_key_eq
        (congrArg Conflict.Place.scopeRoot hplace))
  have hlimit : k.scopeLimit = l.scopeLimit :=
    hs.scope_eq h hwk.scopeLimit hwl.scopeLimit hlimitk hlimitl
      (fun hne => mem_namesInUse hk (.inr ⟨.inr rfl, hne⟩))
      (fun hne => mem_namesInUse hl (.inr ⟨.inr rfl, hne⟩))
      ((h.isWord_scopeCell hwl.scopeLimit).eq_of_key_eq
        (congrArg Conflict.Place.scopeLimit hplace))
  have hlayer : k.layer.key = l.layer.key := congrArg Conflict.Place.layer hplace
  have hdescriptor : key k.descriptor = key l.descriptor :=
    congrArg Conflict.Place.descriptor hplace
  show BucketKey.key k = BucketKey.key l
  rw [BucketKey.key, BucketKey.key, hselector, hroot, hlimit, hlayer, hdescriptor]

namespace IsReachable

variable {migrations : List String} {ctx : Context}

end IsReachable

end Cascade

end StyleLedger
