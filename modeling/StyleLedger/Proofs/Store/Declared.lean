import StyleLedger.Proofs.Digest
import StyleLedger.Proofs.Store.Audited
import StyleLedger.Proofs.Store.Regrouped
import StyleLedger.Proofs.Value
import StyleLedger.Sheet.Plan

/-!
Variables that are declared.

The audit looks for references in the values of style rows and compares them with the names of the
token rows that are not deleted. A style sheet is made later, and of something else: it replaces the
references in the properties of a cascade, and declares the tokens that the cascade holds by name.
An audit without errors is enough all the same (`Snapshot.variables_declared_of_clean`):

* every property of a bucket has the value of a style row (`all_properties_of_bucketIndex`),
* no token row is overwritten by another, because no name occurs twice
  (`tokens_entries_of_duplicateNames`).
-/

namespace StyleLedger

open Keyed (key)
open Outcome

/-! ## 1. Names that occur once -/

namespace Table

variable {κ α : Type} [DecidableEq κ] [Keyed κ]

/-- Rows with different names give their entries in order. -/
theorem IsDistinct.foldl_putRow : ∀ {es : List (κ × α)} {t : Table κ α},
    IsDistinct ⟨t.entries ++ es⟩ → es.foldl Snapshot.putRow t = ⟨t.entries ++ es⟩
  | [], t, _ => by simp
  | e :: es, t, h => by
    have hnew : ∀ d ∈ t.entries, key d.1 ≠ key e.1 := fun d hd =>
      (List.pairwise_append.1 h).2.2 d hd e List.mem_cons_self
    have hsame : ∀ d ∈ t.entries, (if key d.1 = key e.1 then (e.1, d.2) else d) = d :=
      fun d hd => if_neg (hnew d hd)
    have hput : Snapshot.putRow t e = ⟨t.entries ++ [e]⟩ := by
      rw [Snapshot.putRow, put_of_not_mem (by simpa [keys] using hnew), respell, List.map_append,
        List.map_congr_left hsame]
      simp
    have hsplit : IsDistinct ⟨(t.entries ++ [e]) ++ es⟩ := by simpa using h
    rw [List.foldl_cons, hput, IsDistinct.foldl_putRow hsplit]
    simp

end Table

namespace Audit

variable {s : Snapshot} {findings : List Finding}

/-- No name occurs twice where no error is found. -/
theorem nodup_of_clean (haudit : s.audit = .ok findings)
    (hclean : ∀ f ∈ findings, f.isError = false) :
    ∀ x ∈ nameColumns s, (x.2.2.map fun r => key (r.get x.2.1)).Nodup := by
  have hnil : duplicateNames s = [] := by
    obtain ⟨-, -, -, hduplicates⟩ := subset_of_audit haudit
    refine eq_nil_of_isError hclean hduplicates fun f hf => ?_
    obtain ⟨x, -, hf⟩ := List.mem_flatMap.1 hf
    obtain ⟨e, -, he⟩ := List.mem_filterMap.1 hf
    obtain ⟨-, he⟩ := Option.ite_none_right_eq_some.1 he
    exact Option.some.inj he ▸ rfl
  intro x hx
  have hcounts : ∀ e ∈ Table.counts (x.2.2.map (·.get x.2.1)), e.2 ≤ 1 := by
    intro e he
    have hnone := List.filterMap_eq_nil_iff.1 (List.flatMap_eq_nil_iff.1 hnil x hx) e he
    simpa using hnone
  have hnodup := Table.nodup_of_counts hcounts
  rwa [List.map_map] at hnodup

/-- Every token that a style row refers to has a row that is not deleted, where no error is
found. -/
theorem exists_live_of_clean (haudit : s.audit = .ok findings)
    (hclean : ∀ f ∈ findings, f.isError = false) :
    ∀ r ∈ s.styles, ∀ n ∈ tokensIn r,
      ∃ token ∈ s.tokens, isDeleted token = false ∧ token.get "name" = .text n := by
  have hnil : tokenReferences s = [] := by
    obtain ⟨-, htokens, -, -⟩ := subset_of_audit haudit
    refine eq_nil_of_isError hclean htokens fun f hf => ?_
    obtain ⟨r, -, hf⟩ := List.mem_flatMap.1 hf
    obtain ⟨n, -, rfl⟩ := List.mem_map.1 hf
    rfl
  intro r hr n hn
  have hfilter := List.map_eq_nil_iff.1 (List.flatMap_eq_nil_iff.1 hnil r hr)
  have hlive := List.filter_eq_nil_iff.1 hfilter n hn
  simpa [names, and_assoc] using hlive

end Audit

namespace Snapshot

/-! ## 2. Rows that are found again -/

/-- What holds of the property in every style row holds of every property of the buckets. -/
theorem all_properties_of_bucketIndex {V : StyleProperty → Prop} {S L : Table Json Json}
    {rows : List Row} (hrows : ∀ r ∈ rows, V (propertyOf r)) {index : BucketIndex}
    (h : bucketIndex S L rows = .ok index) :
    ∀ e ∈ index.buckets.entries, ∀ d ∈ e.2.properties.entries, V d.2 := by
  simp only [bucketIndex, bind_eq_ok, pure_eq_ok] at h
  obtain ⟨buckets, hbuckets, rfl⟩ := h
  have hstep : ∀ r ∈ rows, ∀ t u : Table BucketKey Bucket,
      (t.All fun _ b => True ∧ b.properties.All fun _ p => True ∧ V p) →
      addStyle S L t r = .ok u →
        u.All fun _ b => True ∧ b.properties.All fun _ p => True ∧ V p := by
    intro r hr t u ht hu
    obtain rfl | ⟨k, b, -, hb, rfl⟩ := addStyle_cases hu
    · exact ht
    · have hproperties : b.properties.All fun _ p => True ∧ V p := by
        rcases hb with hb | ⟨-, rfl⟩
        · exact ht.get? hb
        · exact Table.all_empty _
      exact ht.put trivial ((hproperties.put trivial (hrows r hr)).respell trivial)
  have hempty : ({} : BucketIndex).buckets.All fun _ b =>
      True ∧ b.properties.All fun _ p => True ∧ V p := Table.all_empty _
  have hall := all_restore (K := fun _ => True)
    (V := fun b => b.properties.All fun _ p => True ∧ V p)
    (foldlM_keeps hstep (Table.all_empty _) hbuckets) hempty
  exact fun e he d hd => ((hall e he).2 d hd).2

/-- The token in a token row. -/
def tokenOf (r : Row) : TokenEntry :=
  { value := r.get "value", provenance := provenance r, createdAt := r.get "created_at"
    updatedAt := r.get "updated_at", deleted := r.get "deleted" }

/-- Tokens with different names stand in a cascade as their rows stand in the snapshot. -/
theorem tokens_entries_of_nodup {s : Snapshot} {c : Cascade} (hc : s.toCascade = .ok c)
    (hnodup : (s.tokens.map fun r => key (r.get "name")).Nodup) :
    c.tokens.entries = s.tokens.map fun r => (r.get "name", tokenOf r) := by
  simp only [toCascade, bind_eq_ok, pure_eq_ok] at hc
  obtain ⟨tokens, htokens, -, -, -, -, -, -, -, -, -, -, -, -, -, -, -, -, -, -, -, -, -, -, -, -,
    -, -, rfl⟩ := hc
  simp only [fill, bind_eq_ok, pure_eq_ok] at htokens
  obtain ⟨es, hes, rfl⟩ := htokens
  have hentry : ∀ {r e}, tokenEntry r = .ok e → (r.get "name", tokenOf r) = e := by
    intro r e he
    simp only [tokenEntry, bind_eq_ok, pure_eq_ok] at he
    obtain ⟨name, hname, rfl⟩ := he
    rw [eq_of_keyCell hname]
    rfl
  have hsame := List.forall₂_map_left_iff.2 ((mapM_forall₂ hes).imp fun _ _ => hentry)
  rw [List.forall₂_eq_eq_eq] at hsame
  subst hsame
  have hdistinct : Table.IsDistinct ⟨[] ++ s.tokens.map fun r => (r.get "name", tokenOf r)⟩ :=
    List.pairwise_map.2 (List.pairwise_map.1 hnodup)
  exact congrArg Table.entries (Table.IsDistinct.foldl_putRow (t := {}) hdistinct)

end Snapshot

/-! ## 3. Style sheets -/

namespace Sheet

/-- What a style sheet may write for a part of a value: the character that the part is, and for a
reference the call of a variable that the sheet declares. The variable has the value of the live
token that has the very name in the reference. -/
def Resolves (sheet : Sheet) (c : Cascade) (config : CompilerConfig) :
    Text.Part → List Char → Prop
  | .kept char, text => text = [char]
  | .piece piece, text => ∃ t name,
      (.text (Value.referencedName piece), t) ∈ c.liveTokens ∧
      name = Value.tokenVariable config.tokenPrefix (Value.referencedName piece) ∧
      { name := name, value := .text (substituted config t.value) } ∈ sheet.root ∧
      text = "var(".toList ++ name.toList ++ ")".toList

/-- A declaration holds a property of a bucket. The references in the value are read from left to
right, each with the shortest name that its end allows, the rest of the value is kept, and then the
spacing macros are replaced. -/
def Declares (sheet : Sheet) (c : Cascade) (config : CompilerConfig) (d : SheetDeclaration)
    (p : Json × StyleProperty) : Prop :=
  d.name = Value.cssName p.1.shown ∧
    ∃ texts, List.Forall₂ (sheet.Resolves c config) (Value.partition p.2.value.shown) texts ∧
      d.value = .text (Value.expandSpacing (config.spacingFor p.2.spacingMode)
        (String.ofList texts.flatten))

end Sheet

namespace Snapshot

variable {s : Snapshot} {findings : List Finding} {c : Cascade}

/-- Where no error is found, every reference in a value of a bucket names a live token. -/
theorem exists_liveToken_of_clean (haudit : s.audit = .ok findings)
    (hclean : ∀ f ∈ findings, f.isError = false) (hc : s.toCascade = .ok c) :
    ∀ e ∈ c.buckets.buckets.entries, ∀ d ∈ e.2.properties.entries,
      ∀ piece, .piece piece ∈ Value.partition d.2.value.shown →
        ∃ t, (.text (Value.referencedName piece), t) ∈ c.liveTokens := by
  have htokens := tokens_entries_of_nodup hc
    (Audit.nodup_of_clean haudit hclean ("tokens", "name", s.tokens) (by simp [Audit.nameColumns]))
  have hlive : ∀ r ∈ s.styles, ∀ n ∈ Audit.tokensIn r, ∃ t, (.text n, t) ∈ c.liveTokens := by
    intro r hr n hn
    obtain ⟨token, htoken, hdeleted, hname⟩ := Audit.exists_live_of_clean haudit hclean r hr n hn
    refine ⟨tokenOf token,
      List.mem_filter.2 ⟨?_, by simpa [Audit.isDeleted, tokenOf] using hdeleted⟩⟩
    rw [htokens, ← hname]
    exact List.mem_map_of_mem (f := fun r => (r.get "name", tokenOf r)) htoken
  have hvalues := all_properties_of_bucketIndex
    (V := fun p => ∀ n ∈ Value.references p.value.shown, ∃ t, (.text n, t) ∈ c.liveTokens)
    hlive (bucketIndex_of_toCascade hc)
  exact fun e he d hd piece hpiece => hvalues e he d hd _ (Value.mem_references_of_piece_mem hpiece)

/-- A property whose references name live tokens is declared with their variables. -/
theorem declares_of_live {config : CompilerConfig} {p : Json × StyleProperty}
    (hlive : ∀ piece, .piece piece ∈ Value.partition p.2.value.shown →
      ∃ t, (.text (Value.referencedName piece), t) ∈ c.liveTokens) :
    (Sheet.ofCascade c config).Declares c config
      { name := Value.cssName p.1.shown
        value := .text (Value.expandSpacing (config.spacingFor p.2.spacingMode)
          (Sheet.substituted config p.2.value))
        originFile := p.2.originFile } p := by
  refine ⟨rfl, (Value.partition p.2.value.shown).map
    (·.replaced (Value.variableCall config.tokenPrefix)), ?_, ?_⟩
  · refine List.forall₂_map_right_iff.2 (List.forall₂_same.2 fun part hpart => ?_)
    cases part with
    | kept char => exact rfl
    | piece piece =>
      obtain ⟨t, ht⟩ := hlive piece hpart
      refine ⟨t, _, ht, rfl, List.mem_map.2 ⟨_, ht, rfl⟩, ?_⟩
      simp [Text.Part.replaced, Value.variableCall]
  · rw [Sheet.substituted, Value.substituteTokens_eq, List.flatMap_def]

/-- Where no error is found, whatever variable the rules of the style sheet call in the place of a
token reference is declared among the custom properties of the sheet, with the value of the live
token that has the very name in the reference. The rules are those of the buckets that hold
something, with a declaration for each property, in order. -/
theorem variables_declared_of_clean (s : Snapshot) {findings : List Finding}
    (haudit : s.audit = .ok findings) (hclean : ∀ f ∈ findings, f.isError = false) {c : Cascade}
    (hc : s.toCascade = .ok c) (config : CompilerConfig) :
    List.Forall₂ (fun rule e => rule.selectorName = e.1.selector ∧
        List.Forall₂ ((Sheet.ofCascade c config).Declares c config) rule.declarations
          e.2.properties.entries)
      (Sheet.ofCascade c config).rules
      (c.buckets.buckets.entries.filter fun e => !e.2.properties.isEmpty) := by
  have hlive := exists_liveToken_of_clean haudit hclean hc
  refine List.forall₂_map_left_iff.2 (List.forall₂_same.2 fun e he => ⟨rfl, ?_⟩)
  exact List.forall₂_map_left_iff.2 (List.forall₂_same.2 fun d hd =>
    declares_of_live (hlive e (List.mem_of_mem_filter he) d hd))

/-- Two tokens, of which one is deleted, and a style that refers to the other one twice. -/
def tintedCard : Snapshot :=
  { tokens := [tokenRow (.text "brand/500")
        { value := .text "#2266ee", provenance := {}, createdAt := .text ""
          updatedAt := .text "" },
      tokenRow (.text "ink")
        { value := .text "black", provenance := {}, createdAt := .text "", updatedAt := .text ""
          deleted := .bool true }]
    selectors := [selectorRow (.text "card")
      { definition := none, provenance := {}, createdAt := .text "", updatedAt := .text "" }]
    styles := [styleRow { selector := .text "card" } (.int 1) (.text "background")
      { value := .text "token('brand/500')token( \"brand/500\")", rowId := .text "style"
        sequence := .int 1 }] }

/-- The rule calls the variable of the live token in the place of both references, and the variable
is all that is declared. -/
theorem variables_declared_tintedCard : ∃ findings c, tintedCard.audit = .ok findings ∧
    (∀ f ∈ findings, f.isError = false) ∧ tintedCard.toCascade = .ok c ∧
    (Sheet.ofCascade c {}).root = [{ name := "--brand-500", value := .text "#2266ee" }] ∧
    (Sheet.ofCascade c {}).rules.map (·.declarations) =
      [[{ name := "background", value := .text "var(--brand-500)var(--brand-500)" }]] ∧
    List.Forall₂ (fun rule e => rule.selectorName = e.1.selector ∧
        List.Forall₂ ((Sheet.ofCascade c {}).Declares c {}) rule.declarations
          e.2.properties.entries)
      (Sheet.ofCascade c {}).rules
      (c.buckets.buckets.entries.filter fun e => !e.2.properties.isEmpty) := by
  obtain ⟨findings, haudit, herrors⟩ := exists_ok_of_any (x := tintedCard.audit)
    (p := fun findings => findings.all fun f => !f.isError) (by
      unfold tintedCard tokenRow selectorRow styleRow selectorId idCell
      rw [Identity.entityId_eq]
      decide +kernel)
  have hclean : ∀ f ∈ findings, f.isError = false := by simpa using herrors
  obtain ⟨c, hc, hsheet⟩ := exists_ok_of_any (x := tintedCard.toCascade)
    (p := fun c => (Sheet.ofCascade c {}).root =
        [{ name := "--brand-500", value := .text "#2266ee" }] ∧
      (Sheet.ofCascade c {}).rules.map (·.declarations) =
        [[{ name := "background", value := .text "var(--brand-500)var(--brand-500)" }]]) (by
      unfold tintedCard tokenRow selectorRow styleRow selectorId idCell
      rw [Identity.entityId_eq]
      decide +kernel)
  obtain ⟨hroot, hrules⟩ := of_decide_eq_true hsheet
  exact ⟨findings, c, haudit, hclean, hc, hroot, hrules,
    variables_declared_of_clean tintedCard haudit hclean hc {}⟩

end Snapshot

end StyleLedger
