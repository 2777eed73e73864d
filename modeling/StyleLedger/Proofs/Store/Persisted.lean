import StyleLedger.Proofs.Digest
import StyleLedger.Proofs.Sheet.Matching
import StyleLedger.Proofs.Sheet.Written
import StyleLedger.Proofs.Source.Evaluation
import StyleLedger.Proofs.Store.Anchored

/-!
Files that reach a store one at a time give the style sheet of files that are applied directly.

A cascade can be kept in memory while files are applied to it, or it can be loaded from a store and
saved to it for every file. The two are not the same in the end: a reload sets the clock back, and
the files may have been applied elsewhere and at other times. They match all the same
(`Holds.applyFiles`), and matching cascades have the same style sheet.

* `Store.apply` — a file of statements on its way through a store.
* `Store.Holds` — a store holds a cascade that matches another.
-/

namespace StyleLedger

open Outcome Identity

/-! ## 1. Files -/

/-- A file of statements, the occasion on which it is applied directly, and the one on which it is
applied to a store. -/
structure FileOfStatements where
  statements : List Statement
  direct : Occasion := {}
  persisted : Occasion := {}

/-- The cascade after some files. -/
def Cascade.buildFiles (s : Cascade) (files : List FileOfStatements) :
    Except CompositionError Cascade :=
  files.foldlM (fun s f => Cascade.build f.direct.context s f.statements) s

namespace Store

/-- Applies a file of statements to a store: its rows are loaded and read, and what the statements
lead to is saved. -/
def apply (store : Store) (o : Occasion) (stmts : List Statement) : Except Failure Store := do
  let s ← store.load.toCascade.mapError .shape
  let s ← (Cascade.build o.context s stmts).mapError .composition
  (Snapshot.checkCascade s).mapError .shape
  (store.save (Snapshot.ofCascade s store.log)).mapError .violation

/-- The store after some files. -/
def applyFiles (store : Store) (files : List FileOfStatements) : Except Failure Store :=
  files.foldlM (fun store f => store.apply f.persisted f.statements) store

end Store

namespace Cascade

theorem grows_buildFiles {s t : Cascade} {files : List FileOfStatements}
    (h : s.buildFiles files = .ok t) : s.Grows t :=
  foldlM_keeps (P := s.Grows) (fun _ _ _ _ hu hbuild => hu.trans (grows_build hbuild)) (.refl s) h

end Cascade

/-! ## 2. A reload -/

namespace BucketIndex

variable {K : BucketKey → Prop} {index a b : BucketIndex}

theorem IsCoherent.rewound (h : index.IsCoherent K) : index.rewound.IsCoherent K := by
  refine ⟨(foldl_max_time index.buckets.values 0).1, h.canonical, fun e he => ?_⟩
  obtain ⟨hk, hb⟩ := h.all e he
  obtain ⟨n, hn, hpos, -⟩ := hb.touched
  have hle : e.2.time ≤ index.latest := time_le_latest (List.mem_map_of_mem he)
  rw [Bucket.time_eq hn] at hle
  exact ⟨hk, { hb with touched := ⟨n, hn, hpos, hle⟩ }⟩

theorem Matches.rewound (h : Matches a b) : Matches a b.rewound := by
  obtain ⟨t, h⟩ := h
  refine ⟨t, { h with rightClock := fun e he => ?_ }⟩
  refine time_le_latest ?_
  rw [h.right, Table.values_map]
  exact List.mem_map_of_mem (List.mem_map_of_mem he)

end BucketIndex

namespace Cascade

variable {D : Option Descriptor → Prop} {s a b : Cascade}

theorem IsCoherent.rewound (h : s.IsCoherent D) : s.rewound.IsCoherent D :=
  { h with buckets := h.buckets.rewound }

theorem IsTyped.rewound (h : s.IsTyped) : s.rewound.IsTyped :=
  { h with }

theorem Matches.rewound (h : a.Matches b) : a.Matches b.rewound :=
  { h with buckets := h.buckets.rewound }

end Cascade

namespace Snapshot

theorem isName_of_refersTo {keys : List Json} {v : Json} (h : v = .null ∨ v.RefersTo keys) :
    isName v = true := by
  rcases h with rfl | ⟨-, n, -, rfl⟩
  · rfl
  · simp [isName, Json.isText]

theorem all_isText {α : Type} {V : α → Prop} {t : Table Json α} (h : t.IsNamed V) :
    t.keys.all Json.isText = true :=
  List.all_eq_true.2 fun _ hk => (h.isString hk).isText

/-- Every name that an identifier is computed from is a text. -/
theorem checkCascade_of_isAnchored {s : Cascade} (h : s.IsAnchored) : checkCascade s = .ok () := by
  have hbuckets : (s.buckets.buckets.entries.all fun x => isNamedBucket x.1 x.2) = true :=
    List.all_eq_true.2 fun e he => by
      have hk := h.keys e.1 (Table.mem_keys_of_mem he)
      have hselector : e.1.selector.isText = true := hk.selector.isString.isText
      have hlayer : isName e.1.layer = true := isName_of_refersTo hk.layer
      have hroot : isName e.1.scopeRoot = true := isName_of_refersTo hk.scopeRoot
      have hlimit : isName e.1.scopeLimit = true := isName_of_refersTo hk.scopeLimit
      simp [isNamedBucket, hselector, hlayer, hroot, hlimit]
  have hpages : s.pages.keys.all isName = true := List.all_eq_true.2 fun k hk => by
    simp [isName, (h.rest.pages.isString hk).isText]
  refine ShapeError.require_of_true ?_ _
  simp only [Bool.and_eq_true]
  and_intros
  · exact hbuckets
  · exact all_isText h.rest.tokens
  · exact all_isText h.rest.selectors
  · exact all_isText h.rest.layers.entries
  · exact all_isText h.rest.properties
  · exact all_isText h.rest.keyframes
  · exact hpages
  · exact all_isText h.rest.counterStyles
  · exact all_isText h.rest.fontFeatureValues
  · exact all_isText h.rest.fontPaletteValues
  · exact all_isText h.rest.startingStyles

end Snapshot

/-! ## 3. A file -/

namespace Store

/-- A store holds the rows of a cascade that plain statements have written and that matches
another one. -/
def Holds (store : Store) (s : Cascade) : Prop :=
  ∃ b : Cascade, store.content = Snapshot.ofCascade b store.log ∧
    b.IsCoherent Descriptor.IsClean ∧ b.IsTyped ∧ s.Matches b

theorem holds_empty : Holds {} {} :=
  ⟨{}, rfl, Cascade.isCoherent_empty, Cascade.isTyped_empty, .empty⟩

variable {store : Store} {s : Cascade}

/-- What is loaded from a store matches the cascade beside it. -/
theorem Holds.toCascade (h : store.Holds s) (hselectors : Separates .selector s.selectors.keys)
    (hlayers : Separates .layer s.layers.entries.keys) :
    ∃ b : Cascade, store.load.toCascade = .ok b ∧ b.IsCoherent Descriptor.IsClean ∧ b.IsTyped ∧
      s.Matches b := by
  obtain ⟨b, hcontent, hcoherent, htyped, hmatch⟩ := h
  have hclean : ∀ k ∈ b.buckets.buckets.keys, Descriptor.IsClean k.descriptor := by
    intro k hk
    obtain ⟨e, he, rfl⟩ := List.mem_map.1 hk
    exact (hcoherent.buckets.all e he).1.2
  refine ⟨b.rewound, ?_, hcoherent.rewound, htyped.rewound, hmatch.rewound⟩
  rw [Store.load, hcontent]
  exact Snapshot.toCascade_ofCascade hcoherent hclean (hmatch.selectors.keys ▸ hselectors)
    (hmatch.layers.entries.keys ▸ hlayers) store.log

/-- A file of statements that is applied to both, on whatever occasions, leaves a store that holds
a matching cascade, unless the store refuses a row. -/
theorem Holds.apply (h : store.Holds s) (hselectors : Separates .selector s.selectors.keys)
    (hlayers : Separates .layer s.layers.entries.keys) {stmts : List Statement}
    (hplain : ∀ stmt ∈ stmts, stmt.IsPlain)
    (hclean : ∀ stmt ∈ stmts, stmt.Writes Descriptor.IsClean) {o : Occasion} {t : Cascade}
    (hbuild : Cascade.build o.context s stmts = .ok t) (o' : Occasion) :
    (∃ v, store.apply o' stmts = .error (.violation v)) ∨
      ∃ next, store.apply o' stmts = .ok next ∧ next.Holds t := by
  obtain ⟨b, hload, hcoherent, htyped, hmatch⟩ := h.toCascade hselectors hlayers
  have hctx : o.context.Matches o'.context := ⟨rfl, rfl⟩
  obtain ⟨u, hbuild', hmatch'⟩ := hmatch.build hctx hbuild
  have hcoherent' := hcoherent.build hplain hclean hbuild'
  have htyped' := htyped.build hplain hbuild'
  have happly : store.apply o' stmts =
      (store.save (Snapshot.ofCascade u store.log)).mapError .violation := by
    simp only [Store.apply, hload, hbuild', Except.mapError, bind, Except.bind,
      Snapshot.checkCascade_of_isAnchored hcoherent'.isAnchored]
  rw [happly]
  cases hsave : store.save (Snapshot.ofCascade u store.log) with
  | error v => exact .inl ⟨v, rfl⟩
  | ok next =>
    refine .inr ⟨next, rfl, u, ?_, hcoherent', htyped', hmatch'⟩
    simp only [Store.save, bind_eq_ok, pure_eq_ok] at hsave
    obtain ⟨⟨⟩, -, rfl⟩ := hsave
    rw [(Snapshot.fits_ofCascade htyped' _).stored_eq]
    rfl

/-! ## 4. Files -/

/-- Files that are applied to both, on whatever occasions, leave a store that holds a matching
cascade, unless the store refuses a row. -/
theorem Holds.applyFiles {files : List FileOfStatements} (h : store.Holds s)
    (hplain : ∀ f ∈ files, ∀ stmt ∈ f.statements, stmt.IsPlain)
    (hclean : ∀ f ∈ files, ∀ stmt ∈ f.statements, stmt.Writes Descriptor.IsClean) {t : Cascade}
    (hbuild : s.buildFiles files = .ok t) (hselectors : Separates .selector t.selectors.keys)
    (hlayers : Separates .layer t.layers.entries.keys) :
    (∃ v, store.applyFiles files = .error (.violation v)) ∨
      ∃ next, store.applyFiles files = .ok next ∧ next.Holds t := by
  induction files generalizing store s with
  | nil =>
    obtain rfl : s = t := Except.ok.inj hbuild
    exact .inr ⟨store, rfl, h⟩
  | cons f files ih =>
    obtain ⟨hp, hplain⟩ := List.forall_mem_cons.1 hplain
    obtain ⟨hc, hclean⟩ := List.forall_mem_cons.1 hclean
    rw [Cascade.buildFiles, List.foldlM_cons] at hbuild
    obtain ⟨u, hu, hrest⟩ := bind_eq_ok.1 hbuild
    -- No name is lost on the way to `t`, so identifiers that tell the names of `t` apart tell
    -- those of `s` apart.
    have hgrows : s.Grows t := (Cascade.grows_build hu).trans (Cascade.grows_buildFiles hrest)
    rcases h.apply (hselectors.subset hgrows.selectors) (hlayers.subset hgrows.layers) hp hc hu
      f.persisted with ⟨v, hv⟩ | ⟨next, hnext, hholds⟩
    · refine .inl ⟨v, ?_⟩
      rw [Store.applyFiles, List.foldlM_cons, hv]
      rfl
    · rw [Store.applyFiles, foldlM_cons_of_ok hnext]
      exact ih hholds hplain hclean hrest

/-- Files of parsed statements have one style sheet, whether they are applied to one cascade or
reach a store one at a time, and on whatever occasions they do either. -/
theorem compile_applyFiles (config : CompilerConfig) {files : List FileOfStatements}
    (hparsed : ∀ f ∈ files, ∃ source strict, Source.parse source strict = .ok f.statements)
    (hclean : ∀ f ∈ files, ∀ stmt ∈ f.statements, stmt.Writes Descriptor.IsClean) {s : Cascade}
    (hdirect : Cascade.buildFiles {} files = .ok s) {store : Store}
    (hpersisted : Store.applyFiles {} files = .ok store)
    (hselectors : Separates .selector s.selectors.keys)
    (hlayers : Separates .layer s.layers.entries.keys) :
    ∃ css, s.compile config = .ok css ∧ store.compile config = .ok css := by
  have hplain : ∀ f ∈ files, ∀ stmt ∈ f.statements, stmt.IsPlain := by
    intro f hf
    obtain ⟨source, strict, hparse⟩ := hparsed f hf
    exact Source.isPlain_of_parse hparse
  have hcoherent : s.IsCoherent Descriptor.IsClean :=
    foldlM_keeps (fun f hf _ _ hu hbuild => hu.build (hplain f hf) (hclean f hf) hbuild)
      Cascade.isCoherent_empty hdirect
  have htyped : s.IsTyped :=
    foldlM_keeps (fun f hf _ _ hu hbuild => hu.build (hplain f hf) hbuild)
      Cascade.isTyped_empty hdirect
  refine ⟨_, Cascade.compile_of_isCoherent hcoherent htyped config, ?_⟩
  rcases holds_empty.applyFiles hplain hclean hdirect hselectors hlayers with
    ⟨v, hv⟩ | ⟨next, hnext, hholds⟩
  · simp [hv] at hpersisted
  · obtain rfl : next = store := Except.ok.inj (hnext.symm.trans hpersisted)
    obtain ⟨b, hload, hb, hbtyped, hmatch⟩ := hholds.toCascade hselectors hlayers
    rw [Store.compile, hload, hmatch.render_eq config]
    exact Cascade.compile_of_isCoherent hb hbtyped config

/-- Two files, of which the second overwrites what the first has written. -/
def recoloring (first second : List Statement) : List FileOfStatements :=
  [⟨first, { migrationId := "m1" }, { now := "09:00", later := ["09:01"] }⟩,
   ⟨second, { migrationId := "m2" }, { originFile := some "b.sql" }⟩]

theorem compile_applyFiles_recoloring : ∃ first second s store,
    Source.parse "CREATE STYLE SELECTOR card (color = red);" false = .ok first ∧
    Source.parse "ALTER STYLE SELECTOR card SET color = blue;" false = .ok second ∧
    Cascade.buildFiles {} (recoloring first second) = .ok s ∧
    Store.applyFiles {} (recoloring first second) = .ok store ∧
    s.compile {} = .ok ".card \x7b\n  color: blue;\n\x7d\n" ∧
    store.compile {} = .ok ".card \x7b\n  color: blue;\n\x7d\n" := by
  obtain ⟨⟨first, second⟩, hparse, hfiles⟩ := exists_ok_of_any
    (x := do
      let first ← Source.parse "CREATE STYLE SELECTOR card (color = red);" false
      let second ← Source.parse "ALTER STYLE SELECTOR card SET color = blue;" false
      return (first, second))
    (p := fun (r : List Statement × List Statement) =>
      let files := recoloring r.1 r.2
      decide (∀ f ∈ files, ∀ stmt ∈ f.statements, stmt.Writes Descriptor.IsClean) &&
        (Store.applyFiles {} files).toOption.isSome &&
        (Cascade.buildFiles {} files).toOption.any fun (s : Cascade) =>
          decide (s.selectors.keys = [.text "card"] ∧ s.layers.entries.keys = [] ∧
            (s.compile {}).toOption = some ".card \x7b\n  color: blue;\n\x7d\n"))
    (by
      unfold Store.applyFiles Store.apply Snapshot.ofCascade Snapshot.selectorRow
        Snapshot.styleRows Snapshot.styleRow Snapshot.selectorId Snapshot.idCell
      rw [Source.parse_ofList, Source.parse_ofList, Identity.entityId_eq]
      decide +kernel)
  simp only [bind_eq_ok, pure_eq_ok, Prod.mk.injEq] at hparse
  obtain ⟨_, hfirst, _, hsecond, rfl, rfl⟩ := hparse
  simp only [Bool.and_eq_true, decide_eq_true_eq] at hfiles
  obtain ⟨⟨hclean, hsome⟩, hany⟩ := hfiles
  obtain ⟨store, hpersisted, -⟩ := exists_ok_of_any (p := fun _ => true) (by simpa using hsome)
  obtain ⟨s, hdirect, hs⟩ := exists_ok_of_any hany
  obtain ⟨hselectors, hlayers, hcss⟩ := of_decide_eq_true hs
  have hparsed : ∀ f ∈ recoloring _ _, ∃ source strict,
      Source.parse source strict = .ok f.statements :=
    List.forall_mem_cons.2 ⟨⟨_, _, hfirst⟩, List.forall_mem_cons.2 ⟨⟨_, _, hsecond⟩, by simp⟩⟩
  have hseparates : Separates .selector s.selectors.keys := by
    rw [hselectors]
    intro a b ha hb _
    simp_all
  obtain ⟨css, hcompile, hstored⟩ := compile_applyFiles {} hparsed hclean hdirect hpersisted
    hseparates (by simp [hlayers, Separates])
  rw [hcompile] at hcss
  obtain rfl := Option.some.inj hcss
  exact ⟨_, _, s, store, hfirst, hsecond, hdirect, hpersisted, hcompile, hstored⟩

end Store

end StyleLedger
