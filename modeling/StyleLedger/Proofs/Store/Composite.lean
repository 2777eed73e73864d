import StyleLedger.Proofs.Digest
import StyleLedger.Proofs.Source.Evaluation
import StyleLedger.Proofs.Store.Contract
import StyleLedger.Proofs.Store.Reloaded

/-!
Natural keys that are made of several parts.

The key of a font face is its family and its source with a colon between them, and the family stands
for a source that is missing. Colons are not told apart, so different faces may have one key
(`fontFaceKey_eq_iff`): the one that is written last takes the place of the other. A page without a
name has the key of a page that is called `default`, under which the store does not take both.

Nothing else is lost. A face that was created stays until its family is dropped or a different face
with its key is created, has a block of its own in the style sheet and a row of its own, and pages
can be saved unless both these names occur.

* `Identity.Collide` — different faces that have one key, and why.
* `Cascade.HasFace` — a face is there, and has not been taken for another one.
* `Cascade.ShowsFace` — its block and its row.
* `Statement.Spares` — a statement that does not take a face away.
-/

namespace StyleLedger

open Outcome Identity

/-! ## 1. Keys of font faces -/

/-- What stands for the source of a face in its key. -/
def Identity.sourceOf (family : String) (src : Option String) : String :=
  ((Json.textOrNull src).orElse (.text family)).shown

/-- Two faces have one key: their families are the same and so is what stands for their sources, or
one family goes on after a colon with a text that the source of the other face begins with. -/
def Identity.Collide (family : String) (src : Option String) (family' : String)
    (src' : Option String) : Prop :=
  family = family' ∧ sourceOf family src = sourceOf family' src' ∨
    (∃ middle, family' = family ++ ":" ++ middle ∧
      sourceOf family src = middle ++ ":" ++ sourceOf family' src') ∨
    ∃ middle, family = family' ++ ":" ++ middle ∧
      sourceOf family' src' = middle ++ ":" ++ sourceOf family src

/-- The key of the face that a statement writes. -/
abbrev Identity.faceKey (family : String) (src : Option String) : String :=
  fontFaceKey (.text family) (.textOrNull src)

/-- Where a text with a colon in it goes on as another does, either the colon is the same, or it
stands in the second part of the other. -/
theorem Identity.cut_of_append_colon {a b c d : String} {cs : List Char}
    (hfront : c.toList = a.toList ++ cs) (hback : ':' :: b.toList = cs ++ ':' :: d.toList) :
    a = c ∧ b = d ∨ ∃ middle, c = a ++ ":" ++ middle ∧ b = middle ++ ":" ++ d := by
  cases cs with
  | nil =>
    left
    exact ⟨String.toList_injective (by simp [hfront]),
      String.toList_injective (List.cons.inj hback).2⟩
  | cons x middle =>
    obtain ⟨rfl, hsecond⟩ := List.cons.inj hback
    right
    refine ⟨String.ofList middle, String.toList_injective ?_, String.toList_injective ?_⟩
    · simp [hfront]
    · simpa using hsecond

/-- Texts that are joined by a colon may be cut at any colon in them. -/
theorem Identity.append_colon_eq_iff {a b c d : String} :
    a ++ ":" ++ b = c ++ ":" ++ d ↔ a = c ∧ b = d ∨
      (∃ middle, c = a ++ ":" ++ middle ∧ b = middle ++ ":" ++ d) ∨
      ∃ middle, a = c ++ ":" ++ middle ∧ d = middle ++ ":" ++ b := by
  constructor
  · intro h
    have hchars : a.toList ++ ':' :: b.toList = c.toList ++ ':' :: d.toList := by
      simpa using congrArg String.toList h
    rcases List.append_eq_append_iff.1 hchars with ⟨cs, hfront, hback⟩ | ⟨cs, hfront, hback⟩
    · exact (cut_of_append_colon hfront hback).imp_right .inl
    · exact (cut_of_append_colon hfront hback).imp (fun ⟨h, h'⟩ => ⟨h.symm, h'.symm⟩) .inr
  · rintro (⟨rfl, rfl⟩ | ⟨middle, rfl, rfl⟩ | ⟨middle, rfl, rfl⟩)
    · rfl
    · simp [String.append_assoc]
    · simp [String.append_assoc]

theorem Identity.faceKey_eq_iff {family family' : String} {src src' : Option String} :
    faceKey family src = faceKey family' src' ↔ Collide family src family' src' :=
  append_colon_eq_iff

theorem Identity.Collide.symm {family family' : String} {src src' : Option String}
    (h : Collide family src family' src') : Collide family' src' family src :=
  faceKey_eq_iff.1 (faceKey_eq_iff.2 h).symm

/-! ## 2. Faces that stay -/

/-- The source in some declarations. -/
def Declaration.sourceIn (ds : List Declaration) : Option String :=
  Declaration.valueOf? "src" (Cascade.clean ds)

/-- The family and the source of the face that a statement creates. -/
def Statement.createdFace? : Statement → Option (String × Option String)
  | .createFontFace family ds => some (family, Declaration.sourceIn ds)
  | _ => none

theorem Statement.exists_of_createdFace? {stmt : Statement} {family : String} {src : Option String}
    (h : stmt.createdFace? = some (family, src)) :
    ∃ ds, stmt = .createFontFace family ds ∧ Declaration.sourceIn ds = src := by
  cases stmt with
  | createFontFace other ds =>
    obtain ⟨rfl, rfl⟩ := Prod.mk.inj (Option.some.inj h)
    exact ⟨ds, rfl, rfl⟩
  | _ => cases h

/-- A statement that leaves a face where it is: it does not drop its family, and does not create a
different face with its key. -/
def Statement.Spares (family : String) (src : Option String) : Statement → Prop
  | .createFontFace family' ds =>
    Collide family src family' (Declaration.sourceIn ds) →
      (family', Declaration.sourceIn ds) = (family, src)
  | .dropFontFace family' => family' ≠ family
  | _ => True

/-- A value that is found is found among those that satisfy a test if it satisfies the test. -/
theorem Table.get?_filter_values {κ α : Type} [DecidableEq κ] [Keyed κ] {t : Table κ α} {k : κ}
    {v : α} {p : α → Bool} (h : t.get? k = some v) (hv : p v = true) :
    (t.filter fun _ v => p v).get? k = some v := by
  have hlookup : ∀ es : List (κ × α), lookup k es = some v →
      lookup k (es.filter fun e => p e.2) = some v := by
    intro es
    induction es with
    | nil => simp [lookup]
    | cons e es ih =>
      intro he
      by_cases hk : Keyed.key e.1 = Keyed.key k
      · obtain rfl : e.2 = v := by simpa [lookup, hk] using he
        simp [hv, lookup, hk]
      · rw [lookup, if_neg hk] at he
        rw [List.filter_cons]
        split
        · rw [lookup, if_neg hk, ih he]
        · exact ih he
  exact hlookup t.entries h

theorem Statement.spares_of {stmt : Statement} {family : String} {src : Option String}
    (hdrop : stmt ≠ .dropFontFace family)
    (hcreate : ∀ other ds, stmt = .createFontFace other ds →
      Collide family src other (Declaration.sourceIn ds) →
      (other, Declaration.sourceIn ds) = (family, src)) : stmt.Spares family src := by
  cases stmt with
  | createFontFace other ds => exact hcreate other ds rfl
  | dropFontFace other => exact fun h => hdrop (h ▸ rfl)
  | _ => trivial

namespace Cascade

variable {s t : Cascade} {ctx ctx' : Context} {family : String} {src : Option String}

/-- A face stands under its key. -/
def HasFace (s : Cascade) (family : String) (src : Option String) : Prop :=
  ∃ f, s.fontFaces.get? (faceKey family src) = some f ∧
    f.family = .text family ∧ f.src = .textOrNull src

/-- The font faces after a statement. -/
def facesAfter (ctx : Context) (s : Cascade) : Statement → Table String FontFace
  | .createFontFace family ds => (s.putFontFace ctx family ds).fontFaces
  | .dropFontFace family => s.fontFaces.filter fun _ f => f.family ≠ .text family
  | _ => s.fontFaces

theorem fontFaces_of_step {stmt : Statement} (h : step ctx s stmt = .ok (ctx', t)) :
    t.fontFaces = facesAfter ctx s stmt := by
  cases stmt with
  | createStyle target ds | alterStyle target mode ds =>
    simp only [step, writeStyle, bind_eq_ok, pure_eq_ok, Prod.mk.injEq] at h
    obtain ⟨wrappers, -, -, rfl⟩ := h
    have hfaces := congrArg fontFaces (mentions_eq (selectorsOf target) (ctx, s))
    exact hfaces
  | dropToken name | deleteToken name =>
    obtain ⟨-, rfl⟩ := Prod.mk.inj (Except.ok.inj h)
    have hfaces := congrArg fontFaces (s.deleteToken_eq ctx (.text name))
    exact hfaces
  | dropSelector name =>
    obtain ⟨-, rfl⟩ := Prod.mk.inj (Except.ok.inj h)
    have hfaces := congrArg fontFaces (s.deleteSelector_eq ctx (.text name))
    exact hfaces
  | createStartingStyle selector ds =>
    obtain ⟨-, rfl⟩ := Prod.mk.inj (Except.ok.inj h)
    have hfaces := congrArg fontFaces (mentions_eq [selector] (ctx, s))
    exact hfaces
  | _ =>
    obtain ⟨-, rfl⟩ := Prod.mk.inj (Except.ok.inj h)
    rfl

theorem get?_putFontFace (s : Cascade) (ctx : Context) (family : String) (ds : List Declaration)
    (key : String) : (s.putFontFace ctx family ds).fontFaces.get? key =
      if key = faceKey family (Declaration.sourceIn ds) then
        some { family := .text family, src := .textOrNull (Declaration.sourceIn ds)
               declarations := cleanStored ds, provenance := ctx.provenance }
      else s.fontFaces.get? key :=
  Table.get?_put _ _ _ _

/-- A face that is created stands under its key. -/
theorem hasFace_of_create {ds : List Declaration}
    (h : step ctx s (.createFontFace family ds) = .ok (ctx', t)) :
    t.HasFace family (Declaration.sourceIn ds) := by
  rw [HasFace, fontFaces_of_step h]
  exact ⟨_, by rw [facesAfter, get?_putFontFace, if_pos rfl], rfl, rfl⟩

/-- A face stays where a statement spares it. -/
theorem HasFace.step (h : s.HasFace family src) {stmt : Statement}
    (hspares : stmt.Spares family src) (hstep : Cascade.step ctx s stmt = .ok (ctx', t)) :
    t.HasFace family src := by
  obtain ⟨f, hf, hfamily, hsrc⟩ := h
  rw [HasFace, fontFaces_of_step hstep]
  cases stmt with
  | createFontFace family' ds =>
    by_cases hkey : faceKey family src = faceKey family' (Declaration.sourceIn ds)
    · obtain ⟨rfl, rfl⟩ := Prod.mk.inj (hspares (faceKey_eq_iff.1 hkey))
      exact ⟨_, by rw [facesAfter, get?_putFontFace, if_pos rfl], rfl, rfl⟩
    · refine ⟨f, ?_, hfamily, hsrc⟩
      rw [facesAfter, get?_putFontFace, if_neg hkey, hf]
  | dropFontFace family' =>
    refine ⟨f, Table.get?_filter_values hf ?_, hfamily, hsrc⟩
    have hne : family ≠ family' := Ne.symm hspares
    simpa [hfamily] using hne
  | _ => exact ⟨f, hf, hfamily, hsrc⟩

theorem HasFace.build (h : s.HasFace family src) {stmts : List Statement}
    (hspares : ∀ stmt ∈ stmts, stmt.Spares family src) (hbuild : build ctx s stmts = .ok t) :
    t.HasFace family src := by
  induction stmts generalizing ctx s with
  | nil => exact Except.ok.inj hbuild ▸ h
  | cons stmt stmts ih =>
    obtain ⟨hstmt, hspares⟩ := List.forall_mem_cons.1 hspares
    obtain ⟨next, u, hstep, hrest⟩ := exists_of_build_cons hbuild
    exact ih (h.step hstmt hstep) hspares hrest

theorem build_of_refusal {stmts : List Statement} (h : (run ctx s stmts).refusal = none) :
    build ctx s stmts = .ok (run ctx s stmts).state := by
  rw [build, h]

/-- A face that is created in a file is there at the end if every statement after it spares it. -/
theorem hasFace_of_build {before after : List Statement} {ds : List Declaration}
    (hspares : ∀ stmt ∈ after, stmt.Spares family (Declaration.sourceIn ds))
    (hbuild : build ctx s (before ++ .createFontFace family ds :: after) = .ok t) :
    t.HasFace family (Declaration.sourceIn ds) := by
  induction before generalizing ctx s with
  | nil =>
    obtain ⟨next, u, hstep, hrest⟩ := exists_of_build_cons hbuild
    exact (hasFace_of_create hstep).build hspares hrest
  | cons stmt before ih =>
    obtain ⟨next, u, -, hrest⟩ := exists_of_build_cons hbuild
    exact ih hrest

/-! ## 3. Blocks and rows -/

/-- At some place among the faces, a face has its block in the style sheet and its row. -/
def ShowsFace (s : Cascade) (config : CompilerConfig) (log : List LogEntry) (i : Nat)
    (family : String) (src : Option String) : Prop :=
  ∃ f : FontFace, f.family = .text family ∧ f.src = .textOrNull src ∧
    (Sheet.ofCascade s config).preamble[s.properties.size + i]? =
      some (Sheet.fontFaceBlock config f) ∧
    (Snapshot.ofCascade s log).fontFaces[i]? = some (Snapshot.fontFaceRow (faceKey family src) f)

theorem HasFace.exists_showsFace (h : s.HasFace family src) (config : CompilerConfig)
    (log : List LogEntry) : ∃ i f, s.fontFaces.entries[i]? = some (faceKey family src, f) ∧
      s.ShowsFace config log i family src := by
  obtain ⟨f, hf, hfamily, hsrc⟩ := h
  obtain ⟨key, hkey, hmem⟩ := Table.lookup_mem hf
  obtain rfl : key = faceKey family src := hkey
  obtain ⟨i, hi⟩ := List.mem_iff_getElem?.1 hmem
  refine ⟨i, f, hi, f, hfamily, hsrc, ?_, ?_⟩
  · obtain ⟨rest, hrest⟩ : ∃ rest, Sheet.preambleOf s config =
        s.properties.entries.map (fun e => Sheet.propertyBlock config e.1 e.2) ++
          (s.fontFaces.values.map (Sheet.fontFaceBlock config) ++ rest) :=
      ⟨_, by simp only [Sheet.preambleOf, List.append_assoc]; rfl⟩
    have hvalue : (s.fontFaces.values.map (Sheet.fontFaceBlock config))[i]? =
        some (Sheet.fontFaceBlock config f) := by
      simp [Table.values, hi]
    have hlength := (List.getElem?_eq_some_iff.1 hvalue).1
    rw [Sheet.ofCascade, hrest, List.getElem?_append_right (by simp [Table.size]),
      List.length_map, Table.size, Nat.add_sub_cancel_left, List.getElem?_append_left hlength,
      hvalue]
  · simp [Snapshot.ofCascade, hi]

/-- The row at a place is that of the face there. -/
theorem ShowsFace.exists_entry {config : CompilerConfig} {log : List LogEntry} {i : Nat}
    (h : s.ShowsFace config log i family src) : ∃ e, s.fontFaces.entries[i]? = some e ∧
      e.2.family = .text family ∧ e.2.src = .textOrNull src := by
  obtain ⟨f, hfamily, hsrc, -, hrow⟩ := h
  simp only [Snapshot.ofCascade, List.getElem?_map, Option.map_eq_some_iff] at hrow
  obtain ⟨e, he, heq⟩ := hrow
  have hcell : ∀ column, (Snapshot.fontFaceRow e.1 e.2).get column =
      (Snapshot.fontFaceRow (faceKey family src) f).get column := fun column => by rw [heq]
  exact ⟨e, he, (hcell "family").trans hfamily, (hcell "src").trans hsrc⟩

theorem ShowsFace.getElem?_keys (hfaces : s.fontFaces.All FontFace.IsPlainAt)
    {config : CompilerConfig} {log : List LogEntry} {i : Nat}
    (h : s.ShowsFace config log i family src) :
    s.fontFaces.keys[i]? = some (faceKey family src) := by
  obtain ⟨e, he, hfamily, hsrc⟩ := h.exists_entry
  obtain ⟨hkey, -⟩ := hfaces e (List.mem_of_getElem? he)
  rw [Table.keys, List.getElem?_map, he, Option.map_some, hkey, hfamily, hsrc]

/-- Faces that have one key do not both have a place of their own. -/
theorem IsSettled.eq_of_showsFace (h : s.IsSettled) {config : CompilerConfig}
    {log : List LogEntry} {i j : Nat} {family' : String} {src' : Option String}
    (hi : s.ShowsFace config log i family src) (hj : s.ShowsFace config log j family' src')
    (hcollide : Collide family src family' src') : i = j := by
  have hfaces : s.fontFaces.IsCanonical ∧ s.fontFaces.All FontFace.IsPlainAt := h.rest.fontFaces
  have hplace := hi.getElem?_keys hfaces.2
  have hplace' := hj.getElem?_keys hfaces.2
  rw [← faceKey_eq_iff.2 hcollide] at hplace'
  exact (List.getElem?_inj (List.getElem?_eq_some_iff.1 hplace).1 hfaces.1.distinct).1
    (hplace.trans hplace'.symm)

/-- Of two different faces that are created one after the other, and not dropped or written over by
a third one, both have a place of their own exactly when they do not collide. -/
theorem IsSettled.showsFaces_iff (h : t.IsSettled) {before middle after : List Statement}
    {family' : String} {ds ds' : List Declaration}
    (hbuild : build ctx s (before ++ .createFontFace family ds ::
      (middle ++ .createFontFace family' ds' :: after)) = .ok t)
    (hdrop : .dropFontFace family ∉ middle ++ after) (hdrop' : .dropFontFace family' ∉ after)
    (hcreate : ∀ other es, .createFontFace other es ∈ middle ++ after →
      Collide family (Declaration.sourceIn ds) other (Declaration.sourceIn es) →
      (other, Declaration.sourceIn es) = (family, Declaration.sourceIn ds) ∨
        (other, Declaration.sourceIn es) = (family', Declaration.sourceIn ds'))
    (hcreate' : ∀ other es, .createFontFace other es ∈ after →
      Collide family' (Declaration.sourceIn ds') other (Declaration.sourceIn es) →
      (other, Declaration.sourceIn es) = (family, Declaration.sourceIn ds) ∨
        (other, Declaration.sourceIn es) = (family', Declaration.sourceIn ds'))
    (config : CompilerConfig) (log : List LogEntry) :
    (∃ i j, i ≠ j ∧ t.ShowsFace config log i family (Declaration.sourceIn ds) ∧
      t.ShowsFace config log j family' (Declaration.sourceIn ds')) ↔
    ¬Collide family (Declaration.sourceIn ds) family' (Declaration.sourceIn ds') := by
  constructor
  · rintro ⟨i, j, hne, hi, hj⟩ hcollide
    exact hne (h.eq_of_showsFace hi hj hcollide)
  · intro hfree
    have hfree' : ¬Collide family' (Declaration.sourceIn ds') family (Declaration.sourceIn ds) :=
      fun hcollide => hfree hcollide.symm
    have hfirst : ∀ stmt ∈ middle ++ .createFontFace family' ds' :: after,
        stmt.Spares family (Declaration.sourceIn ds) := by
      intro stmt hstmt
      have hcases : stmt = .createFontFace family' ds' ∨ stmt ∈ middle ++ after := by
        simp only [List.mem_append, List.mem_cons] at hstmt ⊢
        tauto
      rcases hcases with rfl | hstmt
      · exact fun hcollide => absurd hcollide hfree
      · refine Statement.spares_of (fun heq => hdrop (heq ▸ hstmt)) ?_
        rintro other es rfl hcollide
        rcases hcreate other es hstmt hcollide with heq | heq
        · exact heq
        · obtain ⟨rfl, hsrc⟩ := Prod.mk.inj heq
          exact absurd (hsrc ▸ hcollide) hfree
    have hsecond : ∀ stmt ∈ after, stmt.Spares family' (Declaration.sourceIn ds') := by
      intro stmt hstmt
      refine Statement.spares_of (fun heq => hdrop' (heq ▸ hstmt)) ?_
      rintro other es rfl hcollide
      rcases hcreate' other es hstmt hcollide with heq | heq
      · obtain ⟨rfl, hsrc⟩ := Prod.mk.inj heq
        exact absurd (hsrc ▸ hcollide) hfree'
      · exact heq
    have hface := hasFace_of_build hfirst hbuild
    rw [← List.cons_append, ← List.append_assoc] at hbuild
    have hface' := hasFace_of_build hsecond hbuild
    obtain ⟨i, f, hi, hshows⟩ := hface.exists_showsFace config log
    obtain ⟨j, g, hj, hshows'⟩ := hface'.exists_showsFace config log
    refine ⟨i, j, ?_, hshows, hshows'⟩
    rintro rfl
    rw [hi] at hj
    exact hfree (faceKey_eq_iff.1 (Prod.mk.inj (Option.some.inj hj)).1)

/-! ## 4. Pages -/

theorem ids_pageRows (s : Cascade) (log : List LogEntry) :
    (Snapshot.ofCascade s log).pages.map (·.id) =
      s.pages.keys.map fun key => Snapshot.idCell .page (pageKey key) := by
  simp only [Snapshot.ofCascade, Table.keys, List.map_map]
  rfl

open Snapshot

/-- No rows are saved with both a page without a name and a page that is called `default`. -/
theorem not_pages_of_save {log : List LogEntry} {store store' : Store}
    (hsave : store.save (ofCascade s log) = .ok store') :
    ¬(.text "" ∈ s.pages.keys ∧ .text "default" ∈ s.pages.keys) := by
  rintro ⟨hunnamed, hdefault⟩
  obtain ⟨_, hcheck, -⟩ := bind_eq_ok.1 hsave
  have hnames : (ofCascade s log).pages.map (·.id) =
      (s.pages.keys.map pageKey).map (idCell .page) := by
    rw [ids_pageRows, List.map_map]
    rfl
  have hnodup := nodup_ids_of_check (t := (.pages, (ofCascade s log).pages)) hcheck
    (by simp [tables]) hnames
  rw [List.map_map] at hnodup
  have heq := List.inj_on_of_nodup_map hnodup hunnamed hdefault rfl
  simp at heq

namespace IsReachable

variable {migrations : List String}

/-- Two pages have one identifier only if one has no name and the other is called `default`. -/
theorem pageId_eq_iff (hids : Separates .page (s.naturalKeys migrations .page)) {m n : String}
    (hm : .text m ∈ s.pages.keys) (hn : .text n ∈ s.pages.keys) (hne : m ≠ n) :
    idCell .page (pageKey (.text m)) = idCell .page (pageKey (.text n)) ↔
      m = "" ∧ n = "default" ∨ m = "default" ∧ n = "" := by
  refine Iff.trans ⟨fun heq => ?_, congrArg _⟩ (pageKey_eq_iff.trans (or_iff_right hne))
  have hm := List.mem_map_of_mem (f := pageKey) hm
  have hn := List.mem_map_of_mem (f := pageKey) hn
  rw [pageKey_text] at hm heq ⊢
  rw [pageKey_text] at hn heq ⊢
  exact congrArg Json.text (hids _ _ hm hn (Json.text.inj heq))

/-- The rows of what is reached are saved exactly when no page is called `default` beside one
without a name. -/
theorem exists_save_iff (h : IsReachable migrations ctx s)
    (hids : ∀ kind, Separates kind (s.naturalKeys migrations kind)) {log : List LogEntry}
    (hwords : (ofCascade s log).HoldsWords) (store : Store) :
    (∃ store', store.save (ofCascade s log) = .ok store') ↔
      ¬(.text "" ∈ s.pages.keys ∧ .text "default" ∈ s.pages.keys) := by
  refine ⟨fun ⟨store', hsave⟩ => not_pages_of_save hsave, fun hpages => ?_⟩
  have hschema := h.meetsSchema hids hpages log
  rcases hschema.save (fits_ofCascade h.isTyped log) store with hsave | ⟨hnot, -⟩
  · exact ⟨_, hsave⟩
  · exact absurd hwords hnot

/-! ## 5. Files -/

/-- After a file that is applied to whatever is reached, and with distinct identifiers for distinct
natural keys: of two faces that the file creates, neither of them dropped later or written over by a
third one, both have a block and a row of their own exactly when they do not collide; all
rows of faces have different identifiers; two pages have the same identifier exactly when one has no
name and the other is called `default`, and exactly when there are two such pages the rows are
refused. -/
theorem own_faces_and_pages (h : IsReachable migrations ctx s) {stmts : List Statement}
    (hparsed : ∀ stmt ∈ stmts, stmt.IsParsed) (hbuild : Cascade.build ctx s stmts = .ok t)
    (hids : ∀ kind, Separates kind (t.naturalKeys migrations kind)) (config : CompilerConfig)
    (log : List LogEntry) :
    (∀ before middle after family family' ds ds',
      stmts = before ++ .createFontFace family ds ::
        (middle ++ .createFontFace family' ds' :: after) →
      .dropFontFace family ∉ middle ++ after → .dropFontFace family' ∉ after →
      (∀ other es, .createFontFace other es ∈ middle ++ after →
        Collide family (Declaration.sourceIn ds) other (Declaration.sourceIn es) →
        (other, Declaration.sourceIn es) = (family, Declaration.sourceIn ds) ∨
          (other, Declaration.sourceIn es) = (family', Declaration.sourceIn ds')) →
      (∀ other es, .createFontFace other es ∈ after →
        Collide family' (Declaration.sourceIn ds') other (Declaration.sourceIn es) →
        (other, Declaration.sourceIn es) = (family, Declaration.sourceIn ds) ∨
          (other, Declaration.sourceIn es) = (family', Declaration.sourceIn ds')) →
      ((∃ i j, i ≠ j ∧ t.ShowsFace config log i family (Declaration.sourceIn ds) ∧
          t.ShowsFace config log j family' (Declaration.sourceIn ds')) ↔
        ¬Collide family (Declaration.sourceIn ds) family' (Declaration.sourceIn ds'))) ∧
    ((ofCascade t log).fontFaces.map (·.id)).Nodup ∧
    ((ofCascade t log).pages.map (·.id) = t.pages.keys.map fun key => idCell .page (pageKey key)) ∧
    (∀ m n, .text m ∈ t.pages.keys → .text n ∈ t.pages.keys → m ≠ n →
      (idCell .page (pageKey (.text m)) = idCell .page (pageKey (.text n)) ↔
        m = "" ∧ n = "default" ∨ m = "default" ∧ n = "")) ∧
    ((ofCascade t log).HoldsWords → ∀ store : Store,
      ((∃ store', store.save (ofCascade t log) = .ok store') ↔
        ¬(.text "" ∈ t.pages.keys ∧ .text "default" ∈ t.pages.keys))) := by
  obtain ⟨ctx', ht⟩ := h.of_build hparsed hbuild
  have hsettled := ht.isSettled.1
  refine ⟨?_, nodup_faceIds hsettled.rest.fontFaces.1 (hids .fontFace) log, ids_pageRows t log,
    fun m n => pageId_eq_iff (hids .page), fun hwords => ht.exists_save_iff hids hwords⟩
  rintro before middle after family family' ds ds' rfl hdrop hdrop' hcreate hcreate'
  exact hsettled.showsFaces_iff hbuild hdrop hdrop' hcreate hcreate' config log

/-- A page, and two faces of one family. -/
def twoSources : String :=
  "CREATE PAGE (d = e);
   CREATE FONT_FACE FAMILY 'a' (src = b); CREATE FONT_FACE FAMILY 'a' (src = c);"

/-- The lines of its sheet. -/
def twoSourcesLines : List String :=
  ["@font-face \x7b", "  font-family: \"a\";", "  src: b;", "\x7d", "",
    "@font-face \x7b", "  font-family: \"a\";", "  src: c;", "\x7d", "",
    "@page \x7b", "  d: e;", "\x7d", ""]

/-- The rows of its faces. -/
def twoSourcesRows : List Row :=
  [⟨[("id", .text "b8e9299b-fa43-5a8f-a6f6-012fcd910e3b"), ("family", .text "a"),
      ("src", .text "b"), ("props_json", .text "[\x7b\"name\": \"src\", \"value\": \"b\"\x7d]"),
      ("origin_file", .null), ("migration_id", .text "adhoc")]⟩,
    ⟨[("id", .text "a0b4d713-d6a6-5c56-a1f3-634225e8e2f7"), ("family", .text "a"),
      ("src", .text "c"), ("props_json", .text "[\x7b\"name\": \"src\", \"value\": \"c\"\x7d]"),
      ("origin_file", .null), ("migration_id", .text "adhoc")]⟩]

/-- Both faces have a place of their own, and everything is saved. -/
theorem own_faces_and_pages_twoSources : ∃ stmts t, Source.parse twoSources false = .ok stmts ∧
    Cascade.build {} {} stmts = .ok t ∧
    (Sheet.ofCascade t {}).lines = twoSourcesLines ∧
    (ofCascade t []).fontFaces = twoSourcesRows ∧
    (∃ i j, i ≠ j ∧ t.ShowsFace {} [] i "a" (some "b") ∧ t.ShowsFace {} [] j "a" (some "c")) ∧
    ((ofCascade t []).fontFaces.map (·.id)).Nodup ∧
    ∃ store', Store.save {} (ofCascade t []) = .ok store' := by
  obtain ⟨stmts, hparse, hfacts⟩ := exists_ok_of_any (x := Source.parse twoSources false)
    (p := fun stmts =>
      let t := (Cascade.run {} {} stmts).state
      decide (stmts.map (·.createdFace?) = [none, some ("a", some "b"), some ("a", some "c")] ∧
        (Cascade.run {} {} stmts).refusal = none ∧ t.pages.keys = [.text ""] ∧
        (Sheet.ofCascade t {}).lines = twoSourcesLines ∧
        (ofCascade t []).fontFaces = twoSourcesRows ∧
        (∀ kind ∈ EntityKind.all,
          ((t.naturalKeys [adhocMigration] kind).map (idCell kind)).Nodup) ∧
        ∀ table ∈ (ofCascade t []).tables, ∀ r ∈ table.2, ∀ c ∈ table.1.columns,
          (r.get c.name).unstorable? = none))
    (by
      unfold twoSources ofCascade fontFaceRow idCell
      rw [Source.parse_ofList, Identity.entityId_eq]
      decide +kernel)
  obtain ⟨hfaces, hrefusal, hpages, hlines, hcells, hids, hstorable⟩ := of_decide_eq_true hfacts
  simp only [List.map_eq_cons_iff, List.map_eq_nil_iff] at hfaces
  obtain ⟨page, _, rfl, -, face, _, rfl, hface, face', _, rfl, hface', rfl⟩ := hfaces
  obtain ⟨ds, rfl, hb⟩ := Statement.exists_of_createdFace? hface
  obtain ⟨es, rfl, hc⟩ := Statement.exists_of_createdFace? hface'
  have hbuild := build_of_refusal hrefusal
  have hstart : IsReachable [adhocMigration] {} {} := .start {} (by decide)
  have hfree : ¬Collide "a" (some "b") "a" (some "c") := faceKey_eq_iff.not.1 (by decide)
  obtain ⟨hshows, hrows, -, -, hsave⟩ := own_faces_and_pages hstart
    (fun stmt hstmt => ⟨_, _, _, hparse, hstmt⟩) hbuild
    (fun kind => separates_of_nodup (hids kind (by cases kind <;> decide))) {} []
  have hboth := hshows [page] [] [] "a" "a" ds es rfl (by simp) (by simp) (by simp) (by simp)
  rw [hb, hc] at hboth
  refine ⟨_, _, hparse, hbuild, hlines, hcells, hboth.2 hfree, hrows,
    (hsave ?_ {}).2 (by simp [hpages])⟩
  exact fun t ht r hr c hc => (Json.unstorable?_eq_none_iff.1 (hstorable t ht r hr c hc)).2

/-- A page that is called like one without a name, and two faces that collide. -/
def collidingKeys : String :=
  "CREATE PAGE (d = e); CREATE PAGE 'default' (d = f);
   CREATE FONT_FACE FAMILY 'a:b' (src = c); CREATE FONT_FACE FAMILY 'a' (src = b:c);"

/-- The first of the faces is lost, and nothing is saved. -/
theorem not_own_faces_and_pages : ∃ stmts t, Source.parse collidingKeys false = .ok stmts ∧
    (∃ before ds es, stmts = before ++ [.createFontFace "a:b" ds, .createFontFace "a" es] ∧
      Declaration.sourceIn ds = some "c" ∧ Declaration.sourceIn es = some "b:c") ∧
    Cascade.build {} {} stmts = .ok t ∧
    (∀ config log i, ¬t.ShowsFace config log i "a:b" (some "c")) ∧
    t.pages.keys = [.text "", .text "default"] ∧
    ∀ store store' : Store, store.save (ofCascade t []) ≠ .ok store' := by
  obtain ⟨stmts, hparse, hfacts⟩ := exists_ok_of_any (x := Source.parse collidingKeys false)
    (p := fun stmts =>
      let t := (Cascade.run {} {} stmts).state
      decide (stmts.map (·.createdFace?) =
          [none, none, some ("a:b", some "c"), some ("a", some "b:c")] ∧
        (Cascade.run {} {} stmts).refusal = none ∧
        t.fontFaces.values.map (·.family) = [.text "a"] ∧
        t.pages.keys = [.text "", .text "default"]))
    (by
      unfold collidingKeys
      rw [Source.parse_ofList]
      decide +kernel)
  obtain ⟨hfaces, hrefusal, hfamilies, hpages⟩ := of_decide_eq_true hfacts
  simp only [List.map_eq_cons_iff, List.map_eq_nil_iff] at hfaces
  obtain ⟨page, _, rfl, -, page', _, rfl, -, face, _, rfl, hface, face', _, rfl, hface', rfl⟩ :=
    hfaces
  obtain ⟨ds, rfl, hc⟩ := Statement.exists_of_createdFace? hface
  obtain ⟨es, rfl, hbc⟩ := Statement.exists_of_createdFace? hface'
  refine ⟨_, _, hparse, ⟨[page, page'], ds, es, rfl, hc, hbc⟩, build_of_refusal hrefusal, ?_,
    hpages, ?_⟩
  · intro config log i hshows
    obtain ⟨e, he, hfamily, -⟩ := hshows.exists_entry
    have hmem := List.mem_map_of_mem (f := (·.2.family)) (List.mem_of_getElem? he)
    simp only [Table.values, List.map_map, Function.comp_def] at hfamilies
    simp [hfamilies, hfamily] at hmem
  · intro store store' hsave
    exact not_pages_of_save hsave (by simp [hpages])

end IsReachable

end Cascade

end StyleLedger
