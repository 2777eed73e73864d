import StyleLedger.Proofs.Sheet.Written
import StyleLedger.Proofs.Store.Anchored

/-!
Cascades stay settled when they are read back from their rows.

Buckets and starting styles are read back with the names that identifiers lead to. If two names had
one identifier, one of them would stand for both, but it would still be a name that is there. So
everything that is found by names comes back as it was, the starting styles come back under names of
selectors, and the keys of the buckets hold texts again (`IsSettled.reload`). This needs nothing
about identifiers, so every cascade that statements and reloads lead to is settled
(`IsReachable.isSettled`), and a style sheet is made of it.
-/

namespace StyleLedger

open Outcome

namespace Snapshot

variable {s : Cascade} {log : List LogEntry}

/-! ## 1. Names that identifiers lead to -/

theorem exists_of_get?_namesById {rows : List Row} {id n : Json}
    (h : (namesById rows).get? id = some n) : ∃ r ∈ rows, r.get "name" = n := by
  rw [namesById, Table.get?_ofList] at h
  obtain ⟨l, -, hmem⟩ := Table.lookup_mem h
  obtain ⟨r, hr, heq⟩ := List.mem_map.1 (List.mem_reverse.1 hmem)
  exact ⟨r, hr, (Prod.mk.inj heq).2⟩

/-- An identifier leads to the name of a selector. -/
theorem mem_selectors_of_get? {id n : Json}
    (h : (namesById (ofCascade s log).selectors).get? id = some n) : n ∈ s.selectors.keys := by
  obtain ⟨r, hr, rfl⟩ := exists_of_get?_namesById h
  obtain ⟨e, he, rfl⟩ := List.mem_map.1 hr
  exact Table.mem_keys_of_mem he

/-- An identifier leads to the name of a layer. -/
theorem mem_layers_of_get? {id n : Json}
    (h : (namesById (ofCascade s log).layers).get? id = some n) : n ∈ s.layers.entries.keys := by
  obtain ⟨r, hr, rfl⟩ := exists_of_get?_namesById h
  obtain ⟨e, he, rfl⟩ := List.mem_map.1 hr
  rw [(get_layerRow s.layers e.1 e.2).1]
  exact Table.mem_keys_of_mem he

theorem get?_of_nameAt? {names : Table Json Json} {id : Json} {name? : Option Json}
    (h : nameAt? names id = .ok name?) : names.get? id = name? := by
  simp only [nameAt?, bind_eq_ok, pure_eq_ok] at h
  obtain ⟨v, hv, rfl⟩ := h
  rw [eq_of_keyCell hv]

/-- A reference stands for nothing, or for a name that an identifier leads to. -/
theorem exists_of_nameOf {names : Table Json Json} {id v : Json} (h : nameOf names id = .ok v)
    (hne : v ≠ .null) : ∃ id, names.get? id = some v := by
  unfold nameOf at h
  split at h
  · simp only [bind_eq_ok, pure_eq_ok] at h
    obtain ⟨name?, hname, rfl⟩ := h
    cases name? with
    | none => exact absurd rfl hne
    | some n => exact ⟨_, get?_of_nameAt? hname⟩
  · exact absurd (Except.ok.inj h).symm hne

theorem isWord_of_nameOf {names : Table Json Json}
    (hnames : ∀ {id n}, names.get? id = some n → n.IsString) {id v : Json}
    (h : nameOf names id = .ok v) : v.IsWord := by
  by_cases hne : v = .null
  · exact hne ▸ Json.isWord_null
  · obtain ⟨id, hid⟩ := exists_of_nameOf h hne
    exact (hnames hid).isWord

/-- A style row is written to a bucket whose key holds texts, if references stand for texts. -/
theorem isWordy_keyOf {S L : Table Json Json} (hS : ∀ {id n}, S.get? id = some n → n.IsString)
    (hL : ∀ {id n}, L.get? id = some n → n.IsString) {r : Row} {selector : Json}
    (hselector : selector.IsString) {k : BucketKey} (h : keyOf S L r selector = .ok k) :
    k.IsWordy := by
  simp only [keyOf, bind_eq_ok, pure_eq_ok] at h
  obtain ⟨layer, hlayer, root, hroot, limit, hlimit, -, -, rfl⟩ := h
  exact ⟨hselector, isWord_of_nameOf hL hlayer, isWord_of_nameOf hS hroot,
    isWord_of_nameOf hS hlimit⟩

/-! ## 2. Starting styles and keys of buckets -/

/-- A starting style is read back under the name of a selector. -/
theorem isNamed_addStarting (log : List LogEntry)
    (hs : s.selectors.HasTextKeys SelectorEntry.IsTyped) {e : Json × RuleBlock}
    (he : e.2.IsPlain) {t u : Table Json RuleBlock}
    (ht : t.IsNamed RuleBlock.IsPlain ∧ t.keys ⊆ s.selectors.keys)
    (h : addStarting (namesById (ofCascade s log).selectors) t (blockRow (idCell .startingStyle e.1)
      (selectorId e.1) "selector_id" "props_json" e.2) = .ok u) :
    u.IsNamed RuleBlock.IsPlain ∧ u.keys ⊆ s.selectors.keys := by
  simp only [addStarting, bind_eq_ok] at h
  obtain ⟨name?, hname, h⟩ := h
  split at h
  · exact pure_eq_ok.1 h ▸ ht
  · exact pure_eq_ok.1 h ▸ ht
  · next selector _ =>
    have hmem := mem_selectors_of_get? (get?_of_nameAt? hname)
    obtain ⟨d, hd, rfl⟩ := List.mem_map.1 hmem
    have hstring : d.1.IsString := (hs d hd).1
    rw [ruleBlock_of_cells hstring he rfl rfl] at h
    obtain rfl := pure_eq_ok.1 h
    have hput := ht.1.put hstring he
    have hkeys : putRow t (d.1, e.2) = t.put d.1 e.2 :=
      hput.isCanonical.respell_eq hstring.isWord.key_eq
    rw [hkeys]
    exact ⟨hput, fun n hn => ((ht.1.mem_keys_put hstring e.2).1 hn).elim (fun h => ht.2 h)
      (fun h => h ▸ hmem)⟩

/-- The rows of a bucket are read into one whose key holds texts. -/
theorem Rekeys.isWordy (hs : s.IsTyped) {k l : BucketKey}
    (h : Rekeys (namesById (ofCascade s log).selectors) (namesById (ofCascade s log).layers) k l) :
    l.IsWordy := by
  have hselectors : ∀ {id n}, (namesById (ofCascade s log).selectors).get? id = some n →
      n.IsString := fun hn => by
    obtain ⟨d, hd, rfl⟩ := List.mem_map.1 (mem_selectors_of_get? hn)
    exact (hs.selectors d hd).1
  have hlayers : ∀ {id n}, (namesById (ofCascade s log).layers).get? id = some n → n.IsString :=
    fun hn => by
      obtain ⟨d, hd, rfl⟩ := List.mem_map.1 (mem_layers_of_get? hn)
      exact (hs.layers d hd).1
  obtain ⟨selector, hname, -, hkey⟩ := h
  exact isWordy_keyOf hselectors hlayers (hselectors (get?_of_nameAt? hname)) hkey

end Snapshot

/-! ## 3. Reloads -/

namespace Cascade

open Snapshot

variable {s t : Cascade} {log : List LogEntry}

/-- Beside the buckets everything is read back as it was, but for the starting styles, which come
back under names of selectors. -/
theorem IsSettled.withBuckets_reload (h : s.IsSettled) (htyped : s.IsTyped)
    (hreload : (ofCascade s log).toCascade = .ok t) :
    ∃ starting : Table Json RuleBlock, starting.IsNamed RuleBlock.IsPlain ∧
      starting.keys ⊆ s.selectors.keys ∧
      t.withBuckets {} = { s.withBuckets {} with startingStyles := starting } := by
  have hbeside : (ofCascade (s.withBuckets {}) log).toCascade = .ok (t.withBuckets {}) :=
    toCascade_withoutStyles hreload
  rw [toCascade_ofCascade_eq h.rest] at hbeside
  simp only [bind_eq_ok, pure_eq_ok] at hbeside
  obtain ⟨buckets, hbuckets, starting, hstarting, hrest⟩ := hbeside
  obtain rfl : {} = buckets := Except.ok.inj hbuckets
  have hnamed : starting.IsNamed RuleBlock.IsPlain ∧ starting.keys ⊆ s.selectors.keys := by
    refine foldlM_keeps (P := fun u => u.IsNamed RuleBlock.IsPlain ∧ u.keys ⊆ s.selectors.keys)
      (fun r hr u v hu hv => ?_) ⟨Table.isNamed_empty, by simp [Table.keys]⟩ hstarting
    obtain ⟨e, he, rfl⟩ := List.mem_map.1 hr
    have hplain := (h.rest.startingStyles.all e he).2
    exact isNamed_addStarting log htyped.selectors hplain hu hv
  exact ⟨starting, hnamed.1, hnamed.2, hrest.symm⟩

theorem IsSettled.reload (h : s.IsSettled) (htyped : s.IsTyped)
    (hreload : (ofCascade s log).toCascade = .ok t) : t.IsSettled := by
  obtain ⟨starting, hnamed, hkeys, hrest⟩ := h.withBuckets_reload htyped hreload
  refine ⟨?_, fun k hk => ?_⟩
  · rw [hrest]
    exact { h.rest with startingStyles := hnamed, starting := hkeys }
  · obtain ⟨hregroups, -⟩ := regroups_of_bucketIndex (bucketIndex_of_toCascade hreload)
    obtain ⟨d, -, hrekeys⟩ := hregroups.keys k hk
    exact hrekeys.isWordy htyped

namespace IsReachable

variable {migrations : List String} {ctx : Context}

/-- Whatever statements and reloads have led to, everything but the buckets is coherent, the keys of
the buckets hold texts, and the layer that is written to is known. -/
theorem isSettled (h : IsReachable migrations ctx s) :
    s.IsSettled ∧ ctx.IsKnown s.layers.entries.keys := by
  induction h with
  | start o => exact ⟨isSettled_empty, o.isKnown_context _⟩
  | file _ o _ ih => exact ⟨ih.1, o.isKnown_context _⟩
  | statement _ hparsed hstep ih => exact ih.1.step ih.2 hparsed.isPlain hstep
  | reload hprevious hreload ih =>
    have hgrows := hprevious.isTyped.grows_reload hreload
    exact ⟨ih.1.reload hprevious.isTyped hreload,
      fun n hn => ⟨(ih.2 n hn).1, hgrows.layers (ih.2 n hn).2⟩⟩

/-- A style sheet is made of whatever statements and reloads have led to. -/
theorem compile_eq (h : IsReachable migrations ctx s) (config : CompilerConfig) :
    s.compile config = .ok (Sheet.ofCascade s config).render :=
  compile_of_isSettled h.isSettled.1 h.isTyped config

/-- Nothing in whatever statements and reloads have led to stands in the way of a style sheet. -/
theorem plan_eq (h : IsReachable migrations ctx s) (config : CompilerConfig) :
    Sheet.plan s config = .ok (Sheet.ofCascade s config) := by
  rw [Sheet.plan, Sheet.checkCascade_of_isLegible h.isSettled.1.isLegible h.isTyped config]
  rfl

/-- More migrations may have been at work. -/
theorem mono {migrations' : List String} (hsub : migrations ⊆ migrations')
    (h : IsReachable migrations ctx s) : IsReachable migrations' ctx s := by
  induction h with
  | start o ho => exact .start o (hsub ho)
  | file _ o ho ih => exact ih.file o (hsub ho)
  | statement _ hparsed hstep ih => exact ih.statement hparsed hstep
  | reload _ hreload ih => exact ih.reload hreload

/-- One source text, applied to an empty cascade. -/
theorem of_parse {source : String} {strict : Bool} {stmts : List Statement}
    (hparse : Source.parse source strict = .ok stmts) : IsReachable [adhocMigration]
      (Cascade.run {} {} stmts).context (Cascade.run {} {} stmts).state :=
  (start {} (by decide)).run fun _ hstmt => ⟨source, strict, stmts, hparse, hstmt⟩

theorem of_build (h : IsReachable migrations ctx s) {stmts : List Statement}
    (hparsed : ∀ stmt ∈ stmts, stmt.IsParsed) (hbuild : Cascade.build ctx s stmts = .ok t) :
    ∃ ctx', IsReachable migrations ctx' t := by
  have hrun := h.run hparsed
  simp only [Cascade.build] at hbuild
  split at hbuild
  · exact ⟨_, Except.ok.inj hbuild ▸ hrun⟩
  · cases hbuild

/-- A file that is applied leads to what is reachable once its migration counts. -/
theorem build (h : IsReachable migrations ctx s) (o : Occasion) {stmts : List Statement}
    (hparsed : ∀ stmt ∈ stmts, stmt.IsParsed) (hbuild : Cascade.build o.context s stmts = .ok t) :
    ∃ ctx', IsReachable (o.migrationId :: migrations) ctx' t :=
  ((h.mono (List.subset_cons_self _ _)).file o List.mem_cons_self).of_build hparsed hbuild

end IsReachable

end Cascade

end StyleLedger
