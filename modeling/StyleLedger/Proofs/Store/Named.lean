import StyleLedger.Proofs.Store.Reloaded

/-!
Selectors and scopes always have a name.

A name in a source text is a token, so it is not empty, and every selector that becomes known is
named in a statement. A scope that is read back from its row has the name of a known selector. So
the empty text, which a style sheet does not tell from an absent scope, names neither a selector nor
a scope in whatever statements and reloads lead to (`Cascade.IsReachable.hasNames`).

* `Statement.selectorNames` — the selectors that a statement makes known.
* `Cascade.HasNames` — the invariant.
-/

namespace StyleLedger

open Outcome

/-! ## 1. Statements -/

/-- The selectors that a statement makes known. -/
def Statement.selectorNames : Statement → List String
  | createSelector name _ | createStartingStyle name _ => [name]
  | createStyle target _ | alterStyle target _ _ => Cascade.selectorsOf target
  | _ => []

theorem Cascade.ne_of_mem_selectorsOf (target : StyleTarget) :
    ∀ n ∈ selectorsOf target, n ≠ "" := by
  simp [selectorsOf]

namespace Source

/-- The selectors that the statement of a draft makes known. -/
def Draft.selectorNames : Draft → List String
  | ready s => s.selectorNames
  | selector name _ => [name]

theorem Draft.selectorNames_toStatement {d : Draft} {s : Statement} (h : d.toStatement = .ok s) :
    s.selectorNames = d.selectorNames := by
  cases d with
  | ready s' =>
    obtain rfl := Except.ok.inj h
    rfl
  | selector name term =>
    simp only [toStatement, bind_eq_ok, pure_eq_ok] at h
    obtain ⟨definition, -, rfl⟩ := h
    rfl

/-- A selector that is defined or has a starting style is named by a token; other statements name
selectors in the target of a style, or none. -/
theorem Draft.IsPlain.ne_of_mem_selectorNames {d : Draft} (h : d.IsPlain) :
    ∀ n ∈ d.selectorNames, n ≠ "" := by
  cases d with
  | selector name term => exact List.forall_mem_singleton.2 h
  | ready s =>
    cases s with
    | createSelector name definition => exact List.forall_mem_singleton.2 h.1
    | createStartingStyle name ds => exact List.forall_mem_singleton.2 h
    | createStyle target ds => exact Cascade.ne_of_mem_selectorsOf target
    | alterStyle target mode ds => exact Cascade.ne_of_mem_selectorsOf target
    | _ => exact List.forall_mem_nil _

/-- No statement of a source text makes a selector known that has no name. -/
theorem ne_of_mem_selectorNames {source : String} {strict : Bool} {statements : List Statement}
    (h : parse source strict = .ok statements) :
    ∀ s ∈ statements, ∀ n ∈ s.selectorNames, n ≠ "" := by
  intro s hs
  obtain ⟨d, hd, hds⟩ := exists_draft_of_parse Reading.yields_statement h s hs
  rw [Draft.selectorNames_toStatement hds]
  exact hd.ne_of_mem_selectorNames

end Source

theorem Statement.IsParsed.ne_of_mem_selectorNames {stmt : Statement} (h : stmt.IsParsed) :
    ∀ n ∈ stmt.selectorNames, n ≠ "" := by
  obtain ⟨source, strict, stmts, hparse, hmem⟩ := h
  exact Source.ne_of_mem_selectorNames hparse stmt hmem

/-! ## 2. Steps -/

namespace Cascade

variable {s t : Cascade} {ctx ctx' : Context} {stmt : Statement} {n : Json}

theorem mem_keys_of_put {α : Type} {u : Table Json α} {name : Json} {v : α}
    (h : n ∈ (u.put name v).keys) : n ∈ u.keys ∨ n = name := by
  rw [Table.keys_put] at h
  split at h
  · exact .inl h
  · exact (List.mem_append.1 h).imp_right List.mem_singleton.1

theorem mem_selectors_referenceSelector {name : Json}
    (h : n ∈ (s.referenceSelector ctx name).selectors.keys) : n ∈ s.selectors.keys ∨ n = name := by
  unfold referenceSelector at h
  split at h
  · exact .inl h
  · exact mem_keys_of_put h

theorem mem_selectors_mentions {names : List String} {p : Context × Cascade}
    (h : n ∈ (names.foldl mention p).2.selectors.keys) :
    n ∈ p.2.selectors.keys ∨ ∃ name ∈ names, n = .text name := by
  induction names generalizing p with
  | nil => exact .inl h
  | cons name names ih =>
    rcases ih h with h | ⟨m, hm, rfl⟩
    · rcases mem_selectors_referenceSelector h with h | rfl
      · exact .inl h
      · exact .inr ⟨name, List.mem_cons_self, rfl⟩
    · exact .inr ⟨m, List.mem_cons_of_mem name hm, rfl⟩

/-- A deleted selector is still there; no other one comes. -/
theorem mem_selectors_deleteSelector {name : Json}
    (h : n ∈ (s.deleteSelector ctx name).selectors.keys) : n ∈ s.selectors.keys := by
  unfold deleteSelector at h
  split at h
  · next old hold =>
    split at h
    · exact h
    · rw [Table.keys_put, if_pos (by rw [hold]; rfl)] at h
      exact h
  · exact h

/-- A selector that is known after a statement was known before, or is named by the statement. -/
theorem mem_selectors_step (h : step ctx s stmt = .ok (ctx', t)) (hn : n ∈ t.selectors.keys) :
    n ∈ s.selectors.keys ∨ ∃ name ∈ stmt.selectorNames, n = .text name := by
  have hwrite : ∀ {target mode ds}, s.writeStyle ctx target mode ds = .ok (ctx', t) →
      n ∈ s.selectors.keys ∨ ∃ name ∈ selectorsOf target, n = .text name := by
    intro target mode ds hw
    simp only [writeStyle, bind_eq_ok, pure_eq_ok, Prod.mk.injEq] at hw
    obtain ⟨wrappers, -, -, rfl⟩ := hw
    exact mem_selectors_mentions hn
  cases stmt with
  | createStyle target ds | alterStyle target mode ds => exact hwrite h
  | createSelector name definition =>
    obtain ⟨rfl, rfl⟩ := Prod.mk.inj (Except.ok.inj h)
    exact (mem_keys_of_put hn).imp_right fun heq => ⟨name, List.mem_cons_self, heq⟩
  | dropSelector name =>
    obtain ⟨rfl, rfl⟩ := Prod.mk.inj (Except.ok.inj h)
    exact .inl (mem_selectors_deleteSelector hn)
  | createStartingStyle selector ds =>
    obtain ⟨rfl, rfl⟩ := Prod.mk.inj (Except.ok.inj h)
    exact (mem_selectors_referenceSelector hn).imp_right fun heq =>
      ⟨selector, List.mem_cons_self, heq⟩
  | dropToken name | deleteToken name =>
    obtain ⟨rfl, rfl⟩ := Prod.mk.inj (Except.ok.inj h)
    rw [deleteToken_eq] at hn
    exact .inl hn
  | _ =>
    obtain ⟨rfl, rfl⟩ := Prod.mk.inj (Except.ok.inj h)
    exact .inl hn

/-- Neither a known selector nor the scope of a bucket is named by the empty text. -/
structure HasNames (s : Cascade) : Prop where
  selectors : Json.text "" ∉ s.selectors.keys
  scopes : ∀ k ∈ s.buckets.buckets.keys, k.scopeRoot ≠ .text "" ∧ k.scopeLimit ≠ .text ""

/-- The scope of a bucket that a statement writes to is that of its target. -/
theorem scopes_of_mem_keysOf {layer : Option String} {target : StyleTarget}
    {ds : List (Option Descriptor)} (htarget : target.IsPlain) {k : BucketKey}
    (hk : k ∈ keysOf layer target ds) : k.scopeRoot ≠ .text "" ∧ k.scopeLimit ≠ .text "" := by
  have hne : ∀ {name : Option String}, (∀ n ∈ name, n ≠ "") → Json.textOrNull name ≠ .text "" := by
    intro name hname heq
    cases name with
    | none => simp [Json.textOrNull] at heq
    | some n => exact hname n rfl (Json.text.inj heq)
  obtain ⟨d, -, rfl⟩ := List.mem_map.1 hk
  exact ⟨hne htarget.scopeRoot, hne htarget.scopeLimit⟩

theorem HasNames.step (hs : s.HasNames) (hparsed : stmt.IsParsed)
    (h : Cascade.step ctx s stmt = .ok (ctx', t)) : t.HasNames := by
  refine ⟨fun hmem => ?_, fun k hk => ?_⟩
  · rcases mem_selectors_step h hmem with hold | ⟨name, hname, heq⟩
    · exact hs.selectors hold
    · exact hparsed.ne_of_mem_selectorNames name hname (Json.text.inj heq).symm
  · have hplain := hparsed.isPlain
    rcases (buckets_of_step h).2 with heq | ⟨target, mode, ds, wrappers, hstmt, -, heq⟩ |
      ⟨selector, layer, name, heq⟩ | ⟨selector, layer, heq⟩
    · exact hs.scopes k (heq ▸ hk)
    · rw [heq] at hk
      rcases BucketIndex.mem_keys_writeKeys hk with hk | hk
      · exact hs.scopes k hk
      · rcases hstmt with rfl | rfl
        · exact scopes_of_mem_keysOf hplain hk
        · exact scopes_of_mem_keysOf hplain hk
    · exact hs.scopes k (BucketIndex.keys_delete_subset _ _ _ _ (heq ▸ hk))
    · exact hs.scopes k (BucketIndex.keys_drop_subset _ _ _ (heq ▸ hk))

end Cascade

/-! ## 3. Reloads -/

namespace Snapshot

variable {s : Cascade} {log : List LogEntry}

/-- A scope that is read back is absent or has the name of a selector. -/
theorem Rekeys.scopes {k l : BucketKey}
    (h : Rekeys (namesById (ofCascade s log).selectors) (namesById (ofCascade s log).layers) k l) :
    (l.scopeRoot ≠ .null → l.scopeRoot ∈ s.selectors.keys) ∧
      (l.scopeLimit ≠ .null → l.scopeLimit ∈ s.selectors.keys) := by
  obtain ⟨selector, -, -, hkey⟩ := h
  simp only [keyOf, bind_eq_ok, pure_eq_ok] at hkey
  obtain ⟨layer, -, root, hroot, limit, hlimit, -, -, rfl⟩ := hkey
  refine ⟨fun hne => ?_, fun hne => ?_⟩
  · obtain ⟨id, hid⟩ := exists_of_nameOf hroot hne
    exact mem_selectors_of_get? hid
  · obtain ⟨id, hid⟩ := exists_of_nameOf hlimit hne
    exact mem_selectors_of_get? hid

end Snapshot

namespace Cascade

open Snapshot

variable {s t : Cascade} {log : List LogEntry}

theorem HasNames.reload (hs : s.HasNames) (hsettled : s.IsSettled) (htyped : s.IsTyped)
    (hreload : (ofCascade s log).toCascade = .ok t) : t.HasNames := by
  obtain ⟨starting, -, -, hrest⟩ := hsettled.withBuckets_reload htyped hreload
  have hselectors : t.selectors = s.selectors := by
    show (t.withBuckets {}).selectors = (s.withBuckets {}).selectors
    rw [hrest]
  refine ⟨hselectors ▸ hs.selectors, fun k hk => ?_⟩
  obtain ⟨hregroups, -⟩ := regroups_of_bucketIndex (bucketIndex_of_toCascade hreload)
  obtain ⟨d, -, hrekeys⟩ := hregroups.keys k hk
  obtain ⟨hroot, hlimit⟩ := hrekeys.scopes
  have hne : Json.text "" ≠ .null := by simp
  refine ⟨fun heq => hs.selectors ?_, fun heq => hs.selectors ?_⟩
  · exact heq ▸ hroot (heq ▸ hne)
  · exact heq ▸ hlimit (heq ▸ hne)

end Cascade

end StyleLedger
