import StyleLedger.Proofs.Sheet.Appended
import StyleLedger.Proofs.Source.Evaluation
import StyleLedger.Proofs.Store.Reloaded

/-!
A file that takes nothing away is applied twice.

The second time everything that the file writes is there, so its keys keep their places, and the
values that win in the end are those that have won before (`Cascade.Retraces`). The two runs may
start at different moments and as different migrations, and the cascade may have been read back from
its rows before: it is enough that the clock is not behind any bucket. Without raw blocks and
imports, which add to lists, the sheet is the same (`IsReachable.exists_same_sheet_again`).
-/

namespace StyleLedger

open Outcome

namespace Cascade.IsReachable

variable {migrations : List String} {ctx : Context} {s : Cascade} {stmts : List Statement}

/-- Wherever statements and reloads have led to, a file without removals, raw blocks and imports is
applied, and it is applied again to what it has led to; the style sheet is the same both times. -/
theorem exists_same_sheet_again (h : IsReachable migrations ctx s) (o o' : Occasion)
    (hparsed : ∀ stmt ∈ stmts, stmt.IsParsed) (haccepted : ∀ stmt ∈ stmts, stmt.isAccepted = true)
    (hkeeps : ∀ stmt ∈ stmts, stmt.removes = false)
    (hadds : ∀ stmt ∈ stmts, stmt.cssImports = [] ∧ stmt.rawTexts = []) :
    ∃ t u, Cascade.build o.context s stmts = .ok t ∧ Cascade.build o'.context t stmts = .ok u ∧
      ∀ config, ∃ css, t.compile config = .ok css ∧ u.compile config = .ok css := by
  obtain ⟨t, ht⟩ := exists_build_of_isAccepted haccepted o.context s
  obtain ⟨_, hreachT⟩ := h.build o hparsed ht
  have hsound := hreachT.isSound.1
  have hctx : o.context.Matches o'.context := ⟨rfl, rfl⟩
  obtain ⟨u, hu, hmatch⟩ := exists_build_again h.isSound.1.isPast hreachT.isSettled.1 hsound.proper
    hsound.isPast hctx hkeeps ht
  obtain ⟨_, hreachU⟩ := hreachT.build o' hparsed hu
  obtain ⟨himports, hraw⟩ := shown_of_build hu
  have hnone : stmts.flatMap Statement.cssImports = [] ∧ stmts.flatMap Statement.rawTexts = [] :=
    ⟨List.flatMap_eq_nil_iff.2 fun stmt hstmt => (hadds stmt hstmt).1,
      List.flatMap_eq_nil_iff.2 fun stmt hstmt => (hadds stmt hstmt).2⟩
  rw [hnone.1, List.append_nil] at himports
  rw [hnone.2, List.append_nil] at hraw
  refine ⟨t, u, ht, hu, fun config => ⟨_, hreachT.compile_eq config, ?_⟩⟩
  rw [hreachU.compile_eq, Sheet.render_eq_of_keyed_matches hmatch himports.symm hraw.symm]

/-- A file that adds a property and sets it, and brings a deleted token back. -/
theorem exists_same_sheet_again_revived : ∃ first stmts t u,
    Source.parse "CREATE TOKEN 'g' VALUE 1; DROP TOKEN 'g';" false = .ok first ∧
    Source.parse
      "ALTER STYLE SELECTOR a ADD b = c; CREATE STYLE SELECTOR a (b=d); CREATE TOKEN 'g' VALUE 2;"
      false = .ok stmts ∧
    Cascade.build {} (Cascade.run {} {} first).state stmts = .ok t ∧
    Cascade.build { now := "09:00" } t stmts = .ok u ∧
    t.compile {} = .ok ":root \x7b\n  --g: 2;\n\x7d\n\n.a \x7b\n  b: d;\n\x7d\n" ∧
    u.compile {} = .ok ":root \x7b\n  --g: 2;\n\x7d\n\n.a \x7b\n  b: d;\n\x7d\n" := by
  obtain ⟨_, hparse, hfiles⟩ := exists_ok_of_any
    (x := do
      let first ← Source.parse "CREATE TOKEN 'g' VALUE 1; DROP TOKEN 'g';" false
      let stmts ← Source.parse
        "ALTER STYLE SELECTOR a ADD b = c; CREATE STYLE SELECTOR a (b=d); CREATE TOKEN 'g' VALUE 2;"
        false
      return (first, stmts))
    (p := fun (r : List Statement × List Statement) =>
      decide (∀ stmt ∈ r.2, stmt.isAccepted = true ∧ stmt.removes = false ∧
        stmt.cssImports = [] ∧ stmt.rawTexts = []) &&
      (Cascade.build {} (Cascade.run {} {} r.1).state r.2).toOption.any fun (t : Cascade) =>
        decide ((t.compile {}).toOption =
          some ":root \x7b\n  --g: 2;\n\x7d\n\n.a \x7b\n  b: d;\n\x7d\n"))
    (by
      rw [Source.parse_ofList, Source.parse_ofList]
      decide +kernel)
  simp only [bind_eq_ok, pure_eq_ok] at hparse
  obtain ⟨first, hfirst, stmts, hstmts, rfl⟩ := hparse
  obtain ⟨hall, hany⟩ := Bool.and_eq_true_iff.1 hfiles
  have hall := of_decide_eq_true hall
  obtain ⟨t', ht', hcss⟩ := exists_ok_of_any hany
  have hstart : IsReachable [adhocMigration] {} {} := .start {} (by decide)
  have hreach := hstart.run fun stmt hstmt => ⟨_, _, first, hfirst, hstmt⟩
  obtain ⟨t, u, ht, hu, hcompile⟩ := hreach.exists_same_sheet_again {} { now := "09:00" }
    (fun stmt hstmt => ⟨_, _, stmts, hstmts, hstmt⟩) (fun stmt hstmt => (hall stmt hstmt).1)
    (fun stmt hstmt => (hall stmt hstmt).2.1) (fun stmt hstmt => (hall stmt hstmt).2.2)
  obtain rfl : t = t' := Except.ok.inj (ht.symm.trans ht')
  obtain ⟨css, hleft, hright⟩ := hcompile {}
  have hcss := of_decide_eq_true hcss
  rw [hleft] at hcss
  obtain rfl := Option.some.inj hcss
  exact ⟨first, stmts, t, u, hfirst, hstmts, ht, hu, hleft, hright⟩

end Cascade.IsReachable

end StyleLedger
