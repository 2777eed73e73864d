import StyleLedger.Proofs.Source.Evaluation
import StyleLedger.Proofs.Store.Reloaded
import StyleLedger.Proofs.Value

/-!
The custom properties that stand for tokens.

Every token that is not deleted declares a custom property, and a reference to the token becomes a
use of the property. Both take its name from the token, but a custom property cannot be called
everything that a token can, and tokens whose names are spelled alike have one property. It is then
declared once for each of them, and its uses do not tell them apart.

So a token that is not spelled like another one has a declaration of its own, which all references
to it lead to, and only such a token has (`Cascade.IsReachable.references_lead_to_declarations`).

* `Sheet.tokenDeclaration` — what a token declares.
* `Sheet.declaredFor` — the declarations that the use of a custom property leads to.
* `Cascade.tokensAlike` — the tokens that have one custom property.
-/

namespace StyleLedger

open Outcome
open Value (tokenVariable variableCall substituteTokens referencedName SpelledAlike)

/-! ## 1. Declarations and uses -/

/-- What a token declares. -/
def Sheet.tokenDeclaration (config : CompilerConfig) (name : String) (t : TokenEntry) :
    SheetDeclaration :=
  { name := tokenVariable config.tokenPrefix name, value := .text (substituted config t.value) }

/-- The declarations of custom properties that a use leads to. -/
def Sheet.declaredFor (sheet : Sheet) (call : List Char) : List SheetDeclaration :=
  sheet.root.filter fun d => ("var(" ++ d.name ++ ")").toList = call

namespace Cascade

variable {s : Cascade} {n : String} {t : TokenEntry}

/-- The tokens that are not deleted and are spelled like a name. -/
def tokensAlike (s : Cascade) (name : String) : List (Json × TokenEntry) :=
  s.liveTokens.filter fun e => SpelledAlike name e.1.shown

/-- A custom property is declared by all the tokens that are spelled alike. -/
theorem filter_root (s : Cascade) (config : CompilerConfig) (name : String) :
    (Sheet.ofCascade s config).root.filter (·.name = tokenVariable config.tokenPrefix name) =
      (s.tokensAlike name).map fun e => Sheet.tokenDeclaration config e.1.shown e.2 := by
  have hname : ∀ e : Json × TokenEntry,
      decide (tokenVariable config.tokenPrefix e.1.shown = tokenVariable config.tokenPrefix name) =
        decide (SpelledAlike name e.1.shown) := fun e =>
    decide_eq_decide.2 (eq_comm.trans Value.tokenVariable_eq_iff)
  simp only [Sheet.ofCascade, List.filter_map, Function.comp_def, hname]
  rfl

/-- The use that a reference becomes leads to the custom property of the token that it names. -/
theorem declaredFor_variableCall (s : Cascade) (config : CompilerConfig) (piece : List Char) :
    (Sheet.ofCascade s config).declaredFor (variableCall config.tokenPrefix piece) =
      (Sheet.ofCascade s config).root.filter
        (·.name = tokenVariable config.tokenPrefix (referencedName piece)) := by
  refine List.filter_congr fun d _ => decide_eq_decide.2 ?_
  rw [variableCall, String.toList_inj, String.append_left_inj, String.append_right_inj]

theorem mem_tokensAlike_iff {m : String} {u : TokenEntry} : (.text m, u) ∈ s.tokensAlike n ↔
    (.text m, u) ∈ s.liveTokens ∧ SpelledAlike n m := by
  rw [tokensAlike, List.mem_filter, decide_eq_true_eq]
  rfl

/-- A token is alone with its spelling exactly when no other token is spelled like it. -/
theorem tokensAlike_eq_singleton_iff {V : TokenEntry → Prop} (htokens : s.tokens.IsNamed V)
    (hlive : (.text n, t) ∈ s.liveTokens) : s.tokensAlike n = [(.text n, t)] ↔
      ∀ m u, (.text m, u) ∈ s.liveTokens → SpelledAlike n m → m = n := by
  have hself : (.text n, t) ∈ s.tokensAlike n :=
    mem_tokensAlike_iff.2 ⟨hlive, SpelledAlike.refl n⟩
  constructor
  · intro hsingle m u hm halike
    have hmem := mem_tokensAlike_iff.2 ⟨hm, halike⟩
    rw [hsingle, List.mem_singleton] at hmem
    exact Json.text.inj (Prod.mk.inj hmem).1
  · intro honly
    have hsub : (s.tokensAlike n).Sublist s.tokens.entries :=
      List.filter_sublist.trans List.filter_sublist
    have hnodup : ((s.tokensAlike n).map (·.1)).Nodup := htokens.distinct.sublist (hsub.map _)
    refine List.perm_singleton.1 ((List.perm_ext_iff_of_nodup (.of_map _ hnodup)
      (List.nodup_singleton _)).2 fun e => ?_)
    rw [List.mem_singleton]
    refine ⟨fun he => List.inj_on_of_nodup_map hnodup he hself ?_, fun he => he ▸ hself⟩
    obtain ⟨key, u⟩ := e
    obtain ⟨⟨m, rfl⟩, -⟩ := htokens.all _ (hsub.subset he)
    obtain ⟨hm, halike⟩ := mem_tokensAlike_iff.1 he
    exact congrArg Json.text (honly m u hm halike)

/-- A token has the only declaration of its custom property exactly when no other token is spelled
like it. -/
theorem filter_root_eq_singleton_iff {V : TokenEntry → Prop} (htokens : s.tokens.IsNamed V)
    (hlive : (.text n, t) ∈ s.liveTokens) (config : CompilerConfig) :
    (Sheet.ofCascade s config).root.filter (·.name = tokenVariable config.tokenPrefix n) =
        [Sheet.tokenDeclaration config n t] ↔
      ∀ m u, (.text m, u) ∈ s.liveTokens → SpelledAlike n m → m = n := by
  rw [filter_root, ← tokensAlike_eq_singleton_iff htokens hlive]
  constructor
  · intro hsingle
    obtain ⟨e, he, -⟩ := List.map_eq_singleton_iff.1 hsingle
    have hself := mem_tokensAlike_iff.2 ⟨hlive, SpelledAlike.refl n⟩
    rw [he, List.mem_singleton] at hself
    rw [he, hself]
  · intro hsingle
    rw [hsingle]
    rfl

namespace IsReachable

variable {migrations : List String} {ctx : Context}

/-- Where all names can be taken over as they are, every custom property is declared once. -/
theorem nodup_root (h : IsReachable migrations ctx s) (config : CompilerConfig)
    (hplain : ∀ m u, (.text m, u) ∈ s.liveTokens → ∀ c ∈ m.toList, Text.isNameChar c = true) :
    ((Sheet.ofCascade s config).root.map (·.name)).Nodup := by
  have hnamed : s.tokens.IsNamed fun _ => True := h.isSettled.1.rest.tokens
  have hkeys : (s.liveTokens.map (·.1)).Nodup :=
    hnamed.distinct.sublist (List.filter_sublist.map _)
  have hnames : (Sheet.ofCascade s config).root.map (·.name) =
      s.liveTokens.map fun e => tokenVariable config.tokenPrefix e.1.shown := by
    simp [Sheet.ofCascade]
  rw [hnames]
  refine List.Nodup.map_on ?_ (.of_map _ hkeys)
  rintro ⟨key, u⟩ he ⟨key', u'⟩ he' heq
  obtain ⟨⟨m, rfl⟩, -⟩ := hnamed.all _ (List.mem_of_mem_filter he)
  obtain ⟨⟨m', rfl⟩, -⟩ := hnamed.all _ (List.mem_of_mem_filter he')
  have hsame : m = m' := Value.eq_of_spelledAlike (hplain m u he) (hplain m' u' he')
    (Value.tokenVariable_eq_iff.1 heq)
  exact List.inj_on_of_nodup_map hkeys he he' (congrArg Json.text hsame)

/-- Whatever statements and reloads have led to: the custom property of a token is declared by all
tokens that are spelled like it, each with its own value, and by it alone exactly when there is no
other one. In any value, every reference to the token becomes a use of this property. A reference is
found wherever it stands, unless one that begins before goes on into it. -/
theorem references_lead_to_declarations (h : IsReachable migrations ctx s)
    (config : CompilerConfig) (hchars : ∀ c ∈ config.tokenPrefix.toList, Text.isNameChar c = true)
    (hlive : (.text n, t) ∈ s.liveTokens) :
    (∀ c ∈ (tokenVariable config.tokenPrefix n).toList, Text.isNameChar c = true) ∧
    (.text n, t) ∈ s.tokensAlike n ∧
    ((Sheet.ofCascade s config).root.filter (·.name = tokenVariable config.tokenPrefix n) =
      (s.tokensAlike n).map fun e => Sheet.tokenDeclaration config e.1.shown e.2) ∧
    ((Sheet.ofCascade s config).root.filter (·.name = tokenVariable config.tokenPrefix n) =
        [Sheet.tokenDeclaration config n t] ↔
      ∀ m u, (.text m, u) ∈ s.liveTokens → SpelledAlike n m → m = n) ∧
    (∀ value, substituteTokens config.tokenPrefix value = String.ofList
        ((Value.partition value).flatMap (·.replaced (variableCall config.tokenPrefix))) ∧
      ∀ piece, .piece piece ∈ Value.partition value → referencedName piece = n →
        (Sheet.ofCascade s config).declaredFor (variableCall config.tokenPrefix piece) =
          (Sheet.ofCascade s config).root.filter
            (·.name = tokenVariable config.tokenPrefix n)) ∧
    ∀ r : Value.Reference, String.ofList r.name = n → r.quote ∉ r.name → ∀ front back,
      ¬Value.Overlaps front (String.ofList r.text ++ back) →
      substituteTokens config.tokenPrefix (front ++ (String.ofList r.text ++ back)) =
        substituteTokens config.tokenPrefix front ++
          ("var(" ++ tokenVariable config.tokenPrefix n ++ ")" ++
            substituteTokens config.tokenPrefix back) := by
  refine ⟨Value.isNameChar_of_mem_tokenVariable hchars n,
    mem_tokensAlike_iff.2 ⟨hlive, SpelledAlike.refl n⟩, filter_root s config n,
    filter_root_eq_singleton_iff h.isSettled.1.rest.tokens hlive config,
    fun value => ⟨Value.substituteTokens_eq config.tokenPrefix value, ?_⟩, ?_⟩
  · rintro piece - rfl
    exact declaredFor_variableCall s config piece
  · rintro r rfl hplain front back hfree
    rw [Value.substituteTokens_append hfree, Value.substituteTokens_text_append hplain]

/-- A token, and one with a name of the same spelling that is deleted. -/
def respelledToken : String :=
  "CREATE TOKEN 'a-b' VALUE 1px; DROP TOKEN 'a-b'; CREATE TOKEN 'a/b' VALUE 2px;"

/-- The deleted token does not count, and a reference leads to the other one. -/
theorem references_lead_to_declarations_respelledToken : ∃ stmts,
    Source.parse respelledToken false = .ok stmts ∧
    let sheet := Sheet.ofCascade (Cascade.run {} {} stmts).state { tokenPrefix := "x-" }
    sheet.root.filter (·.name = "--x-a-b") = [{ name := "--x-a-b", value := .text "2px" }] ∧
    substituteTokens "x-" "calc(token( 'a/b') * 2)" = "calc(var(--x-a-b) * 2)" := by
  obtain ⟨stmts, hparse, htokens⟩ := exists_ok_of_any (x := Source.parse respelledToken false)
    (p := fun stmts => (Cascade.run {} {} stmts).state.liveTokens.map
      (fun e => (e.1, e.2.value)) = [(.text "a/b", .text "2px")])
    (by
      unfold respelledToken
      rw [Source.parse_ofList]
      decide +kernel)
  obtain ⟨⟨key, t⟩, hlive, heq⟩ := List.map_eq_singleton_iff.1 (of_decide_eq_true htokens)
  obtain ⟨rfl, hvalue⟩ := Prod.mk.inj heq
  have hreached : IsReachable [adhocMigration] (Cascade.run {} {} stmts).context
      (Cascade.run {} {} stmts).state :=
    (IsReachable.start {} (by decide)).run fun stmt hstmt => ⟨_, _, stmts, hparse, hstmt⟩
  obtain ⟨-, -, -, hdeclared, -, htext⟩ := references_lead_to_declarations hreached
    { tokenPrefix := "x-" } (List.all_eq_true.1 (by decide)) (n := "a/b") (t := t) (by simp [hlive])
  have hname : tokenVariable "x-" "a/b" = "--x-a-b" := by decide +kernel
  have hvariable : Sheet.tokenDeclaration { tokenPrefix := "x-" } "a/b" t =
      { name := "--x-a-b", value := .text "2px" } := by
    rw [Sheet.tokenDeclaration, hvalue]
    decide +kernel
  have honly := hdeclared.2 fun m u hm _ => by
    rw [hlive, List.mem_singleton] at hm
    exact Json.text.inj (Prod.mk.inj hm).1
  rw [hname, hvariable] at honly
  refine ⟨stmts, hparse, honly, ?_⟩
  have hfree : ¬"token(".toList <:+: "calc(".toList := by decide +kernel
  have hwritten := htext ⟨[' '], '\'', ['a', '/', 'b'], [], by simp [Text.isBlank], .inl rfl,
    by simp, by simp, by simp⟩ rfl (by simp) "calc(" " * 2)" (Value.not_overlaps hfree _ _)
  exact hwritten.trans (by decide +kernel)

/-- Two tokens whose names are spelled alike. -/
def collidingTokens : String :=
  "CREATE TOKEN 'a/b' VALUE 1px; CREATE TOKEN 'a-b' VALUE 2px;"

/-- Their custom property is declared twice, and a reference leads to both of them. -/
theorem not_references_lead_to_declarations : ∃ stmts t u,
    Source.parse collidingTokens false = .ok stmts ∧
    let s := (Cascade.run {} {} stmts).state
    IsReachable [adhocMigration] (Cascade.run {} {} stmts).context s ∧
    s.liveTokens = [(.text "a/b", t), (.text "a-b", u)] ∧
    (Sheet.ofCascade s {}).root = [{ name := "--a-b", value := .text "1px" },
      { name := "--a-b", value := .text "2px" }] ∧
    substituteTokens "" "token('a/b')" = "var(--a-b)" := by
  obtain ⟨stmts, hparse, htokens⟩ := exists_ok_of_any (x := Source.parse collidingTokens false)
    (p := fun stmts => (Cascade.run {} {} stmts).state.liveTokens.map
      (fun e => (e.1, e.2.value)) = [(.text "a/b", .text "1px"), (.text "a-b", .text "2px")])
    (by
      unfold collidingTokens
      rw [Source.parse_ofList]
      decide +kernel)
  simp only [decide_eq_true_eq, List.map_eq_cons_iff, List.map_eq_nil_iff, Prod.mk.injEq] at htokens
  obtain ⟨⟨_, t⟩, _, hlive, ⟨rfl, ht⟩, ⟨_, u⟩, _, rfl, ⟨rfl, hu⟩, rfl⟩ := htokens
  refine ⟨stmts, t, u, hparse, (IsReachable.start {} (by decide)).run fun stmt hstmt =>
    ⟨_, _, stmts, hparse, hstmt⟩, hlive, ?_, by decide +kernel⟩
  have hvalues : t.value = .text "1px" ∧ u.value = .text "2px" := ⟨ht, hu⟩
  simp only [Sheet.ofCascade, hlive, List.map_cons, List.map_nil, hvalues]
  decide +kernel

end IsReachable

end Cascade

end StyleLedger
