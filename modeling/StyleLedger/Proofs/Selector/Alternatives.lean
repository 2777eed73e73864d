import StyleLedger.Selector.Basic
import StyleLedger.Proofs.Table
import StyleLedger.Proofs.Descriptor.Columns
import Mathlib.Algebra.BigOperators.Group.List.Basic
import Mathlib.Algebra.Group.Nat.Units
import Mathlib.Tactic.Linarith
import Mathlib.Tactic.Ring

/-!
What the text of a selector definition says about its alternatives.

A definition stands for a list of alternatives: a list of selectors unites those of its parts, and
a compound, a child, a descendant or a join combines each alternative of its one side with each of
the other (`Selector.alternatives`). Its text is made without looking at alternatives, by writing
the sides next to each other, and a comma binds weakest of all. So the text, cut at its commas,
gives the alternatives only where no list of several selectors is combined with anything
(`IsFlat`), and there it does (`IsFlat.listed_render`).

That it does nowhere else is a matter of counting characters. With two characters added for the
separator behind each, the selectors that a text lists are as long as the text (`weight_listed`),
and the alternatives are never shorter; where two alternatives of one side are combined with the
other side, that side is written twice, so they are longer (`Denotes.le_weight_combine`).

* `Selector.expand` — a definition with its references replaced by what they refer to.
* `Selector.listed` — the selectors that a text lists.
* `Selector.IsWhole` — no leaf is empty or has a comma.
* `Selector.Denotes` — what holds of a text and its alternatives, whatever they are made of.
-/

namespace StyleLedger

namespace Selector

open Text

/-! ## 1. References -/

mutual

/-- A definition with other definitions in the place of its references. -/
def substitute (target : Json → Selector) : Selector → Selector
  | reference name => target name
  | and parts => and (substituteParts target parts)
  | or parts => or (substituteParts target parts)
  | child p c => child (substitute target p) (substitute target c)
  | descendant a d => descendant (substitute target a) (substitute target d)
  | join kind l r => join kind (substitute target l) (substitute target r)
  | s => s

/-- Some definitions with other definitions in the place of their references. -/
def substituteParts (target : Json → Selector) : List Selector → List Selector
  | [] => []
  | s :: ss => substitute target s :: substituteParts target ss

end

/-- A definition without references, when at most `depth` names are expanded inside one another. -/
def expandWithin : Nat → Table Json Selector → Selector → Selector
  | 0, _, s => s.substitute cls
  | depth + 1, definitions, s => s.substitute fun name =>
    match definitions.get? name with
    | none => cls name
    | some target => expandWithin depth (definitions.erase name) target

/-- A definition with its references replaced by what they refer to; a name without a definition,
and one that would close a circle, is a class. -/
def expand (definitions : Table Json Selector) (s : Selector) : Selector :=
  expandWithin definitions.size definitions s

mutual

theorem render_substitute (text : Json → String) (target : Json → Selector) : ∀ s : Selector,
    (s.substitute target).render text = s.render fun name => (target name).render text
  | element _ | cls _ | id _ | pseudo _ | pseudoElement _ | attr .. => rfl
  | reference _ => rfl
  | and parts => by simp only [substitute, render, renderParts_substitute text target parts]
  | or parts => by simp only [substitute, render, renderParts_substitute text target parts]
  | child p c => by
    simp only [substitute, render, render_substitute text target p, render_substitute text target c]
  | descendant a d => by
    simp only [substitute, render, render_substitute text target a, render_substitute text target d]
  | join _ l r => by
    simp only [substitute, render, render_substitute text target l, render_substitute text target r]

theorem renderParts_substitute (text : Json → String) (target : Json → Selector) :
    ∀ ss : List Selector, renderParts text (substituteParts target ss) =
      renderParts (fun name => (target name).render text) ss
  | [] => rfl
  | s :: ss => by
    simp only [substituteParts, renderParts, render_substitute text target s,
      renderParts_substitute text target ss]

end

theorem resolveWithin_eq : ∀ (depth : Nat) (definitions : Table Json Selector) (s : Selector),
    resolveWithin depth definitions s = (expandWithin depth definitions s).render asClass
  | 0, _, s => by
    rw [resolveWithin, expandWithin, render_substitute]
    rfl
  | depth + 1, definitions, s => by
    rw [resolveWithin, expandWithin, render_substitute]
    congr 1
    funext name
    cases definitions.get? name with
    | none => rfl
    | some target => exact resolveWithin_eq depth (definitions.erase name) target

/-- The text of a definition is that of its expansion. -/
theorem resolve_eq_render_expand (definitions : Table Json Selector) (s : Selector) :
    resolve definitions s = (s.expand definitions).render asClass :=
  resolveWithin_eq definitions.size definitions s

/-! ## 2. Alternatives -/

/-- Each text of the left side with each of the right side. -/
def combine (separator : String) (ls rs : List String) : List String :=
  ls.flatMap fun l => rs.map fun r => l ++ separator ++ r

mutual

/-- The alternatives of a definition. -/
def alternatives : Selector → List String
  | and parts => compounds parts
  | or parts => choices parts
  | child p c => combine " > " (alternatives p) (alternatives c)
  | descendant a d => combine " " (alternatives a) (alternatives d)
  | join kind l r => combine kind.separator (alternatives l) (alternatives r)
  | s => [s.render asClass]

/-- What the parts of a compound make together. -/
def compounds : List Selector → List String
  | [] => [""]
  | s :: ss => combine "" (alternatives s) (compounds ss)

/-- What the parts of a list offer. -/
def choices : List Selector → List String
  | [] => []
  | s :: ss => alternatives s ++ choices ss

end

/-- A list of several selectors is never combined with anything: the definition has one
alternative, or it is a list of such definitions. -/
inductive IsFlat : Selector → Prop
  | single {s : Selector} (h : s.alternatives.length = 1) : IsFlat s
  | or {parts : List Selector} (h : ∀ p ∈ parts, IsFlat p) : IsFlat (or parts)
  | and {p : Selector} (h : IsFlat p) : IsFlat (and [p])

mutual

/-- Every leaf has a text without a comma; a compound or a list without parts is a leaf without a
text. -/
def IsWhole : Selector → Prop
  | and parts => parts ≠ [] ∧ AreWhole parts
  | or parts => parts ≠ [] ∧ AreWhole parts
  | child p c => IsWhole p ∧ IsWhole c
  | descendant a d => IsWhole a ∧ IsWhole d
  | join _ l r => IsWhole l ∧ IsWhole r
  | s => s.render asClass ≠ "" ∧ ',' ∉ (s.render asClass).toList

/-- Every leaf of some definitions has a text without a comma. -/
def AreWhole : List Selector → Prop
  | [] => True
  | s :: ss => IsWhole s ∧ AreWhole ss

end

theorem substituteParts_ne_nil (target : Json → Selector) {ss : List Selector} (h : ss ≠ []) :
    substituteParts target ss ≠ [] := by
  cases ss with
  | nil => contradiction
  | cons s ss => simp [substituteParts]

mutual

theorem IsWhole.substitute {target : Json → Selector}
    (h : ∀ name, IsWhole (reference name) → IsWhole (target name)) :
    ∀ {s : Selector}, s.IsWhole → (s.substitute target).IsWhole
  | element _, hs | cls _, hs | id _, hs | pseudo _, hs | pseudoElement _, hs | attr .., hs => hs
  | reference name, hs => h name hs
  | and _, hs => ⟨substituteParts_ne_nil target hs.1, AreWhole.substituteParts h hs.2⟩
  | or _, hs => ⟨substituteParts_ne_nil target hs.1, AreWhole.substituteParts h hs.2⟩
  | child .., hs => ⟨IsWhole.substitute h hs.1, IsWhole.substitute h hs.2⟩
  | descendant .., hs => ⟨IsWhole.substitute h hs.1, IsWhole.substitute h hs.2⟩
  | join .., hs => ⟨IsWhole.substitute h hs.1, IsWhole.substitute h hs.2⟩

theorem AreWhole.substituteParts {target : Json → Selector}
    (h : ∀ name, IsWhole (reference name) → IsWhole (target name)) :
    ∀ {ss : List Selector}, AreWhole ss → AreWhole (substituteParts target ss)
  | [], _ => trivial
  | _ :: _, hss => ⟨IsWhole.substitute h hss.1, AreWhole.substituteParts h hss.2⟩

end

theorem IsWhole.expandWithin : ∀ {depth : Nat} {definitions : Table Json Selector} {s : Selector},
    s.IsWhole → definitions.All (fun _ d => d.IsWhole) →
    (s.expandWithin depth definitions).IsWhole
  | 0, _, s, hs, _ => by
    have hclass : ∀ name, IsWhole (reference name) → IsWhole (cls name) := fun _ h => h
    exact IsWhole.substitute hclass hs
  | depth + 1, definitions, s, hs, hdefinitions => by
    refine IsWhole.substitute (fun name hname => ?_) hs
    cases htarget : definitions.get? name with
    | none => exact hname
    | some target =>
      have hwhole : target.IsWhole :=
        Table.All.get? (hdefinitions.imp fun _ _ h => ⟨trivial, h⟩) htarget
      exact IsWhole.expandWithin hwhole (hdefinitions.erase name)

/-! ## 3. Lists in a text -/

/-- The number of characters of a separator at the front of a text. -/
def commaLength : List Char → Nat
  | ',' :: ' ' :: _ => 2
  | _ => 0

/-- The selectors that a text lists. -/
def listed (text : String) : List String :=
  (Text.parts commaLength text.toList).map String.ofList

theorem commaLength_cons {c : Char} {cs : List Char} (h : c ≠ ',' ∨ cs.head? ≠ some ' ') :
    commaLength (c :: cs) = 0 := by
  rw [commaLength]
  rintro ds heq
  obtain ⟨rfl, rfl⟩ := List.cons.inj heq
  simp at h

theorem occurs_commaLength {cs : List Char} (h : ',' ∉ cs) : occurs commaLength cs = false := by
  induction cs with
  | nil => rfl
  | cons c cs ih =>
    obtain ⟨hc, hcs⟩ := not_or.1 (List.mem_cons.not.1 h)
    simp [occurs, commaLength_cons (.inl (Ne.symm hc)), ih hcs]

/-- A text without a comma lists itself. -/
theorem listed_of_not_mem {text : String} (h : ',' ∉ text.toList) : listed text = [text] := by
  rw [listed, parts, partsFrom_of_not_occurs (occurs_commaLength h)]
  simp

/-- Reading goes on behind a separator as at the start of a text. -/
theorem partsFrom_separator (part ys : List Char) :
    partsFrom commaLength part 0 (',' :: ' ' :: ys) =
      part.reverse :: partsFrom commaLength [] 0 ys := by
  rw [partsFrom_cut rfl]
  rfl

theorem partsFrom_append_separator (ys : List Char) : ∀ (xs part : List Char),
    partsFrom commaLength part 0 (xs ++ ',' :: ' ' :: ys) =
      partsFrom commaLength part 0 xs ++ partsFrom commaLength [] 0 ys
  | [], part => partsFrom_separator part ys
  | [c], part => by
    rw [List.singleton_append, partsFrom_keep (commaLength_cons (.inr (by simp))),
      partsFrom_separator, partsFrom_keep (commaLength_cons (.inr (by simp)))]
    rfl
  | c :: d :: xs, part => by
    by_cases hcut : c = ',' ∧ d = ' '
    · obtain ⟨rfl, rfl⟩ := hcut
      rw [List.cons_append, List.cons_append, partsFrom_separator, partsFrom_separator,
        partsFrom_append_separator ys xs [], List.cons_append]
    · have hkeep : ∀ zs, commaLength (c :: d :: zs) = 0 := fun zs =>
        commaLength_cons (by simpa using not_and_or.1 hcut)
      rw [List.cons_append, List.cons_append, partsFrom_keep (hkeep _), partsFrom_keep (hkeep _)]
      exact partsFrom_append_separator ys (d :: xs) (c :: part)

/-- Two texts with a separator between them list what each of them lists. -/
theorem listed_append_separator (x y : String) :
    listed (x ++ ", " ++ y) = listed x ++ listed y := by
  have hchars : (x ++ ", " ++ y).toList = x.toList ++ ',' :: ' ' :: y.toList := by simp
  rw [listed, parts, hchars, partsFrom_append_separator, List.map_append]
  rfl

/-- The characters of some texts, with a separator behind each. -/
def weight (texts : List String) : Nat :=
  (texts.map fun t => t.length + 2).sum

@[simp] theorem weight_nil : weight [] = 0 := rfl

@[simp] theorem weight_cons (t : String) (ts : List String) :
    weight (t :: ts) = t.length + 2 + weight ts := by
  simp [weight]

@[simp] theorem weight_append (ts us : List String) :
    weight (ts ++ us) = weight ts + weight us := by
  simp [weight]

theorem weight_partsFrom : ∀ (cs part : List Char),
    weight ((partsFrom commaLength part 0 cs).map String.ofList) = part.length + cs.length + 2
  | [], part => by simp [partsFrom, weight]
  | [c], part => by
    rw [partsFrom_keep (commaLength_cons (.inr (by simp)))]
    simp [partsFrom, weight]
  | c :: d :: cs, part => by
    by_cases hcut : c = ',' ∧ d = ' '
    · obtain ⟨rfl, rfl⟩ := hcut
      rw [partsFrom_separator, List.map_cons, weight_cons, weight_partsFrom cs []]
      simp only [String.length_ofList, List.length_reverse, List.length_nil, List.length_cons]
      omega
    · rw [partsFrom_keep (commaLength_cons (by simpa using not_and_or.1 hcut)),
        weight_partsFrom (d :: cs) (c :: part)]
      simp only [List.length_cons]
      omega

/-- The selectors that a text lists are as long as the text, up to one separator. -/
theorem weight_listed (text : String) : weight (listed text) = text.length + 2 := by
  rw [listed, parts, weight_partsFrom, String.length_toList]
  simp

@[simp] theorem length_combine (separator : String) (xs ys : List String) :
    (combine separator xs ys).length = xs.length * ys.length := by
  simp [combine]

theorem weight_combine (separator : String) (xs ys : List String) :
    weight (combine separator xs ys) + 2 * (xs.length * ys.length) =
      ys.length * weight xs + xs.length * weight ys +
        xs.length * ys.length * separator.length := by
  have hside : ∀ (x : String) (ys : List String),
      weight (ys.map fun y => x ++ separator ++ y) = ys.length * (x.length + separator.length) +
        weight ys := by
    intro x ys
    induction ys with
    | nil => simp
    | cons y ys ih =>
      simp only [List.map_cons, weight_cons, ih, String.length_append, List.length_cons]
      ring
  induction xs with
  | nil => simp [combine]
  | cons x xs ih =>
    have hsplit : combine separator (x :: xs) ys =
        (ys.map fun y => x ++ separator ++ y) ++ combine separator xs ys := rfl
    rw [hsplit, weight_append, hside, weight_cons, List.length_cons]
    linarith

/-! ## 4. Texts and alternatives -/

/-- What a text and the alternatives it stands for have in common, wherever they come from. -/
structure Denotes (text : String) (alternatives : List String) : Prop where
  ne_nil : alternatives ≠ []
  ne_empty : ∀ a ∈ alternatives, a ≠ ""
  single : alternatives.length = 1 → alternatives = [text] ∧ ',' ∉ text.toList
  le : text.length + 2 ≤ weight alternatives

namespace Denotes

theorem length_pos {text : String} {as : List String} (h : Denotes text as) : 0 < as.length :=
  List.length_pos_iff.2 h.ne_nil

theorem three_mul_length_le {text : String} {as : List String} (h : Denotes text as) :
    3 * as.length ≤ weight as := by
  have hlong : ∀ as : List String, (∀ a ∈ as, a ≠ "") → 3 * as.length ≤ weight as := by
    intro as has
    induction as with
    | nil => simp
    | cons a as ih =>
      obtain ⟨ha, has⟩ := List.forall_mem_cons.1 has
      have hpos : a.length ≠ 0 := String.length_eq_zero_iff.not.2 ha
      have := ih has
      simp only [List.length_cons, weight_cons]
      omega
  exact hlong as h.ne_empty

theorem leaf {text : String} (hne : text ≠ "") (hcomma : ',' ∉ text.toList) :
    Denotes text [text] := by
  refine ⟨by simp, by simpa using hne, fun _ => ⟨rfl, hcomma⟩, by simp⟩

/-! ### Lists -/

variable {x y : String} {xs ys : List String}

theorem append (hx : Denotes x xs) (hy : Denotes y ys) : Denotes (x ++ ", " ++ y) (xs ++ ys) := by
  have hxs := hx.length_pos
  have hys := hy.length_pos
  refine ⟨by simp [hx.ne_nil], List.forall_mem_append.2 ⟨hx.ne_empty, hy.ne_empty⟩, ?_, ?_⟩
  · intro hone
    rw [List.length_append] at hone
    omega
  · have hcomma : ", ".length = 2 := rfl
    have := hx.le
    have := hy.le
    rw [weight_append, String.length_append, String.length_append]
    omega

/-- If the alternatives of a list are as long as its text, so are those of its parts. -/
theorem weight_append_eq (hx : Denotes x xs) (hy : Denotes y ys)
    (h : weight (xs ++ ys) = (x ++ ", " ++ y).length + 2) :
    weight xs = x.length + 2 ∧ weight ys = y.length + 2 := by
  have hcomma : ", ".length = 2 := rfl
  have := hx.le
  have := hy.le
  rw [weight_append, String.length_append, String.length_append] at h
  omega

/-! ### Combinations -/

/-- Combined alternatives are longer than the sides next to each other, by at least one character
for each alternative of a side after its first: the other side is written once more. -/
theorem le_weight_combine (separator : String) (hx : Denotes x xs) (hy : Denotes y ys) :
    (x ++ separator ++ y).length + 2 + (xs.length - 1) + (ys.length - 1) ≤
      weight (combine separator xs ys) := by
  obtain ⟨a, ha⟩ : ∃ a, xs.length = a + 1 := Nat.exists_eq_succ_of_ne_zero hx.length_pos.ne'
  obtain ⟨b, hb⟩ : ∃ b, ys.length = b + 1 := Nat.exists_eq_succ_of_ne_zero hy.length_pos.ne'
  have hxs : 3 * (a + 1) ≤ weight xs := ha ▸ hx.three_mul_length_le
  have hys : 3 * (b + 1) ≤ weight ys := hb ▸ hy.three_mul_length_le
  have hweight := weight_combine separator xs ys
  have hxle := hx.le
  have hyle := hy.le
  rw [ha, hb] at hweight ⊢
  rw [String.length_append, String.length_append]
  have hcross := Nat.mul_le_mul_left b hxs
  have hcross' := Nat.mul_le_mul_left a hys
  have hsep := Nat.zero_le ((a * b + a + b) * separator.length)
  simp only [Nat.add_sub_cancel]
  nlinarith

theorem combine (separator : String) (hsep : ',' ∉ separator.toList) (hx : Denotes x xs)
    (hy : Denotes y ys) : Denotes (x ++ separator ++ y) (Selector.combine separator xs ys) := by
  have hle := le_weight_combine separator hx hy
  refine ⟨?_, ?_, ?_, by omega⟩
  · rw [← List.length_pos_iff, length_combine]
    exact Nat.mul_pos hx.length_pos hy.length_pos
  · intro a ha
    simp only [Selector.combine, List.mem_flatMap, List.mem_map] at ha
    obtain ⟨l, hl, r, -, rfl⟩ := ha
    simp [hx.ne_empty l hl]
  · intro hone
    rw [length_combine, mul_eq_one] at hone
    obtain ⟨rfl, hxcomma⟩ := hx.single hone.1
    obtain ⟨rfl, hycomma⟩ := hy.single hone.2
    simp [Selector.combine, hxcomma, hycomma, hsep]

/-- If the alternatives of a combination are as long as its text, there is only one. -/
theorem length_combine_of_weight {separator : String} (hx : Denotes x xs) (hy : Denotes y ys)
    (h : weight (Selector.combine separator xs ys) = (x ++ separator ++ y).length + 2) :
    (Selector.combine separator xs ys).length = 1 := by
  have hle := le_weight_combine separator hx hy
  have hxs : xs.length = 1 := by have := hx.length_pos; omega
  have hys : ys.length = 1 := by have := hy.length_pos; omega
  rw [length_combine, hxs, hys]

end Denotes

theorem comma_not_mem_separator (kind : JoinKind) : ',' ∉ kind.separator.toList := by
  cases kind <;> decide

theorem render_and_cons (p q : Selector) (ps : List Selector) :
    (and (p :: q :: ps)).render asClass =
      p.render asClass ++ "" ++ (and (q :: ps)).render asClass := by
  simp [render, renderParts, String.intercalate_cons_cons]

theorem render_or_cons (p q : Selector) (ps : List Selector) :
    (or (p :: q :: ps)).render asClass =
      p.render asClass ++ ", " ++ (or (q :: ps)).render asClass := by
  simp [render, renderParts, String.intercalate_cons_cons]

theorem render_and_singleton (p : Selector) : (and [p]).render asClass = p.render asClass := by
  simp [render, renderParts]

theorem render_or_singleton (p : Selector) : (or [p]).render asClass = p.render asClass := by
  simp [render, renderParts]

theorem compounds_singleton (p : Selector) : compounds [p] = p.alternatives := by
  simp [compounds, combine]

theorem choices_singleton (p : Selector) : choices [p] = p.alternatives := by
  simp [choices]

mutual

theorem IsWhole.denotes : ∀ {s : Selector}, s.IsWhole → Denotes (s.render asClass) s.alternatives
  | element _, h | cls _, h | id _, h | pseudo _, h | pseudoElement _, h | attr .., h
  | reference _, h => .leaf h.1 h.2
  | and _, h => AreWhole.denotes_compounds h.1 h.2
  | or _, h => AreWhole.denotes_choices h.1 h.2
  | child .., h => .combine " > " (by decide) (IsWhole.denotes h.1) (IsWhole.denotes h.2)
  | descendant .., h => .combine " " (by decide) (IsWhole.denotes h.1) (IsWhole.denotes h.2)
  | join kind .., h =>
    .combine kind.separator (comma_not_mem_separator kind) (IsWhole.denotes h.1)
      (IsWhole.denotes h.2)

theorem AreWhole.denotes_compounds : ∀ {ss : List Selector}, ss ≠ [] → AreWhole ss →
    Denotes ((and ss).render asClass) (compounds ss)
  | [p], _, h => by
    rw [render_and_singleton, compounds_singleton]
    exact IsWhole.denotes h.1
  | p :: q :: ps, _, h => by
    rw [render_and_cons]
    exact .combine "" (by decide) (IsWhole.denotes h.1)
      (AreWhole.denotes_compounds (List.cons_ne_nil q ps) h.2)

theorem AreWhole.denotes_choices : ∀ {ss : List Selector}, ss ≠ [] → AreWhole ss →
    Denotes ((or ss).render asClass) (choices ss)
  | [p], _, h => by
    rw [render_or_singleton, choices_singleton]
    exact IsWhole.denotes h.1
  | p :: q :: ps, _, h => by
    rw [render_or_cons]
    exact (IsWhole.denotes h.1).append (AreWhole.denotes_choices (List.cons_ne_nil q ps) h.2)

end

/-! ## 5. Flat definitions -/

theorem listed_render_or : ∀ {parts : List Selector}, parts ≠ [] →
    (∀ p ∈ parts, listed (p.render asClass) = p.alternatives) →
    listed ((or parts).render asClass) = choices parts
  | [p], _, h => by
    rw [render_or_singleton, choices_singleton]
    exact h p List.mem_cons_self
  | p :: q :: ps, _, h => by
    obtain ⟨hp, hps⟩ := List.forall_mem_cons.1 h
    rw [render_or_cons, listed_append_separator, hp, listed_render_or (List.cons_ne_nil q ps) hps]
    rfl

theorem AreWhole.of_mem : ∀ {ss : List Selector}, AreWhole ss → ∀ s ∈ ss, s.IsWhole
  | _ :: _, h, _, hs => (List.mem_cons.1 hs).elim (· ▸ h.1) (AreWhole.of_mem h.2 _)

/-- The text of a flat definition lists its alternatives. -/
theorem IsFlat.listed_render {s : Selector} (hflat : s.IsFlat) (h : s.IsWhole) :
    listed (s.render asClass) = s.alternatives := by
  induction hflat with
  | single hone =>
    obtain ⟨halternatives, hcomma⟩ := h.denotes.single hone
    rw [halternatives, listed_of_not_mem hcomma]
  | or _ ih => exact listed_render_or h.1 fun p hp => ih p hp (h.2.of_mem p hp)
  | and _ ih =>
    rw [render_and_singleton, ih h.2.1, alternatives, compounds_singleton]

mutual

/-- Only the alternatives of flat definitions are as long as the text. -/
theorem isFlat_of_weight : ∀ {s : Selector}, s.IsWhole →
    weight s.alternatives = (s.render asClass).length + 2 → s.IsFlat
  | element _, _, _ | cls _, _, _ | id _, _, _ | pseudo _, _, _ | pseudoElement _, _, _
  | attr .., _, _ | reference _, _, _ => .single rfl
  | and [p], hs, h => by
    rw [render_and_singleton, alternatives, compounds_singleton] at h
    exact .and (isFlat_of_weight hs.2.1 h)
  | and (p :: q :: ps), hs, h => by
    rw [render_and_cons] at h
    have hrest := hs.2.2.denotes_compounds (List.cons_ne_nil q ps)
    exact .single (hs.2.1.denotes.length_combine_of_weight hrest h)
  | or _, hs, h => .or (forall_isFlat_of_weight hs.1 hs.2 h)
  | child .., hs, h => .single (hs.1.denotes.length_combine_of_weight hs.2.denotes h)
  | descendant .., hs, h => .single (hs.1.denotes.length_combine_of_weight hs.2.denotes h)
  | join .., hs, h => .single (hs.1.denotes.length_combine_of_weight hs.2.denotes h)

theorem forall_isFlat_of_weight : ∀ {ss : List Selector}, ss ≠ [] → AreWhole ss →
    weight (choices ss) = ((or ss).render asClass).length + 2 → ∀ s ∈ ss, s.IsFlat
  | [p], _, hss, h => by
    rw [render_or_singleton, choices_singleton] at h
    exact List.forall_mem_singleton.2 (isFlat_of_weight hss.1 h)
  | p :: q :: ps, _, hss, h => by
    rw [render_or_cons, choices] at h
    have hrest := hss.2.denotes_choices (List.cons_ne_nil q ps)
    obtain ⟨hp, hps⟩ := hss.1.denotes.weight_append_eq hrest h
    exact List.forall_mem_cons.2 ⟨isFlat_of_weight hss.1 hp,
      forall_isFlat_of_weight (List.cons_ne_nil q ps) hss.2 hps⟩

end

/-- The text of a definition lists the alternatives of its expansion, in their order, exactly if
the expansion is flat; in any other case it does not list them in another order either. -/
theorem listed_resolve_iff {definitions : Table Json Selector} {s : Selector} (hs : s.IsWhole)
    (hdefinitions : definitions.All fun _ d => d.IsWhole) :
    let tree := s.expand definitions
    (listed (resolve definitions s) = tree.alternatives ↔ tree.IsFlat) ∧
      ((listed (resolve definitions s)).Perm tree.alternatives ↔ tree.IsFlat) := by
  intro tree
  have htree : tree.IsWhole := hs.expandWithin hdefinitions
  rw [resolve_eq_render_expand]
  have hlisted : tree.IsFlat → listed (tree.render asClass) = tree.alternatives :=
    fun hflat => hflat.listed_render htree
  have hflat : (listed (tree.render asClass)).Perm tree.alternatives → tree.IsFlat := by
    intro hperm
    refine isFlat_of_weight htree ?_
    rw [← weight_listed]
    exact ((hperm.map _).sum_eq).symm
  exact ⟨⟨fun h => hflat (.of_eq h), hlisted⟩, hflat, fun h => .of_eq (hlisted h)⟩

/-- A list behind a reference, within a list. -/
theorem listed_resolve_links :
    let links := or [and [element (.text "a"), pseudo (.text "hover")], id (.text "more")]
    let s := or [reference (.text "links"), child (cls (.text "nav")) (reference (.text "missing"))]
    listed (resolve (.ofList [(.text "links", links)]) s) =
      ["a:hover", "#more", ".nav > .missing"] := by
  intro links s
  have hlinks : links.IsWhole := by
    simp [links, IsWhole, AreWhole, render, Json.shown]
  have hs : s.IsWhole := by simp [s, IsWhole, AreWhole, render, Json.shown, asClass]
  have hflat : (s.expand (.ofList [(.text "links", links)])).IsFlat := by
    refine .or (List.forall_mem_cons.2 ⟨.or ?_, List.forall_mem_singleton.2 (.single rfl)⟩)
    exact List.forall_mem_cons.2 ⟨.single rfl, List.forall_mem_singleton.2 (.single rfl)⟩
  have hlisted := (listed_resolve_iff hs fun e he => by
    rw [List.mem_singleton.1 he]; exact hlinks).1.2 hflat
  rw [hlisted]
  decide +kernel

/-- What stands behind a list in a compound, or before a reference to a list, is written next to one
selector of the list only. -/
theorem listed_resolve_hovered_list :
    let list := or [cls (.text "a"), cls (.text "b")]
    let hovered := and [list, pseudo (.text "hover")]
    let nested := child (cls (.text "nav")) (reference (.text "list"))
    let definitions : Table Json Selector := .ofList [(.text "list", list)]
    listed (resolve definitions hovered) = [".a", ".b:hover"] ∧
      (hovered.expand definitions).alternatives = [".a:hover", ".b:hover"] ∧
      listed (resolve definitions nested) = [".nav > .a", ".b"] ∧
      (nested.expand definitions).alternatives = [".nav > .a", ".nav > .b"] := by
  decide +kernel

end Selector

end StyleLedger
