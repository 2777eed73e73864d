import Mathlib.Data.List.Forall2

/-!
Runs that can be refused.

A chain of steps that can be refused succeeds exactly when every step of it does
(`bind_eq_ok`), so what a run ends in is found by taking its steps apart one after another. For
steps taken over a list this gives what every step keeps, and where every result comes from.

Steps that write to a state they share are not undone when a later one is refused
(`ofAction_bind`).
-/

namespace StyleLedger

namespace Outcome

variable {ε α β σ : Type}

instance decidableEq [DecidableEq ε] [DecidableEq α] : DecidableEq (Except ε α)
  | .ok a, .ok b => decidable_of_iff (a = b) (by simp)
  | .error e, .error e' => decidable_of_iff (e = e') (by simp)
  | .ok _, .error _ => isFalse (by simp)
  | .error _, .ok _ => isFalse (by simp)

theorem bind_eq_ok {x : Except ε α} {f : α → Except ε β} {b : β} :
    x >>= f = .ok b ↔ ∃ a, x = .ok a ∧ f a = .ok b := by
  cases x with
  | error e => simp [bind, Except.bind]
  | ok a => simp [bind, Except.bind]

theorem pure_eq_ok {a b : α} : (pure a : Except ε α) = .ok b ↔ a = b := by
  simp [pure, Except.pure]

theorem map_eq_ok {f : α → β} {x : Except ε α} {b : β} :
    f <$> x = .ok b ↔ ∃ a, x = .ok a ∧ f a = b := by
  cases x with
  | error e => simp [Functor.map, Except.map]
  | ok a => simp [Functor.map, Except.map]

/-- A chain of two steps succeeds when both do, if the second does not depend on the first. -/
theorem exists_bind_iff {x : Except ε α} {f : α → Except ε β} {Q : Prop}
    (h : ∀ a, x = .ok a → ((∃ b, f a = .ok b) ↔ Q)) :
    (∃ b, x >>= f = .ok b) ↔ (∃ a, x = .ok a) ∧ Q := by
  simp only [bind_eq_ok]
  constructor
  · rintro ⟨b, a, ha, hb⟩
    exact ⟨⟨a, ha⟩, (h a ha).1 ⟨b, hb⟩⟩
  · rintro ⟨⟨a, ha⟩, hQ⟩
    obtain ⟨b, hb⟩ := (h a ha).2 hQ
    exact ⟨b, a, ha, hb⟩

theorem mapError_eq_ok {f : ε → σ} {x : Except ε α} {a : α} :
    x.mapError f = .ok a ↔ x = .ok a := by
  cases x with
  | error e => simp [Except.mapError]
  | ok b => simp [Except.mapError]

theorem some_map_eq_ok {x : Except ε α} {a : α} :
    some <$> x = .ok (some a) ↔ x = .ok a := by
  cases x with
  | error e => simp [Functor.map, Except.map]
  | ok b => simp [Functor.map, Except.map]

/-- A test that the result of a run passes. -/
theorem exists_ok_of_any {x : Except ε α} {p : α → Bool} (h : x.toOption.any p = true) :
    ∃ a, x = .ok a ∧ p a = true := by
  cases x with
  | error e => simp [Except.toOption] at h
  | ok a => exact ⟨a, rfl, h⟩

theorem eq_ok_of_toOption {x : Except ε α} {a : α}
    (h : x.toOption = some a) : x = .ok a := by
  cases x with
  | error e => simp [Except.toOption] at h
  | ok b => exact congrArg Except.ok (Option.some.inj h)

/-- A run whose first step succeeds goes on from there. -/
theorem foldlM_cons_of_ok {f : σ → α → Except ε σ} {s t : σ} {x : α} (h : f s x = .ok t)
    (xs : List α) : (x :: xs).foldlM f s = xs.foldlM f t := by
  rw [List.foldlM_cons, h]
  rfl

/-- What every step keeps is kept by all of them. -/
theorem foldlM_keeps {P : σ → Prop} {f : σ → α → Except ε σ} :
    ∀ {xs : List α} {s t : σ}, (∀ x ∈ xs, ∀ s t, P s → f s x = .ok t → P t) → P s →
      xs.foldlM f s = .ok t → P t
  | [], s, t, _, hs, h => by
    obtain rfl : s = t := pure_eq_ok.1 (by simpa using h)
    exact hs
  | x :: xs, s, t, hstep, hs, h => by
    rw [List.foldlM_cons] at h
    obtain ⟨u, hu, ht⟩ := bind_eq_ok.1 h
    exact foldlM_keeps (fun y hy => hstep y (List.mem_cons_of_mem x hy))
      (hstep x List.mem_cons_self s u hs hu) ht

/-- A run succeeds when every step does, if no step depends on the ones before it. -/
theorem exists_foldlM_iff {f : σ → α → Except ε σ} {Q : α → Prop} :
    ∀ {xs : List α} {s : σ}, (∀ x ∈ xs, ∀ s, (∃ t, f s x = .ok t) ↔ Q x) →
      ((∃ t, xs.foldlM f s = .ok t) ↔ ∀ x ∈ xs, Q x)
  | [], s, _ => iff_of_true ⟨s, rfl⟩ (by simp)
  | x :: xs, s, h => by
    rw [List.foldlM_cons, exists_bind_iff fun t _ =>
      exists_foldlM_iff (s := t) fun y hy => h y (List.mem_cons_of_mem x hy),
      h x List.mem_cons_self, List.forall_mem_cons]

/-- What can be exchanged with every step can be exchanged with all of them. -/
theorem foldlM_exchange {f : σ → α → Except ε σ} {g : σ → σ} :
    ∀ {xs : List α} {s t : σ}, (∀ x ∈ xs, ∀ s t, f s x = .ok t → f (g s) x = .ok (g t)) →
      xs.foldlM f s = .ok t → xs.foldlM f (g s) = .ok (g t)
  | [], s, t, _, h => by
    obtain rfl : s = t := pure_eq_ok.1 (by simpa using h)
    rfl
  | x :: xs, s, t, hstep, h => by
    rw [List.foldlM_cons] at h
    obtain ⟨u, hu, ht⟩ := bind_eq_ok.1 h
    rw [foldlM_cons_of_ok (hstep x List.mem_cons_self s u hu)]
    exact foldlM_exchange (fun y hy => hstep y (List.mem_cons_of_mem x hy)) ht

/-- A run over a list with one more element goes on from where the list has led. -/
theorem foldlM_concat {f : σ → α → Except ε σ} {xs : List α} {s t u : σ} {x : α}
    (h : xs.foldlM f s = .ok t) (hx : f t x = .ok u) : (xs ++ [x]).foldlM f s = .ok u := by
  rw [List.foldlM_append, h]
  show [x].foldlM f t = .ok u
  rw [foldlM_cons_of_ok hx]
  rfl

/-- A run over replaced inputs is the replaced run, if each step is. -/
theorem foldlM_map {τ : Type} {f : σ → α → Except ε σ} {g : τ → β → Except ε τ}
    {onState : σ → τ} {onInput : α → β} {P : σ → Prop} {xs : List α}
    (hstep : ∀ x ∈ xs, ∀ s, P s → g (onState s) (onInput x) = (f s x).map onState)
    (hkeeps : ∀ x ∈ xs, ∀ s t, P s → f s x = .ok t → P t) {s : σ} (hs : P s) :
    (xs.map onInput).foldlM g (onState s) = (xs.foldlM f s).map onState := by
  induction xs generalizing s with
  | nil => rfl
  | cons x xs ih =>
    obtain ⟨hx, hxs⟩ := List.forall_mem_cons.1 hstep
    obtain ⟨hkeep, hkeeps⟩ := List.forall_mem_cons.1 hkeeps
    rw [List.map_cons, List.foldlM_cons, List.foldlM_cons, hx s hs]
    cases hfx : f s x with
    | error e => rfl
    | ok t => exact ih hxs hkeeps (hkeep s t hs hfx)

/-- A check of a list succeeds when that of every element does. -/
theorem forM_eq_ok {f : α → Except ε Unit} :
    ∀ {xs : List α}, (∀ x ∈ xs, f x = .ok ()) → xs.forM f = .ok ()
  | [], _ => rfl
  | x :: xs, h => by
    obtain ⟨hx, hxs⟩ := List.forall_mem_cons.1 h
    show (f x >>= fun _ => xs.forM f) = .ok ()
    rw [hx]
    exact forM_eq_ok hxs

/-- A check is followed by the next one when it succeeds. -/
theorem bind_of_ok {x : Except ε Unit} {y : Except ε β} (hx : x = .ok ()) :
    (x >>= fun _ => y) = y := by
  rw [hx]
  rfl

/-- A check that is made under a condition, and the next one. -/
theorem bind_if_of_ok {c : Prop} [Decidable c] {x : Except ε Unit} {y : Except ε β}
    (hx : c → x = .ok ()) : (if c then x >>= fun _ => y else y) = y := by
  split
  · next hc => exact bind_of_ok (hx hc)
  · rfl

/-- The elements that are kept stay in their order. -/
theorem sublist_of_filterM {α : Type} {p : α → Except ε Bool} {xs ys : List α}
    (h : xs.filterM p = .ok ys) : ys.Sublist xs := by
  have haux : ∀ {xs acc zs : List α}, List.filterAuxM p xs acc = .ok zs →
      ∃ ys : List α, ys.Sublist xs ∧ zs = ys.reverse ++ acc := by
    intro xs
    induction xs with
    | nil =>
      intro acc zs h
      exact ⟨[], .slnil, (Except.ok.inj h).symm⟩
    | cons x xs ih =>
      intro acc zs h
      simp only [List.filterAuxM, bind_eq_ok] at h
      obtain ⟨b, -, h⟩ := h
      obtain ⟨ys, hsub, rfl⟩ := ih h
      cases b with
      | false => exact ⟨ys, hsub.cons x, rfl⟩
      | true => exact ⟨x :: ys, hsub.cons_cons x, by simp⟩
  simp only [List.filterM, bind_eq_ok, pure_eq_ok] at h
  obtain ⟨zs, hzs, rfl⟩ := h
  obtain ⟨ys, hsub, rfl⟩ := haux hzs
  simpa using hsub

/-- Where all elements pass a test, all are kept. -/
theorem filterM_eq_ok {α : Type} {p : α → Except ε Bool} {xs : List α}
    (h : ∀ x ∈ xs, p x = .ok true) : xs.filterM p = .ok xs := by
  have haux : ∀ {xs acc : List α}, (∀ x ∈ xs, p x = .ok true) →
      List.filterAuxM p xs acc = .ok (xs.reverse ++ acc) := by
    intro xs
    induction xs with
    | nil => intro acc _; rfl
    | cons x xs ih =>
      intro acc h
      obtain ⟨hx, hxs⟩ := List.forall_mem_cons.1 h
      rw [List.filterAuxM, hx]
      show List.filterAuxM p xs (x :: acc) = _
      rw [ih hxs]
      simp
  rw [List.filterM, haux h]
  simp [bind, Except.bind, pure, Except.pure]

/-- Elements that are written down and read back one by one come back. -/
theorem mapM_map_eq_ok {f : α → β} {g : β → Except ε α} :
    ∀ {xs : List α}, (∀ x ∈ xs, g (f x) = .ok x) → (xs.map f).mapM g = .ok xs
  | [], _ => rfl
  | x :: xs, h => by
    have hxs := mapM_map_eq_ok fun y hy => h y (List.mem_cons_of_mem x hy)
    simp [List.mapM_cons, h x List.mem_cons_self, hxs, bind, Except.bind, pure, Except.pure]

/-- The results of a run over a list stand beside its elements. -/
theorem mapM_forall₂ {f : α → Except ε β} :
    ∀ {xs : List α} {ys : List β}, xs.mapM f = .ok ys → List.Forall₂ (fun x y => f x = .ok y) xs ys
  | [], ys, h => by
    obtain rfl : [] = ys := pure_eq_ok.1 (by simpa using h)
    exact .nil
  | x :: xs, ys, h => by
    rw [List.mapM_cons] at h
    obtain ⟨y, hy, h⟩ := bind_eq_ok.1 h
    obtain ⟨zs, hzs, h⟩ := bind_eq_ok.1 h
    obtain rfl := pure_eq_ok.1 h
    exact .cons hy (mapM_forall₂ hzs)

/-- A run over a list ends in some results exactly when they are those of its elements, in order. -/
theorem mapM_eq_ok_iff {f : α → Except ε β} {xs : List α} {ys : List β} :
    xs.mapM f = .ok ys ↔ List.Forall₂ (fun x y => f x = .ok y) xs ys := by
  refine ⟨mapM_forall₂, fun h => ?_⟩
  induction h with
  | nil => rfl
  | cons hxy _ ih => simp [List.mapM_cons, hxy, ih, bind, Except.bind, pure, Except.pure]

/-- Every result comes from an element. -/
theorem mem_of_mapM {f : α → Except ε β} {xs : List α} {ys : List β} (h : xs.mapM f = .ok ys) :
    ∀ y ∈ ys, ∃ x ∈ xs, f x = .ok y := by
  have hboth := mapM_forall₂ h
  clear h
  induction hboth with
  | nil => simp
  | cons hxy _ ih =>
    rw [List.forall_mem_cons]
    refine ⟨⟨_, List.mem_cons_self, hxy⟩, fun y hy => ?_⟩
    obtain ⟨x, hx, hxy⟩ := ih y hy
    exact ⟨x, List.mem_cons_of_mem _ hx, hxy⟩

/-- Where all elements together have results, each has one. -/
theorem exists_of_mapM {f : α → Except ε β} {xs : List α} {ys : List β} (h : xs.mapM f = .ok ys) :
    ∀ x ∈ xs, ∃ y, f x = .ok y := by
  have hboth := mapM_forall₂ h
  clear h
  induction hboth with
  | nil => simp
  | cons hxy _ ih => exact List.forall_mem_cons.2 ⟨⟨_, hxy⟩, ih⟩

/-- A run over a list has results with a property exactly when each element has one. -/
theorem exists_mapM_forall_iff {f : α → Except ε β} {Q : β → Prop} {xs : List α} :
    (∃ ys, xs.mapM f = .ok ys ∧ ∀ y ∈ ys, Q y) ↔ ∀ x ∈ xs, ∃ y, f x = .ok y ∧ Q y := by
  constructor
  · rintro ⟨ys, hys, hQ⟩
    have hboth := mapM_forall₂ hys
    clear hys
    induction hboth with
    | nil => simp
    | cons hxy _ ih =>
      obtain ⟨hQy, hQys⟩ := List.forall_mem_cons.1 hQ
      exact List.forall_mem_cons.2 ⟨⟨_, hxy, hQy⟩, ih hQys⟩
  · intro h
    induction xs with
    | nil => exact ⟨[], rfl, by simp⟩
    | cons x xs ih =>
      obtain ⟨⟨y, hy, hQy⟩, hxs⟩ := List.forall_mem_cons.1 h
      obtain ⟨ys, hys, hQys⟩ := ih hxs
      exact ⟨y :: ys, mapM_eq_ok_iff.2 (.cons hy (mapM_eq_ok_iff.1 hys)),
        List.forall_mem_cons.2 ⟨hQy, hQys⟩⟩

/-- A run over a list has results exactly when each element has one. -/
theorem exists_mapM_iff {f : α → Except ε β} {xs : List α} :
    (∃ ys, xs.mapM f = .ok ys) ↔ ∀ x ∈ xs, ∃ y, f x = .ok y := by
  have hboth : (∃ ys, xs.mapM f = .ok ys ∧ ∀ y ∈ ys, True) ↔ ∀ x ∈ xs, ∃ y, f x = .ok y ∧ True :=
    exists_mapM_forall_iff
  simpa using hboth

/-- The result of an action that may be refused, and the state after it. -/
def ofAction (x : ExceptT ε (StateM σ) α) (s : σ) : Except ε α × σ :=
  x.run.run s

theorem ofAction_bind (x : ExceptT ε (StateM σ) α) (f : α → ExceptT ε (StateM σ) β) (s : σ) :
    ofAction (x >>= f) s = match ofAction x s with
      | (.ok a, s') => ofAction (f a) s'
      | (.error e, s') => (.error e, s') := by
  have hrun : ofAction (x >>= f) s =
      (ExceptT.bindCont f (ofAction x s).1).run (ofAction x s).2 := rfl
  rw [hrun]
  rcases ofAction x s with ⟨e | a, s'⟩
  · rfl
  · rfl

/-- An action whose refusals are said in other words. -/
theorem ofAction_adapt {ε' : Type} (f : ε → ε') (x : ExceptT ε (StateM σ) α) (s : σ) :
    ofAction (x.adapt f) s = ((ofAction x s).1.mapError f, (ofAction x s).2) := rfl

/-- Actions that are never refused, one after the other. -/
theorem ofAction_forM_of_ok {f : α → ExceptT ε (StateM σ) Unit} {g : σ → α → σ}
    (h : ∀ x s, ofAction (f x) s = (.ok (), g s x)) (xs : List α) (s : σ) :
    ofAction (xs.forM f) s = (.ok (), xs.foldl g s) := by
  induction xs generalizing s with
  | nil => rfl
  | cons x xs ih =>
    have hcons : ofAction ((x :: xs).forM f) s = ofAction (f x >>= fun _ => xs.forM f) s := rfl
    rw [hcons, ofAction_bind, h]
    exact ih (g s x)

end Outcome

end StyleLedger
