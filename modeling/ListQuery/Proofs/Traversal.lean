import Mathlib.Data.List.Forall2

/-!
# Traversals that stop at the first fault

Mapping a list with a function that may fail gives all results, or the fault of
the first item that has one. Folding it does the same, only that an item is
faulty in the state that those in front of it have led to.
-/

namespace ListQuery

variable {α β ε : Type} {f : α → Except ε β}

theorem mapM_cons_of_ok {x : α} {y : β} (h : f x = .ok y) (rest : List α) :
    (x :: rest).mapM f = (y :: ·) <$> rest.mapM f := by
  rw [List.mapM_cons, h]
  rfl

/-- A fault in front is the fault of `mapM`, and the rest is not looked at. -/
theorem mapM_cons_of_error {x : α} {error : ε} (h : f x = .error error) (rest : List α) :
    (x :: rest).mapM f = .error error := by
  rw [List.mapM_cons, h]
  rfl

/-- When every item has a result, `mapM` gives the `map` of these. -/
theorem mapM_eq_ok_map {items : List α} {g : α → β} (h : ∀ x ∈ items, f x = .ok (g x)) :
    items.mapM f = .ok (items.map g) := by
  induction items with
  | nil => rfl
  | cons x rest ih =>
    obtain ⟨hx, hrest⟩ := List.forall_mem_cons.mp h
    rw [mapM_cons_of_ok hx, ih hrest]
    rfl

theorem map_eq_error_iff {γ : Type} {g : β → γ} {result : Except ε β} {error : ε} :
    g <$> result = .error error ↔ result = .error error := by
  cases result <;> simp [Functor.map, Except.map]

theorem map_eq_ok_iff {γ : Type} {g : β → γ} {result : Except ε β} {value : γ} :
    result.map g = .ok value ↔ ∃ y, result = .ok y ∧ g y = value := by
  cases result <;> simp [Except.map]

/-- `mapM` fails with the fault of the first item that has one: all items in
front of it have results. Nothing is said of the items behind it, as they are
not looked at. Induction on the items. -/
theorem mapM_eq_error_iff {items : List α} {error : ε} :
    items.mapM f = .error error ↔
      ∃ front x back, items = front ++ x :: back ∧ (∀ y ∈ front, ∃ result, f y = .ok result) ∧
        f x = .error error := by
  induction items with
  | nil => simp [pure, Except.pure]
  | cons x rest ih =>
    cases hx : f x with
    | error fault =>
      rw [mapM_cons_of_error hx]
      constructor
      · intro h
        cases h
        exact ⟨[], x, rest, rfl, by simp, hx⟩
      · rintro ⟨front, y, back, hsplit, hfront, hy⟩
        -- nothing with a fault stands in front, so the first item is the one that is blamed
        cases front with
        | nil =>
          obtain ⟨rfl, _⟩ := List.cons_eq_cons.mp hsplit
          cases hx.symm.trans hy
          rfl
        | cons z front =>
          obtain ⟨rfl, _⟩ := List.cons_eq_cons.mp hsplit
          obtain ⟨result, hresult⟩ := hfront x List.mem_cons_self
          exact absurd (hx.symm.trans hresult) (by nofun)
    | ok result =>
      rw [mapM_cons_of_ok hx, map_eq_error_iff, ih]
      constructor
      · rintro ⟨front, y, back, rfl, hfront, hy⟩
        refine ⟨x :: front, y, back, rfl, ?_, hy⟩
        rw [List.forall_mem_cons]
        exact ⟨⟨result, hx⟩, hfront⟩
      · rintro ⟨front, y, back, hsplit, hfront, hy⟩
        cases front with
        | nil =>
          obtain ⟨rfl, _⟩ := List.cons_eq_cons.mp hsplit
          exact absurd (hx.symm.trans hy) (by nofun)
        | cons z front =>
          obtain ⟨rfl, hrest⟩ := List.cons_eq_cons.mp hsplit
          exact ⟨front, y, back, hrest, (List.forall_mem_cons.mp hfront).2, hy⟩

theorem exists_error_iff {result : Except ε β} :
    (∃ error, result = .error error) ↔ ¬ ∃ value, result = .ok value := by
  cases result <;> simp

/-- The results of `mapM` are those of the items, one by one. Induction on the
items. -/
theorem mapM_eq_ok_iff {items : List α} {results : List β} :
    items.mapM f = .ok results ↔ List.Forall₂ (fun x y => f x = .ok y) items results := by
  induction items generalizing results with
  | nil =>
    rw [List.mapM_nil, List.forall₂_nil_left_iff]
    exact ⟨fun h => (Except.ok.inj h).symm, fun h => h ▸ rfl⟩
  | cons x rest ih =>
    cases hx : f x with
    | error fault =>
      rw [mapM_cons_of_error hx]
      refine iff_of_false nofun ?_
      rintro (_ | ⟨hy, -⟩)
      cases hx.symm.trans hy
    | ok y =>
      rw [mapM_cons_of_ok hx]
      show (rest.mapM f).map (y :: ·) = _ ↔ _
      rw [map_eq_ok_iff]
      constructor
      · rintro ⟨ys, hys, rfl⟩
        exact .cons hx (ih.mp hys)
      · rintro (_ | @⟨_, z, _, ys, hz, hys⟩)
        obtain rfl : y = z := Except.ok.inj (hx.symm.trans hz)
        exact ⟨ys, ih.mpr hys, rfl⟩

/-- `mapM` has results exactly when every item has one, whatever the order of
the items. -/
theorem exists_mapM_eq_ok_iff {items : List α} :
    (∃ results, items.mapM f = .ok results) ↔ ∀ x ∈ items, ∃ result, f x = .ok result := by
  induction items with
  | nil => simp [pure, Except.pure]
  | cons x rest ih =>
    rw [List.forall_mem_cons, ← ih]
    cases hx : f x with
    | error fault =>
      rw [mapM_cons_of_error hx]
      simp
    | ok result =>
      rw [mapM_cons_of_ok hx]
      cases rest.mapM f <;> simp [Functor.map, Except.map]

/-! ### Folds -/

section
variable {step : β → α → Except ε β} {init state : β} {front items : List α}

/-- `foldlM` over two lists goes through if it does so over the one, and from
where that leads over the other. -/
theorem foldlM_append_eq_ok_iff {back : List α} :
    (front ++ back).foldlM step init = .ok state ↔
      ∃ between, front.foldlM step init = .ok between ∧ back.foldlM step between = .ok state := by
  rw [List.foldlM_append]
  cases front.foldlM step init <;> simp [bind, Except.bind]

theorem foldlM_cons_eq_ok_iff {x : α} :
    (x :: items).foldlM step init = .ok state ↔
      ∃ next, step init x = .ok next ∧ items.foldlM step next = .ok state := by
  rw [List.foldlM_cons]
  cases step init x <;> simp [bind, Except.bind]

/-- A `step` that fails ends the fold, whatever comes behind it. -/
theorem foldlM_append_eq_error {error : ε} {x : α} (hfront : front.foldlM step init = .ok state)
    (hx : step state x = .error error) (back : List α) :
    (front ++ x :: back).foldlM step init = .error error := by
  rw [List.foldlM_append, hfront]
  show (x :: back).foldlM step state = _
  rw [List.foldlM_cons, hx]
  rfl

/-- `foldlM` fails with the fault of the first item that has one in the state
that those in front of it have led to. Induction on the items, from any
`init`. -/
theorem foldlM_eq_error_iff {error : ε} :
    items.foldlM step init = .error error ↔
      ∃ front x back state, items = front ++ x :: back ∧ front.foldlM step init = .ok state ∧
        step state x = .error error := by
  constructor
  · intro h
    induction items generalizing init with
    | nil => cases h
    | cons x rest ih =>
      rw [List.foldlM_cons] at h
      cases hx : step init x with
      | error fault =>
        rw [hx] at h
        cases h
        exact ⟨[], x, rest, init, rfl, rfl, hx⟩
      | ok next =>
        rw [hx] at h
        obtain ⟨front, y, back, state, rfl, hfront, hy⟩ := ih h
        exact ⟨x :: front, y, back, state, rfl, foldlM_cons_eq_ok_iff.mpr ⟨next, hx, hfront⟩, hy⟩
  · rintro ⟨front, x, back, state, rfl, hfront, hx⟩
    exact foldlM_append_eq_error hfront hx back

end

end ListQuery
