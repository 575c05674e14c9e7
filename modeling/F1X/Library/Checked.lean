import Mathlib.Data.List.Forall2

/-!
# Computations that may throw

Inversion of `Except` computations: a bind succeeds exactly when both parts do,
and mapping a throwing function over a list succeeds exactly pointwise.
-/

namespace F1X.Library

variable {ε α β : Type}

theorem bind_eq_ok_iff {first : Except ε α} {next : α → Except ε β} {result : β} :
    (first >>= next) = .ok result ↔
      ∃ middle, first = .ok middle ∧ next middle = .ok result := by
  cases first with
  | error failure =>
      constructor
      · intro h
        cases h
      · rintro ⟨middle, h, -⟩
        cases h
  | ok middle =>
      constructor
      · intro h
        exact ⟨middle, rfl, h⟩
      · rintro ⟨other, h, hnext⟩
        cases h
        exact hnext

theorem toOption_eq_some_iff {checked : Except ε α} {result : α} :
    checked.toOption = some result ↔ checked = .ok result := by
  cases checked <;> simp [Except.toOption]

theorem eq_ok_of_any {checked : Except ε α} {p : α → Bool}
    (h : checked.toOption.any p = true) : ∃ result, checked = .ok result ∧ p result = true := by
  cases checked with
  | error failure => cases h
  | ok result => exact ⟨result, rfl, h⟩

theorem isSome_mapM_iff {f : α → Option β} {inputs : List α} :
    (inputs.mapM f).isSome ↔ ∀ input ∈ inputs, (f input).isSome := by
  induction inputs with
  | nil => simp
  | cons input inputs ih =>
      rw [List.mapM_cons, List.forall_mem_cons, ← ih]
      cases f input with
      | none => simp
      | some result => cases inputs.mapM f <;> simp

theorem mapM_eq_ok_iff {f : α → Except ε β} {inputs : List α} {results : List β} :
    inputs.mapM f = .ok results ↔
      List.Forall₂ (fun input result => f input = .ok result) inputs results := by
  induction inputs generalizing results with
  | nil =>
      rw [List.mapM_nil, List.forall₂_nil_left_iff]
      constructor
      · intro h
        cases h
        rfl
      · rintro rfl
        rfl
  | cons input inputs ih =>
      rw [List.mapM_cons]
      constructor
      · intro h
        obtain ⟨result, hresult, h⟩ := bind_eq_ok_iff.mp h
        obtain ⟨rest, hrest, h⟩ := bind_eq_ok_iff.mp h
        cases h
        exact .cons hresult (ih.mp hrest)
      · intro h
        cases h with
        | cons hresult hrest =>
            exact bind_eq_ok_iff.mpr ⟨_, hresult,
              bind_eq_ok_iff.mpr ⟨_, ih.mpr hrest, rfl⟩⟩

theorem mapM_eq_ok_map {f : α → Except ε β} {g : α → β} {inputs : List α}
    (h : ∀ input ∈ inputs, f input = .ok (g input)) :
    inputs.mapM f = .ok (inputs.map g) := by
  rw [mapM_eq_ok_iff, List.forall₂_map_right_iff, List.forall₂_same]
  exact h

theorem exists_of_forall₂ {r : α → β → Prop} {inputs : List α} {results : List β}
    (h : List.Forall₂ r inputs results) :
    (∀ result ∈ results, ∃ input ∈ inputs, r input result) ∧
      ∀ input ∈ inputs, ∃ result ∈ results, r input result := by
  induction h with
  | nil => simp
  | @cons input result inputs results hfirst hrest ih =>
      constructor
      · intro other hother
        rcases List.mem_cons.mp hother with rfl | hother
        · exact ⟨input, List.mem_cons_self, hfirst⟩
        · obtain ⟨source, hsource, hr⟩ := ih.1 other hother
          exact ⟨source, List.mem_cons_of_mem _ hsource, hr⟩
      · intro other hother
        rcases List.mem_cons.mp hother with rfl | hother
        · exact ⟨result, List.mem_cons_self, hfirst⟩
        · obtain ⟨target, htarget, hr⟩ := ih.2 other hother
          exact ⟨target, List.mem_cons_of_mem _ htarget, hr⟩

theorem exists_of_mem_mapM {f : α → Except ε β} {inputs : List α} {results : List β}
    (h : inputs.mapM f = .ok results) {result : β} (hmem : result ∈ results) :
    ∃ input ∈ inputs, f input = .ok result :=
  (exists_of_forall₂ (mapM_eq_ok_iff.mp h)).1 result hmem

theorem map_eq_of_forall₂ {γ : Type*} {r : α → β → Prop} {f : α → γ} {g : β → γ}
    {inputs : List α} {results : List β} (h : List.Forall₂ r inputs results)
    (hr : ∀ input ∈ inputs, ∀ result, r input result → g result = f input) :
    results.map g = inputs.map f := by
  induction h with
  | nil => rfl
  | cons hhead _ ih =>
      obtain ⟨hfirst, hrest⟩ := List.forall_mem_cons.mp hr
      rw [List.map_cons, List.map_cons, hfirst _ hhead, ih hrest]

theorem exists_of_mapM {f : α → Except ε β} {inputs : List α} {results : List β}
    (h : inputs.mapM f = .ok results) {input : α} (hmem : input ∈ inputs) :
    ∃ result, f input = .ok result := by
  obtain ⟨result, -, hresult⟩ := (exists_of_forall₂ (mapM_eq_ok_iff.mp h)).2 input hmem
  exact ⟨result, hresult⟩

theorem mapM_getElem? {f : α → Except ε β} {inputs : List α} {results : List β}
    (h : inputs.mapM f = .ok results) {i : Nat} {input : α}
    (hinput : inputs[i]? = some input) :
    ∃ result, results[i]? = some result ∧ f input = .ok result := by
  have hpairs := mapM_eq_ok_iff.mp h
  obtain ⟨hi, rfl⟩ := List.getElem?_eq_some_iff.mp hinput
  have hlength : i < results.length := by rwa [← hpairs.length_eq]
  exact ⟨results[i], List.getElem?_eq_getElem hlength, hpairs.get hi hlength⟩

theorem mapM_total {f : α → Except ε β} {inputs : List α}
    (h : ∀ input ∈ inputs, ∃ result, f input = .ok result) :
    ∃ results, inputs.mapM f = .ok results := by
  induction inputs with
  | nil => exact ⟨[], rfl⟩
  | cons input inputs ih =>
      obtain ⟨result, hresult⟩ := h input (by simp)
      obtain ⟨results, hresults⟩ := ih fun other hmem => h other (by simp [hmem])
      refine ⟨result :: results, ?_⟩
      rw [List.mapM_cons, hresult, hresults]
      rfl

/-- A loop whose steps do not throw is a fold over what its inputs stand for. -/
theorem foldlM_eq_pure {m : Type → Type} [Monad m] [LawfulMonad m] {γ : Type} {R : α → β → Prop}
    {step : γ → α → m γ} {result : γ → β → γ}
    (hstep : ∀ state input output, R input output →
      step state input = pure (result state output))
    {inputs : List α} {outputs : List β} (h : List.Forall₂ R inputs outputs) (state : γ) :
    inputs.foldlM step state = pure (outputs.foldl result state) := by
  induction h generalizing state with
  | nil => rfl
  | cons hfirst _ ih => rw [List.foldlM_cons, hstep _ _ _ hfirst, pure_bind, ih, List.foldl_cons]

end F1X.Library
