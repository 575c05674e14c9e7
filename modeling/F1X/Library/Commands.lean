import Mathlib.Data.Option.Basic
import Mathlib.Data.List.Basic

/-!
# Commands that change a state and may fail

A command is a `StateT σ Option`: it returns a value and a new state, or stops
without either.  `Ensures pre m post` is partial correctness, one rule for every
way to compose commands; `Keeps` is an assertion that a command preserves.
-/

namespace F1X.Library

universe u

variable {σ α β : Type u}

/-- Every run of `m` that starts in `pre` and does not fail ends in `post`. -/
def Ensures (pre : σ → Prop) (m : StateT σ Option α) (post : α → σ → Prop) : Prop :=
  ∀ s, pre s → ∀ a s', m.run s = some (a, s') → post a s'

abbrev Keeps (inv : σ → Prop) (m : StateT σ Option α) : Prop :=
  Ensures inv m fun _ => inv

/-! ## Runs of composed commands -/

theorem run_bind_eq_some {m : StateT σ Option α} {f : α → StateT σ Option β} {s : σ}
    {result : β × σ} :
    (m >>= f).run s = some result ↔
      ∃ a s', m.run s = some (a, s') ∧ (f a).run s' = some result := by
  rw [StateT.run_bind]
  constructor
  · intro h
    obtain ⟨⟨a, s'⟩, hm, hf⟩ := Option.bind_eq_some_iff.mp h
    exact ⟨a, s', hm, hf⟩
  · rintro ⟨a, s', hm, hf⟩
    exact Option.bind_eq_some_iff.mpr ⟨(a, s'), hm, hf⟩

theorem run_get_bind (f : σ → StateT σ Option β) (s : σ) :
    (get >>= f).run s = (f s).run s := rfl

theorem run_modify_bind (g : σ → σ) (f : PUnit → StateT σ Option β) (s : σ) :
    (modify g >>= f).run s = (f ⟨⟩).run (g s) := rfl

theorem run_modify (g : σ → σ) (s : σ) :
    (modify g : StateT σ Option PUnit).run s = some (⟨⟩, g s) := rfl

theorem run_lift_bind_eq_some {value : Option α} {f : α → StateT σ Option β} {s : σ}
    {result : β × σ} :
    (StateT.lift value >>= f).run s = some result ↔
      ∃ a, value = some a ∧ (f a).run s = some result := by
  cases value <;> simp [StateT.lift, StateT.run, bind, StateT.bind]

theorem run_pure_eq_some {a b : α} {s s' : σ} :
    (pure a : StateT σ Option α).run s = some (b, s') ↔ b = a ∧ s' = s := by
  rw [StateT.run_pure]
  simp [Prod.ext_iff, eq_comm]

/-! ## Partial correctness -/

namespace Ensures

variable {pre pre' : σ → Prop} {post post' : α → σ → Prop} {final : β → σ → Prop}
  {m : StateT σ Option α} {f : α → StateT σ Option β}

theorem mono (h : Ensures pre m post) (hpre : ∀ s, pre' s → pre s)
    (hpost : ∀ a s, post a s → post' a s) : Ensures pre' m post' := by
  intro s hs a s' hrun
  exact hpost a s' (h s (hpre s hs) a s' hrun)

theorem weaken (h : Ensures pre m post) (hpost : ∀ a s, post a s → post' a s) :
    Ensures pre m post' :=
  h.mono (fun _ hs => hs) hpost

theorem strengthen (h : Ensures pre m post) (hpre : ∀ s, pre' s → pre s) :
    Ensures pre' m post :=
  h.mono hpre fun _ _ hs => hs

/-- What every run says about the returned value alone. -/
theorem with_value {p : α → Prop} (h : Ensures pre m post)
    (hvalue : ∀ s a s', m.run s = some (a, s') → p a) :
    Ensures pre m fun a s => post a s ∧ p a := by
  intro s hs a s' hrun
  exact ⟨h s hs a s' hrun, hvalue s a s' hrun⟩

theorem pure {a : α} (h : ∀ s, pre s → post a s) :
    Ensures pre (Pure.pure a : StateT σ Option α) post := by
  intro s hs b s' hrun
  rw [StateT.run_pure] at hrun
  obtain ⟨rfl, rfl⟩ := Prod.mk.inj (Option.some.inj hrun)
  exact h s hs

theorem bind (hm : Ensures pre m post) (hf : ∀ a, Ensures (post a) (f a) final) :
    Ensures pre (m >>= f) final := by
  intro s hs b s'' hrun
  obtain ⟨a, s', hfirst, hrest⟩ := run_bind_eq_some.mp hrun
  exact hf a s' (hm s hs a s' hfirst) b s'' hrest

theorem any_bind (hf : ∀ a, Ensures (fun _ => True) (f a) final) :
    Ensures pre (m >>= f) final :=
  bind (fun _ _ _ _ _ => trivial) hf

theorem get_bind {f : σ → StateT σ Option β}
    (h : ∀ s, pre s → Ensures (· = s) (f s) final) : Ensures pre (get >>= f) final := by
  intro s hs b s' hrun
  exact h s hs s rfl b s' hrun

/-- A command that reads the state and starts with its precondition. -/
theorem read_bind {f : σ → StateT σ Option β}
    (h : ∀ s, pre s → Ensures pre (f s) final) : Ensures pre (get >>= f) final :=
  get_bind fun s hs => (h s hs).strengthen fun s' (heq : s' = s) => heq ▸ hs

theorem lift_bind {value : Option α}
    (h : ∀ a, value = some a → Ensures pre (f a) final) :
    Ensures pre (StateT.lift value >>= f) final := by
  intro s hs b s' hrun
  obtain ⟨a, hvalue, hrun⟩ := run_lift_bind_eq_some.mp hrun
  exact h a hvalue s hs b s' hrun

theorem modify {g : σ → σ} {post : PUnit → σ → Prop} (h : ∀ s, pre s → post ⟨⟩ (g s)) :
    Ensures pre (modify g : StateT σ Option PUnit) post := by
  intro s hs a s' hrun
  obtain ⟨rfl, rfl⟩ := Prod.mk.inj (Option.some.inj hrun)
  exact h s hs

theorem modifyGet {g : σ → α × σ} (h : ∀ s, pre s → post (g s).1 (g s).2) :
    Ensures pre (modifyGet g : StateT σ Option α) post := by
  intro s hs a s' hrun
  have heq : g s = (a, s') := Option.some.inj hrun
  have hpost := h s hs
  rwa [heq] at hpost

theorem lift {value : Option α} (h : ∀ a, value = some a → ∀ s, pre s → post a s) :
    Ensures pre (StateT.lift value) post := by
  intro s hs a s' hrun
  rw [StateT.run_lift] at hrun
  obtain ⟨b, hvalue, hrun⟩ := Option.bind_eq_some_iff.mp hrun
  obtain ⟨rfl, rfl⟩ := Prod.mk.inj (Option.some.inj hrun)
  exact h b hvalue s hs

theorem exists_pre {ι : Sort*} {choices : ι → σ → Prop}
    (h : ∀ i, Ensures (choices i) m post) : Ensures (fun s => ∃ i, choices i s) m post := by
  rintro s ⟨i, hi⟩ a s' hrun
  exact h i s hi a s' hrun

theorem and_pre {p : Prop} (h : p → Ensures pre m post) :
    Ensures (fun s => p ∧ pre s) m post := by
  rintro s ⟨hp, hs⟩ a s' hrun
  exact h hp s hs a s' hrun

theorem and (h : Ensures pre m post) (h' : Ensures pre m post') :
    Ensures pre m fun a s => post a s ∧ post' a s := by
  intro s hs a after hrun
  exact ⟨h s hs a after hrun, h' s hs a after hrun⟩

theorem ite {c : Prop} [Decidable c] {m m' : StateT σ Option α}
    (ht : c → Ensures pre m post) (hf : ¬ c → Ensures pre m' post) :
    Ensures pre (if c then m else m') post := by
  split
  · exact ht ‹_›
  · exact hf ‹_›

/-- The loop rule: the invariant of a loop over a list is what one round keeps. -/
theorem forM {inv : σ → Prop} {entries : List β} {body : β → StateT σ Option PUnit}
    (h : ∀ entry ∈ entries, Keeps inv (body entry)) : Keeps inv (forM entries body) := by
  induction entries with
  | nil => exact pure fun _ hs => hs
  | cons entry entries ih =>
      rw [List.forM_cons]
      exact bind (h entry List.mem_cons_self)
        fun _ => ih fun other hother => h other (List.mem_cons_of_mem _ hother)

end Ensures

end F1X.Library
