import Mathlib.Logic.Basic

/-!
# Processes that ask questions

A deterministic process runs until it finishes; on the way it asks questions
and continues with the answers.  `Answered` is its run against a function,
`Served` its run against a service that keeps a state of its own.  A service
whose invariant fixes the answers is the function it answers with.
-/

namespace F1X.Library

inductive Event (σ Q A R : Type*) where
  | finished (result : R)
  | asks (question : Q) (resume : A → σ)

section Runs

variable {σ Q A R M : Type*} (next : σ → Event σ Q A R)

/-- The run in which a function answers; the trace lists questions and answers. -/
inductive Answered (answer : Q → A) : σ → List (Q × A) → R → Prop
  | finished {s : σ} {result : R} (h : next s = .finished result) :
      Answered answer s [] result
  | asks {s : σ} {question : Q} {resume : A → σ} {trace : List (Q × A)} {result : R}
      (h : next s = .asks question resume)
      (rest : Answered answer (resume (answer question)) trace result) :
      Answered answer s ((question, answer question) :: trace) result

/-- The run in which a service answers and changes its state. -/
inductive Served (serve : M → Q → A → M → Prop) : σ → M → List (Q × A) → R → M → Prop
  | finished {s : σ} {state : M} {result : R} (h : next s = .finished result) :
      Served serve s state [] result state
  | asks {s : σ} {question : Q} {resume : A → σ} {answer : A} {state later final : M}
      {trace : List (Q × A)} {result : R} (h : next s = .asks question resume)
      (hserve : serve state question answer later)
      (rest : Served serve (resume answer) later trace result final) :
      Served serve s state ((question, answer) :: trace) result final

def Asked (question : Q) : Prop := ∃ s resume, next s = .asks question resume

variable {next}

theorem Answered.unique {answer : Q → A} {s : σ} {trace trace' : List (Q × A)}
    {result result' : R} (h : Answered next answer s trace result)
    (h' : Answered next answer s trace' result') : trace = trace' ∧ result = result' := by
  induction h generalizing trace' result' with
  | finished hnext =>
      cases h' with
      | finished hnext' =>
          cases hnext.symm.trans hnext'
          exact ⟨rfl, rfl⟩
      | asks hnext' => cases hnext.symm.trans hnext'
  | asks hnext _ ih =>
      cases h' with
      | finished hnext' => cases hnext.symm.trans hnext'
      | asks hnext' rest' =>
          cases hnext.symm.trans hnext'
          obtain ⟨rfl, rfl⟩ := ih rest'
          exact ⟨rfl, rfl⟩

theorem Answered.congr {answer other : Q → A} {s : σ} {trace : List (Q × A)} {result : R}
    (h : Answered next answer s trace result)
    (hagree : ∀ entry ∈ trace, other entry.1 = entry.2) :
    Answered next other s trace result := by
  induction h with
  | finished hnext => exact .finished hnext
  | @asks s question resume trace result hnext _ ih =>
      have hanswer : other question = answer question :=
        hagree (question, answer question) (by simp)
      have hrest := ih fun entry hmem => hagree entry (by simp [hmem])
      rw [← hanswer] at hrest ⊢
      exact .asks hnext hrest

theorem Answered.answers {answer : Q → A} {s : σ} {trace : List (Q × A)} {result : R}
    (h : Answered next answer s trace result) :
    ∀ entry ∈ trace, entry.2 = answer entry.1 := by
  induction h with
  | finished => simp
  | asks hnext _ ih =>
      intro entry hmem
      rcases List.mem_cons.mp hmem with rfl | hmem
      · rfl
      · exact ih entry hmem

theorem Answered.asked {answer : Q → A} {s : σ} {trace : List (Q × A)} {result : R}
    (h : Answered next answer s trace result) : ∀ entry ∈ trace, Asked next entry.1 := by
  induction h with
  | finished => simp
  | asks hnext _ ih =>
      intro entry hmem
      rcases List.mem_cons.mp hmem with rfl | hmem
      · exact ⟨_, _, hnext⟩
      · exact ih entry hmem

/-! ## Services with an invariant -/

section Invariant

variable {serve : M → Q → A → M → Prop} {answer : Q → A} {Inv : List Q → M → Prop}
  (hstep : ∀ past state question reply later, Asked next question → Inv past state →
    serve state question reply later →
      reply = answer question ∧ Inv (past ++ [question]) later)

include hstep in
/-- Soundness: what the service does is a run against the function. -/
theorem Served.answered {s : σ} {state final : M} {trace : List (Q × A)} {result : R}
    (h : Served next serve s state trace result final) {past : List Q}
    (hinv : Inv past state) :
    Answered next answer s trace result ∧ Inv (past ++ trace.map Prod.fst) final := by
  induction h generalizing past with
  | finished hnext => exact ⟨.finished hnext, by simpa using hinv⟩
  | asks hnext hserve _ ih =>
      obtain ⟨rfl, hlater⟩ := hstep _ _ _ _ _ ⟨_, _, hnext⟩ hinv hserve
      obtain ⟨hrest, hfinal⟩ := ih hlater
      exact ⟨.asks hnext hrest, by simpa using hfinal⟩

include hstep in
/-- Completeness: a service that always replies follows the run against the function. -/
theorem Answered.served
    (hreply : ∀ past state question, Asked next question → Inv past state →
      ∃ reply later, serve state question reply later)
    {s : σ} {trace : List (Q × A)} {result : R} (h : Answered next answer s trace result)
    {past : List Q} {state : M} (hinv : Inv past state) :
    ∃ final, Served next serve s state trace result final := by
  induction h generalizing past state with
  | finished hnext => exact ⟨state, .finished hnext⟩
  | asks hnext _ ih =>
      obtain ⟨reply, later, hserve⟩ := hreply _ _ _ ⟨_, _, hnext⟩ hinv
      obtain ⟨rfl, hlater⟩ := hstep _ _ _ _ _ ⟨_, _, hnext⟩ hinv hserve
      obtain ⟨final, hfinal⟩ := ih hlater
      exact ⟨final, .asks hnext hserve hfinal⟩

end Invariant

/-! ## Services whose answers depend on the question alone -/

section Exact

variable {serve : M → Q → A → M → Prop} {answer : Q → A}
  (hexact : ∀ state question reply later, Asked next question →
    serve state question reply later → reply = answer question)
  {s : σ} {state final : M} {trace : List (Q × A)} {result : R}

include hexact

theorem Served.answered_of_exact (h : Served next serve s state trace result final) :
    Answered next answer s trace result := by
  induction h with
  | finished hnext => exact .finished hnext
  | asks hnext hserve _ ih =>
      obtain rfl := hexact _ _ _ _ ⟨_, _, hnext⟩ hserve
      exact .asks hnext ih

theorem Answered.served_of_exact
    (hreply : ∀ state question, Asked next question →
      ∃ reply later, serve state question reply later)
    (h : Answered next answer s trace result) (state : M) :
    ∃ final, Served next serve s state trace result final := by
  induction h generalizing state with
  | finished hnext => exact ⟨state, .finished hnext⟩
  | asks hnext _ ih =>
      obtain ⟨reply, later, hserve⟩ := hreply state _ ⟨_, _, hnext⟩
      obtain rfl := hexact _ _ _ _ ⟨_, _, hnext⟩ hserve
      obtain ⟨final, hfinal⟩ := ih later
      exact ⟨final, .asks hnext hserve hfinal⟩

end Exact

end Runs

end F1X.Library
