import F1X.Synthesis.Generator
import Mathlib.Data.List.Nodup
import Mathlib.Data.List.Range

/-!
# Candidates of a base modification

What the work loop of `candidateDispatch` produces.  A partial candidate has at
most one abstract node, a condition at most a parameter, so the loop makes one
or two choices for every base modification and the id records them: `Decodes`
reads them back.
-/

namespace F1X.generator

open F1X.Library F1X.synthesis

/-! ## The work loop -/

def bool2Choices (conditions : List Expression) (current : PatchID × Expression) :
    List (PatchID × Expression) :=
  if hasNodeOfKind .bool2 current.2 then
    (conditions.mapIdx (bool2Instance current)).reverse
  else [current]

def paramChoices (paramBound : Nat) (current : PatchID × Expression) :
    List (PatchID × Expression) :=
  if hasNodeOfKind .parameter current.2 then
    (List.range (paramBound + 1)).map (paramInstance current)
  else [current]

def candidates (conditions : List Expression) (paramBound : Nat)
    (current : PatchID × Expression) : List (PatchID × Expression) :=
  (bool2Choices conditions current).flatMap (paramChoices paramBound)

/-- How often the loop pops the stack for one base modification. -/
def loopSteps (conditions : List Expression) (expression : Expression) : Nat :=
  if hasNodeOfKind .bool2 expression then conditions.length + 1 else 1

theorem workLoop_flat (conditions : List Expression) (paramBound fuel : Nat)
    (stack ss : List (PatchID × Expression))
    (hstack : ∀ current ∈ stack, hasNodeOfKind .bool2 current.2 = false) :
    workLoop conditions paramBound fuel stack ss =
      if stack.length < fuel then .ok (ss ++ stack.flatMap (paramChoices paramBound))
      else .error .outOfFuel := by
  induction fuel generalizing stack ss with
  | zero => simp [workLoop]
  | succ fuel ih =>
      cases stack with
      | nil => simp [workLoop]
      | cons current rest =>
          have hcurrent := hstack current (by simp)
          have hnext := fun ss => ih rest ss fun other hmem => hstack other (by simp [hmem])
          rw [workLoop, hcurrent, if_neg (by simp)]
          split
          · rename_i hparam
            simp [hnext, paramChoices, hparam]
          · rename_i hparam
            simp [hnext, paramChoices, hparam]

theorem bool2Instance_parametric (current : PatchID × Expression)
    (hcurrent : Schematic current.2) (hbool2 : hasNodeOfKind .bool2 current.2 = true)
    {condition : Expression} (hcondition : Parametric condition) (i : Nat) :
    Parametric (bool2Instance current i condition).2 := by
  have hall := countNodes_substituteNodeOfKind hbool2 isAbstractNode condition
  have hnested := countNodes_substituteNodeOfKind hbool2 isNestedNode condition
  have hle := countNodes_le isNestedNode_le current.2
  have hone := hcurrent.atMostOne
  have hcone := hcondition.atMostOne
  have hflat := hcondition.flat
  have habstract : (isAbstractNode .bool2).toNat = 1 := rfl
  have hnestedBool2 : (isNestedNode .bool2).toNat = 1 := rfl
  rw [habstract] at hall
  rw [hnestedBool2] at hnested
  constructor <;> simp only [bool2Instance] <;> omega

theorem workLoop_eq {conditions : List Expression} (current : PatchID × Expression)
    (hcurrent : Schematic current.2)
    (hconditions : ∀ condition ∈ conditions, Parametric condition)
    (paramBound fuel : Nat) :
    workLoop conditions paramBound fuel [current] [] =
      if loopSteps conditions current.2 < fuel then
        .ok (candidates conditions paramBound current)
      else .error .outOfFuel := by
  cases hbool2 : hasNodeOfKind .bool2 current.2 with
  | false =>
      rw [workLoop_flat _ _ _ _ _ (by simpa using hbool2)]
      simp [loopSteps, candidates, bool2Choices, hbool2]
  | true =>
      cases fuel with
      | zero => simp [workLoop]
      | succ fuel =>
          rw [workLoop, if_pos hbool2, workLoop_flat]
          · simp [loopSteps, candidates, bool2Choices, hbool2]
          · intro instance_ hmem
            simp only [List.append_nil, List.mem_reverse, List.mem_mapIdx] at hmem
            obtain ⟨i, hi, rfl⟩ := hmem
            exact (bool2Instance_parametric current hcurrent hbool2
              (hconditions _ (List.getElem_mem hi)) i).not_hasNode rfl

/-! ## Decoding of ids -/

/-- The coordinate `bool2` of an id chooses the condition, 0 where there is none to choose. -/
inductive Chosen (conditions : List Expression) (expression : Expression) :
    Nat → Expression → Prop
  | fixed (h : hasNodeOfKind .bool2 expression = false) :
      Chosen conditions expression 0 expression
  | condition (i : Nat) (hi : i < conditions.length) {chosen : Expression}
      (h : ReplacesFirst .bool2 conditions[i] expression chosen) :
      Chosen conditions expression (i + 1) chosen

inductive Parametrized (paramBound : Nat) (expression : Expression) :
    Nat → Expression → Prop
  | fixed (h : hasNodeOfKind .parameter expression = false) :
      Parametrized paramBound expression 0 expression
  | constant (k : Nat) (hk : k ≤ paramBound) {modified : Expression}
      (h : ReplacesFirst .parameter (makeIntegerConst k) expression modified) :
      Parametrized paramBound expression k modified

/-- What an id says about the expression of its patch. -/
structure Decodes (conditions : List Expression) (paramBound base : Nat)
    (expression : Expression) (id : PatchID) (modified : Expression) : Prop where
  base : id.base = base
  int2 : id.int2 = 0
  cond3 : id.cond3 = 0
  choice : ∃ chosen, Chosen conditions expression id.bool2 chosen ∧
    Parametrized paramBound chosen id.param modified

theorem mem_bool2Choices {conditions : List Expression} {base : Nat}
    {expression : Expression} {id : PatchID} {chosen : Expression} :
    (id, chosen) ∈ bool2Choices conditions (⟨base, 0, 0, 0, 0⟩, expression) ↔
      id = ⟨base, 0, id.bool2, 0, 0⟩ ∧ Chosen conditions expression id.bool2 chosen := by
  unfold bool2Choices
  split
  · rename_i hbool2
    rw [List.mem_reverse, List.mem_mapIdx]
    constructor
    · rintro ⟨i, hi, heq⟩
      cases heq
      exact ⟨rfl, .condition i hi (replacesFirst_substituteNodeOfKind hbool2 _)⟩
    · rintro ⟨hid, hchosen⟩
      cases hcoordinate : id.bool2 with
      | zero =>
          rw [hcoordinate] at hchosen
          cases hchosen with
          | fixed h => simp [hbool2] at h
      | succ i =>
          rw [hcoordinate] at hid hchosen
          cases hchosen with
          | condition _ hi h =>
              obtain ⟨-, rfl⟩ := replacesFirst_iff.mp h
              exact ⟨i, hi, by rw [hid]; rfl⟩
  · rename_i hbool2
    rw [List.mem_singleton]
    constructor
    · intro heq
      cases heq
      exact ⟨rfl, .fixed (by simpa using hbool2)⟩
    · rintro ⟨hid, hchosen⟩
      cases hcoordinate : id.bool2 with
      | zero =>
          rw [hcoordinate] at hid hchosen
          cases hchosen with
          | fixed => rw [hid]
      | succ i =>
          rw [hcoordinate] at hchosen
          cases hchosen with
          | condition _ _ h => exact absurd (replacesFirst_iff.mp h).1 hbool2

theorem mem_paramChoices {paramBound : Nat} {current : PatchID × Expression}
    (hparam : current.1.param = 0) {id : PatchID} {modified : Expression} :
    (id, modified) ∈ paramChoices paramBound current ↔
      id = { current.1 with param := id.param } ∧
        Parametrized paramBound current.2 id.param modified := by
  unfold paramChoices
  split
  · rename_i hnode
    rw [List.mem_map]
    constructor
    · rintro ⟨k, hk, heq⟩
      cases heq
      exact ⟨rfl, .constant k (by simpa [Nat.lt_succ_iff] using hk)
        (replacesFirst_substituteNodeOfKind hnode _)⟩
    · rintro ⟨hid, hparametrized⟩
      generalize hcoordinate : id.param = k at hid hparametrized
      cases hparametrized with
      | fixed h => simp [hnode] at h
      | constant _ hk h =>
          obtain ⟨-, rfl⟩ := replacesFirst_iff.mp h
          exact ⟨k, by simpa [Nat.lt_succ_iff] using hk, by rw [hid]; rfl⟩
  · rename_i hnode
    rw [List.mem_singleton]
    constructor
    · intro heq
      cases heq
      rw [hparam]
      exact ⟨by rw [← hparam], .fixed (by simpa using hnode)⟩
    · rintro ⟨hid, hparametrized⟩
      generalize hcoordinate : id.param = k at hid hparametrized
      cases hparametrized with
      | fixed => rw [hid, ← hparam]
      | constant _ _ h => exact absurd (replacesFirst_iff.mp h).1 hnode

theorem mem_candidates {conditions : List Expression} {paramBound base : Nat}
    {expression : Expression} {id : PatchID} {modified : Expression} :
    (id, modified) ∈
        candidates conditions paramBound (⟨base, 0, 0, 0, 0⟩, expression) ↔
      Decodes conditions paramBound base expression id modified := by
  rw [candidates, List.mem_flatMap]
  constructor
  · rintro ⟨⟨partialId, chosen⟩, hchosen, hmodified⟩
    obtain ⟨hpatch, hchosen⟩ := mem_bool2Choices.mp hchosen
    rw [hpatch] at hmodified
    obtain ⟨hid, hparametrized⟩ := (mem_paramChoices rfl).mp hmodified
    rw [hid]
    exact ⟨rfl, rfl, rfl, chosen, hchosen, hparametrized⟩
  · rintro ⟨hbase, hint2, hcond3, chosen, hchosen, hparametrized⟩
    obtain ⟨idBase, idInt2, idBool2, idCond3, idParam⟩ := id
    cases hbase
    cases hint2
    cases hcond3
    exact ⟨(⟨idBase, 0, idBool2, 0, 0⟩, chosen),
      mem_bool2Choices.mpr ⟨rfl, hchosen⟩,
      (mem_paramChoices rfl).mpr ⟨rfl, hparametrized⟩⟩

theorem Chosen.parametric {conditions : List Expression} {expression chosen : Expression}
    {coordinate : Nat} (h : Chosen conditions expression coordinate chosen)
    (hexpression : Schematic expression)
    (hconditions : ∀ condition ∈ conditions, Parametric condition) : Parametric chosen := by
  cases h with
  | fixed h => exact hexpression.parametric h
  | condition i hi h =>
      obtain ⟨hbool2, rfl⟩ := replacesFirst_iff.mp h
      exact bool2Instance_parametric (⟨0, 0, 0, 0, 0⟩, expression) hexpression hbool2
        (hconditions _ (List.getElem_mem hi)) i

theorem Decodes.abstractFree {conditions : List Expression} {paramBound base : Nat}
    {expression : Expression} {id : PatchID} {modified : Expression}
    (decodes : Decodes conditions paramBound base expression id modified)
    (hexpression : Schematic expression)
    (hconditions : ∀ condition ∈ conditions, Parametric condition) :
    modified.AbstractFree := by
  obtain ⟨chosen, hchosen, hparametrized⟩ := decodes.choice
  have hparametric := hchosen.parametric hexpression hconditions
  generalize id.param = coordinate at hparametrized
  cases hparametrized with
  | fixed h => exact hparametric.abstractFree h
  | constant _ _ h =>
      obtain ⟨hparam, rfl⟩ := replacesFirst_iff.mp h
      exact hparametric.instantiate hparam coordinate

private theorem paramChoices_ids_nodup (paramBound : Nat) (current : PatchID × Expression) :
    ((paramChoices paramBound current).map Prod.fst).Nodup := by
  unfold paramChoices
  split
  · rw [List.map_map]
    refine List.Nodup.map ?_ List.nodup_range
    intro k l heq
    exact congrArg PatchID.param heq
  · simp

theorem paramChoices_bool2 {paramBound : Nat} {current : PatchID × Expression}
    {id : PatchID} (h : id ∈ (paramChoices paramBound current).map Prod.fst) :
    id.bool2 = current.1.bool2 := by
  obtain ⟨candidate, hcandidate, rfl⟩ := List.mem_map.mp h
  unfold paramChoices at hcandidate
  split at hcandidate
  · obtain ⟨k, -, rfl⟩ := List.mem_map.mp hcandidate
    rfl
  · rw [List.mem_singleton.mp hcandidate]

private theorem bool2Choices_pairwise (conditions : List Expression)
    (current : PatchID × Expression) :
    (bool2Choices conditions current).Pairwise fun first second =>
      first.1.bool2 ≠ second.1.bool2 := by
  unfold bool2Choices
  split
  · rw [List.pairwise_reverse, List.pairwise_iff_getElem]
    intro i j hi hj hij
    simp [bool2Instance]
    omega
  · simp

theorem candidates_ids_nodup (conditions : List Expression) (paramBound : Nat)
    (current : PatchID × Expression) :
    ((candidates conditions paramBound current).map Prod.fst).Nodup := by
  rw [candidates, List.map_flatMap, List.nodup_flatMap]
  refine ⟨fun chosen _ => paramChoices_ids_nodup paramBound chosen, ?_⟩
  apply (bool2Choices_pairwise conditions current).imp
  intro first second hdistinct id hfirst hsecond
  exact hdistinct ((paramChoices_bool2 hfirst).symm.trans (paramChoices_bool2 hsecond))

end F1X.generator
