import F1X.Runtime.Partition
import F1X.Synthesis.Candidates
import F1X.Synthesis.Synthesizable
import Mathlib.Order.Monotone.Basic

/-!
# The search space

What `candidateDispatch` emits and appends for all base modifications of one
schema application.  Over a list of schema applications the base counter keeps
the ids of different applications apart.
-/

namespace F1X.generator

open F1X.Library F1X.synthesis

/-! ## All base modifications -/

def basePatches (sa : SchemaApplication) (conditions : List Expression)
    (paramBound : Nat) : Nat → List Modification → List Patch
  | _, [] => []
  | baseId, m :: ms =>
      (candidates conditions paramBound (⟨baseId, 0, 0, 0, 0⟩, m.1)).map
          (patchOf sa m.2) ++
        basePatches sa conditions paramBound (baseId + 1) ms

theorem mem_basePatches {sa : SchemaApplication} {conditions : List Expression}
    {paramBound baseId : Nat} {modifications : List Modification} {patch : Patch} :
    patch ∈ basePatches sa conditions paramBound baseId modifications ↔
      patch.app = sa ∧ ∃ j, ∃ h : j < modifications.length,
        patch.metadata = modifications[j].2 ∧
        Decodes conditions paramBound (baseId + j) modifications[j].1 patch.id
          patch.modified := by
  induction modifications generalizing baseId with
  | nil => simp [basePatches]
  | cons m ms ih =>
      rw [basePatches, List.mem_append, ih, List.mem_map]
      constructor
      · rintro (⟨candidate, hcandidate, rfl⟩ | ⟨happ, j, hj, hmetadata, hdecodes⟩)
        · exact ⟨rfl, 0, by simp, rfl, mem_candidates.mp hcandidate⟩
        · refine ⟨happ, j + 1, by simpa using hj, by simpa using hmetadata, ?_⟩
          simpa [Nat.add_assoc, Nat.add_comm 1 j] using hdecodes
      · rintro ⟨happ, j, hj, hmetadata, hdecodes⟩
        cases j with
        | zero =>
            refine .inl ⟨(patch.id, patch.modified), mem_candidates.mpr hdecodes, ?_⟩
            obtain ⟨id, app, modified, metadata⟩ := patch
            cases happ
            cases hmetadata
            rfl
        | succ j =>
            refine .inr ⟨happ, j, by simpa using hj, by simpa using hmetadata, ?_⟩
            simpa [Nat.add_assoc, Nat.add_comm 1 j] using hdecodes

theorem basePatches_base {sa : SchemaApplication} {conditions : List Expression}
    {paramBound baseId : Nat} {modifications : List Modification} {patch : Patch}
    (h : patch ∈ basePatches sa conditions paramBound baseId modifications) :
    baseId ≤ patch.id.base ∧ patch.id.base < baseId + modifications.length := by
  obtain ⟨-, j, hj, -, hdecodes⟩ := mem_basePatches.mp h
  rw [hdecodes.base]
  omega

theorem basePatches_ids_nodup (sa : SchemaApplication) (conditions : List Expression)
    (paramBound baseId : Nat) (modifications : List Modification) :
    ((basePatches sa conditions paramBound baseId modifications).map (·.id)).Nodup := by
  induction modifications generalizing baseId with
  | nil => simp [basePatches]
  | cons m ms ih =>
      rw [basePatches, List.map_append, List.map_map]
      refine List.Nodup.append
        (candidates_ids_nodup conditions paramBound _) (ih (baseId + 1)) ?_
      intro id hfirst hrest
      obtain ⟨candidate, hcandidate, rfl⟩ := List.mem_map.mp hfirst
      obtain ⟨patch, hpatch, heq⟩ := List.mem_map.mp hrest
      obtain ⟨id, modified⟩ := candidate
      have hbase : id.base = baseId := (mem_candidates.mp hcandidate).base
      have hlater := (basePatches_base hpatch).1
      rw [show patch.id = id from heq, hbase] at hlater
      omega

private theorem dispatchBases_eq_ok (names : Naming) (sa : SchemaApplication)
    {conditions : List Expression} (paramBound fuel : Nat) {modifications : List Modification}
    (hmodifications : ∀ m ∈ modifications, Schematic m.1)
    (hconditions : ∀ condition ∈ conditions, Parametric condition)
    (emission result : Emission) :
    dispatchBases names sa conditions paramBound fuel modifications emission =
        .ok result ↔
      ∃ exprs, modifications.mapM (fun m => names.runtimeExpr m.1) = .ok exprs ∧
        (∀ m ∈ modifications, loopSteps conditions m.1 < fuel) ∧
        result =
          { baseCases := emission.baseCases ++
              exprs.mapIdx fun j expr => (emission.baseId + j, expr)
            baseId := emission.baseId + modifications.length
            patches := emission.patches ++
              basePatches sa conditions paramBound emission.baseId modifications } := by
  induction modifications generalizing emission with
  | nil =>
      rw [dispatchBases, List.mapM_nil]
      constructor
      · intro h
        cases h
        exact ⟨[], rfl, by simp, by simp [basePatches]⟩
      · rintro ⟨exprs, h, -, rfl⟩
        cases h
        simp [basePatches]
  | cons m ms ih =>
      have hloop := workLoop_eq (⟨emission.baseId, 0, 0, 0, 0⟩, m.1)
        (hmodifications m (by simp)) hconditions paramBound fuel
      have hnext := ih fun other hmem => hmodifications other (by simp [hmem])
      rw [dispatchBases, List.mapM_cons]
      constructor
      · intro h
        obtain ⟨expr, hexpr, h⟩ := bind_eq_ok_iff.mp h
        obtain ⟨instances, hinstances, h⟩ := bind_eq_ok_iff.mp h
        obtain ⟨exprs, hexprs, hfuel, rfl⟩ := (hnext _).mp h
        rw [hloop] at hinstances
        split at hinstances
        · rename_i hsteps
          cases hinstances
          refine ⟨expr :: exprs, ?_, ?_, ?_⟩
          · rw [hexpr, hexprs]
            rfl
          · intro other hmem
            rcases List.mem_cons.mp hmem with rfl | hmem
            exacts [hsteps, hfuel other hmem]
          · simp [basePatches, List.mapIdx_cons, Nat.add_assoc, Nat.add_comm 1]
        · cases hinstances
      · rintro ⟨exprs, hexprs, hfuel, rfl⟩
        obtain ⟨expr, hexpr, hexprs⟩ := bind_eq_ok_iff.mp hexprs
        obtain ⟨rest, hrest, hexprs⟩ := bind_eq_ok_iff.mp hexprs
        cases hexprs
        rw [if_pos (hfuel m (by simp))] at hloop
        refine bind_eq_ok_iff.mpr ⟨expr, hexpr, bind_eq_ok_iff.mpr ⟨_, hloop, ?_⟩⟩
        refine (hnext _).mpr ⟨rest, hrest, fun other hmem => hfuel other (by simp [hmem]), ?_⟩
        simp [basePatches, List.mapIdx_cons, Nat.add_assoc, Nat.add_comm 1]

/-! ## One schema application -/

/--
The code emitted for the conditions and the base modifications: case `i + 1`
assigns condition `i`, case `baseId + j` assigns base modification `j`.
-/
def emittedCode (sa : SchemaApplication) (baseId : Nat) (conditions : List Expression)
    (modifications : List Modification) : Except Failure DispatchCode := do
  let names ← naming sa
  let bool2Cases ← conditions.mapM names.runtimeExpr
  let baseExprs ← modifications.mapM fun m => names.runtimeExpr m.1
  .ok ⟨bool2Cases, baseExprs.mapIdx fun j expr => (baseId + j, expr)⟩

private theorem naming_total {sa : SchemaApplication} {conditions : List Expression}
    (h : bool2Expressions sa.components = .ok conditions) :
    ∃ names, naming sa = .ok names := by
  obtain ⟨lists, hlists, -⟩ := bind_eq_ok_iff.mp h
  have htypes : sa.components.all fun c => c.type = .integer ∨ c.type = .pointer := by
    rw [List.all_eq_true]
    intro component hcomponent
    obtain ⟨list, hlist⟩ := exists_of_mapM hlists hcomponent
    unfold bool2ExpressionsOf at hlist
    split at hlist
    · rename_i hpointer
      simp [hpointer]
    · rename_i hinteger
      simp [hinteger]
    · cases hlist
  exact ⟨_, bind_eq_ok_iff.mpr ⟨_, if_pos htypes, rfl⟩⟩

theorem emittedCode_total {sa : SchemaApplication} (hwell : sa.WellFormed)
    {conditions : List Expression} {modifications : List Modification}
    (hconditions : bool2Expressions sa.components = .ok conditions)
    (hmodifications : baseModifications sa.schema sa.original sa.components =
      .ok modifications) (baseId : Nat) :
    ∃ code, emittedCode sa baseId conditions modifications = .ok code := by
  obtain ⟨names, hnames⟩ := naming_total hconditions
  have hexpr : ∀ expression : Expression, expression.WellFormed →
      ∃ expr, names.runtimeExpr expression = .ok expr := fun expression h =>
    runtimeSemantics_total _ _ (substituteWithRuntimeRepr_wellFormed _ h)
  obtain ⟨bool2Cases, hbool2Cases⟩ := mapM_total fun condition hcondition =>
    hexpr condition ((bool2Expressions_atomic hconditions condition hcondition).wellFormed
      hwell.components)
  obtain ⟨baseExprs, hbaseExprs⟩ := mapM_total (f := fun m => names.runtimeExpr m.1)
    fun m hm => hexpr m.1 (baseModifications_wellFormed hwell.original hwell.components
      hmodifications m hm)
  exact ⟨_, bind_eq_ok_iff.mpr ⟨names, hnames, bind_eq_ok_iff.mpr ⟨bool2Cases, hbool2Cases,
    bind_eq_ok_iff.mpr ⟨baseExprs, hbaseExprs, rfl⟩⟩⟩⟩

theorem loopSteps_le (conditions : List Expression) (expression : Expression) :
    loopSteps conditions expression ≤ conditions.length + 1 := by
  unfold loopSteps
  split <;> omega

section Application

variable {sa : SchemaApplication} (hfree : sa.AbstractFree)
  {conditions : List Expression} {modifications : List Modification}
  (hconditions : bool2Expressions sa.components = .ok conditions)
  (hmodifications : baseModifications sa.schema sa.original sa.components =
    .ok modifications)

include hfree hconditions in
theorem conditions_parametric : ∀ condition ∈ conditions, Parametric condition :=
  fun condition hcondition =>
    (bool2Expressions_atomic hconditions condition hcondition).parametric hfree.components

include hfree hmodifications in
theorem modifications_schematic : ∀ m ∈ modifications, Schematic m.1 :=
  baseModifications_schematic hfree.original hfree.components hmodifications

include hfree hconditions hmodifications in
theorem candidateDispatch_eq_ok (cfg : Config) (fuel baseId : Nat) (ss : List Patch)
    (result : DispatchCode × Nat × List Patch) :
    candidateDispatch cfg fuel sa baseId ss = .ok result ↔
      (∀ m ∈ modifications, loopSteps conditions m.1 < fuel) ∧
      ∃ code, emittedCode sa baseId conditions modifications = .ok code ∧
        result = (code, baseId + modifications.length,
          ss ++ basePatches sa conditions (cfg.paramBound sa.context) baseId
            modifications) := by
  have hbases := fun names => dispatchBases_eq_ok names sa (cfg.paramBound sa.context) fuel
    (modifications_schematic hfree hmodifications)
    (conditions_parametric hfree hconditions) ⟨[], baseId, ss⟩
  constructor
  · intro h
    obtain ⟨names, hnames, h⟩ := bind_eq_ok_iff.mp h
    obtain ⟨conditions', hconditions', h⟩ := bind_eq_ok_iff.mp h
    cases hconditions.symm.trans hconditions'
    obtain ⟨bool2Cases, hbool2Cases, h⟩ := bind_eq_ok_iff.mp h
    obtain ⟨modifications', hmodifications', h⟩ := bind_eq_ok_iff.mp h
    cases hmodifications.symm.trans hmodifications'
    obtain ⟨emission, hemission, h⟩ := bind_eq_ok_iff.mp h
    cases h
    obtain ⟨exprs, hexprs, hfuel, rfl⟩ := (hbases names emission).mp hemission
    refine ⟨hfuel, _, bind_eq_ok_iff.mpr ⟨names, hnames,
      bind_eq_ok_iff.mpr ⟨bool2Cases, hbool2Cases,
        bind_eq_ok_iff.mpr ⟨exprs, hexprs, rfl⟩⟩⟩, rfl⟩
  · rintro ⟨hfuel, code, hcode, rfl⟩
    obtain ⟨names, hnames, hcode⟩ := bind_eq_ok_iff.mp hcode
    obtain ⟨bool2Cases, hbool2Cases, hcode⟩ := bind_eq_ok_iff.mp hcode
    obtain ⟨exprs, hexprs, hcode⟩ := bind_eq_ok_iff.mp hcode
    cases hcode
    refine bind_eq_ok_iff.mpr ⟨names, hnames, bind_eq_ok_iff.mpr ⟨_, hconditions,
      bind_eq_ok_iff.mpr ⟨bool2Cases, hbool2Cases, bind_eq_ok_iff.mpr ⟨_, hmodifications,
        bind_eq_ok_iff.mpr ⟨_, (hbases names _).mpr ⟨exprs, hexprs, hfuel, rfl⟩, rfl⟩⟩⟩⟩⟩

end Application

theorem candidateDispatch_inv {cfg : Config} {fuel : Nat} {sa : SchemaApplication}
    (hfree : sa.AbstractFree) {baseId next : Nat} {ss extended : List Patch}
    {code : DispatchCode}
    (h : candidateDispatch cfg fuel sa baseId ss = .ok (code, next, extended)) :
    ∃ conditions modifications, bool2Expressions sa.components = .ok conditions ∧
      baseModifications sa.schema sa.original sa.components = .ok modifications ∧
      emittedCode sa baseId conditions modifications = .ok code ∧
      next = baseId + modifications.length ∧
      extended = ss ++ basePatches sa conditions (cfg.paramBound sa.context) baseId
        modifications := by
  obtain ⟨names, -, hrest⟩ := bind_eq_ok_iff.mp h
  obtain ⟨conditions, hconditions, hrest⟩ := bind_eq_ok_iff.mp hrest
  obtain ⟨bool2Cases, -, hrest⟩ := bind_eq_ok_iff.mp hrest
  obtain ⟨modifications, hmodifications, -⟩ := bind_eq_ok_iff.mp hrest
  obtain ⟨-, code', hcode, heq⟩ :=
    (candidateDispatch_eq_ok hfree hconditions hmodifications cfg fuel baseId ss _).mp h
  cases heq
  exact ⟨conditions, modifications, hconditions, hmodifications, hcode, rfl, rfl⟩

/--
Ids decode to their patches and nothing is missed: the work loop ends on every
base modification, and the appended patches are exactly those that an id
decodes to, each once and each concrete.
-/
theorem candidateDispatch_decodes (cfg : Config) {sa : SchemaApplication}
    (hfree : sa.AbstractFree) {conditions : List Expression}
    {modifications : List Modification}
    (hconditions : bool2Expressions sa.components = .ok conditions)
    (hmodifications : baseModifications sa.schema sa.original sa.components =
      .ok modifications)
    {fuel : Nat} (hfuel : conditions.length + 1 < fuel) (baseId : Nat) (ss : List Patch) :
    (∀ j, ∀ h : j < modifications.length, ∃ instances,
      workLoop conditions (cfg.paramBound sa.context) fuel
        [(⟨baseId + j, 0, 0, 0, 0⟩, modifications[j].1)] [] = .ok instances) ∧
    (sa.WellFormed →
      ∃ code, emittedCode sa baseId conditions modifications = .ok code) ∧
    ∃ patches : List Patch,
      (∀ result, candidateDispatch cfg fuel sa baseId ss = .ok result ↔
        ∃ code, emittedCode sa baseId conditions modifications = .ok code ∧
          result = (code, baseId + modifications.length, ss ++ patches)) ∧
      (∀ patch, patch ∈ patches ↔
        patch.app = sa ∧ ∃ j, ∃ h : j < modifications.length,
          patch.metadata = modifications[j].2 ∧
          Decodes conditions (cfg.paramBound sa.context) (baseId + j)
            modifications[j].1 patch.id patch.modified) ∧
      (patches.map (·.id)).Nodup ∧
      ∀ patch ∈ patches, patch.modified.AbstractFree := by
  have hschematic := modifications_schematic hfree hmodifications
  have hparametric := conditions_parametric hfree hconditions
  refine ⟨?_, fun hwell => emittedCode_total hwell hconditions hmodifications baseId,
    basePatches sa conditions (cfg.paramBound sa.context) baseId modifications,
    ?_, fun patch => mem_basePatches, basePatches_ids_nodup _ _ _ _ _, ?_⟩
  · intro j hj
    have hsteps := loopSteps_le conditions modifications[j].1
    rw [workLoop_eq _ (hschematic _ (List.getElem_mem hj)) hparametric,
      if_pos (show loopSteps conditions modifications[j].1 < fuel by omega)]
    exact ⟨_, rfl⟩
  · intro result
    rw [candidateDispatch_eq_ok hfree hconditions hmodifications]
    apply and_iff_right
    intro m _
    have hsteps := loopSteps_le conditions m.1
    omega
  · intro patch hpatch
    obtain ⟨-, j, hj, -, hdecodes⟩ := mem_basePatches.mp hpatch
    exact hdecodes.abstractFree (hschematic _ (List.getElem_mem hj)) hparametric

/-- With fuel for its conditions, a loaded application is generated. -/
theorem generateSearchSpace_singleton (cfg : Config) {sa : SchemaApplication}
    (hfree : sa.AbstractFree) (hwell : sa.WellFormed)
    (hcomponents : ∀ component ∈ sa.components, Component component)
    (hsynthesizable : sa.original.Synthesizable) :
    ∃ fuel codes searchSpace, generateSearchSpace cfg fuel [sa] = .ok (codes, searchSpace) := by
  obtain ⟨conditions, hconditions⟩ := bool2Expressions_total hcomponents
  obtain ⟨modifications, hmodifications⟩ :=
    baseModifications_total sa.schema sa.components hsynthesizable
  obtain ⟨code, hcode⟩ := emittedCode_total hwell hconditions hmodifications 1
  have hdispatch := (candidateDispatch_eq_ok hfree hconditions hmodifications cfg
    (conditions.length + 2) 1 [] _).mpr
      ⟨fun m _ => Nat.lt_succ_of_le (loopSteps_le conditions m.1), code, hcode, rfl⟩
  exact ⟨conditions.length + 2, _, _, bind_eq_ok_iff.mpr ⟨_, hdispatch, rfl⟩⟩

def pointerGuard : SchemaApplication where
  id := 1
  schema := .ifGuard
  location := ⟨0, 1, 1, 1, 1⟩
  context := .condition
  original := trueNode
  components := [⟨.variable, .pointer, .none, "int", "p", []⟩]
  completePointeeTypes := ["int"]

theorem pointerGuard_abstractFree : pointerGuard.AbstractFree :=
  ⟨rfl, by simp [pointerGuard, Expression.AbstractFree, isAbstractExpression,
    anyAbstractExpression, isAbstractNode]⟩

theorem candidateDispatch_decodes_guard :
    ∃ instances,
      workLoop
        [makeNULLCheck ⟨.variable, .pointer, .none, "int", "p", []⟩,
          makeNonNULLCheck ⟨.variable, .pointer, .none, "int", "p", []⟩,
          applyBoolOperator .eq ⟨.variable, .pointer, .none, "int", "p", []⟩
            ⟨.variable, .pointer, .none, "int", "p", []⟩,
          applyBoolOperator .neq ⟨.variable, .pointer, .none, "int", "p", []⟩
            ⟨.variable, .pointer, .none, "int", "p", []⟩]
        64 6 [(⟨8, 0, 0, 0, 0⟩, bool2Node)] [] = .ok instances :=
  (candidateDispatch_decodes .default pointerGuard_abstractFree rfl rfl
    (show 5 < 6 by decide) 7 []).1 1 (by decide)

/-! ## All schema applications -/

/-- The patches of one schema application, in the order of the search space. -/
inductive Appended (cfg : Config) (sa : SchemaApplication) : List Patch → Prop
  | mk {conditions : List Expression} {modifications : List Modification} (baseId : Nat)
      (hconditions : bool2Expressions sa.components = .ok conditions)
      (hmodifications : baseModifications sa.schema sa.original sa.components =
        .ok modifications) :
      Appended cfg sa
        (basePatches sa conditions (cfg.paramBound sa.context) baseId modifications)

theorem candidateDispatch_appended {cfg : Config} {fuel : Nat} {sa : SchemaApplication}
    (hfree : sa.AbstractFree) {baseId next : Nat} {ss extended : List Patch}
    {code : DispatchCode}
    (h : candidateDispatch cfg fuel sa baseId ss = .ok (code, next, extended)) :
    ∃ patches, extended = ss ++ patches ∧ Appended cfg sa patches := by
  obtain ⟨conditions, modifications, hconditions, hmodifications, -, -, rfl⟩ :=
    candidateDispatch_inv hfree h
  exact ⟨_, rfl, .mk baseId hconditions hmodifications⟩

private theorem partitioningFunctionsFrom_appended {cfg : Config} {fuel : Nat}
    {sas : List SchemaApplication} (hfree : ∀ sa ∈ sas, sa.AbstractFree) {baseId : Nat}
    {searchSpace final : List Patch} {codes : List DispatchCode}
    (h : partitioningFunctionsFrom cfg fuel sas baseId searchSpace = .ok (codes, final)) :
    ∃ parts : List (List Patch), final = searchSpace ++ parts.flatten ∧
      List.Forall₂ (Appended cfg) sas parts := by
  induction sas generalizing baseId searchSpace codes with
  | nil =>
      cases h
      exact ⟨[], by simp, .nil⟩
  | cons sa sas ih =>
      obtain ⟨⟨code, next, extended⟩, hcode, h⟩ := bind_eq_ok_iff.mp h
      obtain ⟨⟨others, last⟩, hothers, h⟩ := bind_eq_ok_iff.mp h
      cases h
      obtain ⟨hhead, htail⟩ := List.forall_mem_cons.mp hfree
      obtain ⟨patches, rfl, happended⟩ := candidateDispatch_appended hhead hcode
      obtain ⟨parts, rfl, hparts⟩ := ih htail hothers
      exact ⟨patches :: parts, by simp, .cons happended hparts⟩

theorem generateSearchSpace_appended {cfg : Config} {fuel : Nat}
    {sas : List SchemaApplication} (hfree : ∀ sa ∈ sas, sa.AbstractFree)
    {codes : List DispatchCode} {searchSpace : List Patch}
    (h : generateSearchSpace cfg fuel sas = .ok (codes, searchSpace)) :
    ∃ parts : List (List Patch), searchSpace = parts.flatten ∧
      List.Forall₂ (Appended cfg) sas parts := by
  obtain ⟨parts, hparts, hforall⟩ := partitioningFunctionsFrom_appended hfree h
  exact ⟨parts, hparts, hforall⟩

def DispatchedAs (cfg : Config) (fuel : Nat) (function : SchemaApplication × DispatchCode)
    (patches : List Patch) : Prop :=
  ∃ baseId next ss, candidateDispatch cfg fuel function.1 baseId ss =
    .ok (function.2, next, ss ++ patches)

theorem DispatchedAs.app {cfg : Config} {fuel : Nat}
    {function : SchemaApplication × DispatchCode} (hfree : function.1.AbstractFree)
    {patches : List Patch} (h : DispatchedAs cfg fuel function patches) :
    ∀ patch ∈ patches, patch.app = function.1 := by
  obtain ⟨baseId, next, ss, hdispatch⟩ := h
  obtain ⟨conditions, modifications, -, -, -, -, hpatches⟩ :=
    candidateDispatch_inv hfree hdispatch
  rw [List.append_cancel_left_eq] at hpatches
  intro patch hpatch
  exact (mem_basePatches.mp (hpatches ▸ hpatch)).1

private theorem partitioningFunctionsFrom_dispatched {cfg : Config} {fuel : Nat}
    {sas : List SchemaApplication} (hfree : ∀ sa ∈ sas, sa.AbstractFree) {baseId : Nat}
    {searchSpace final : List Patch} {codes : List DispatchCode}
    (h : partitioningFunctionsFrom cfg fuel sas baseId searchSpace = .ok (codes, final)) :
    ∃ patches, final = searchSpace ++ patches ∧ ∀ patch ∈ patches, ∃ code part,
      (patch.app, code) ∈ sas.zip codes ∧ DispatchedAs cfg fuel (patch.app, code) part ∧
        patch ∈ part := by
  induction sas generalizing baseId searchSpace codes with
  | nil =>
      cases h
      exact ⟨[], by simp, by simp⟩
  | cons sa sas ih =>
      obtain ⟨⟨code, next, extended⟩, hcode, h⟩ := bind_eq_ok_iff.mp h
      obtain ⟨⟨others, last⟩, hothers, h⟩ := bind_eq_ok_iff.mp h
      cases h
      obtain ⟨hhead, htail⟩ := List.forall_mem_cons.mp hfree
      obtain ⟨part, rfl, -⟩ := candidateDispatch_appended hhead hcode
      obtain ⟨later, rfl, hlater⟩ := ih htail hothers
      have hdispatched : DispatchedAs cfg fuel (sa, code) part :=
        ⟨baseId, next, searchSpace, hcode⟩
      refine ⟨part ++ later, by simp, fun patch hpatch => ?_⟩
      rcases List.mem_append.mp hpatch with hpatch | hpatch
      · have happ := hdispatched.app hhead patch hpatch
        exact ⟨code, part, by simp [happ], happ ▸ hdispatched, hpatch⟩
      · obtain ⟨other, otherPart, hfunction, hother, hmem⟩ := hlater patch hpatch
        exact ⟨other, otherPart, by simp [hfunction], hother, hmem⟩

theorem generateSearchSpace_function {cfg : Config} {fuel : Nat}
    {sas : List SchemaApplication} (hfree : ∀ sa ∈ sas, sa.AbstractFree)
    {codes : List DispatchCode} {searchSpace : List Patch}
    (h : generateSearchSpace cfg fuel sas = .ok (codes, searchSpace)) {patch : Patch}
    (hpatch : patch ∈ searchSpace) :
    ∃ code part, (patch.app, code) ∈ sas.zip codes ∧
      DispatchedAs cfg fuel (patch.app, code) part ∧ patch ∈ part := by
  obtain ⟨patches, hpatches, hdispatched⟩ := partitioningFunctionsFrom_dispatched hfree h
  rw [List.nil_append] at hpatches
  subst hpatches
  exact hdispatched patch hpatch

theorem function_unique {sas : List SchemaApplication} (hids : (sas.map (·.id)).Nodup)
    {codes : List DispatchCode} {function other : SchemaApplication × DispatchCode}
    (hfunction : function ∈ sas.zip codes) (hother : other ∈ sas.zip codes)
    (hid : function.1.id = other.1.id) : function = other := by
  obtain ⟨i, hi, rfl⟩ := List.mem_iff_getElem.mp hfunction
  obtain ⟨j, hj, rfl⟩ := List.mem_iff_getElem.mp hother
  have hi' : i < (sas.map (·.id)).length := by
    simp only [List.length_zip, List.length_map] at hi ⊢
    omega
  have hj' : j < (sas.map (·.id)).length := by
    simp only [List.length_zip, List.length_map] at hj ⊢
    omega
  have hget : (sas.map (·.id))[i] = (sas.map (·.id))[j] := by simpa using hid
  cases (List.Nodup.getElem_inj_iff hids).mp hget
  rfl

/-- What one schema application contributes, with the base numbers from `start` on. -/
structure Segment (sa : SchemaApplication) (start next : Nat) (code : DispatchCode)
    (patches : List Patch) : Prop where
  ordered : start ≤ next
  app : ∀ patch ∈ patches, patch.app = sa
  base : ∀ patch ∈ patches, start ≤ patch.id.base ∧ patch.id.base < next
  distinct : (patches.map (·.id)).Nodup
  cases : code.baseCases.map Prod.fst = List.range' start (next - start)

inductive Segments : List SchemaApplication → Nat → List DispatchCode → List Patch → Prop
  | nil (start : Nat) : Segments [] start [] []
  | cons {sa : SchemaApplication} {sas : List SchemaApplication} {start next : Nat}
      {code : DispatchCode} {codes : List DispatchCode} {patches later : List Patch}
      (first : Segment sa start next code patches)
      (rest : Segments sas next codes later) :
      Segments (sa :: sas) start (code :: codes) (patches ++ later)

theorem emittedCode_cases {sa : SchemaApplication} {baseId : Nat}
    {conditions : List Expression} {modifications : List Modification}
    {code : DispatchCode}
    (h : emittedCode sa baseId conditions modifications = .ok code) :
    code.baseCases.map Prod.fst = List.range' baseId modifications.length := by
  obtain ⟨names, -, h⟩ := bind_eq_ok_iff.mp h
  obtain ⟨bool2Cases, -, h⟩ := bind_eq_ok_iff.mp h
  obtain ⟨exprs, hexprs, h⟩ := bind_eq_ok_iff.mp h
  cases h
  have hlength := (mapM_eq_ok_iff.mp hexprs).length_eq
  apply List.ext_getElem
  · simp [hlength]
  · intro j h1 h2
    simp

private theorem candidateDispatch_segment {cfg : Config} {fuel : Nat} {sa : SchemaApplication}
    (hfree : sa.AbstractFree) {baseId next : Nat} {ss extended : List Patch}
    {code : DispatchCode}
    (h : candidateDispatch cfg fuel sa baseId ss = .ok (code, next, extended)) :
    ∃ patches, extended = ss ++ patches ∧ Segment sa baseId next code patches := by
  obtain ⟨conditions, modifications, hconditions, hmodifications, hcode, rfl, rfl⟩ :=
    candidateDispatch_inv hfree h
  refine ⟨_, rfl, Nat.le_add_right _ _, ?_, fun patch hpatch => basePatches_base hpatch,
    basePatches_ids_nodup _ _ _ _ _, ?_⟩
  · intro patch hpatch
    exact (mem_basePatches.mp hpatch).1
  · rw [emittedCode_cases hcode, Nat.add_sub_cancel_left]

theorem partitioningFunctionsFrom_segments {cfg : Config} {fuel : Nat}
    {sas : List SchemaApplication} (hfree : ∀ sa ∈ sas, sa.AbstractFree) {baseId : Nat}
    {searchSpace final : List Patch} {codes : List DispatchCode}
    (h : partitioningFunctionsFrom cfg fuel sas baseId searchSpace = .ok (codes, final)) :
    ∃ patches, final = searchSpace ++ patches ∧ Segments sas baseId codes patches := by
  induction sas generalizing baseId searchSpace codes with
  | nil =>
      cases h
      exact ⟨[], by simp, .nil baseId⟩
  | cons sa sas ih =>
      obtain ⟨⟨code, next, extended⟩, hcode, h⟩ := bind_eq_ok_iff.mp h
      obtain ⟨⟨others, last⟩, hothers, h⟩ := bind_eq_ok_iff.mp h
      cases h
      obtain ⟨patches, rfl, hsegment⟩ :=
        candidateDispatch_segment (hfree sa (by simp)) hcode
      obtain ⟨later, rfl, hlater⟩ :=
        ih (fun other hmem => hfree other (by simp [hmem])) hothers
      exact ⟨patches ++ later, by simp, .cons hsegment hlater⟩

theorem Segments.base_le {sas : List SchemaApplication} {start : Nat}
    {codes : List DispatchCode} {patches : List Patch}
    (segments : Segments sas start codes patches) :
    ∀ patch ∈ patches, start ≤ patch.id.base := by
  induction segments with
  | nil => simp
  | cons first rest ih =>
      intro patch hpatch
      rcases List.mem_append.mp hpatch with hpatch | hpatch
      · exact (first.base patch hpatch).1
      · exact first.ordered.trans (ih patch hpatch)

theorem Segments.ids_nodup {sas : List SchemaApplication} {start : Nat}
    {codes : List DispatchCode} {patches : List Patch}
    (segments : Segments sas start codes patches) : (patches.map (·.id)).Nodup := by
  induction segments with
  | nil => simp
  | cons first rest ih =>
      rw [List.map_append]
      apply List.Nodup.append first.distinct ih
      intro id hfirst hrest
      obtain ⟨patch, hpatch, rfl⟩ := List.mem_map.mp hfirst
      obtain ⟨other, hother, heq⟩ := List.mem_map.mp hrest
      have hlt := (first.base patch hpatch).2
      have hle := rest.base_le other hother
      rw [show other.id = patch.id from heq] at hle
      omega

private theorem Segments.intervals {sas : List SchemaApplication} {start : Nat}
    {codes : List DispatchCode} {patches : List Patch}
    (segments : Segments sas start codes patches) :
    ∃ (first : Nat → Nat) (parts : List (List Patch)), first 0 = start ∧
      Monotone first ∧ codes.length = sas.length ∧ parts.length = sas.length ∧
      patches = parts.flatten ∧
      ∀ k code part, ∀ h : k < sas.length, codes[k]? = some code →
        parts[k]? = some part → Segment sas[k] (first k) (first (k + 1)) code part := by
  induction segments with
  | nil start =>
      exact ⟨fun _ => start, [], rfl, monotone_const, rfl, rfl, rfl, by simp⟩
  | @cons sa sas start next code codes patches later head rest ih =>
      obtain ⟨first, parts, rfl, hmono, hcodes, hparts, rfl, hsegments⟩ := ih
      refine ⟨fun k => k.casesOn start first, patches :: parts, rfl, ?_, by simp [hcodes],
        by simp [hparts], by simp, ?_⟩
      · apply monotone_nat_of_le_succ
        intro k
        cases k with
        | zero => exact head.ordered
        | succ k => exact hmono (Nat.le_succ k)
      · intro k code' part hk hcode hpart
        cases k with
        | zero =>
            cases hcode
            cases hpart
            exact head
        | succ k =>
            exact hsegments k code' part (by simpa using hk) (by simpa using hcode)
              (by simpa using hpart)

end F1X.generator

namespace F1X

open F1X.generator

/--
Patch ids are unique over the whole search space, none has base 0, and the base
numbers of different schema applications lie in disjoint intervals.
-/
theorem generateSearchSpace_ids_unique {cfg : Config} {fuel : Nat}
    {sas : List SchemaApplication} (hfree : ∀ sa ∈ sas, sa.AbstractFree)
    {codes : List DispatchCode} {searchSpace : List Patch}
    (h : generateSearchSpace cfg fuel sas = .ok (codes, searchSpace)) :
    (searchSpace.map (·.id)).Nodup ∧
    (∀ patch ∈ searchSpace, 1 ≤ patch.id.base ∧ patch.id ≠ inputTerminator ∧
      patch.id ≠ outputTerminator) ∧
    ∃ (first : Nat → Nat) (parts : List (List Patch)), first 0 = 1 ∧ Monotone first ∧
      codes.length = sas.length ∧ parts.length = sas.length ∧
      searchSpace = parts.flatten ∧
      ∀ k code part, ∀ h : k < sas.length, codes[k]? = some code →
        parts[k]? = some part → Segment sas[k] (first k) (first (k + 1)) code part := by
  obtain ⟨patches, hpatches, segments⟩ := partitioningFunctionsFrom_segments hfree h
  rw [List.nil_append] at hpatches
  cases hpatches
  refine ⟨segments.ids_nodup, ?_, segments.intervals⟩
  intro patch hpatch
  have hbase := segments.base_le patch hpatch
  obtain ⟨houtput, hinput⟩ := ne_terminator_of_base (Nat.one_le_iff_ne_zero.mp hbase)
  exact ⟨hbase, hinput, houtput⟩

theorem generateSearchSpace_ids_unique_guards :
    ∃ (codes : List DispatchCode) (searchSpace : List Patch),
      generateSearchSpace .default 6 [pointerGuard, pointerGuard] =
        .ok (codes, searchSpace) ∧
      searchSpace.length = 10 ∧ (searchSpace.map (·.id)).Nodup := by
  obtain ⟨codes, searchSpace, h, hlength⟩ : ∃ codes searchSpace,
      generateSearchSpace .default 6 [pointerGuard, pointerGuard] =
        .ok (codes, searchSpace) ∧ searchSpace.length = 10 :=
    ⟨_, _, rfl, rfl⟩
  have hfree : ∀ sa ∈ [pointerGuard, pointerGuard], sa.AbstractFree := by
    simpa using pointerGuard_abstractFree
  exact ⟨codes, searchSpace, h, hlength, (generateSearchSpace_ids_unique hfree h).1⟩

end F1X
