import F1X.Synthesis.PatchCount
import F1X.Synthesis.Synthesizable

/-!
# Dumping the search space

What `--output-space` writes, `dumpSearchSpace` of `repair/Util.cpp` with its
printers.  Costs are floating-point numbers, so their texts are a parameter.
-/

namespace F1X

open F1X.Library F1X.generator F1X.synthesis

def visualizePatchID (id : PatchID) : String :=
  toString id.base ++ ":" ++ toString id.int2 ++ ":" ++ toString id.bool2 ++ ":" ++
    toString id.cond3 ++ ":" ++ toString id.param

def visualizeTransformationSchema : TransformationSchema → Except Failure String
  | .expression => .ok "modify expression"
  | .ifGuard => .ok "add if guard"
  | .initialization => .ok "add array initialization"
  | _ => .error (.invalidArgument "unsupported transformation schema")

def visualizeSynthesisRule : SynthesisRule → Except Failure String
  | .operator => .ok "replace operator"
  | .swaping => .ok "swap arguments"
  | .simplification => .ok "simplify"
  | .generalization => .ok "generalize"
  | .concretization => .ok "concretize"
  | .loosening => .ok "loosen"
  | .tightening => .ok "tighten"
  | .negation => .ok "negate"
  | .nullCheck => .ok "null check"
  | .substitution => .ok "substitute"
  | _ => .error (.invalidArgument "unsupported synthesis rule")

def visualizeChange (el : Patch) : Except Failure String := do
  let original ← expressionToString el.app.original
  let modified ← expressionToString el.modified
  .ok ("\"" ++ original ++ "\"" ++ " ---> " ++ "\"" ++ modified ++ "\"")

def visualizeElement (el : Patch) (file : String) : Except Failure String := do
  let schema ← visualizeTransformationSchema el.app.schema
  let rule ← visualizeSynthesisRule el.metadata.rule
  let change ← visualizeChange el
  .ok (visualizePatchID el.id ++ " " ++ schema ++ " [" ++ rule ++ "] " ++ change ++
    " in " ++ file ++ ":" ++ toString el.app.location.beginLine)

/-- One round of the loop; reading `files` behind its end is a failure. -/
def dumpElement (files : List String) (cost : PatchID → String) (el : Patch) :
    Except Failure String := do
  let file ← (files[el.app.location.fileId]?).elim (.error .outOfRange) .ok
  let element ← visualizeElement el file
  .ok (cost el.id ++ " " ++ element ++ "\n")

def dumpSearchSpace (searchSpace : List Patch) (files : List String)
    (cost : PatchID → String) : Except Failure String := do
  let lines ← searchSpace.mapM (dumpElement files cost)
  .ok (String.join lines)

/-! ## Which rules are attached -/

/-- Some operator outside the left argument of pointer arithmetic has an integer operand. -/
def hasIntegerOperand : Expression → Bool
  | ⟨_, _, op, _, _, args⟩ =>
      match args with
      | [arg] => hasIntegerOperand arg
      | [left, right] =>
          left.type = .integer || right.type = .integer ||
            ((op ≠ .ptrAdd && op ≠ .ptrSub) && hasIntegerOperand left) ||
            hasIntegerOperand right
      | _ => false
termination_by structural expr => expr

namespace synthesis

variable {components : List Expression} {expr modified : Expression}
  {metadata : PatchMetadata}

theorem hasIntegerOperand_binary {left right : Expression} (hargs : expr.args = [left, right]) :
    hasIntegerOperand expr = true ↔ left.type = .integer ∨ right.type = .integer ∨
      ((expr.op ≠ .ptrAdd ∧ expr.op ≠ .ptrSub) ∧ hasIntegerOperand left = true) ∨
        hasIntegerOperand right = true := by
  obtain ⟨kind, type, op, rawType, repr, args⟩ := expr
  cases hargs
  simp [hasIntegerOperand, or_assoc]

private theorem hasIntegerOperand_unary {arg : Expression} (hargs : expr.args = [arg]) :
    hasIntegerOperand expr = hasIntegerOperand arg := by
  obtain ⟨kind, type, op, rawType, repr, args⟩ := expr
  cases hargs
  rfl

theorem Edit.hasIntegerOperand (edit : Edit components expr modified metadata)
    (hrule : metadata.rule = .unsignedCast) : hasIntegerOperand expr = true := by
  induction edit with
  | arg hargs _ ih =>
      rw [hasIntegerOperand_unary hargs]
      exact ih hrule
  | left hargs noPointer _ ih =>
      exact (hasIntegerOperand_binary hargs).mpr (.inr (.inr (.inl ⟨noPointer, ih hrule⟩)))
  | right hargs _ ih =>
      exact (hasIntegerOperand_binary hargs).mpr (.inr (.inr (.inr (ih hrule))))
  | castLeft hargs integer => exact (hasIntegerOperand_binary hargs).mpr (.inl integer)
  | castRight hargs integer => exact (hasIntegerOperand_binary hargs).mpr (.inr (.inl integer))
  | condition | generalize | parametrize | substitute | concretize | redirect | nullify
  | mutate | simplifyArg | simplifyLeft | simplifyRight => cases hrule

theorem abstractFree_withArgs (hfree : expr.AbstractFree) {args : List Expression}
    (hargs : ∀ arg ∈ args, arg.AbstractFree) : { expr with args := args }.AbstractFree := by
  rw [Expression.abstractFree_iff] at hfree ⊢
  exact ⟨hfree.1, hargs⟩

private theorem exists_unsignedCast (components : List Expression) (h : expr.WellFormed)
    (hfree : expr.AbstractFree) (hoperand : hasIntegerOperand expr = true) :
    ∃ modified metadata, Edit components expr modified metadata ∧
      metadata.rule = .unsignedCast ∧ modified.AbstractFree := by
  have hargs := (Expression.abstractFree_iff.mp hfree).2
  induction h with
  | leaf => cases hoperand
  | @unary _ _ _ arg _ _ ih =>
      have harg : arg.AbstractFree := hargs arg (by simp)
      obtain ⟨modified, metadata, edit, hrule, hmodified⟩ :=
        ih harg hoperand (Expression.abstractFree_iff.mp harg).2
      exact ⟨_, metadata, .arg rfl edit, hrule, abstractFree_withArgs hfree (by simpa)⟩
  | @binary _ _ _ left right _ _ _ ihLeft ihRight =>
      have hleft : left.AbstractFree := hargs left (by simp)
      have hright : right.AbstractFree := hargs right (by simp)
      rcases (hasIntegerOperand_binary rfl).mp hoperand with
        integer | integer | ⟨noPointer, hinner⟩ | hinner
      · refine ⟨_, _, .castLeft rfl integer, rfl, abstractFree_withArgs hfree ?_⟩
        simpa using ⟨abstractFree_wrapWithCast hleft _ _ _, hright⟩
      · refine ⟨_, _, .castRight rfl integer, rfl, abstractFree_withArgs hfree ?_⟩
        simpa using ⟨hleft, abstractFree_wrapWithCast hright _ _ _⟩
      · obtain ⟨modified, metadata, edit, hrule, hmodified⟩ :=
          ihLeft hleft hinner (Expression.abstractFree_iff.mp hleft).2
        refine ⟨_, metadata, .left rfl noPointer edit, hrule, abstractFree_withArgs hfree ?_⟩
        simpa using ⟨hmodified, hright⟩
      · obtain ⟨modified, metadata, edit, hrule, hmodified⟩ :=
          ihRight hright hinner (Expression.abstractFree_iff.mp hright).2
        refine ⟨_, metadata, .right rfl edit, hrule, abstractFree_withArgs hfree ?_⟩
        simpa using ⟨hleft, hmodified⟩

end synthesis

/-! ## The patches of one application -/

theorem exists_basePatch (sa : SchemaApplication) {conditions : List Expression}
    (paramBound baseId : Nat) {modifications : List Modification} {m : Modification}
    (hm : m ∈ modifications)
    (hchoice : hasNodeOfKind .bool2 m.1 = false ∨ conditions ≠ []) :
    ∃ patch ∈ basePatches sa conditions paramBound baseId modifications,
      patch.metadata = m.2 := by
  obtain ⟨j, hj, rfl⟩ := List.mem_iff_getElem.mp hm
  obtain ⟨i, chosen, hchosen⟩ :
      ∃ i chosen, Chosen conditions modifications[j].1 i chosen := by
    cases hbool2 : hasNodeOfKind .bool2 modifications[j].1 with
    | false => exact ⟨0, _, .fixed hbool2⟩
    | true =>
        have hne : conditions ≠ [] := by simpa [hbool2] using hchoice
        exact ⟨1, _, .condition 0 (List.length_pos_iff.mpr hne)
          (replacesFirst_substituteNodeOfKind hbool2 _)⟩
  obtain ⟨modified, hmodified⟩ : ∃ modified, Parametrized paramBound chosen 0 modified := by
    cases hparameter : hasNodeOfKind .parameter chosen with
    | false => exact ⟨_, .fixed hparameter⟩
    | true =>
        exact ⟨_, .constant 0 (Nat.zero_le _) (replacesFirst_substituteNodeOfKind hparameter _)⟩
  exact ⟨⟨⟨baseId + j, 0, i, 0, 0⟩, sa, modified, modifications[j].2⟩,
    mem_basePatches.mpr ⟨rfl, j, hj, rfl, rfl, rfl, rfl, chosen, hchosen, hmodified⟩, rfl⟩

private theorem decodes_wellFormed {conditions : List Expression} {paramBound base : Nat}
    {expression modified : Expression} {id : PatchID}
    (h : Decodes conditions paramBound base expression id modified)
    (hexpression : expression.WellFormed)
    (hconditions : ∀ condition ∈ conditions, condition.WellFormed) : modified.WellFormed := by
  obtain ⟨chosen, hchosen, hparametrized⟩ := h.choice
  have hwell : chosen.WellFormed := by
    generalize id.bool2 = choice at hchosen
    cases hchosen with
    | fixed => exact hexpression
    | condition i hi h =>
        obtain ⟨-, rfl⟩ := replacesFirst_iff.mp h
        exact substituteNodeOfKind_wellFormed _ (hconditions _ (List.getElem_mem hi)) hexpression
  generalize id.param = k at hparametrized
  cases hparametrized with
  | fixed => exact hwell
  | constant _ _ h =>
      obtain ⟨-, rfl⟩ := replacesFirst_iff.mp h
      exact substituteNodeOfKind_wellFormed _ (.leaf _ _ _ _) hwell

/-- No patch of the application has a schema or a rule that the printers do not list. -/
def Dumpable (sa : SchemaApplication) : Prop :=
  match sa.schema with
  | .expression => hasIntegerOperand sa.original = false
  | .ifGuard | .initialization => True
  | .loosening | .tightening => sa.components = []

private theorem visualizeSynthesisRule_total {rule : SynthesisRule} (h : rule ≠ .unsignedCast) :
    ∃ text, visualizeSynthesisRule rule = .ok text := by
  cases rule <;> first | exact ⟨_, rfl⟩ | exact absurd rfl h

section Application

variable {sa : SchemaApplication} {conditions : List Expression}
  {modifications : List Modification}
  (hconditions : bool2Expressions sa.components = .ok conditions)
  (hmodifications : baseModifications sa.schema sa.original sa.components =
    .ok modifications)

include hmodifications in
private theorem baseModifications_rule (hdumpable : Dumpable sa) :
    ∀ m ∈ modifications, m.2.rule ≠ .unsignedCast := by
  intro m hm hrule
  obtain ⟨bool2Depth, -, h⟩ := bind_eq_ok_iff.mp hmodifications
  unfold Dumpable at hdumpable
  generalize sa.schema = schema at h hdumpable
  cases schema with
  | expression =>
      obtain ⟨substitutions, hsubstitutions, h⟩ := bind_eq_ok_iff.mp h
      have hedit : m ∉ substitutions := by
        intro hmem
        have edit := (mem_baseSubstitutions hsubstitutions m.1 m.2).mp hmem
        rw [edit.hasIntegerOperand hrule] at hdumpable
        cases hdumpable
      split at h
      · cases h
        simp only [List.mem_append, hedit, false_or, List.mem_cons, List.not_mem_nil,
          or_false] at hm
        rcases hm with rfl | rfl <;> cases hrule
      · cases h
        exact hedit hm
  | ifGuard =>
      cases h
      simp only [List.mem_append, List.mem_singleton] at hm
      rcases hm with (hm | hm) | rfl
      · split at hm
        · cases List.mem_singleton.mp hm
          cases hrule
        · cases hm
      · split at hm
        · cases List.mem_singleton.mp hm
          cases hrule
        · cases hm
      · cases hrule
  | loosening | tightening =>
      cases h
      cases List.mem_singleton.mp hm
      cases hrule
  | initialization =>
      cases h
      cases hm

include hconditions in
private theorem conditions_ne_nil (hne : sa.components ≠ []) : conditions ≠ [] := by
  obtain ⟨lists, hlists, h⟩ := bind_eq_ok_iff.mp hconditions
  cases h
  obtain ⟨left, hleft⟩ := List.exists_mem_of_ne_nil _ hne
  obtain ⟨list, hlist⟩ := exists_of_mapM hlists hleft
  obtain ⟨list', hmem, hlist'⟩ := (exists_of_forall₂ (mapM_eq_ok_iff.mp hlists)).2 left hleft
  cases hlist.symm.trans hlist'
  have hfirst : ∃ condition, condition ∈ list := by
    unfold bool2ExpressionsOf at hlist
    split at hlist <;> cases hlist
    · exact ⟨makeNULLCheck left, by simp⟩
    · exact ⟨applyBoolOperator .eq left parameterNode, by simp⟩
  obtain ⟨condition, hcondition⟩ := hfirst
  exact List.ne_nil_of_mem (List.mem_flatten.mpr ⟨list, hmem, hcondition⟩)

variable {files : List String} {cost : PatchID → String} (hfree : sa.AbstractFree)
  (hwell : sa.WellFormed) {paramBound baseId : Nat}

/-- Without components there is no condition to weaken the expression with. -/
theorem visualizeTransformationSchema_total (hdumpable : Dumpable sa) {patch : Patch}
    (hpatch : patch ∈ basePatches sa conditions paramBound baseId modifications)
    (hconditions : bool2Expressions sa.components = .ok conditions)
    (hmodifications : baseModifications sa.schema sa.original sa.components =
      .ok modifications) :
    ∃ text, visualizeTransformationSchema sa.schema = .ok text := by
  obtain ⟨-, j, hj, -, hdecodes⟩ := mem_basePatches.mp hpatch
  unfold Dumpable at hdumpable
  generalize sa.schema = schema at hdumpable hmodifications
  cases schema with
  | expression | ifGuard | initialization => exact ⟨_, rfl⟩
  | loosening | tightening =>
      rw [hdumpable] at hconditions
      cases hconditions
      cases hmodifications
      obtain ⟨chosen, hchosen, -⟩ := hdecodes.choice
      have hmem := List.getElem_mem hj
      rw [List.mem_singleton] at hmem
      rw [hmem] at hchosen
      generalize patch.id.bool2 = choice at hchosen
      cases hchosen with
      | fixed hnone => cases hnone
      | condition _ hi => cases hi

include hconditions hmodifications hwell in
private theorem dumpElement_total (hfile : sa.location.fileId < files.length)
    (hdumpable : Dumpable sa) :
    ∀ patch ∈ basePatches sa conditions paramBound baseId modifications,
      ∃ line, dumpElement files cost patch = .ok line := by
  intro patch hpatch
  obtain ⟨schemaText, hschemaText⟩ :=
    visualizeTransformationSchema_total hdumpable hpatch hconditions hmodifications
  obtain ⟨rfl, j, hj, hmetadata, hdecodes⟩ := mem_basePatches.mp hpatch
  obtain ⟨ruleText, hruleText⟩ := visualizeSynthesisRule_total
    (baseModifications_rule hmodifications hdumpable _ (List.getElem_mem hj))
  rw [← hmetadata] at hruleText
  obtain ⟨original, horiginal⟩ := expressionToString_total hwell.original
  obtain ⟨modified, hmodified⟩ := expressionToString_total (decodes_wellFormed hdecodes
    (baseModifications_wellFormed hwell.original hwell.components hmodifications _
      (List.getElem_mem hj))
    fun condition hcondition => (bool2Expressions_atomic hconditions condition
      hcondition).wellFormed hwell.components)
  have hchange : visualizeChange patch =
      .ok ("\"" ++ original ++ "\"" ++ " ---> " ++ "\"" ++ modified ++ "\"") :=
    bind_eq_ok_iff.mpr ⟨original, horiginal, bind_eq_ok_iff.mpr ⟨modified, hmodified, rfl⟩⟩
  refine ⟨_, bind_eq_ok_iff.mpr ⟨files[patch.app.location.fileId], ?_,
    bind_eq_ok_iff.mpr ⟨_, bind_eq_ok_iff.mpr ⟨schemaText, hschemaText,
      bind_eq_ok_iff.mpr ⟨ruleText, hruleText,
        bind_eq_ok_iff.mpr ⟨_, hchange, rfl⟩⟩⟩, rfl⟩⟩⟩
  rw [List.getElem?_eq_getElem hfile]
  rfl

private theorem visualize_of_dumpElement {patch : Patch} {line : String}
    (h : dumpElement files cost patch = .ok line) :
    (∃ text, visualizeTransformationSchema patch.app.schema = .ok text) ∧
      ∃ text, visualizeSynthesisRule patch.metadata.rule = .ok text := by
  obtain ⟨file, -, h⟩ := bind_eq_ok_iff.mp h
  obtain ⟨element, h, -⟩ := bind_eq_ok_iff.mp h
  obtain ⟨schemaText, hschemaText, h⟩ := bind_eq_ok_iff.mp h
  obtain ⟨ruleText, hruleText, -⟩ := bind_eq_ok_iff.mp h
  exact ⟨⟨schemaText, hschemaText⟩, ruleText, hruleText⟩

include hconditions hmodifications hfree hwell in
private theorem dumpable_of_dumpElement
    (h : ∀ patch ∈ basePatches sa conditions paramBound baseId modifications,
      ∃ line, dumpElement files cost patch = .ok line) : Dumpable sa := by
  have hpatch {m : Modification} (hm : m ∈ modifications)
      (hchoice : hasNodeOfKind .bool2 m.1 = false ∨ conditions ≠ []) :
      (∃ text, visualizeTransformationSchema sa.schema = .ok text) ∧
        ∃ text, visualizeSynthesisRule m.2.rule = .ok text := by
    obtain ⟨patch, hmem, hmetadata⟩ := exists_basePatch sa paramBound baseId hm hchoice
    obtain ⟨line, hline⟩ := h patch hmem
    rw [← (mem_basePatches.mp hmem).1, ← hmetadata]
    exact visualize_of_dumpElement hline
  have hne := conditions_ne_nil hconditions
  unfold Dumpable
  generalize sa.schema = schema at hmodifications hpatch
  cases schema with
  | ifGuard | initialization => trivial
  | expression =>
      rw [← Bool.not_eq_true]
      intro hoperand
      obtain ⟨modified, metadata, edit, hrule, hmodified⟩ :=
        exists_unsignedCast sa.components hwell.original hfree.original hoperand
      have hmem := edit.mem_baseModifications hmodifications
      obtain ⟨text, htext⟩ := (hpatch hmem (.inl (hasNodeOfKind_abstractFree hmodified _ rfl))).2
      rw [hrule] at htext
      cases htext
  | loosening | tightening =>
      obtain ⟨bool2Depth, -, hmodifications⟩ := bind_eq_ok_iff.mp hmodifications
      cases hmodifications
      by_contra hcomponents
      obtain ⟨text, htext⟩ := (hpatch (List.mem_singleton_self _) (.inr (hne hcomponents))).1
      cases htext

end Application

/-! ## The whole dump -/

/-- The file has one line for every patch, in their order. -/
def Dumps (searchSpace : List Patch) (files : List String) (cost : PatchID → String) : Prop :=
  ∃ lines, dumpSearchSpace searchSpace files cost = .ok (String.join lines) ∧
    List.Forall₂ (fun patch line => ∃ file element,
      files[patch.app.location.fileId]? = some file ∧
        visualizeElement patch file = .ok element ∧
        line = cost patch.id ++ " " ++ element ++ "\n") searchSpace lines

theorem dumps_iff {searchSpace : List Patch} {files : List String} {cost : PatchID → String} :
    Dumps searchSpace files cost ↔
      ∀ patch ∈ searchSpace, ∃ line, dumpElement files cost patch = .ok line := by
  constructor
  · rintro ⟨lines, hlines, -⟩ patch hpatch
    obtain ⟨lines', hlines', -⟩ := bind_eq_ok_iff.mp hlines
    exact exists_of_mapM hlines' hpatch
  · intro h
    obtain ⟨lines, hlines⟩ := mapM_total h
    refine ⟨lines, bind_eq_ok_iff.mpr ⟨lines, hlines, rfl⟩, ?_⟩
    refine (mapM_eq_ok_iff.mp hlines).imp fun patch line hline => ?_
    obtain ⟨file, hfile, hline⟩ := bind_eq_ok_iff.mp hline
    obtain ⟨element, helement, hline⟩ := bind_eq_ok_iff.mp hline
    cases hline
    refine ⟨file, element, ?_, helement, rfl⟩
    cases hread : files[patch.app.location.fileId]? with
    | none =>
        rw [hread] at hfile
        cases hfile
    | some read =>
        rw [hread] at hfile
        cases hfile
        rfl

section Generated

variable {cfg : Config} {fuel : Nat} {sas : List SchemaApplication}
  (hfree : ∀ sa ∈ sas, sa.AbstractFree) (hwell : ∀ sa ∈ sas, sa.WellFormed)
  {codes : List DispatchCode} {searchSpace : List Patch}
  (h : generateSearchSpace cfg fuel sas = .ok (codes, searchSpace)) {files : List String}
  {cost : PatchID → String} {ordered : List Patch} (hordered : ordered.Perm searchSpace)

include hfree hwell h hordered in
theorem dumpable_of_dumps (hdumps : Dumps ordered files cost) : ∀ sa ∈ sas, Dumpable sa := by
  obtain ⟨parts, rfl, happended⟩ := generateSearchSpace_appended hfree h
  intro sa hmem
  obtain ⟨patches, hpatches, happended⟩ := (exists_of_forall₂ happended).2 sa hmem
  have hpart : ∀ patch ∈ patches, ∃ line, dumpElement files cost patch = .ok line :=
    fun patch hpatch => dumps_iff.mp hdumps patch
      (hordered.mem_iff.mpr (List.mem_flatten.mpr ⟨patches, hpatches, hpatch⟩))
  cases happended with
  | mk baseId hconditions hmodifications =>
      exact dumpable_of_dumpElement hconditions hmodifications (hfree sa hmem) (hwell sa hmem)
        hpart

include hfree hwell h hordered in
private theorem dumps_of_dumpable (hfiles : ∀ sa ∈ sas, sa.location.fileId < files.length)
    (hdumpable : ∀ sa ∈ sas, Dumpable sa) : Dumps ordered files cost := by
  obtain ⟨parts, rfl, happended⟩ := generateSearchSpace_appended hfree h
  rw [dumps_iff]
  intro patch hpatch
  obtain ⟨patches, hpatches, hpatch⟩ := List.mem_flatten.mp (hordered.mem_iff.mp hpatch)
  obtain ⟨sa, hmem, happended⟩ := (exists_of_forall₂ happended).1 patches hpatches
  cases happended with
  | mk baseId hconditions hmodifications =>
      exact dumpElement_total hconditions hmodifications (hwell sa hmem) (hfiles sa hmem)
        (hdumpable sa hmem) patch hpatch

end Generated

/-- The dump is written unless some operand can be cast to `unsigned`. -/
theorem dumpSearchSpace_iff {cfg : Config} {fuel : Nat} {sas : List SchemaApplication}
    (hfree : ∀ sa ∈ sas, sa.AbstractFree) (hwell : ∀ sa ∈ sas, sa.WellFormed)
    {codes : List DispatchCode} {searchSpace : List Patch}
    (h : generateSearchSpace cfg fuel sas = .ok (codes, searchSpace)) {files : List String}
    (hfiles : ∀ sa ∈ sas, sa.location.fileId < files.length) (cost : PatchID → String)
    {ordered : List Patch} (hordered : ordered.Perm searchSpace) :
    Dumps ordered files cost ↔ ∀ sa ∈ sas, Dumpable sa :=
  ⟨dumpable_of_dumps hfree hwell h hordered, dumps_of_dumpable hfree hwell h hordered hfiles⟩

def loopVariable (name : String) : Expression :=
  { kind := .variable, type := .integer, op := .none, rawType := "int", repr := name, args := [] }

def loopCondition : SchemaApplication where
  id := 1
  schema := .expression
  location := ⟨0, 1, 1, 1, 1⟩
  context := .condition
  original := applyBoolOperator .lt (loopVariable "i") (loopVariable "n")
  components := [loopVariable "i", loopVariable "n"]
  completePointeeTypes := []

theorem loopCondition_abstractFree : ∀ sa ∈ [loopCondition], sa.AbstractFree := by
  rw [List.forall_mem_singleton]
  refine ⟨rfl, ?_⟩
  intro component hmem
  rcases List.mem_pair.mp hmem with rfl | rfl <;> rfl

theorem loopCondition_wellFormed : ∀ sa ∈ [loopCondition], sa.WellFormed := by
  rw [List.forall_mem_singleton]
  refine ⟨wellFormed_applyBoolOperator (.leaf _ _ _ _) (.leaf _ _ _ _) rfl, ?_⟩
  intro component hmem
  rcases List.mem_pair.mp hmem with rfl | rfl <;> exact .leaf _ _ _ _

theorem loopCondition_generated :
    ∃ fuel codes searchSpace,
      generateSearchSpace .default fuel [loopCondition] = .ok (codes, searchSpace) := by
  refine generateSearchSpace_singleton .default (loopCondition_abstractFree _ (by simp))
    (loopCondition_wellFormed _ (by simp)) ?_
    (.binary _ _ _ rfl (by simp) (.leaf (by decide) _ _ _ _) (.leaf (by decide) _ _ _ _))
  intro component hmem
  rcases List.mem_pair.mp hmem with rfl | rfl <;> exact .mk (by decide) (.inl rfl) _ _

/-- The edit to `(unsigned) i < n` has a rule that the printer does not list. -/
theorem loopCondition_not_dumped :
    ∃ fuel codes searchSpace,
      generateSearchSpace .default fuel [loopCondition] = .ok (codes, searchSpace) ∧
        (∀ sa ∈ [loopCondition], sa.location.fileId < ["main.c"].length) ∧
        ∀ cost ordered, ordered.Perm searchSpace → ¬ Dumps ordered ["main.c"] cost := by
  obtain ⟨fuel, codes, searchSpace, h⟩ := loopCondition_generated
  refine ⟨fuel, codes, searchSpace, h, by decide, fun cost ordered hordered hdumps => ?_⟩
  have hdumpable := dumpable_of_dumps loopCondition_abstractFree loopCondition_wellFormed h
    hordered hdumps loopCondition (by simp)
  exact absurd hdumpable (by simp [Dumpable, loopCondition, hasIntegerOperand,
    applyBoolOperator, loopVariable])

theorem dumpSearchSpace_iff_loopCondition :
    ∃ fuel codes searchSpace,
      generateSearchSpace .default fuel [loopCondition] = .ok (codes, searchSpace) ∧
        (Dumps searchSpace ["main.c"] (fun _ => "1") ↔
          ∀ sa ∈ [loopCondition], Dumpable sa) := by
  obtain ⟨fuel, codes, searchSpace, h⟩ := loopCondition_generated
  exact ⟨fuel, codes, searchSpace, h, dumpSearchSpace_iff loopCondition_abstractFree
    loopCondition_wellFormed h (by decide) (fun _ => "1") (List.Perm.refl _)⟩

end F1X
