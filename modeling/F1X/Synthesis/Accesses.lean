import F1X.Synthesis.WellFormed

/-!
# The accesses of an expression

The variables and dereferences that occur in an expression.  Neither type
correction nor any edit makes an access up: it was in the expression before, or
it is in a component.
-/

namespace F1X

open F1X.Library F1X.synthesis

inductive AccessIn (access : Expression) : Expression → Prop
  | here (h : isAccess access) : AccessIn access access
  | inArg {expr arg : Expression} (hmem : arg ∈ expr.args) (h : AccessIn access arg) :
      AccessIn access expr

namespace AccessIn

variable {access arg left right : Expression}

theorem of_not_access {expr : Expression} (hkind : ¬isAccess expr) (h : AccessIn access expr) :
    ∃ arg ∈ expr.args, AccessIn access arg := by
  cases h with
  | here h => exact absurd h hkind
  | inArg hmem h => exact ⟨_, hmem, h⟩

theorem not_isAccess {type : ExprType} {op : Operator} {rawType repr : String}
    {args : List Expression} : ¬isAccess ⟨.operator, type, op, rawType, repr, args⟩ := by
  rintro (h | h) <;> cases h

theorem unary {type : ExprType} {op : Operator} {rawType repr : String}
    (h : AccessIn access ⟨.operator, type, op, rawType, repr, [arg]⟩) :
    AccessIn access arg := by
  obtain ⟨other, hmem, h⟩ := h.of_not_access not_isAccess
  cases List.mem_singleton.mp hmem
  exact h

theorem binary {type : ExprType} {op : Operator} {rawType repr : String}
    (h : AccessIn access ⟨.operator, type, op, rawType, repr, [left, right]⟩) :
    AccessIn access left ∨ AccessIn access right := by
  obtain ⟨other, hmem, hin⟩ := h.of_not_access not_isAccess
  rcases List.mem_pair.mp hmem with rfl | rfl
  · exact .inl hin
  · exact .inr hin

theorem leaf {kind : NodeKind} {type : ExprType} {op : Operator} {rawType repr : String}
    (h : AccessIn access ⟨kind, type, op, rawType, repr, []⟩) :
    access = ⟨kind, type, op, rawType, repr, []⟩ ∧ isAccess access := by
  cases h with
  | here h => exact ⟨rfl, h⟩
  | inArg hmem => simp at hmem

theorem not_leaf {kind : NodeKind} {type : ExprType} {op : Operator} {rawType repr : String}
    (hkind : ¬(kind = .variable ∨ kind = .dereference)) :
    ¬AccessIn access ⟨kind, type, op, rawType, repr, []⟩ := by
  intro h
  obtain ⟨rfl, haccess⟩ := h.leaf
  exact hkind haccess

end AccessIn

/-! ## Type correction -/

theorem correctTopNode_accessIn {expression access : Expression} {context : ExprType}
    (h : AccessIn access (correctTopNode expression context)) : AccessIn access expression := by
  have hcompare : ∀ {op : Operator} {other : Expression}, other.kind = .constant →
      other.args = [] → AccessIn access (applyBoolOperator op expression other) →
        AccessIn access expression := by
    rintro op ⟨kind, type, _, rawType, repr, args⟩ rfl rfl h
    exact h.binary.resolve_right (AccessIn.not_leaf (by simp))
  revert h
  exact correctTopNode_cases (P := fun corrected => AccessIn access corrected → _) context id
    (fun _ _ _ _ h => h.unary) (hcompare rfl rfl) (hcompare rfl rfl)
    fun _ => ⟨fun h => absurd h (AccessIn.not_leaf (by simp)),
      fun h => absurd h (AccessIn.not_leaf (by simp))⟩

theorem correctTypes_accessIn {expression corrected access : Expression} {context : ExprType}
    (hwell : expression.WellFormed) (h : correctTypes expression context = .ok corrected)
    (haccess : AccessIn access corrected) : AccessIn access expression := by
  refine correctTypes_induction
    (P := fun expression corrected => AccessIn access corrected → AccessIn access expression)
    (fun _ _ _ _ => id) (fun _ ih hin => .inArg (by simp) (ih hin.unary)) ?_ ?_
    (fun _ _ ih hin => ih (correctTopNode_accessIn hin)) hwell h haccess
  · intro type op rawType left right correctedRight _ _ _ ihRight hin
    rcases hin.binary with hin | hin
    · exact .inArg (by simp) hin
    · exact .inArg (by simp) (ihRight hin)
  · intro type op rawType left right correctedLeft correctedRight _ _ ihLeft ihRight hin
    rcases hin.binary with hin | hin
    · exact .inArg (by simp) (ihLeft hin)
    · exact .inArg (by simp) (ihRight hin)

/-! ## Edits -/

namespace synthesis

theorem Edit.accessIn {components : List Expression} {expr modified access : Expression}
    {metadata : PatchMetadata} (edit : Edit components expr modified metadata)
    (hwell : expr.WellFormed) (h : AccessIn access modified) :
    AccessIn access expr ∨ ∃ component ∈ components, AccessIn access component := by
  induction edit with
  | condition => exact absurd h (AccessIn.not_leaf (by simp))
  | parametrize | concretize => exact absurd h (AccessIn.not_leaf (by simp))
  | nullify => exact absurd h (AccessIn.not_leaf (by simp))
  | generalize _ _ _ hmem | substitute _ _ _ hmem | redirect _ _ _ hmem =>
      exact .inr ⟨_, hmem, h⟩
  | mutate hfirst =>
      cases hwell with
      | leaf => cases hfirst
      | unary | binary =>
          obtain ⟨arg, hmem, hin⟩ := h.of_not_access AccessIn.not_isAccess
          exact .inl (.inArg hmem hin)
  | arg hargs _ ih =>
      obtain ⟨type, op, rawType, -, harg, rfl⟩ := hwell.unary_args hargs
      rcases ih harg h.unary with hin | hin
      · exact .inl (.inArg (by simp) hin)
      · exact .inr hin
  | left hargs _ _ ih =>
      obtain ⟨type, op, rawType, -, hleft, hright, rfl⟩ := hwell.binary_args hargs
      rcases AccessIn.binary h with hin | hin
      · exact (ih hleft hin).imp_left (.inArg (by simp))
      · exact .inl (.inArg (by simp) hin)
  | right hargs _ ih =>
      obtain ⟨type, op, rawType, -, hleft, hright, rfl⟩ := hwell.binary_args hargs
      rcases AccessIn.binary h with hin | hin
      · exact .inl (.inArg (by simp) hin)
      · exact (ih hright hin).imp_left (.inArg (by simp))
  | castLeft hargs =>
      obtain ⟨type, op, rawType, -, hleft, hright, rfl⟩ := hwell.binary_args hargs
      rcases AccessIn.binary h with hin | hin
      · exact .inl (.inArg (by simp) hin.unary)
      · exact .inl (.inArg (by simp) hin)
  | castRight hargs =>
      obtain ⟨type, op, rawType, -, hleft, hright, rfl⟩ := hwell.binary_args hargs
      rcases AccessIn.binary h with hin | hin
      · exact .inl (.inArg (by simp) hin)
      · exact .inl (.inArg (by simp) hin.unary)
  | simplifyArg hargs | simplifyLeft hargs | simplifyRight hargs =>
      exact .inl (.inArg (by simp [hargs]) h)

theorem baseModifications_accessIn {schema : TransformationSchema} {expr : Expression}
    {components : List Expression} (hwell : expr.WellFormed)
    {modifications : List Modification}
    (h : baseModifications schema expr components = .ok modifications) :
    ∀ m ∈ modifications, ∀ access, AccessIn access m.1 →
      AccessIn access expr ∨ ∃ component ∈ components, AccessIn access component := by
  have hbool2 : ∀ {access}, ¬AccessIn access bool2Node := AccessIn.not_leaf (by simp)
  have hconnective : ∀ op access, AccessIn access (applyBoolOperator op expr bool2Node) →
      AccessIn access expr ∨ ∃ component ∈ components, AccessIn access component :=
    fun op access hin => .inl (hin.binary.resolve_right hbool2)
  refine baseModifications_forall
    (P := fun modified => ∀ access, AccessIn access modified →
      AccessIn access expr ∨ ∃ component ∈ components, AccessIn access component)
    (fun _ _ _ edit _ hin => edit.accessIn hwell hin) (fun _ => hconnective _)
    (fun _ => hconnective _) ?_ ?_ ?_ h
  all_goals
    intro access hin
    exact absurd hin (AccessIn.not_leaf (by simp))

theorem Atomic.accessIn {components : List Expression} {condition access : Expression}
    (atomic : Atomic components condition) (h : AccessIn access condition) :
    ∃ component ∈ components, AccessIn access component := by
  have hleaf : ¬AccessIn access nullNode ∧ ¬AccessIn access parameterNode :=
    ⟨AccessIn.not_leaf (by simp), AccessIn.not_leaf (by simp)⟩
  cases atomic with
  | null op hleft => exact ⟨_, hleft, h.binary.resolve_right hleaf.1⟩
  | parameter op hleft => exact ⟨_, hleft, h.binary.resolve_right hleaf.2⟩
  | pointers op hleft hright | integers op hleft hright =>
      rcases h.binary with hin | hin
      · exact ⟨_, hleft, hin⟩
      · exact ⟨_, hright, hin⟩

end synthesis

end F1X
