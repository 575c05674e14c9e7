import F1X.Synthesis.WellFormed

/-!
# Expressions the synthesizer accepts

Operators with one or two arguments, and a pointer on the left of pointer
arithmetic: on these expressions the recursions of namespace `synthesis` in
`repair/Synthesis.cpp` return.
-/

namespace F1X

open F1X.Library

/-- Operators have one or two arguments, pointer arithmetic has a pointer on its left. -/
inductive Expression.Synthesizable : Expression → Prop
  | leaf {kind : NodeKind} (hkind : kind ≠ .operator) (type : ExprType) (op : Operator)
      (rawType repr : String) : Synthesizable ⟨kind, type, op, rawType, repr, []⟩
  | unary (type : ExprType) {op : Operator} (rawType repr : String) {arg : Expression}
      (hop : isUnaryOperator op = true) (harg : arg.Synthesizable) :
      Synthesizable ⟨.operator, type, op, rawType, repr, [arg]⟩
  | binary (type : ExprType) {op : Operator} (rawType repr : String)
      {left right : Expression} (hop : isBinaryOperator op = true)
      (hpointer : op = .ptrAdd ∨ op = .ptrSub → left.type = .pointer)
      (hleft : left.Synthesizable) (hright : right.Synthesizable) :
      Synthesizable ⟨.operator, type, op, rawType, repr, [left, right]⟩

theorem Expression.Synthesizable.args_length {expr : Expression} (h : expr.Synthesizable) :
    expr.args.length ≤ 2 := by
  cases h <;> simp

theorem Expression.Synthesizable.unary_args {expr arg : Expression} (h : expr.Synthesizable)
    (hargs : expr.args = [arg]) :
    ∃ type op rawType repr, isUnaryOperator op = true ∧ arg.Synthesizable ∧
      expr = ⟨.operator, type, op, rawType, repr, [arg]⟩ := by
  cases h with
  | leaf | binary => cases hargs
  | unary type rawType repr hop harg =>
      cases hargs
      exact ⟨type, _, rawType, repr, hop, harg, rfl⟩

theorem Expression.Synthesizable.binary_args {expr left right : Expression}
    (h : expr.Synthesizable) (hargs : expr.args = [left, right]) :
    ∃ type op rawType repr, left.Synthesizable ∧ right.Synthesizable ∧
      expr = ⟨.operator, type, op, rawType, repr, [left, right]⟩ := by
  cases h with
  | leaf | unary => cases hargs
  | binary type rawType repr _ _ hleft hright =>
      cases hargs
      exact ⟨type, _, rawType, repr, hleft, hright, rfl⟩

namespace synthesis

/-! ## Depth -/

theorem operatorWeight_total {op : Operator} (h : op ≠ .none) :
    ∃ weight, operatorWeight op = .ok weight := by
  cases op <;> first | exact ⟨_, rfl⟩ | exact absurd rfl h

private theorem maxDepth_total {args : List Expression}
    (h : ∀ arg ∈ args, ∃ depth, expressionDepth arg = .ok depth) :
    ∃ depth, maxDepth args = .ok depth := by
  induction args with
  | nil => exact ⟨0, rfl⟩
  | cons arg args ih =>
      obtain ⟨depth, hdepth⟩ := h arg (by simp)
      obtain ⟨rest, hrest⟩ := ih fun other hmem => h other (by simp [hmem])
      exact ⟨_, bind_eq_ok_iff.mpr ⟨_, hdepth, bind_eq_ok_iff.mpr ⟨_, hrest, rfl⟩⟩⟩

theorem expressionDepth_operator {type : ExprType} {op : Operator} {rawType repr : String}
    {args : List Expression} (hop : op ≠ .none)
    (h : ∀ arg ∈ args, ∃ depth, expressionDepth arg = .ok depth) :
    ∃ depth, expressionDepth ⟨.operator, type, op, rawType, repr, args⟩ = .ok depth := by
  obtain ⟨depth, hdepth⟩ := maxDepth_total h
  obtain ⟨weight, hweight⟩ := operatorWeight_total hop
  exact ⟨_, bind_eq_ok_iff.mpr ⟨_, hdepth, bind_eq_ok_iff.mpr ⟨_, hweight, rfl⟩⟩⟩

theorem unary_ne_none {op : Operator} (h : isUnaryOperator op = true) : op ≠ .none := by
  rintro rfl
  cases h

theorem binary_ne_none {op : Operator} (h : isBinaryOperator op = true) : op ≠ .none := by
  rintro rfl
  cases h

theorem expressionDepth_total {expr : Expression} (h : expr.Synthesizable) :
    ∃ depth, expressionDepth expr = .ok depth := by
  induction h with
  | @leaf kind hkind =>
      cases kind <;> first | exact ⟨_, rfl⟩ | exact absurd rfl hkind
  | unary _ _ _ hop _ ih =>
      exact expressionDepth_operator (unary_ne_none hop) (by simpa using ih)
  | binary _ _ _ hop _ _ _ ihLeft ihRight =>
      exact expressionDepth_operator (binary_ne_none hop) (by simpa using ⟨ihLeft, ihRight⟩)

/-! ## Substitutions -/

theorem booleanSubstitutions_total {expr : Expression} (h : expr.Synthesizable) :
    ∃ modifications, booleanSubstitutions expr = .ok modifications := by
  unfold booleanSubstitutions
  split
  · obtain ⟨depth, hdepth⟩ := expressionDepth_total h
    have hdistance : substitutionDistance expr bool2Node = .ok (depth + 2 - 1) :=
      bind_eq_ok_iff.mpr ⟨_, hdepth, rfl⟩
    exact ⟨_, bind_eq_ok_iff.mpr ⟨_, hdistance, rfl⟩⟩
  · exact ⟨_, rfl⟩

/-- Pointer arithmetic takes a pointer first, so it never reaches the numeric table. -/
theorem mutatedOperators_total {expr first : Expression} (hne : expr.op ≠ .none)
    (hpointer : expr.op = .ptrAdd ∨ expr.op = .ptrSub → first.type = .pointer) :
    ∃ operators, mutatedOperators expr first = .ok operators := by
  unfold mutatedOperators
  generalize expr.op = op at *
  split
  · cases op <;> first | exact ⟨_, rfl⟩ | exact absurd rfl hne
  · cases op <;> first | exact ⟨_, rfl⟩ | exact absurd rfl hne | simp_all

theorem operatorSubstitutions_total (expr : Expression) {first : Expression}
    (hne : expr.op ≠ .none)
    (hpointer : expr.op = .ptrAdd ∨ expr.op = .ptrSub → first.type = .pointer) :
    ∃ modifications, operatorSubstitutions expr first = .ok modifications := by
  obtain ⟨operators, hoperators⟩ := mutatedOperators_total hne hpointer
  have htexts : ∃ modifications, operators.mapM (fun m => do
      let text ← operatorToString m
      .ok (({ expr with op := m, repr := text }, ⟨.operator, atomicEdit⟩) : Modification)) =
        .ok modifications := by
    apply mapM_total
    intro op hop
    have hop : op ≠ .none := fun heq => (mutatedOperators_ne_none hoperators).1 (heq ▸ hop)
    exact ⟨_, bind_eq_ok_iff.mpr ⟨_, if_neg hop, rfl⟩⟩
  obtain ⟨modifications, htexts⟩ := htexts
  exact ⟨modifications, bind_eq_ok_iff.mpr ⟨_, hoperators, htexts⟩⟩

private theorem binarySimplifications_total (expr : Expression) {left right : Expression}
    (hleft : left.Synthesizable) (hright : right.Synthesizable) :
    ∃ modifications, binarySimplifications expr left right = .ok modifications := by
  obtain ⟨leftDepth, hleftDepth⟩ := expressionDepth_total hleft
  obtain ⟨rightDepth, hrightDepth⟩ := expressionDepth_total hright
  unfold binarySimplifications
  split
  · exact ⟨_, bind_eq_ok_iff.mpr ⟨_, hrightDepth,
      bind_eq_ok_iff.mpr ⟨_, hleftDepth, rfl⟩⟩⟩
  · exact ⟨_, rfl⟩

theorem baseSubstitutions_total (components : List Expression) {expr : Expression}
    (h : expr.Synthesizable) :
    ∃ modifications, baseSubstitutions components expr = .ok modifications := by
  induction h with
  | leaf hkind type op rawType repr =>
      obtain ⟨conditions, hconditions⟩ :=
        booleanSubstitutions_total (.leaf hkind type op rawType repr)
      exact ⟨_, bind_eq_ok_iff.mpr ⟨_, hconditions, rfl⟩⟩
  | @unary type op rawType repr arg hop harg ih =>
      obtain ⟨conditions, hconditions⟩ :=
        booleanSubstitutions_total (.unary type rawType repr hop harg)
      obtain ⟨operators, hoperators⟩ :=
        operatorSubstitutions_total ⟨.operator, type, op, rawType, repr, [arg]⟩
          (unary_ne_none hop) (by rintro (rfl | rfl) <;> cases hop)
      obtain ⟨argMods, hargMods⟩ := ih
      exact ⟨_, bind_eq_ok_iff.mpr ⟨_, hconditions, bind_eq_ok_iff.mpr ⟨_, hoperators,
        bind_eq_ok_iff.mpr ⟨_, hargMods, rfl⟩⟩⟩⟩
  | @binary type op rawType repr left right hop hpointer hleft hright ihLeft ihRight =>
      obtain ⟨conditions, hconditions⟩ :=
        booleanSubstitutions_total (.binary type rawType repr hop hpointer hleft hright)
      obtain ⟨operators, hoperators⟩ :=
        operatorSubstitutions_total ⟨.operator, type, op, rawType, repr, [left, right]⟩
          (binary_ne_none hop) hpointer
      obtain ⟨leftMods, hleftMods⟩ :
          ∃ leftMods, (if op ≠ .ptrAdd ∧ op ≠ .ptrSub then baseSubstitutions components left
            else .ok []) = .ok leftMods := by
        split
        · exact ihLeft
        · exact ⟨_, rfl⟩
      obtain ⟨rightMods, hrightMods⟩ := ihRight
      obtain ⟨simplifications, hsimplifications⟩ :=
        binarySimplifications_total
          ⟨.operator, type, op, rawType, repr, [left, right]⟩ hleft hright
      exact ⟨_, bind_eq_ok_iff.mpr ⟨_, hconditions, bind_eq_ok_iff.mpr ⟨_, hoperators,
        bind_eq_ok_iff.mpr ⟨_, hleftMods, bind_eq_ok_iff.mpr ⟨_, hrightMods,
          bind_eq_ok_iff.mpr ⟨_, hsimplifications, rfl⟩⟩⟩⟩⟩⟩

theorem baseModifications_total (schema : TransformationSchema) {expr : Expression}
    (components : List Expression) (h : expr.Synthesizable) :
    ∃ modifications, baseModifications schema expr components = .ok modifications := by
  obtain ⟨substitutions, hsubstitutions⟩ := baseSubstitutions_total components h
  cases schema with
  | expression =>
      by_cases hboolean : expr.type = .boolean
      · exact ⟨_, bind_eq_ok_iff.mpr ⟨_, rfl, bind_eq_ok_iff.mpr ⟨_, hsubstitutions,
          if_pos hboolean⟩⟩⟩
      · exact ⟨_, bind_eq_ok_iff.mpr ⟨_, rfl, bind_eq_ok_iff.mpr ⟨_, hsubstitutions,
          if_neg hboolean⟩⟩⟩
  | ifGuard | loosening | tightening | initialization => exact ⟨_, rfl⟩

/-! ## Conditions -/

/-- A component as `loadSAFile` builds it. -/
inductive Component : Expression → Prop
  | mk {kind : NodeKind} {type : ExprType} (hkind : kind ≠ .operator)
      (htype : type = .integer ∨ type = .pointer) (rawType repr : String) :
      Component ⟨kind, type, .none, rawType, repr, []⟩

theorem bool2Expressions_total {components : List Expression}
    (h : ∀ component ∈ components, Component component) :
    ∃ conditions, bool2Expressions components = .ok conditions := by
  have hmap : ∃ lists, components.mapM (bool2ExpressionsOf components) = .ok lists := by
    apply mapM_total
    intro left hleft
    cases h left hleft with
    | mk hkind htype => rcases htype with rfl | rfl <;> exact ⟨_, rfl⟩
  obtain ⟨lists, hlists⟩ := hmap
  exact ⟨_, bind_eq_ok_iff.mpr ⟨lists, hlists, rfl⟩⟩

end synthesis

end F1X
