import F1X.Synthesis.Synthesizable
import Mathlib.Order.Bounds.Basic

/-!
# One documented edit

The distances documented in `repair/Synthesis.h`, as edits of one subterm under a
context that stays as it is.  `baseSubstitutions` lists exactly these edits, at
every position that is not inside the left argument of pointer arithmetic.
-/

namespace F1X.synthesis

open F1X.Library

/-! ## Depth -/

def IsCast (op : Operator) : Prop :=
  op = .implicitBvCast ∨ op = .implicitIntCast ∨ op = .explicitBvCast ∨ op = .explicitIntCast ∨
    op = .explicitUnsignedCast ∨ op = .explicitPtrCast

/-- The node stands for an operation on two atoms. -/
def IsCompound (kind : NodeKind) : Prop := kind = .bool2 ∨ kind = .int2 ∨ kind = .cond3

/-- The length of a way from the root down to a leaf; casts do not count. -/
inductive Branch : Expression → Nat → Prop
  | atom {expr : Expression} (leaf : expr.args = []) (h : ¬IsCompound expr.kind) : Branch expr 1
  | compound {expr : Expression} (leaf : expr.args = []) (h : IsCompound expr.kind) :
      Branch expr 2
  | cast {expr arg : Expression} {length : Nat} (harg : arg ∈ expr.args) (hop : IsCast expr.op)
      (h : Branch arg length) : Branch expr length
  | operator {expr arg : Expression} {length : Nat} (harg : arg ∈ expr.args)
      (hop : ¬IsCast expr.op) (h : Branch arg length) : Branch expr (length + 1)

/-- The depth is the length of the longest way. -/
def IsDepth (expr : Expression) (depth : Nat) : Prop :=
  IsGreatest {length | Branch expr length} depth

private theorem maxDepth_isGreatest {args : List Expression} (hne : args ≠ []) {depth : Nat}
    (h : maxDepth args = .ok depth) :
    (∃ arg ∈ args, expressionDepth arg = .ok depth) ∧
      ∀ arg ∈ args, ∃ argDepth, expressionDepth arg = .ok argDepth ∧ argDepth ≤ depth := by
  induction args generalizing depth with
  | nil => exact absurd rfl hne
  | cons arg args ih =>
      obtain ⟨first, hfirst, h⟩ := bind_eq_ok_iff.mp h
      obtain ⟨rest, hrest, h⟩ := bind_eq_ok_iff.mp h
      obtain rfl := Except.ok.inj h
      by_cases hargs : args = []
      · subst hargs
        obtain rfl := Except.ok.inj hrest
        simp [hfirst]
      · obtain ⟨⟨deepest, hmem, hdeepest⟩, hle⟩ := ih hargs hrest
        constructor
        · rcases le_total rest first with hrest | hfirst'
          · exact ⟨arg, List.mem_cons_self, (max_eq_left hrest).symm ▸ hfirst⟩
          · exact ⟨deepest, List.mem_cons_of_mem _ hmem, (max_eq_right hfirst').symm ▸ hdeepest⟩
        · refine List.forall_mem_cons.mpr ⟨⟨first, hfirst, le_max_left _ _⟩, fun other hother => ?_⟩
          obtain ⟨argDepth, hargDepth, hbound⟩ := hle other hother
          exact ⟨argDepth, hargDepth, hbound.trans (le_max_right _ _)⟩

private theorem operatorWeight_cases {op : Operator} {weight : Nat}
    (h : operatorWeight op = .ok weight) :
    (IsCast op ∧ weight = 0) ∨ (¬IsCast op ∧ weight = 1) := by
  cases op <;> cases h <;> simp [IsCast]

theorem isDepth_operator {type : ExprType} {op : Operator} {rawType repr : String}
    {args : List Expression} (hne : args ≠ [])
    (hargs : ∀ arg ∈ args, ∀ depth, expressionDepth arg = .ok depth → IsDepth arg depth)
    {depth : Nat} (h : expressionDepth ⟨.operator, type, op, rawType, repr, args⟩ = .ok depth) :
    IsDepth ⟨.operator, type, op, rawType, repr, args⟩ depth := by
  obtain ⟨below, hbelow, h⟩ := bind_eq_ok_iff.mp h
  obtain ⟨weight, hweight, h⟩ := bind_eq_ok_iff.mp h
  obtain rfl := Except.ok.inj h
  obtain ⟨⟨deepest, hmem, hdeepest⟩, hle⟩ := maxDepth_isGreatest hne hbelow
  have hlongest : Branch deepest below := (hargs deepest hmem below hdeepest).1
  have hbound : ∀ arg ∈ args, ∀ length, Branch arg length → length ≤ below := by
    intro arg harg length hbranch
    obtain ⟨argDepth, hargDepth, hargBound⟩ := hle arg harg
    exact ((hargs arg harg argDepth hargDepth).2 hbranch).trans hargBound
  rcases operatorWeight_cases hweight with ⟨hcast, rfl⟩ | ⟨hcast, rfl⟩
  · refine ⟨.cast hmem hcast hlongest, fun length hbranch => ?_⟩
    cases hbranch with
    | atom leaf | compound leaf => exact absurd leaf hne
    | cast harg _ hbelow => exact hbound _ harg _ hbelow
    | operator _ hop => exact absurd hcast hop
  · refine ⟨.operator hmem hcast hlongest, fun length hbranch => ?_⟩
    cases hbranch with
    | atom leaf | compound leaf => exact absurd leaf hne
    | cast _ hop => exact absurd hop hcast
    | operator harg _ hbelow => exact Nat.succ_le_succ (hbound _ harg _ hbelow)

private theorem isDepth_leaf {expr : Expression} (leaf : expr.args = []) :
    (¬IsCompound expr.kind → IsDepth expr 1) ∧ (IsCompound expr.kind → IsDepth expr 2) := by
  have hno : ∀ arg, arg ∉ expr.args := by simp [leaf]
  constructor
  · refine fun h => ⟨.atom leaf h, fun length hbranch => ?_⟩
    cases hbranch with
    | atom => exact le_rfl
    | compound _ hcompound => exact absurd hcompound h
    | cast harg | operator harg => exact absurd harg (hno _)
  · refine fun h => ⟨.compound leaf h, fun length hbranch => ?_⟩
    cases hbranch with
    | atom _ hatom => exact absurd h hatom
    | compound => exact le_rfl
    | cast harg | operator harg => exact absurd harg (hno _)

theorem isDepth_of_expressionDepth {expr : Expression} (h : expr.Synthesizable) {depth : Nat}
    (hdepth : expressionDepth expr = .ok depth) : IsDepth expr depth := by
  induction h generalizing depth with
  | @leaf kind hkind type op rawType repr =>
      have hleaf := @isDepth_leaf ⟨kind, type, op, rawType, repr, []⟩ rfl
      by_cases hcompound : IsCompound kind
      · have hdepth' : expressionDepth ⟨kind, type, op, rawType, repr, []⟩ = .ok 2 := by
          rcases hcompound with rfl | rfl | rfl <;> rfl
        obtain rfl := Except.ok.inj (hdepth'.symm.trans hdepth)
        exact hleaf.2 hcompound
      · have hdepth' : expressionDepth ⟨kind, type, op, rawType, repr, []⟩ = .ok 1 := by
          cases kind <;> simp_all [IsCompound, expressionDepth]
        obtain rfl := Except.ok.inj (hdepth'.symm.trans hdepth)
        exact hleaf.1 hcompound
  | unary _ _ _ _ _ ih =>
      refine isDepth_operator (by simp) (fun arg harg argDepth hargDepth => ?_) hdepth
      obtain rfl := List.mem_singleton.mp harg
      exact ih hargDepth
  | binary _ _ _ _ _ _ _ ihLeft ihRight =>
      refine isDepth_operator (by simp) (fun arg harg argDepth hargDepth => ?_) hdepth
      rcases List.mem_pair.mp harg with rfl | rfl
      · exact ihLeft hargDepth
      · exact ihRight hargDepth

theorem expressionDepth_eq_ok_iff {expr : Expression} (h : expr.Synthesizable) {depth : Nat} :
    expressionDepth expr = .ok depth ↔ IsDepth expr depth := by
  refine ⟨isDepth_of_expressionDepth h, fun hdepth => ?_⟩
  obtain ⟨computed, hcomputed⟩ := expressionDepth_total h
  rw [hcomputed, (isDepth_of_expressionDepth h hcomputed).unique hdepth]

/-! ## Edits -/

def unsignedCast (arg : Expression) : Expression :=
  ⟨.operator, .integer, .explicitUnsignedCast, "unsigned", "(unsigned)", [arg]⟩

theorem wrapWithExplicitUnsignedCast_eq (arg : Expression) :
    wrapWithExplicitUnsignedCast arg = unsignedCast arg := by
  rfl

/-- A node without one of its arguments. -/
structure Parent where
  kind : NodeKind
  type : ExprType
  op : Operator
  rawType : String
  repr : String
  before : List Expression
  after : List Expression

namespace Parent

def plug (parent : Parent) (arg : Expression) : Expression :=
  ⟨parent.kind, parent.type, parent.op, parent.rawType, parent.repr,
    parent.before ++ arg :: parent.after⟩

/-- The hole is the left argument of pointer arithmetic, which scales the right one. -/
def IsScaled (parent : Parent) : Prop :=
  (parent.op = .ptrAdd ∨ parent.op = .ptrSub) ∧ parent.before = []

end Parent

/-- The parents of the hole, from the root down. -/
def fill : (context : List Parent) → (expr : Expression) → Expression
  | [], expr => expr
  | parent :: context, expr => parent.plug (fill context expr)

/-- An edit of one node, by `repair/Synthesis.h` with its rule and its distance. -/
inductive DocumentedEdit (components : List Expression) :
    Expression → Expression → SynthesisRule → Nat → Prop
  | operator {s first : Expression} {operators : List Operator} {op : Operator}
      (hfirst : s.args.head? = some first)
      (hoperators : mutatedOperators s first = .ok operators) (hmem : op ∈ operators) :
      DocumentedEdit components s (withOperator s op) .operator 1
  | removeRight {s left right : Expression} {depth : Nat} (hargs : s.args = [left, right])
      (simplifiable : isSimplifiable s = true) (hdepth : IsDepth right depth) :
      DocumentedEdit components s left .simplification depth
  | removeLeft {s left right : Expression} {depth : Nat} (hargs : s.args = [left, right])
      (simplifiable : isSimplifiable s = true) (hdepth : IsDepth left depth) :
      DocumentedEdit components s right .simplification depth
  | removeNegation {s arg : Expression} (hargs : s.args = [arg]) (hop : s.op = .neg) :
      DocumentedEdit components s arg .simplification 1
  | generalize {s component : Expression} (leaf : s.args = []) (constant : s.kind = .constant)
      (integer : s.type = .integer) (hmem : component ∈ components)
      (hinteger : component.type = .integer) :
      DocumentedEdit components s component .generalization 1
  | parametrize {s : Expression} (leaf : s.args = []) (constant : s.kind = .constant)
      (integer : s.type = .integer) :
      DocumentedEdit components s parameterNode .substitution 1
  | substitute {s component : Expression} (leaf : s.args = []) (access : isAccess s)
      (integer : s.type = .integer) (hmem : component ∈ components)
      (hinteger : component.type = .integer) :
      DocumentedEdit components s component .substitution 1
  | concretize {s : Expression} (leaf : s.args = []) (access : isAccess s)
      (integer : s.type = .integer) :
      DocumentedEdit components s parameterNode .concretization 1
  | redirect {s component : Expression} (leaf : s.args = []) (access : isAccess s)
      (pointer : s.type = .pointer) (hmem : component ∈ components)
      (hpointer : component.type = .pointer) (hraw : s.rawType = component.rawType) :
      DocumentedEdit components s component .substitution 1
  | nullify {s : Expression} (leaf : s.args = []) (access : isAccess s)
      (pointer : s.type = .pointer) :
      DocumentedEdit components s nullNode .concretization 1
  | condition {s : Expression} {depth bool2Depth : Nat} (boolean : s.type = .boolean)
      (hdepth : IsDepth s depth) (hbool2 : IsDepth bool2Node bool2Depth) :
      DocumentedEdit components s bool2Node .substitution (depth + bool2Depth - 1)
  | castLeft {s left right : Expression} (hargs : s.args = [left, right])
      (integer : left.type = .integer) :
      DocumentedEdit components s
        { s with args := [unsignedCast left, right] } .unsignedCast 1
  | castRight {s left right : Expression} (hargs : s.args = [left, right])
      (integer : right.type = .integer) :
      DocumentedEdit components s
        { s with args := [left, unsignedCast right] } .unsignedCast 1

/-- One subterm is edited, under a context that does not reach into a scaled argument. -/
inductive OneEdit (components : List Expression) (expr modified : Expression)
    (metadata : PatchMetadata) : Prop
  | mk (context : List Parent) (s r : Expression) (hexpr : expr = fill context s)
      (hmodified : modified = fill context r)
      (hcontext : ∀ parent ∈ context, ¬ parent.IsScaled)
      (edit : DocumentedEdit components s r metadata.rule metadata.distance)

namespace OneEdit

variable {components : List Expression} {expr modified : Expression}
  {metadata : PatchMetadata}

theorem here (edit : DocumentedEdit components expr modified metadata.rule metadata.distance) :
    OneEdit components expr modified metadata :=
  ⟨[], expr, modified, rfl, rfl, by simp, edit⟩

theorem under (h : OneEdit components expr modified metadata) (parent : Parent)
    (hparent : ¬ parent.IsScaled) :
    OneEdit components (parent.plug expr) (parent.plug modified) metadata := by
  obtain ⟨context, s, r, rfl, rfl, hcontext, edit⟩ := h
  exact ⟨parent :: context, s, r, rfl, rfl, List.forall_mem_cons.mpr ⟨hparent, hcontext⟩, edit⟩

end OneEdit

/-! ## The edits are documented -/

theorem bool2Node_synthesizable : bool2Node.Synthesizable := .leaf (by simp) _ _ _ _

private theorem neg_of_simplifiable {expr : Expression} (hunary : isUnaryOperator expr.op = true)
    (simplifiable : isSimplifiable expr = true) : expr.op = .neg := by
  unfold isSimplifiable at simplifiable
  generalize expr.op = op at *
  cases op <;> simp_all [isUnaryOperator]

private theorem Edit.oneEdit {components : List Expression} {expr modified : Expression}
    {metadata : PatchMetadata} (edit : Edit components expr modified metadata)
    (h : expr.Synthesizable) : OneEdit components expr modified metadata := by
  induction edit with
  | condition boolean hdistance =>
      obtain ⟨depth, hdepth, hdistance⟩ := bind_eq_ok_iff.mp hdistance
      obtain ⟨bool2Depth, hbool2, hdistance⟩ := bind_eq_ok_iff.mp hdistance
      cases hdistance
      exact .here (.condition boolean (isDepth_of_expressionDepth h hdepth)
        (isDepth_of_expressionDepth bool2Node_synthesizable hbool2))
  | generalize leaf constant integer hmem hinteger =>
      exact .here (.generalize leaf constant integer hmem hinteger)
  | parametrize leaf constant integer => exact .here (.parametrize leaf constant integer)
  | substitute leaf access integer hmem hinteger =>
      exact .here (.substitute leaf access integer hmem hinteger)
  | concretize leaf access integer => exact .here (.concretize leaf access integer)
  | redirect leaf access pointer hmem hpointer hraw =>
      exact .here (.redirect leaf access pointer hmem hpointer hraw)
  | nullify leaf access pointer => exact .here (.nullify leaf access pointer)
  | mutate hfirst hoperators hmem => exact .here (.operator hfirst hoperators hmem)
  | arg hargs _ ih =>
      obtain ⟨type, op, rawType, repr, hop, harg, rfl⟩ := h.unary_args hargs
      refine (ih harg).under ⟨.operator, type, op, rawType, repr, [], []⟩ ?_
      rintro ⟨rfl | rfl, -⟩ <;> cases hop
  | @left _ _ right _ _ hargs noPointer _ ih =>
      obtain ⟨type, op, rawType, repr, hleft, hright, rfl⟩ := h.binary_args hargs
      refine (ih hleft).under ⟨.operator, type, op, rawType, repr, [], [right]⟩ ?_
      rintro ⟨hop | hop, -⟩
      · exact noPointer.1 hop
      · exact noPointer.2 hop
  | @right _ left _ _ _ hargs _ ih =>
      obtain ⟨type, op, rawType, repr, hleft, hright, rfl⟩ := h.binary_args hargs
      refine (ih hright).under ⟨.operator, type, op, rawType, repr, [left], []⟩ ?_
      rintro ⟨-, hbefore⟩
      cases hbefore
  | castLeft hargs integer =>
      rw [substituteLeftArg, hargs, wrapWithExplicitUnsignedCast_eq]
      exact .here (.castLeft hargs integer)
  | castRight hargs integer =>
      rw [substituteRightArg, hargs, wrapWithExplicitUnsignedCast_eq]
      exact .here (.castRight hargs integer)
  | simplifyArg hargs simplifiable =>
      obtain ⟨type, op, rawType, repr, hop, -, rfl⟩ := h.unary_args hargs
      exact .here (.removeNegation hargs (neg_of_simplifiable hop simplifiable))
  | simplifyLeft hargs simplifiable hdepth =>
      obtain ⟨-, -, -, -, -, hright, -⟩ := h.binary_args hargs
      exact .here (.removeRight hargs simplifiable (isDepth_of_expressionDepth hright hdepth))
  | simplifyRight hargs simplifiable hdepth =>
      obtain ⟨-, -, -, -, hleft, -, -⟩ := h.binary_args hargs
      exact .here (.removeLeft hargs simplifiable (isDepth_of_expressionDepth hleft hdepth))

/-! ## Every documented edit is listed -/

theorem DocumentedEdit.edit {components : List Expression} {s r : Expression}
    {metadata : PatchMetadata} (h : s.Synthesizable)
    (edit : DocumentedEdit components s r metadata.rule metadata.distance) :
    Edit components s r metadata := by
  obtain ⟨rule, distance⟩ := metadata
  cases edit with
  | operator hfirst hoperators hmem => exact .mutate hfirst hoperators hmem
  | removeRight hargs simplifiable hdepth =>
      obtain ⟨-, -, -, -, -, hright, -⟩ := h.binary_args hargs
      exact .simplifyLeft hargs simplifiable ((expressionDepth_eq_ok_iff hright).mpr hdepth)
  | removeLeft hargs simplifiable hdepth =>
      obtain ⟨-, -, -, -, hleft, -, -⟩ := h.binary_args hargs
      exact .simplifyRight hargs simplifiable ((expressionDepth_eq_ok_iff hleft).mpr hdepth)
  | removeNegation hargs hop =>
      exact .simplifyArg hargs (by rw [isSimplifiable, hop])
  | generalize leaf constant integer hmem hinteger =>
      exact .generalize leaf constant integer hmem hinteger
  | parametrize leaf constant integer => exact .parametrize leaf constant integer
  | substitute leaf access integer hmem hinteger =>
      exact .substitute leaf access integer hmem hinteger
  | concretize leaf access integer => exact .concretize leaf access integer
  | redirect leaf access pointer hmem hpointer hraw =>
      exact .redirect leaf access pointer hmem hpointer hraw
  | nullify leaf access pointer => exact .nullify leaf access pointer
  | condition boolean hdepth hbool2 =>
      have hdepth := (expressionDepth_eq_ok_iff h).mpr hdepth
      have hbool2 := (expressionDepth_eq_ok_iff bool2Node_synthesizable).mpr hbool2
      exact .condition boolean
        (bind_eq_ok_iff.mpr ⟨_, hdepth, bind_eq_ok_iff.mpr ⟨_, hbool2, rfl⟩⟩)
  | castLeft hargs integer =>
      have hedit : Edit components _ _ _ := Edit.castLeft hargs integer
      rwa [substituteLeftArg, hargs, wrapWithExplicitUnsignedCast_eq] at hedit
  | castRight hargs integer =>
      have hedit : Edit components _ _ _ := Edit.castRight hargs integer
      rwa [substituteRightArg, hargs, wrapWithExplicitUnsignedCast_eq] at hedit

theorem Edit.plug {components : List Expression} {arg modified : Expression}
    {metadata : PatchMetadata} {parent : Parent} (h : (parent.plug arg).Synthesizable)
    (hparent : ¬ parent.IsScaled)
    (edit : arg.Synthesizable → Edit components arg modified metadata) :
    Edit components (parent.plug arg) (parent.plug modified) metadata := by
  obtain ⟨kind, type, op, rawType, repr, before, after⟩ := parent
  rcases before with _ | ⟨left, _ | ⟨second, before⟩⟩
  · rcases after with _ | ⟨right, _ | ⟨third, after⟩⟩
    · cases h with
      | unary _ _ _ _ harg => exact .arg rfl (edit harg)
    · cases h with
      | binary _ _ _ _ _ hleft _ =>
          refine .left rfl ⟨fun hop => hparent ⟨.inl hop, rfl⟩, fun hop => ?_⟩ (edit hleft)
          exact hparent ⟨.inr hop, rfl⟩
    · cases h
  · rcases after with _ | ⟨third, after⟩
    · cases h with
      | binary _ _ _ _ _ _ hright => exact .right rfl (edit hright)
    · cases h
  · have hlength := h.args_length
    simp [Parent.plug] at hlength

theorem OneEdit.edit {components : List Expression} {expr modified : Expression}
    {metadata : PatchMetadata} (h : OneEdit components expr modified metadata)
    (hexpr : expr.Synthesizable) : Edit components expr modified metadata := by
  obtain ⟨context, s, r, rfl, rfl, hcontext, edit⟩ := h
  induction context with
  | nil => exact edit.edit hexpr
  | cons parent context ih =>
      obtain ⟨hparent, hcontext⟩ := List.forall_mem_cons.mp hcontext
      exact .plug hexpr hparent fun hinner => ih hcontext hinner

theorem baseSubstitutions_oneEdit (components : List Expression) {expr : Expression}
    (h : expr.Synthesizable) :
    ∃ modifications, baseSubstitutions components expr = .ok modifications ∧
      ∀ modified metadata, (modified, metadata) ∈ modifications ↔
        OneEdit components expr modified metadata := by
  obtain ⟨modifications, hmodifications⟩ := baseSubstitutions_total components h
  refine ⟨modifications, hmodifications, fun modified metadata => ?_⟩
  rw [mem_baseSubstitutions hmodifications modified metadata]
  exact ⟨fun edit => edit.oneEdit h, fun edit => edit.edit h⟩

/-- The expression `*(p + x) < -x`, whose right side has three edits below the comparison. -/
def negatedOffset : Expression :=
  ⟨.operator, .boolean, .lt, defaultBooleanType, "<",
    [⟨.dereference, .integer, .none, "int", "*(p + x)", []⟩,
     ⟨.operator, .integer, .neg, "int", "-",
      [⟨.variable, .integer, .none, "int", "x", []⟩]⟩]⟩

private theorem negatedOffset_synthesizable : negatedOffset.Synthesizable :=
  .binary _ _ _ rfl (by simp) (.leaf (by decide) _ _ _ _)
    (.unary _ _ _ rfl (.leaf (by decide) _ _ _ _))

theorem baseSubstitutions_oneEdit_negatedOffset :
    ∃ modifications, baseSubstitutions [] negatedOffset = .ok modifications ∧
      ∀ modified metadata, (modified, metadata) ∈ modifications ↔
        OneEdit [] negatedOffset modified metadata :=
  baseSubstitutions_oneEdit [] negatedOffset_synthesizable

end F1X.synthesis
