import F1X.Transform.ArgumentList
import F1X.Transform.Expr

/-!
# Null pointers in the argument list

The call of the runtime evaluates every component, whatever the candidate.  The
argument list tests the pointer before the last arrow of a component; pointers
that the component goes through before are dereferenced without a test.
-/

namespace F1X

open F1X.Library F1X.generator

/-! ## Evaluation -/

/-- Values and addresses are machine words; the null pointer is 0. -/
structure Memory where
  address : String → Int
  field : Int → String → Int
  element : QualType → Int → Int → Int
  load : QualType → Int → Int
  literal : String → Int
  convert : QualType → Int → Int
  unary : UnaryOpcode → Int → Int
  binary : BinaryOpcode → Int → Int → Int
  address_ne_zero : ∀ name, address name ≠ 0
  field_ne_zero : ∀ place name, place ≠ 0 → field place name ≠ 0
  element_ne_zero : ∀ type place index, place ≠ 0 → element type place index ≠ 0

namespace Expr

/-- The address of an lvalue, the value of any other expression; `none` dereferences null. -/
def eval (memory : Memory) : Expr → Option Int
  | .declRef _ name => some (memory.address name)
  | .member _ base isArrow name => do
      let place ← base.eval memory
      if isArrow ∧ place = 0 then none else some (memory.field place name)
  | .arraySubscript type base index => do
      let place ← base.eval memory
      let position ← index.eval memory
      if place = 0 then none else some (memory.element type place position)
  | .cast type subExpr => (subExpr.eval memory).map (memory.convert type)
  | .integerLiteral _ text | .characterLiteral text => some (memory.literal text)
  | .implicitCast type kind subExpr =>
      match kind with
      | .lvalueToRValue => (subExpr.eval memory).map (memory.load type)
      | .arrayToPointerDecay => subExpr.eval memory
      | .other => (subExpr.eval memory).map (memory.convert type)
  | .paren subExpr => subExpr.eval memory
  | .unaryOperator _ opcode subExpr => (subExpr.eval memory).map (memory.unary opcode)
  | .binaryOperator _ opcode lhs rhs => do
      let first ← lhs.eval memory
      if opcode = .land ∧ first = 0 then some 0
      else if opcode = .lor ∧ first ≠ 0 then some 1
      else do
        let second ← rhs.eval memory
        some (memory.binary opcode first second)

/-- The pointers that the evaluation of an expression goes through. -/
def pointers (memory : Memory) : Expr → List Expr
  | .declRef _ _ | .integerLiteral _ _ | .characterLiteral _ => []
  | .member _ base isArrow _ => base.pointers memory ++ if isArrow then [base] else []
  | .arraySubscript _ base index => base.pointers memory ++ index.pointers memory ++ [base]
  | .cast _ subExpr | .implicitCast _ _ subExpr | .paren subExpr
  | .unaryOperator _ _ subExpr => subExpr.pointers memory
  | .binaryOperator _ opcode lhs rhs =>
      lhs.pointers memory ++
        if opcode = .land ∧ lhs.eval memory = some 0 ∨
            opcode = .lor ∧ lhs.eval memory ≠ some 0 then []
        else rhs.pointers memory

/-- The pointers that the argument list does not test. -/
def untested (memory : Memory) (expr : Expr) : List Expr :=
  match expr.arrowBase with
  | some base => base.pointers memory
  | none => expr.pointers memory

def NonNull (memory : Memory) (pointers : List Expr) : Prop :=
  ∀ pointer ∈ pointers, pointer.eval memory ≠ some 0

theorem nonNull_append {memory : Memory} {first second : List Expr} :
    NonNull memory (first ++ second) ↔ NonNull memory first ∧ NonNull memory second := by
  simp [NonNull, or_imp, forall_and]

theorem eval_isSome_iff (memory : Memory) (expr : Expr) :
    (expr.eval memory).isSome = true ↔ NonNull memory (expr.pointers memory) := by
  induction expr with
  | declRef | integerLiteral | characterLiteral => simp [eval, pointers, NonNull]
  | member type base isArrow name ih =>
      rw [pointers, nonNull_append, ← ih, eval]
      cases hbase : base.eval memory with
      | none => simp
      | some place => cases isArrow <;> simp [NonNull, hbase]
  | arraySubscript type base index ihBase ihIndex =>
      rw [pointers, nonNull_append, nonNull_append, ← ihBase, ← ihIndex, eval]
      cases hbase : base.eval memory with
      | none => simp
      | some place =>
          cases index.eval memory <;> simp [NonNull, hbase]
  | cast type subExpr ih | unaryOperator type opcode subExpr ih =>
      rw [pointers, ← ih, eval, Option.isSome_map]
  | implicitCast type kind subExpr ih =>
      rw [pointers, ← ih]
      cases kind <;> simp [eval]
  | paren subExpr ih => exact ih
  | binaryOperator type opcode lhs rhs ihLeft ihRight =>
      rw [pointers, nonNull_append, ← ihLeft, eval]
      cases hlhs : lhs.eval memory with
      | none => simp
      | some first =>
          by_cases hland : opcode = .land ∧ first = 0
          · simp [hland, NonNull]
          · by_cases hlor : opcode = .lor ∧ first ≠ 0
            · simp [hlor, NonNull]
            · simp only [Option.some.injEq, ne_eq, hland, hlor, or_self, if_false, ← ihRight]
              cases rhs.eval memory <;> simp [hland, hlor]

end Expr

/-! ## The elements of the argument list -/

inductive ArgumentElement where
  | plain (value : Expr)
  | guarded (base : Expr) (pointer : Bool) (value : Expr)
  | size (type : String)
  | nullTest (base : Expr)
  deriving DecidableEq, Repr

namespace ArgumentElement

def text (print : Expr → String) : ArgumentElement → String
  | .plain value => value.toString print
  | .guarded base pointer value =>
      "(!" ++ base.toString print ++ " ? " ++ (if pointer then "(void*)0" else "0") ++ " : " ++
        value.toString print ++ ")"
  | .size type => "sizeof(" ++ type ++ ")"
  | .nullTest base => "!" ++ base.toString print

/-- Whether the evaluation dereferences no null pointer; the operand of `sizeof` is a type. -/
def evaluates (memory : Memory) : ArgumentElement → Bool
  | .plain value => (value.eval memory).isSome
  | .guarded base _ value =>
      match base.eval memory with
      | none => false
      | some place => place = 0 || (value.eval memory).isSome
  | .size _ => true
  | .nullTest base => (base.eval memory).isSome

end ArgumentElement

section Elements

variable (print : Expr → String)

def Expr.argument (c : Expr) : ArgumentElement :=
  match c.arrowBase with
  | some base => .guarded base (c.component print).isPointer c
  | none => .plain c

def testOf (components : List Expr) (repr : String) : Option ArgumentElement :=
  components.findSome? fun c =>
    if c.toString print = repr then c.arrowBase.map .nullTest else none

/-- The arrays of `makeArgumentList` with the expressions that their elements are made of. -/
def argumentElements (components : List Expr) : List (List ArgumentElement) :=
  let json := fun c : Expr => c.component print
  ((sortedDistinct ((components.filter fun c => !(json c).isPointer).map
      fun c => (json c).rawType)).map fun type =>
    (components.filter fun c => !(json c).isPointer && decide ((json c).rawType = type)).map
      (Expr.argument print)) ++
  (if components.any fun c => (json c).isPointer then
    [(components.filter fun c => (json c).isPointer).map (Expr.argument print),
      (sortedDistinct (completePointees (components.map json))).map .size]
  else []) ++
  (if components.any (·.arrowBase.isSome) then
    [(sortedDistinct ((components.filter (·.arrowBase.isSome)).map
      (Expr.toString print))).filterMap (testOf print components)]
  else [])

variable {print} {components : List Expr}

private theorem argument_text (c : Expr) :
    (c.argument print).text print = (c.component print).valueText := by
  unfold Expr.argument ComponentJson.valueText Expr.component
  cases c.arrowBase <;> rfl

private theorem testOf_text (hdistinct : (components.map (Expr.toString print)).Nodup) {c : Expr}
    (hc : c ∈ components) {base : Expr} (hbase : c.arrowBase = some base) :
    testOf print components (c.toString print) = some (.nullTest base) := by
  cases htest : testOf print components (c.toString print) with
  | none =>
      have hnone := List.findSome?_eq_none_iff.mp htest c hc
      simp [hbase] at hnone
  | some element =>
      obtain ⟨other, hother, helement⟩ := List.exists_of_findSome?_eq_some htest
      split at helement
      · rename_i hsame
        obtain rfl := List.inj_on_of_nodup_map hdistinct hother hc hsame
        simpa [hbase, eq_comm] using helement
      · cases helement

private theorem argumentElements_text (hdistinct : (components.map (Expr.toString print)).Nodup) :
    (argumentElements print components).map (·.map (ArgumentElement.text print)) =
      (makeArgumentList (components.map (Expr.component print))).map (·.elements) := by
  have hreprs : ((components.map (Expr.component print)).map (·.repr)).Nodup := by
    rwa [List.map_map]
  have hdescribes := describes_argumentGroups hreprs
  have hvalues : ∀ p : ComponentJson → Bool,
      ((components.filter fun c => p (c.component print)).map (Expr.argument print)).map
          (ArgumentElement.text print) =
        ((components.map (Expr.component print)).filter p).map (·.valueText) := by
    intro p
    simp only [List.filter_map, List.map_map, Function.comp_def, argument_text]
  have hnames : ((components.map (Expr.component print)).filter (·.base.isSome)).map (·.repr) =
      (components.filter (·.arrowBase.isSome)).map (Expr.toString print) := by
    simp only [List.filter_map, List.map_map, Function.comp_def, Expr.component,
      Option.isSome_map]
  have htests : ((sortedDistinct ((components.filter (·.arrowBase.isSome)).map
        (Expr.toString print))).filterMap (testOf print components)).map
          (ArgumentElement.text print) =
      (sortedDistinct ((components.filter (·.arrowBase.isSome)).map
        (Expr.toString print))).map (nullTest (components.map (Expr.component print))) := by
    rw [List.map_filterMap, List.filterMap_eq_map_iff_forall_eq_some]
    intro repr hrepr
    obtain ⟨c, hc, rfl⟩ := List.mem_map.mp (mem_sortedDistinct.mp hrepr)
    obtain ⟨hmem, harrow⟩ := List.mem_filter.mp hc
    obtain ⟨base, hbase⟩ := Option.isSome_iff_exists.mp harrow
    have hlookup := hdescribes.base _ (List.mem_map.mpr ⟨c, hmem, rfl⟩)
    rw [testOf_text hdistinct hmem hbase, nullTest,
      show c.toString print = (c.component print).repr from rfl, hlookup, Expr.component, hbase]
    rfl
  rw [makeArgumentList_layout hreprs, argumentElements, layout]
  have hpointers : (components.map (Expr.component print)).any (·.isPointer) =
      components.any fun c => (c.component print).isPointer := by
    rw [List.any_map]
    rfl
  have hdereferences : (components.map (Expr.component print)).any (·.base.isSome) =
      components.any (·.arrowBase.isSome) := by
    rw [List.any_map]
    simp [Function.comp_def, Expr.component]
  have htypes : ((components.map (Expr.component print)).filter fun c => !c.isPointer).map
        (·.rawType) =
      (components.filter fun c => !(c.component print).isPointer).map
        fun c => (c.component print).rawType := by
    simp only [List.filter_map, List.map_map, Function.comp_def]
  have hsizes : ∀ types : List String, (types.map ArgumentElement.size).map
      (ArgumentElement.text print) = types.map fun t => "sizeof(" ++ t ++ ")" := by
    intro types
    rw [List.map_map]
    rfl
  rw [hnames, ← htests, hpointers, hdereferences, htypes]
  simp only [List.map_append, List.map_map]
  congr 1
  · congr 1
    · exact List.map_congr_left fun type _ =>
        hvalues fun c => !c.isPointer && decide (c.rawType = type)
    · split
      · simp only [List.map_cons, List.map_nil, Function.comp_apply, hvalues (·.isPointer),
          hsizes]
      · rfl
  · split <;> rfl

/-! ## Safety -/

theorem mem_argumentElements {array : List ArgumentElement} {element : ArgumentElement}
    (harray : array ∈ argumentElements print components) (helement : element ∈ array) :
    (∃ c ∈ components, element = c.argument print) ∨ (∃ type, element = .size type) ∨
      ∃ c ∈ components, ∃ base, c.arrowBase = some base ∧ element = .nullTest base := by
  have hargument : ∀ p : Expr → Bool,
      element ∈ (components.filter p).map (Expr.argument print) →
        ∃ c ∈ components, element = c.argument print := by
    intro p hmem
    obtain ⟨c, hc, rfl⟩ := List.mem_map.mp hmem
    exact ⟨c, (List.mem_filter.mp hc).1, rfl⟩
  rcases List.mem_append.mp harray with harray | harray
  · rcases List.mem_append.mp harray with harray | harray
    · obtain ⟨type, -, rfl⟩ := List.mem_map.mp harray
      exact .inl (hargument _ helement)
    · split at harray
      · rcases List.mem_pair.mp harray with rfl | rfl
        · exact .inl (hargument _ helement)
        · obtain ⟨type, -, rfl⟩ := List.mem_map.mp helement
          exact .inr (.inl ⟨type, rfl⟩)
      · simp at harray
  · split at harray
    · obtain rfl := List.mem_singleton.mp harray
      obtain ⟨repr, -, htest⟩ := List.mem_filterMap.mp helement
      obtain ⟨c, hc, hfound⟩ := List.exists_of_findSome?_eq_some htest
      split at hfound
      · obtain ⟨base, hbase, rfl⟩ := Option.map_eq_some_iff.mp hfound
        exact .inr (.inr ⟨c, hc, base, hbase, rfl⟩)
      · cases hfound
    · simp at harray

variable (print) in
theorem argument_mem {c : Expr} (hc : c ∈ components) :
    ∃ array ∈ argumentElements print components, c.argument print ∈ array := by
  by_cases hpointer : (c.component print).isPointer = true
  · have hany : (components.any fun c => (c.component print).isPointer) = true :=
      List.any_eq_true.mpr ⟨c, hc, hpointer⟩
    have hmem : c.argument print ∈ (components.filter fun c =>
        (c.component print).isPointer).map (Expr.argument print) :=
      List.mem_map.mpr ⟨c, List.mem_filter.mpr ⟨hc, hpointer⟩, rfl⟩
    refine ⟨_, List.mem_append_left _ (List.mem_append_right _ ?_), hmem⟩
    rw [if_pos hany]
    exact List.mem_cons_self
  · refine ⟨_, List.mem_append_left _ (List.mem_append_left _ (List.mem_map.mpr
      ⟨(c.component print).rawType, mem_sortedDistinct.mpr ?_, rfl⟩)),
      List.mem_map.mpr ⟨c, List.mem_filter.mpr ⟨hc, by simp [hpointer]⟩, rfl⟩⟩
    exact List.mem_map.mpr ⟨c, List.mem_filter.mpr ⟨hc, by simp [hpointer]⟩, rfl⟩

theorem eq_of_arrowBase {c base : Expr} (h : c.arrowBase = some base) :
    ∃ type name, c = .member type base true name := by
  cases c with
  | member type other isArrow name =>
      cases isArrow with
      | false => cases h
      | true =>
          cases h
          exact ⟨type, name, rfl⟩
  | _ => cases h

theorem argument_evaluates_iff (memory : Memory) (c : Expr) :
    (c.argument print).evaluates memory = true ↔
      Expr.NonNull memory (c.untested memory) := by
  cases hbase : c.arrowBase with
  | none =>
      rw [Expr.argument, Expr.untested, hbase]
      exact Expr.eval_isSome_iff memory c
  | some base =>
      obtain ⟨type, name, rfl⟩ := eq_of_arrowBase hbase
      rw [Expr.argument, Expr.untested, hbase]
      simp only [ArgumentElement.evaluates, Expr.eval]
      rw [← Expr.eval_isSome_iff]
      cases base.eval memory with
      | none => simp
      | some place => by_cases hplace : place = 0 <;> simp [hplace]

private theorem nullTest_evaluates_iff (memory : Memory) {c base : Expr}
    (hbase : c.arrowBase = some base) :
    (ArgumentElement.nullTest base).evaluates memory = true ↔
      Expr.NonNull memory (c.untested memory) := by
  obtain ⟨type, name, rfl⟩ := eq_of_arrowBase hbase
  exact Expr.eval_isSome_iff memory base

end Elements

/--
The evaluation of the argument list dereferences no null pointer if and only if
no pointer is null that a component goes through before its last arrow or, if
it does not end with one, at all.
-/
theorem makeArgumentList_nullSafe_iff {print : Expr → String} {useGlobalVariables : Bool}
    {expr : Expr} {line : Nat} {parents : List EnclosingNode} {components : List Expr}
    (hcomponents : components = collectComponents print useGlobalVariables expr line parents)
    (memory : Memory) :
    (argumentElements print components).map (·.map (ArgumentElement.text print)) =
        (makeArgumentList (components.map (Expr.component print))).map (·.elements) ∧
      ((∀ array ∈ argumentElements print components, ∀ element ∈ array,
          element.evaluates memory = true) ↔
        ∀ c ∈ components, Expr.NonNull memory (c.untested memory)) := by
  have hdistinct : (components.map (Expr.toString print)).Nodup := by
    rw [hcomponents]
    exact mergeComponents_nodup _ _ _
  refine ⟨argumentElements_text hdistinct, ?_, ?_⟩
  · intro hsafe c hc
    obtain ⟨array, harray, hmem⟩ := argument_mem print hc
    exact (argument_evaluates_iff memory c).mp (hsafe array harray _ hmem)
  · intro hnonNull array harray element helement
    rcases mem_argumentElements harray helement with
      ⟨c, hc, rfl⟩ | ⟨type, rfl⟩ | ⟨c, hc, base, hbase, rfl⟩
    · exact (argument_evaluates_iff memory c).mpr (hnonNull c hc)
    · rfl
    · exact (nullTest_evaluates_iff memory hbase).mpr (hnonNull c hc)

/-! ## Two arrows -/

def outerPointer : VarDecl := ⟨"a", .pointer "struct outer" .object, false, 1⟩

def innerType : QualType := .pointer "struct inner" .object

def twoArrows : Expr :=
  .member (.builtin .int true)
    (.implicitCast innerType .lvalueToRValue
      (.member innerType
        (.implicitCast outerPointer.type .lvalueToRValue outerPointer.reference) true "b"))
    true "c"

/-- The components of `a->b->c > 0` in a function with the parameter `a`. -/
def twoArrowsComponents : List Expr :=
  collectComponents Expr.printed false
    (.binaryOperator (.builtin .int true) .gt
      (.implicitCast (.builtin .int true) .lvalueToRValue twoArrows) (.integerLiteral .int "0"))
    3 [.other, .compound [], .function [outerPointer] []]

def nullMemory : Memory where
  address _ := 8
  field place _ := place
  element _ place _ := place
  load _ _ := 0
  literal _ := 0
  convert _ value := value
  unary _ value := value
  binary _ value _ := value
  address_ne_zero := by simp
  field_ne_zero _ _ h := h
  element_ne_zero _ _ _ h := h

/-- The guard of `a->b->c` itself dereferences `a`. -/
theorem twoArrows_dereferencesNull :
    ∃ array ∈ argumentElements Expr.printed twoArrowsComponents, ∃ element ∈ array,
      element.text Expr.printed = "(!a->b ? 0 : a->b->c)" ∧
        element.evaluates nullMemory = false := by
  have hmem : twoArrows ∈ twoArrowsComponents := by decide
  obtain ⟨array, harray, hargument⟩ := argument_mem Expr.printed hmem
  exact ⟨array, harray, _, hargument, rfl, rfl⟩

theorem makeArgumentList_nullSafe_iff_twoArrows :
    (∀ array ∈ argumentElements Expr.printed twoArrowsComponents, ∀ element ∈ array,
        element.evaluates nullMemory = true) ↔
      ∀ c ∈ twoArrowsComponents, Expr.NonNull nullMemory (c.untested nullMemory) :=
  (makeArgumentList_nullSafe_iff rfl nullMemory).2

end F1X
