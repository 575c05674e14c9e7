import F1X.Global
import F1X.Library.Names
import F1X.Synthesis.AbstractNodes

/-!
# Runtime code generation

The namespace `generator` of `repair/Synthesis.cpp`: the names that the
arguments of the generated function have in its body, the code that
`candidateDispatch` emits for every base modification and every condition, and
the patches that it appends to the search space.  Emitted expressions are
syntax trees with their exact text.
-/

namespace F1X.generator

open F1X.Library F1X.synthesis

def pointerArgName : String := "__ptr_vals"
def sizesArgName : String := "__ptr_sizes"
def nullderefArgName : String := "__nullderef"

/-! ## Names -/

/-- An `unordered_map` from strings to strings: a missing key is bound to the empty string. -/
abbrev StringMap := String → String

def StringMap.ofEntries (entries : List (String × String)) : StringMap :=
  assignAll (fun _ => "") entries

def element (array : String) (index : Nat) : String :=
  array ++ "[" ++ toString index ++ "]"

def argNameByNonPtrType (typeName : String) : String :=
  "__" ++ typeName.map (fun c => if c = ' ' then '_' else c) ++ "_vals"

/-- The distinct elements in the order of `std::stable_sort`. -/
def sortedDistinct (names : List String) : List String :=
  names.eraseDups.mergeSort fun a b => decide (a ≤ b)

def nonPtrTypes (components : List Expression) : List String :=
  sortedDistinct ((components.filter fun c => c.type = .integer).map (·.rawType))

def reprsByType (components : List Expression) (type : String) : List String :=
  (components.filter fun c => c.type = .integer ∧ c.rawType = type).map (·.repr)

def pointerReprs (components : List Expression) : List String :=
  (components.filter fun c => c.type = .pointer).map (·.repr)

def renamingEntries (components : List Expression) : List (String × String) :=
  ((nonPtrTypes components).flatMap fun type =>
    (reprsByType components type).mapIdx fun index repr =>
      (repr, element (argNameByNonPtrType type) index)) ++
  (pointerReprs components).mapIdx fun index repr => (repr, element pointerArgName index)

def runtimeRenaming (sa : SchemaApplication) : Except Failure StringMap :=
  if sa.components.all fun c => c.type = .integer ∨ c.type = .pointer then
    .ok (.ofEntries (renamingEntries sa.components))
  else .error (.invalidArgument "unsupported component type")

def typeSizes (sa : SchemaApplication) : StringMap :=
  .ofEntries (sa.completePointeeTypes.mapIdx fun index type =>
    (type, element sizesArgName index))

def dereferences (components : List Expression) : List String :=
  sortedDistinct ((components.filter fun c => c.kind = .dereference).map (·.repr))

def nullDerefCondition (sa : SchemaApplication) (runtimeReprBySource : StringMap) :
    StringMap :=
  .ofEntries ((dereferences sa.components).mapIdx fun index repr =>
    (runtimeReprBySource repr, element nullderefArgName index))

mutual

def substituteWithRuntimeRepr (runtimeReprBySource : StringMap) :
    Expression → Expression
  | ⟨kind, type, op, rawType, repr, args⟩ =>
      if kind = .variable ∨ kind = .dereference then
        ⟨kind, type, op, rawType, runtimeReprBySource repr, args⟩
      else
        ⟨kind, type, op, rawType, repr, substituteArgs runtimeReprBySource args⟩

def substituteArgs (runtimeReprBySource : StringMap) :
    List Expression → List Expression
  | [] => []
  | arg :: args =>
      substituteWithRuntimeRepr runtimeReprBySource arg ::
        substituteArgs runtimeReprBySource args

end

/-! ## Emitted expressions -/

/-- An emitted expression; the kind of an atom says how its text is to be read. -/
inductive RuntimeExpr where
  | atom (kind : NodeKind) (rawType text : String)
  | guardedLoad (condition : String) (pointer : Bool) (rawType text : String)
  | unary (text : String) (arg : RuntimeExpr)
  | binary (left : RuntimeExpr) (text : String) (right : RuntimeExpr)
  | guardedDivision (left : RuntimeExpr) (text : String) (right : RuntimeExpr)
  | pointerShift (left : RuntimeExpr) (text size : String) (right : RuntimeExpr)
  deriving DecidableEq, Repr

def RuntimeExpr.text : RuntimeExpr → String
  | .atom _ _ text => text
  | .guardedLoad condition pointer _ text =>
      "(" ++ condition ++ " ? (\x7b current_panic = true; " ++
        (if pointer then "(void*) 0" else "0") ++ "; \x7d)" ++ " : " ++ text ++ ")"
  | .unary text arg => text ++ " " ++ arg.text
  | .binary left text right =>
      "(" ++ left.text ++ " " ++ text ++ " " ++ right.text ++ ")"
  | .guardedDivision left text right =>
      "(" ++ right.text ++ " != 0 ? " ++ left.text ++ " " ++ text ++ " " ++
        right.text ++ " : (\x7b current_panic = true; 0; \x7d)" ++ ")"
  | .pointerShift left text size right =>
      "(void*) (" ++ "(std::size_t) " ++ left.text ++ " " ++ text ++ " " ++ size ++
        " * " ++ right.text ++ ")"

def runtimeSemantics (sizeByType nullDerefByName : StringMap) :
    Expression → Except Failure RuntimeExpr
  | ⟨kind, type, op, rawType, repr, args⟩ =>
      if op = .ptrAdd ∨ op = .ptrSub then
        match args with
        | left :: right :: _ => do
            let leftExpr ← runtimeSemantics sizeByType nullDerefByName left
            let text ← operatorToString op
            let rightExpr ← runtimeSemantics sizeByType nullDerefByName right
            .ok (.pointerShift leftExpr text (sizeByType left.rawType) rightExpr)
        | _ => .error .outOfRange
      else if op = .div ∨ op = .mod then
        match args with
        | left :: right :: _ => do
            let denominator ← runtimeSemantics sizeByType nullDerefByName right
            let numerator ← runtimeSemantics sizeByType nullDerefByName left
            let text ← operatorToString op
            .ok (.guardedDivision numerator text denominator)
        | _ => .error .outOfRange
      else
        match args with
        | [] =>
            if kind = .dereference then
              .ok (.guardedLoad (nullDerefByName repr) (type = .pointer) rawType repr)
            else .ok (.atom kind rawType repr)
        | [arg] => do
            let argExpr ← runtimeSemantics sizeByType nullDerefByName arg
            .ok (.unary repr argExpr)
        | [left, right] => do
            let leftExpr ← runtimeSemantics sizeByType nullDerefByName left
            let rightExpr ← runtimeSemantics sizeByType nullDerefByName right
            .ok (.binary leftExpr repr rightExpr)
        | _ => .error (.invalidArgument "unsupported expression")
termination_by structural expression => expression

/-! ## The candidate dispatch -/

/-- The two switch statements of the body; case 0 of the first one is empty. -/
structure DispatchCode where
  bool2Cases : List RuntimeExpr
  baseCases : List (Nat × RuntimeExpr)
  deriving DecidableEq, Repr

def DispatchCode.text (code : DispatchCode) : String :=
  "param_value = id.param;\n" ++ "switch (id.bool2) \x7b\n" ++ "case 0:\n" ++ "break;\n" ++
  String.join (code.bool2Cases.mapIdx fun i expr =>
    "case " ++ toString (i + 1) ++ ":\n" ++ "bool2_value = " ++ expr.text ++ ";\n" ++
      "break;\n") ++
  "\x7d\n" ++ "switch (id.base) \x7b\n" ++
  String.join (code.baseCases.map fun (base, expr) =>
    "case " ++ toString base ++ ":\n" ++ "base_value = " ++ expr.text ++ ";\n" ++
      "break;\n") ++
  "\x7d\n"

structure Naming where
  runtimeReprBySource : StringMap
  sizeByType : StringMap
  nullDerefByName : StringMap

def naming (sa : SchemaApplication) : Except Failure Naming := do
  let runtimeReprBySource ← runtimeRenaming sa
  .ok ⟨runtimeReprBySource, typeSizes sa, nullDerefCondition sa runtimeReprBySource⟩

def Naming.runtimeExpr (names : Naming) (expression : Expression) :
    Except Failure RuntimeExpr :=
  runtimeSemantics names.sizeByType names.nullDerefByName
    (substituteWithRuntimeRepr names.runtimeReprBySource expression)

def bool2Instance (current : PatchID × Expression) (i : Nat) (condition : Expression) :
    PatchID × Expression :=
  ({ current.1 with bool2 := i + 1 },
    (substituteNodeOfKind .bool2 condition current.2).1)

def paramInstance (current : PatchID × Expression) (i : Nat) : PatchID × Expression :=
  ({ current.1 with param := i },
    (substituteNodeOfKind .parameter (makeIntegerConst i) current.2).1)

/-- The `while` loop of `candidateDispatch`; the head of the list is the top of the stack. -/
def workLoop (bool2Expressions : List Expression) (paramBound : Nat) :
    Nat → List (PatchID × Expression) → List (PatchID × Expression) →
      Except Failure (List (PatchID × Expression))
  | 0, _, _ => .error .outOfFuel
  | _ + 1, [], ss => .ok ss
  | fuel + 1, current :: rest, ss =>
      if hasNodeOfKind .bool2 current.2 then
        workLoop bool2Expressions paramBound fuel
          ((bool2Expressions.mapIdx (bool2Instance current)).reverse ++ rest) ss
      else if hasNodeOfKind .parameter current.2 then
        workLoop bool2Expressions paramBound fuel rest
          (ss ++ (List.range (paramBound + 1)).map (paramInstance current))
      else workLoop bool2Expressions paramBound fuel rest (ss ++ [current])

def patchOf (sa : SchemaApplication) (metadata : PatchMetadata)
    (candidate : PatchID × Expression) : Patch :=
  ⟨candidate.1, sa, candidate.2, metadata⟩

structure Emission where
  baseCases : List (Nat × RuntimeExpr)
  baseId : Nat
  patches : List Patch

def dispatchBases (names : Naming) (sa : SchemaApplication)
    (bool2Expressions : List Expression) (paramBound fuel : Nat) :
    List Modification → Emission → Except Failure Emission
  | [], emission => .ok emission
  | candidate :: candidates, emission => do
      let baseCase ← names.runtimeExpr candidate.1
      let instances ← workLoop bool2Expressions paramBound fuel
        [(⟨emission.baseId, 0, 0, 0, 0⟩, candidate.1)] []
      dispatchBases names sa bool2Expressions paramBound fuel candidates
        { baseCases := emission.baseCases ++ [(emission.baseId, baseCase)]
          baseId := emission.baseId + 1
          patches := emission.patches ++ instances.map (patchOf sa candidate.2) }

/-- The emitted code, the next base number and the extended search space. -/
def candidateDispatch (cfg : Config) (fuel : Nat) (sa : SchemaApplication)
    (baseId : Nat) (ss : List Patch) :
    Except Failure (DispatchCode × Nat × List Patch) := do
  let names ← naming sa
  let conditions ← bool2Expressions sa.components
  let bool2Cases ← conditions.mapM names.runtimeExpr
  let modifications ← baseModifications sa.schema sa.original sa.components
  let emission ← dispatchBases names sa conditions (cfg.paramBound sa.context) fuel
    modifications ⟨[], baseId, ss⟩
  .ok (⟨bool2Cases, emission.baseCases⟩, emission.baseId, emission.patches)

def partitioningFunctionsFrom (cfg : Config) (fuel : Nat) :
    List SchemaApplication → Nat → List Patch →
      Except Failure (List DispatchCode × List Patch)
  | [], _, searchSpace => .ok ([], searchSpace)
  | sa :: sas, baseId, searchSpace => do
      let (code, nextId, extended) ← candidateDispatch cfg fuel sa baseId searchSpace
      let (codes, final) ← partitioningFunctionsFrom cfg fuel sas nextId extended
      .ok (code :: codes, final)

def partitioningFunctions (cfg : Config) (fuel : Nat)
    (schemaApplications : List SchemaApplication) :
    Except Failure (List DispatchCode × List Patch) :=
  partitioningFunctionsFrom cfg fuel schemaApplications 1 []

end F1X.generator

namespace F1X

/-- The dispatch code of every generated function, and the search space. -/
def generateSearchSpace (cfg : Config) (fuel : Nat)
    (schemaApplications : List SchemaApplication) :
    Except Failure (List generator.DispatchCode × List Patch) :=
  generator.partitioningFunctions cfg fuel schemaApplications

end F1X
