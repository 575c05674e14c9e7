import F1X.Library.COperators
import F1X.Runtime.GeneratedFunction
import F1X.Synthesis.Generator

/-!
# Meaning of patches and of the emitted dispatch

`sourceTerm` is the C expression that `expressionToString` prints for a patch,
`RuntimeExpr.term` the one that the generator prints for a case of the
dispatch.  Both are evaluated over the same machine: the former in the scope of
the program, where reading through a null base is undefined, the latter in the
scope of the generated function, whose parameters are the arrays that the
instrumented call passes.
-/

namespace F1X

open F1X.Library F1X.generator

/-! ## The patch -/

inductive SourceAtom where
  | constant (rawType text : String)
  | variable (name : String)
  | load (name : String)
  | sizeof (pointee : String)
  | parameter
  | bool2
  | illegal
  deriving DecidableEq, Repr

abbrev CTerm (A : Type) := Term A UnaryOp BinaryOp

def SourceAtom.ofLeaf (kind : NodeKind) (rawType repr : String) : SourceAtom :=
  match kind with
  | .constant => .constant rawType repr
  | .variable => .variable repr
  | .dereference => .load repr
  | .parameter => .parameter
  | .bool2 => .bool2
  | .operator | .int2 | .cond3 => .illegal

/-- Address arithmetic: a pointer moves by multiples of the size of its pointee. -/
def shiftTerm {A : Type} (op : BinaryOp) (pointer : CTerm A) (size : A)
    (offset : CTerm A) : CTerm A :=
  .unary (.cast .pointer) (.binary op (.unary (.cast .unsignedLong) pointer)
    (.binary .mul (.atom size) offset))

def unaryTerm {A : Type} (illegal : A) (text : String) (arg : CTerm A) : CTerm A :=
  match UnaryOp.ofText text with
  | some op => .unary op arg
  | none => .atom illegal

def binaryTerm {A : Type} (illegal : A) (left : CTerm A) (text : String)
    (right : CTerm A) : CTerm A :=
  match BinaryOp.ofText text with
  | some op => .binary op left right
  | none => .atom illegal

def pointerTerm {A : Type} (illegal : A) (left : CTerm A) (text : String) (size : A)
    (right : CTerm A) : CTerm A :=
  match BinaryOp.ofText text with
  | some op => shiftTerm op left size right
  | none => .atom illegal

def sourceTerm : Expression → CTerm SourceAtom
  | ⟨kind, _, op, rawType, repr, args⟩ =>
      match args with
      | [] => .atom (.ofLeaf kind rawType repr)
      | [arg] => unaryTerm .illegal repr (sourceTerm arg)
      | [left, right] =>
          if op = .ptrAdd ∨ op = .ptrSub then
            pointerTerm .illegal (sourceTerm left) repr (.sizeof left.rawType)
              (sourceTerm right)
          else binaryTerm .illegal (sourceTerm left) repr (sourceTerm right)
      | _ => .atom .illegal
termination_by structural expression => expression

/-- The state of the program where the location is reached, by source name. -/
structure Valuation (V : Type*) where
  value : String → V
  /-- Whether the base of a dereference is the null pointer. -/
  isNull : String → Bool
  sizeof : String → V

/-- The scope of the program, with readings of the two abstract nodes. -/
def Valuation.env {V : Type*} (valuation : Valuation V) (machine : CMachine V)
    (parameter bool2 : Result V) : SourceAtom → Result V
  | .constant rawType text => some (machine.literal rawType text, false)
  | .variable name => some (valuation.value name, false)
  | .load name =>
      if valuation.isNull name then none else some (valuation.value name, false)
  | .sizeof pointee => some (valuation.sizeof pointee, false)
  | .parameter => parameter
  | .bool2 => bool2
  | .illegal => none

def evaluateWith {V : Type*} (machine : CMachine V) (valuation : Valuation V)
    (parameter bool2 : Result V) (expression : Expression) : Result V :=
  (sourceTerm expression).eval machine.toMachine (valuation.env machine parameter bool2)

/-- The value of a concrete expression; `none` where C leaves it undefined. -/
def evaluate {V : Type*} (machine : CMachine V) (valuation : Valuation V)
    (expression : Expression) : Result V :=
  evaluateWith machine valuation none none expression

/-! ## The generated function -/

inductive RuntimeAtom where
  | constant (rawType text : String)
  | name (text : String)
  | parameter
  | bool2
  | illegal
  deriving DecidableEq, Repr

def RuntimeAtom.ofLeaf (kind : NodeKind) (rawType text : String) : RuntimeAtom :=
  match kind with
  | .constant => .constant rawType text
  | .variable | .dereference => .name text
  | .parameter => .parameter
  | .bool2 => .bool2
  | .operator | .int2 | .cond3 => .illegal

end F1X

namespace F1X.generator

open F1X.Library

def RuntimeExpr.term : RuntimeExpr → CTerm RuntimeAtom
  | .atom kind rawType text => .atom (.ofLeaf kind rawType text)
  | .guardedLoad condition _ _ text =>
      .conditional (.atom (.name condition)) .raise (.atom (.name text))
  | .unary text arg => unaryTerm .illegal text arg.term
  | .binary left text right => binaryTerm .illegal left.term text right.term
  | .guardedDivision left text right =>
      .conditional (.binary .ne right.term (.atom (.constant "int" "0")))
        (binaryTerm .illegal left.term text right.term) .raise
  | .pointerShift left text size right =>
      pointerTerm .illegal left.term text (.name size) right.term

def arrayArgument {V : Type*} (array : String) (values : List V) : List (String × V) :=
  values.mapIdx fun index value => (element array index, value)

def hasPointers (sa : SchemaApplication) : Bool :=
  sa.components.any fun c => c.type ≠ .integer

def hasDereferences (sa : SchemaApplication) : Bool :=
  sa.components.any fun c => c.kind = .dereference

/-- The arrays of `parameterList`; C++ accepts every name once. -/
def parameterNames (sa : SchemaApplication) : List String :=
  (nonPtrTypes sa.components).map argNameByNonPtrType ++
    (if hasPointers sa then [pointerArgName, sizesArgName] else []) ++
    (if hasDereferences sa then [nullderefArgName] else [])

def argumentArrays {V : Type*} (value size flag : String → V) (sa : SchemaApplication) :
    List (String × List V) :=
  ((nonPtrTypes sa.components).map fun type =>
    (argNameByNonPtrType type, (reprsByType sa.components type).map value)) ++
  (if hasPointers sa then
    [(pointerArgName, (pointerReprs sa.components).map value),
      (sizesArgName, sa.completePointeeTypes.map size)]
  else []) ++
  (if hasDereferences sa then
    [(nullderefArgName, (dereferences sa.components).map flag)]
  else [])

def elements {V : Type*} (arrays : List (String × List V)) : List (String × V) :=
  arrays.flatMap fun array => arrayArgument array.1 array.2

section Arguments

variable {V : Type*} (machine : CMachine V) (valuation : Valuation V)

/-- The arguments of the instrumented call, element by element. -/
def arguments (sa : SchemaApplication) : List (String × V) :=
  elements (argumentArrays valuation.value valuation.sizeof
    (fun name => machine.flag (valuation.isNull name)) sa)

def runtimeEnv (sa : SchemaApplication) (locals : Locals V) : RuntimeAtom → Result V
  | .constant rawType text => some (machine.literal rawType text, false)
  | .name text => ((arguments machine valuation sa).lookup text).map (·, false)
  | .parameter => some (locals.paramValue, false)
  | .bool2 => some (locals.bool2Value, false)
  | .illegal => none

end Arguments

def outputType (sa : SchemaApplication) : String :=
  if sa.original.type = .pointer then "void*" else sa.original.rawType

namespace DispatchCode

variable {V : Type*} (machine : CMachine V) (valuation : Valuation V)
  (sa : SchemaApplication)

/-- Evaluate an emitted expression; a raised flag is recorded in `current_panic`. -/
def assign (expr : RuntimeExpr) (store : V → Locals V → Locals V) (locals : Locals V) :
    Option (Locals V) :=
  match expr.term.eval machine.toMachine (runtimeEnv machine valuation sa locals) with
  | none => none
  | some (value, raised) =>
      some { store value locals with currentPanic := locals.currentPanic || raised }

/-- `switch (id.bool2)`; without a matching case nothing is executed. -/
def switchBool2 (code : DispatchCode) (id : PatchID) (locals : Locals V) :
    Option (Locals V) :=
  match id.bool2 with
  | 0 => some locals
  | i + 1 =>
      match code.bool2Cases[i]? with
      | none => some locals
      | some expr => assign machine valuation sa expr
          (fun value locals =>
            { locals with bool2Value := machine.flag (machine.truth value) }) locals

def switchBase (code : DispatchCode) (id : PatchID) (locals : Locals V) :
    Option (Locals V) :=
  match code.baseCases.lookup id.base with
  | none => some locals
  | some expr => assign machine valuation sa expr
      (fun value locals =>
        { locals with baseValue := machine.convert (outputType sa) value }) locals

def run (code : DispatchCode) : Dispatch V := fun id locals =>
  (switchBool2 machine valuation sa code id
    { locals with paramValue := machine.param id.param }).bind
      (switchBase machine valuation sa code id)

end DispatchCode

end F1X.generator
