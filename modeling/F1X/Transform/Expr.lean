import F1X.Transform.SchemaApplications

/-!
# C expressions and their components

The part of the compiler's syntax tree that `transform/TransformUtil.cpp` walks
over: what `StmtToJSON` reads of an expression, and the components that
`CollectComponents` and `collectComponents` find at a location.  How the
compiler prints an expression is a parameter.
-/

namespace F1X

/-! ## Types -/

inductive Pointee where
  | object
  | incomplete
  | function
  deriving DecidableEq, Repr

/-- A type of an expression; typedefs are looked through, except where noted. -/
inductive QualType where
  /-- No pointer and no array; structures and floating numbers are not integral. -/
  | builtin (kind : BuiltinKind) (integral : Bool)
  | pointer (pointee : String) (shape : Pointee)
  | array (element : String) (incomplete : Bool)
  /-- An array type behind a typedef, which `dyn_cast` does not look through. -/
  | typedefArray
  deriving DecidableEq, Repr

namespace QualType

def isPointerType : QualType → Bool
  | .builtin _ _ => false
  | .pointer _ _ | .array _ _ | .typedefArray => true

/-- gcc does not know the size of a `va_list`. -/
def vaListTag : String := "struct __va_list_tag"

def defaultPointeeType : String := "void"

def getPointeeType : QualType → String × Bool
  | .pointer pointee shape => (pointee, shape = .incomplete || pointee = vaListTag)
  | .array element incomplete => (element, incomplete || element = vaListTag)
  | .builtin _ _ | .typedefArray => (defaultPointeeType, true)

/-- The default is `DEFAULT_NUMERIC_TYPE`. -/
def getBuiltinKind : QualType → BuiltinKind
  | .builtin kind _ => kind
  | .pointer _ _ | .array _ _ | .typedefArray => .long

def isSuitableComponentType : QualType → Bool
  | .pointer _ shape => shape ≠ .function
  | .builtin _ integral => integral
  | .array _ _ | .typedefArray => false

def ctype (type : QualType) : CType :=
  if type.isPointerType then .pointer type.getPointeeType.1 type.getPointeeType.2
  else .builtin type.getBuiltinKind

end QualType

/-! ## Expressions -/

inductive ImplicitCastKind where
  | lvalueToRValue
  | arrayToPointerDecay
  | other
  deriving DecidableEq, Repr

inductive Expr where
  | declRef (type : QualType) (name : String)
  | member (type : QualType) (base : Expr) (isArrow : Bool) (name : String)
  | arraySubscript (type : QualType) (base index : Expr)
  | cast (type : QualType) (subExpr : Expr)
  | integerLiteral (kind : BuiltinKind) (text : String)
  | characterLiteral (text : String)
  | implicitCast (type : QualType) (kind : ImplicitCastKind) (subExpr : Expr)
  | paren (subExpr : Expr)
  | unaryOperator (type : QualType) (opcode : UnaryOpcode) (subExpr : Expr)
  | binaryOperator (type : QualType) (opcode : BinaryOpcode) (lhs rhs : Expr)
  deriving DecidableEq, Repr

namespace Expr

/-- The expression before the last `->`. -/
def arrowBase : Expr → Option Expr
  | .member _ base isArrow _ => if isArrow then some base else none
  | _ => none

section Printing

variable (print : Expr → String)

/-- References and literals are printed as they stand; the rest is up to the compiler. -/
def toString : Expr → String
  | .declRef _ name => name
  | .integerLiteral _ text | .characterLiteral text => text
  | expr => print expr

def stmt : Expr → Stmt
  | .declRef type name => .declRef type.ctype name
  | .member type base isArrow name =>
      .member type.ctype isArrow (toString print (.member type base isArrow name))
  | .arraySubscript type base index =>
      .arraySubscript type.ctype (toString print (.arraySubscript type base index))
  | .cast type subExpr => .cast type.ctype (toString print (.cast type subExpr))
  | .integerLiteral kind text => .integerLiteral kind text
  | .characterLiteral text => .characterLiteral text
  | .implicitCast type _ subExpr => .implicitCast type.ctype subExpr.stmt
  | .paren subExpr => .paren subExpr.stmt
  | .unaryOperator type opcode subExpr => .unaryOperator type.ctype opcode subExpr.stmt
  | .binaryOperator type opcode lhs rhs =>
      .binaryOperator type.ctype opcode lhs.stmt rhs.stmt

end Printing

/-- `CollectComponents`. -/
def collect (ignoreCasts suitableTypes : Bool) : Expr → List Expr
  | .declRef type name =>
      if !suitableTypes || type.isSuitableComponentType then [.declRef type name] else []
  | .member type base isArrow name =>
      if !suitableTypes || type.isSuitableComponentType then
        [.member type base isArrow name]
      else []
  | .arraySubscript type base index =>
      if !suitableTypes || type.isSuitableComponentType then
        [.arraySubscript type base index]
      else []
  | .cast type subExpr => if ignoreCasts then [] else [.cast type subExpr]
  | .integerLiteral _ _ | .characterLiteral _ => []
  | .implicitCast _ _ subExpr | .paren subExpr | .unaryOperator _ _ subExpr =>
      subExpr.collect ignoreCasts suitableTypes
  | .binaryOperator _ _ lhs rhs =>
      lhs.collect ignoreCasts suitableTypes ++ rhs.collect ignoreCasts suitableTypes

def type : Expr → QualType
  | .declRef type _ | .member type _ _ _ | .arraySubscript type _ _ | .cast type _
  | .implicitCast type _ _ | .unaryOperator type _ _ | .binaryOperator type _ _ _ => type
  | .integerLiteral kind _ => .builtin kind true
  | .characterLiteral _ => .builtin .int true
  | .paren subExpr => subExpr.type

def component (print : Expr → String) (expr : Expr) : ComponentJson where
  base := expr.arrowBase.map (toString print)
  type := expr.type.ctype
  repr := expr.toString print

end Expr

/-! ## Printed expressions -/

def QualType.spelling : QualType → String
  | .builtin kind _ => clangKindToString kind
  | .pointer pointee _ => pointee ++ " *"
  | .array element _ => element ++ " []"
  | .typedefArray => defaultPointeeType

/-- The text of the compiler for expressions without typedefs and anonymous members. -/
def Expr.printed : Expr → String
  | .declRef _ name => name
  | .member _ base isArrow name => base.printed ++ (if isArrow then "->" else ".") ++ name
  | .arraySubscript _ base index => base.printed ++ "[" ++ index.printed ++ "]"
  | .cast type subExpr => "(" ++ type.spelling ++ ")" ++ subExpr.printed
  | .integerLiteral _ text | .characterLiteral text => text
  | .implicitCast _ _ subExpr => subExpr.printed
  | .paren subExpr => "(" ++ subExpr.printed ++ ")"
  | .unaryOperator _ opcode subExpr => opcode.text ++ subExpr.printed
  | .binaryOperator _ opcode lhs rhs => lhs.printed ++ " " ++ opcode.text ++ " " ++ rhs.printed

/-! ## What is visible at a location -/

structure VarDecl where
  name : String
  type : QualType
  hasInit : Bool
  beginLine : Nat
  deriving DecidableEq, Repr

namespace VarDecl

/-- `varDeclToJSON` writes what is written for a reference to the variable. -/
def reference (vd : VarDecl) : Expr := .declRef vd.type vd.name

def references (vds : List VarDecl) : List Expr :=
  (vds.filter (·.type.isSuitableComponentType)).map reference

end VarDecl

/-- A statement of a block, by what is collected from it. -/
inductive BlockItem where
  | assignment (lhs rhs : Expr)
  | expression (expr : Expr)
  | declaration (vds : List VarDecl)
  /-- An `if` whose first branch is a call with these arguments. -/
  | ifCall (args : List Expr)
  | other
  deriving DecidableEq, Repr

def BlockItem.collect : BlockItem → List Expr
  | .assignment lhs rhs =>
      (match lhs with
        | .declRef type name =>
            if type.isSuitableComponentType then [.declRef type name] else []
        | _ => []) ++ lhs.collect true true ++ rhs.collect true true
  | .expression expr => expr.collect true true
  | .declaration vds => VarDecl.references (vds.filter (·.hasInit))
  | .ifCall args => args.flatMap (Expr.collect true true)
  | .other => []

/-- A node that encloses the location; the items of a block have their first lines. -/
inductive EnclosingNode where
  | function (parameters globals : List VarDecl)
  | compound (body : List (Nat × BlockItem))
  | other
  deriving DecidableEq, Repr

/-- The enclosing nodes are given from the location outwards. -/
def collectVisible (useGlobalVariables : Bool) (line : Nat) : List EnclosingNode → List Expr
  | [] => []
  | .function parameters globals :: _ =>
      VarDecl.references parameters ++
        (if useGlobalVariables then
          VarDecl.references (globals.filter fun vd => line > vd.beginLine)
        else [])
  | .compound body :: parents =>
      (body.flatMap fun item => if line > item.1 then item.2.collect else []) ++
        collectVisible useGlobalVariables line parents
  | .other :: parents => collectVisible useGlobalVariables line parents

section Components

variable (print : Expr → String)

def addNew (result : List Expr) (c : Expr) : List Expr :=
  if result.any fun old => c.toString print = old.toString print then result
  else result ++ [c]

/-- The two loops of `collectComponents`. -/
def mergeComponents (expr : Expr) (visible : List Expr) : List Expr :=
  visible.foldl (addNew print) ((expr.collect false false).foldl (addNew print) [])

variable (useGlobalVariables : Bool)

def collectComponents (expr : Expr) (line : Nat) (parents : List EnclosingNode) : List Expr :=
  mergeComponents print expr (collectVisible useGlobalVariables line parents)

def expressionApplication (appId : Int) (location : LocationJson) (context : String)
    (expr : Expr) (parents : List EnclosingNode) : ApplicationJson where
  appId := appId
  schema := "expression"
  location := location
  context := context
  expression := stmtToJSON (expr.stmt print)
  components :=
    (collectComponents print useGlobalVariables expr location.beginLine.toNat parents).map
      (Expr.component print)

/-- Nothing is collected from the guarded statement, which is a call or a jump. -/
def ifGuardApplication (appId : Int) (location : LocationJson) (parents : List EnclosingNode) :
    ApplicationJson where
  appId := appId
  schema := "if_guard"
  location := location
  context := "condition"
  expression := .leaf "constant" "integer" "int" "1"
  components :=
    ((collectVisible useGlobalVariables location.beginLine.toNat parents).foldl
      (addNew print) []).map (Expr.component print)

end Components

/-! ## The collected components -/

section Collected

variable {print : Expr → String} {result found : List Expr} {c : Expr}

private theorem subset_addNew (result : List Expr) (c : Expr) : result ⊆ addNew print result c := by
  unfold addNew
  split
  · exact fun _ h => h
  · exact List.subset_append_left _ _

theorem subset_foldl_addNew (result found : List Expr) :
    result ⊆ found.foldl (addNew print) result := by
  induction found generalizing result with
  | nil => exact fun _ h => h
  | cons c found ih => exact fun d hd => ih _ (subset_addNew result c hd)

private theorem foldl_addNew_subset (result found : List Expr) :
    found.foldl (addNew print) result ⊆ result ++ found := by
  induction found generalizing result with
  | nil => simp
  | cons c found ih =>
      intro d hd
      have hmem := List.mem_append.mp (ih _ hd)
      unfold addNew at hmem
      split at hmem <;> simp at hmem ⊢ <;> tauto

variable (print) in
private theorem exists_foldl_addNew (result : List Expr) (h : c ∈ found) :
    ∃ old ∈ found.foldl (addNew print) result, old.toString print = c.toString print := by
  induction found generalizing result with
  | nil => simp at h
  | cons first found ih =>
      rcases List.mem_cons.mp h with rfl | h
      · obtain ⟨old, hold, htext⟩ :
            ∃ old ∈ addNew print result c, old.toString print = c.toString print := by
          unfold addNew
          split
          · rename_i hany
            obtain ⟨old, hold, htext⟩ := List.any_eq_true.mp hany
            exact ⟨old, hold, (of_decide_eq_true htext).symm⟩
          · exact ⟨c, by simp, rfl⟩
        exact ⟨old, subset_foldl_addNew (addNew print result c) found hold, htext⟩
      · exact ih _ h

theorem nodup_foldl_addNew (found : List Expr)
    (h : (result.map (Expr.toString print)).Nodup) :
    ((found.foldl (addNew print) result).map (Expr.toString print)).Nodup := by
  induction found generalizing result with
  | nil => exact h
  | cons c found ih =>
      apply ih
      unfold addNew
      split
      · exact h
      · rename_i hany
        rw [List.map_append, List.nodup_append]
        refine ⟨h, List.nodup_singleton _, ?_⟩
        intro text htext other hother heq
        obtain ⟨old, hold, rfl⟩ := List.mem_map.mp htext
        obtain rfl := List.mem_singleton.mp hother
        exact hany (List.any_eq_true.mpr ⟨old, hold, by simp [heq]⟩)

theorem mergeComponents_nodup (print : Expr → String) (expr : Expr) (visible : List Expr) :
    ((mergeComponents print expr visible).map (Expr.toString print)).Nodup :=
  nodup_foldl_addNew _ (nodup_foldl_addNew _ List.nodup_nil)

theorem exists_component (print : Expr → String) {expr : Expr} (visible : List Expr)
    (h : c ∈ expr.collect false false) :
    ∃ old ∈ mergeComponents print expr visible, old ∈ expr.collect false false ∧
      old.toString print = c.toString print := by
  obtain ⟨old, hold, htext⟩ := exists_foldl_addNew print [] h
  exact ⟨old, subset_foldl_addNew _ _ hold, by simpa using foldl_addNew_subset _ _ hold, htext⟩

end Collected

end F1X
