import Mathlib.Data.List.Basic

/-!
# Data model of the repair engine

The enumerations and records of `repair/Core.h`.  One expression record serves
operators, leaves and the abstract nodes that synthesis instantiates later;
the argument vector is a list, so that malformed arities stay representable and
the error paths of the code can be modelled.
-/

namespace F1X

inductive TestPrioritization where
  | fixedOrder
  | maxFailing
  deriving DecidableEq, Repr

inductive PatchPrioritization where
  | syntacticDiff
  | semanticDiff
  deriving DecidableEq, Repr

structure PatchID where
  base : Nat
  int2 : Nat
  bool2 : Nat
  cond3 : Nat
  param : Nat
  deriving DecidableEq, Repr

abbrev AppID := Nat

inductive TestStatus where
  | pass
  | fail
  | timeout
  deriving DecidableEq, Repr

inductive NodeKind where
  | operator
  | variable
  | constant
  | dereference
  | parameter
  | int2
  | bool2
  | cond3
  deriving DecidableEq, Repr

/-- The enumeration `Type` of the source. -/
inductive ExprType where
  | any
  | boolean
  | integer
  | pointer
  | bitvector
  deriving DecidableEq, Repr

inductive Operator where
  | none
  | eq | neq | lt | le | gt | ge | or | and
  | add | sub | mul | div | mod | neg | not
  | bvAnd | bvXor | bvOr | bvShl | bvShr | bvNot
  | ptrAdd | ptrSub
  | implicitBvCast | implicitIntCast
  | explicitBvCast | explicitIntCast | explicitPtrCast | explicitUnsignedCast
  deriving DecidableEq, Repr

def defaultBooleanType : String := "int"
def explicitIntCastType : String := "long"
def explicitUnsignedCastType : String := "unsigned"
def explicitBvCastType : String := "unsigned long"
def explicitPtrCastType : String := "void"

structure Expression where
  kind : NodeKind
  type : ExprType
  op : Operator
  rawType : String
  repr : String
  args : List Expression
  deriving Repr

namespace Expression

mutual

def decEq : (first second : Expression) → Decidable (first = second)
  | ⟨k, t, o, r, s, as⟩, ⟨k', t', o', r', s', as'⟩ =>
      match decEqArgs as as' with
      | isTrue hargs =>
          if h : k = k' ∧ t = t' ∧ o = o' ∧ r = r' ∧ s = s' then
            isTrue (by
              obtain ⟨rfl, rfl, rfl, rfl, rfl⟩ := h
              rw [hargs])
          else
            isFalse (by
              intro heq
              cases heq
              simp at h)
      | isFalse hargs =>
          isFalse (by
            intro heq
            cases heq
            exact hargs rfl)

def decEqArgs : (first second : List Expression) → Decidable (first = second)
  | [], [] => isTrue rfl
  | [], _ :: _ => isFalse (by simp)
  | _ :: _, [] => isFalse (by simp)
  | a :: as, b :: bs =>
      match decEq a b, decEqArgs as bs with
      | isTrue hhead, isTrue htail => isTrue (by rw [hhead, htail])
      | isFalse hhead, _ =>
          isFalse (by
            intro heq
            cases heq
            exact hhead rfl)
      | _, isFalse htail =>
          isFalse (by
            intro heq
            cases heq
            exact htail rfl)

end

instance : DecidableEq Expression := decEq

/-- Induction over expression trees; the hypothesis covers every argument. -/
@[elab_as_elim, induction_eliminator]
theorem induct {motive : Expression → Prop}
    (node : ∀ kind type op rawType repr args,
      (∀ arg ∈ args, motive arg) →
        motive ⟨kind, type, op, rawType, repr, args⟩)
    (expression : Expression) : motive expression :=
  @Expression.rec motive (fun args => ∀ arg ∈ args, motive arg)
    (fun kind type op rawType repr args hargs =>
      node kind type op rawType repr args hargs)
    (by simp)
    (fun head tail hhead htail => by
      intro arg harg
      rcases List.mem_cons.mp harg with rfl | hmem
      · exact hhead
      · exact htail arg hmem)
    expression

end Expression

def trueNode : Expression :=
  { kind := .constant, type := .boolean, op := .none, rawType := "int",
    repr := "1", args := [] }

def falseNode : Expression :=
  { kind := .constant, type := .boolean, op := .none, rawType := "int",
    repr := "0", args := [] }

def nullNode : Expression :=
  { kind := .constant, type := .pointer, op := .none, rawType := "void",
    repr := "(void*)0", args := [] }

structure Location where
  fileId : Nat
  beginLine : Nat
  beginColumn : Nat
  endLine : Nat
  endColumn : Nat
  deriving DecidableEq, Repr

inductive TransformationSchema where
  | expression
  | ifGuard
  | loosening
  | tightening
  | initialization
  deriving DecidableEq, Repr

inductive SynthesisRule where
  | operator
  | swaping
  | simplification
  | generalization
  | concretization
  | loosening
  | tightening
  | negation
  | nullCheck
  | substitution
  | unsignedCast
  deriving DecidableEq, Repr

inductive LocationContext where
  | condition
  | unknown
  deriving DecidableEq, Repr

structure SchemaApplication where
  id : AppID
  schema : TransformationSchema
  location : Location
  context : LocationContext
  original : Expression
  components : List Expression
  completePointeeTypes : List String
  deriving DecidableEq, Repr

structure PatchMetadata where
  rule : SynthesisRule
  distance : Nat
  deriving DecidableEq, Repr

/-- `metadata` is the field `meta` of the source. -/
structure Patch where
  id : PatchID
  app : SchemaApplication
  modified : Expression
  metadata : PatchMetadata
  deriving DecidableEq, Repr

end F1X
