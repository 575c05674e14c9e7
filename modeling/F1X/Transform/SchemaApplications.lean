import F1X.Synthesis.Generator
import F1X.Transform.StmtToJSON

/-!
# The schema application file

The objects that the transformer writes for a location, and `loadSAFile` of
`repair/Util.cpp`, which reads them.
-/

namespace F1X

open F1X.Library F1X.generator

/-- The member `incomplete` is that of the pointer type; a dereference has the member `base`. -/
structure ComponentJson where
  base : Option String
  type : CType
  repr : String
  deriving DecidableEq, Repr

namespace ComponentJson

def kind (c : ComponentJson) : String :=
  if c.base.isSome then "dereference" else "variable"

def rawType (c : ComponentJson) : String := c.type.rawType

def isPointer (c : ComponentJson) : Bool := c.type.isPointerType

def hasCompletePointee (c : ComponentJson) : Bool :=
  match c.type with
  | .builtin _ => false
  | .pointer _ incomplete => !incomplete

def expression (c : ComponentJson) : ExpressionJson :=
  .leaf c.kind c.type.typeStr c.rawType c.repr

end ComponentJson

structure LocationJson where
  fileId : Int
  beginLine : Int
  beginColumn : Int
  endLine : Int
  endColumn : Int
  deriving DecidableEq, Repr

structure ApplicationJson where
  appId : Int
  schema : String
  location : LocationJson
  context : String
  expression : ExpressionJson
  components : List ComponentJson

/-- `UINT_MAX` and one more. -/
def uintRange : Nat := 4294967296

/-- `GetUint` of a number; it is asserted that the number is a 32-bit unsigned one. -/
def getUint (n : Int) : Except Failure Nat :=
  if 0 ≤ n ∧ n < uintRange then .ok n.toNat else .error .assertionFailed

def transformationSchemaByString (str : String) : Except Failure TransformationSchema :=
  if str = "expression" then .ok .expression
  else if str = "if_guard" then .ok .ifGuard
  else if str = "initialization" then .ok .initialization
  else .error (.parseError ("unsupported transformation schema: " ++ str))

def loadLocation (json : LocationJson) : Except Failure Location := do
  let fileId ← getUint json.fileId
  let beginLine ← getUint json.beginLine
  let beginColumn ← getUint json.beginColumn
  let endLine ← getUint json.endLine
  let endColumn ← getUint json.endColumn
  .ok ⟨fileId, beginLine, beginColumn, endLine, endColumn⟩

/-- The loop over the member `components`. -/
def loadComponents :
    List ComponentJson → List Expression → List String →
      Except Failure (List Expression × List String)
  | [], components, completePointeeTypes => .ok (components, completePointeeTypes)
  | c :: rest, components, completePointeeTypes => do
      let comp ← convertExpression c.expression
      loadComponents rest (components ++ [comp])
        (if c.hasCompletePointee then pushNew completePointeeTypes comp.rawType
          else completePointeeTypes)

def loadSchemaApplication (app : ApplicationJson) : Except Failure SchemaApplication := do
  let appId ← getUint app.appId
  let schema ← transformationSchemaByString app.schema
  let location ← loadLocation app.location
  let expression ← convertExpression app.expression
  let (components, completePointeeTypes) ← loadComponents app.components [] []
  .ok {
    id := appId
    schema := schema
    location := location
    context := if app.context = "condition" then .condition else .unknown
    original := expression
    components := components
    completePointeeTypes := completePointeeTypes.mergeSort fun a b => decide (a ≤ b) }

def loadSAFile (apps : List ApplicationJson) : Except Failure (List SchemaApplication) :=
  apps.mapM loadSchemaApplication

/-! ## The loaded components -/

/-- A component as `convertExpression` returns it. -/
def ComponentJson.loaded (c : ComponentJson) : Expression where
  kind := if c.base.isSome then .dereference else .variable
  type := if c.isPointer then .pointer else .integer
  op := .none
  rawType := c.rawType
  repr := c.repr
  args := []

private theorem convertExpression_component (c : ComponentJson) :
    convertExpression c.expression = .ok c.loaded := by
  obtain ⟨base, type, repr⟩ := c
  cases base <;> cases type <;> rfl

def completePointees (components : List ComponentJson) : List String :=
  (components.filter (·.hasCompletePointee)).map (·.rawType)

private theorem loadComponents_eq (rest seen : List ComponentJson) :
    loadComponents rest (seen.map (·.loaded)) (completePointees seen).eraseDups =
      .ok ((seen ++ rest).map (·.loaded), (completePointees (seen ++ rest)).eraseDups) := by
  induction rest generalizing seen with
  | nil => simp [loadComponents]
  | cons c rest ih =>
      have hpush : (if c.hasCompletePointee then
            pushNew (completePointees seen).eraseDups c.loaded.rawType
          else (completePointees seen).eraseDups) =
          (completePointees (seen ++ [c])).eraseDups := by
        by_cases h : c.hasCompletePointee = true
        · simp [completePointees, h, pushNew_eraseDups, ComponentJson.loaded]
        · simp [completePointees, h]
      rw [loadComponents, convertExpression_component]
      have hrest := ih (seen ++ [c])
      rw [List.map_append, List.append_assoc] at hrest
      exact (congrArg _ hpush).trans hrest

structure IsLoaded (app : ApplicationJson) (sa : SchemaApplication) : Prop where
  schema : transformationSchemaByString app.schema = .ok sa.schema
  original : convertExpression app.expression = .ok sa.original
  components : sa.components = app.components.map (·.loaded)
  completePointeeTypes :
    sa.completePointeeTypes = sortedDistinct (completePointees app.components)

theorem loadSchemaApplication_loaded {app : ApplicationJson} {sa : SchemaApplication}
    (h : loadSchemaApplication app = .ok sa) : IsLoaded app sa := by
  obtain ⟨appId, -, h⟩ := bind_eq_ok_iff.mp h
  obtain ⟨schema, hschema, h⟩ := bind_eq_ok_iff.mp h
  obtain ⟨location, -, h⟩ := bind_eq_ok_iff.mp h
  obtain ⟨expression, hexpression, h⟩ := bind_eq_ok_iff.mp h
  obtain ⟨pair, hpair, h⟩ := bind_eq_ok_iff.mp h
  have hload := loadComponents_eq app.components []
  obtain rfl := Except.ok.inj (hload.symm.trans hpair)
  cases h
  exact ⟨hschema, hexpression, by simp, by simp [sortedDistinct]⟩

end F1X
