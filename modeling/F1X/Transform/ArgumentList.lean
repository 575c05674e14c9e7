import F1X.Semantics.Naming
import F1X.Transform.SchemaApplications

/-!
# The arguments of the instrumented call

`makeArgumentList` of `transform/TransformUtil.cpp` and the parameters that
`parameterList` of `repair/Synthesis.cpp` gives to the generated function.  The
former groups JSON objects, the latter loaded components; both follow the
layout below, so that every index of the generated function finds its value.
-/

namespace F1X

open F1X.Library F1X.generator

/-! ## The two lists -/

inductive ElementType where
  | value (name : String)
  | voidPointer
  deriving DecidableEq, Repr

structure ArrayArgument where
  elementType : ElementType
  elements : List String
  deriving DecidableEq, Repr

structure ArgumentGroups where
  typesToValues : String → List ComponentJson
  pointers : List ComponentJson
  completePointeeTypes : List String
  nonPointerTypes : List String
  dereferences : List String
  baseOfDereference : String → Option String

namespace ArgumentGroups

def empty : ArgumentGroups where
  typesToValues _ := []
  pointers := []
  completePointeeTypes := []
  nonPointerTypes := []
  dereferences := []
  baseOfDereference _ := none

def addDereference (groups : ArgumentGroups) (c : ComponentJson) : ArgumentGroups :=
  match c.base with
  | none => groups
  | some base =>
      if c.repr ∈ groups.dereferences then groups
      else
        { groups with
          dereferences := groups.dereferences ++ [c.repr]
          baseOfDereference := Function.update groups.baseOfDereference c.repr (some base) }

def addValue (groups : ArgumentGroups) (c : ComponentJson) : ArgumentGroups :=
  if c.isPointer then
    { groups with
      pointers := groups.pointers ++ [c]
      completePointeeTypes :=
        if c.hasCompletePointee then pushNew groups.completePointeeTypes c.rawType
        else groups.completePointeeTypes }
  else
    { groups with
      nonPointerTypes := pushNew groups.nonPointerTypes c.rawType
      typesToValues := Function.update groups.typesToValues c.rawType
        (groups.typesToValues c.rawType ++ [c]) }

def add (groups : ArgumentGroups) (c : ComponentJson) : ArgumentGroups :=
  (groups.addDereference c).addValue c

/-- A value that is read through a pointer is replaced where the pointer is null. -/
def elementText (groups : ArgumentGroups) (zero : String) (c : ComponentJson) : String :=
  match groups.baseOfDereference c.repr with
  | some base => "(!" ++ base ++ " ? " ++ zero ++ " : " ++ c.repr ++ ")"
  | none => c.repr

end ArgumentGroups

def sortNames (names : List String) : List String :=
  names.mergeSort fun a b => decide (a ≤ b)

def argumentGroups (components : List ComponentJson) : ArgumentGroups :=
  components.foldl ArgumentGroups.add ArgumentGroups.empty

def makeArgumentList (components : List ComponentJson) : List ArrayArgument :=
  let groups := argumentGroups components
  ((sortNames groups.nonPointerTypes).map fun type =>
    ⟨.value type, (groups.typesToValues type).map (groups.elementText "0")⟩) ++
  (if groups.pointers.isEmpty then []
  else
    [⟨.voidPointer, groups.pointers.map (groups.elementText "(void*)0")⟩,
      ⟨.value "int", (sortNames groups.completePointeeTypes).map fun t =>
        "sizeof(" ++ t ++ ")"⟩]) ++
  (if groups.dereferences.isEmpty then []
  else
    [⟨.value "int", (sortNames groups.dereferences).map fun d =>
      "!" ++ (groups.baseOfDereference d).getD ""⟩])

def ArrayArgument.text (argument : ArrayArgument) : String :=
  "(" ++ (match argument.elementType with
    | .value name => name
    | .voidPointer => "void*") ++ "[])\x7b" ++ ", ".intercalate argument.elements ++ "\x7d"

def argumentListText (components : List ComponentJson) : String :=
  ", ".intercalate ((makeArgumentList components).map (·.text))

structure Parameter where
  elementType : ElementType
  name : String
  deriving DecidableEq, Repr

def generator.parameterList (sa : SchemaApplication) : List Parameter :=
  ((nonPtrTypes sa.components).map fun type => ⟨.value type, argNameByNonPtrType type⟩) ++
  (if hasPointers sa then
    [⟨.voidPointer, pointerArgName⟩, ⟨.value "int", sizesArgName⟩] else []) ++
  (if hasDereferences sa then [⟨.value "int", nullderefArgName⟩] else [])

private theorem parameterList_names (sa : SchemaApplication) :
    (parameterList sa).map (·.name) = parameterNames sa := by
  rw [parameterList, parameterNames, List.map_append, List.map_append, List.map_map]
  congr 1
  · congr 1
    cases hasPointers sa <;> rfl
  · cases hasDereferences sa <;> rfl

/-! ## What the loop over the components collects -/

structure ArgumentGroups.Describes (groups : ArgumentGroups)
    (components : List ComponentJson) : Prop where
  typesToValues : ∀ type, groups.typesToValues type =
    components.filter fun c => !c.isPointer && decide (c.rawType = type)
  pointers : groups.pointers = components.filter (·.isPointer)
  completePointeeTypes :
    groups.completePointeeTypes = (completePointees components).eraseDups
  nonPointerTypes : groups.nonPointerTypes =
    ((components.filter fun c => !c.isPointer).map (·.rawType)).eraseDups
  dereferences : groups.dereferences =
    ((components.filter (·.base.isSome)).map (·.repr)).eraseDups
  base : ∀ c ∈ components, groups.baseOfDereference c.repr = c.base
  fresh : ∀ repr ∉ components.map (·.repr), groups.baseOfDereference repr = none

private theorem addDereference_fresh {groups : ArgumentGroups} {c : ComponentJson}
    (hfresh : c.repr ∉ groups.dereferences) (hnone : groups.baseOfDereference c.repr = none) :
    groups.addDereference c =
      { groups with
        dereferences :=
          if c.base.isSome then groups.dereferences ++ [c.repr] else groups.dereferences
        baseOfDereference := Function.update groups.baseOfDereference c.repr c.base } := by
  cases hbase : c.base with
  | none =>
      have hsame : Function.update groups.baseOfDereference c.repr none =
          groups.baseOfDereference :=
        (congrArg _ hnone.symm).trans (Function.update_eq_self _ _)
      simp [ArgumentGroups.addDereference, hbase, hsame]
  | some base => simp [ArgumentGroups.addDereference, hbase, hfresh]

section Add

variable {groups : ArgumentGroups} {components : List ComponentJson} {c : ComponentJson}

theorem ArgumentGroups.Describes.dereferences_add (h : groups.Describes components)
    (hnew : c.repr ∉ groups.dereferences) :
    (if c.base.isSome then groups.dereferences ++ [c.repr] else groups.dereferences) =
      (((components ++ [c]).filter (·.base.isSome)).map (·.repr)).eraseDups := by
  by_cases hsome : c.base.isSome = true
  · have hpush := pushNew_eraseDups ((components.filter (·.base.isSome)).map (·.repr)) c.repr
    rw [← h.dereferences, pushNew, if_neg hnew] at hpush
    simp [hsome, hpush]
  · simp [hsome, h.dereferences]

theorem ArgumentGroups.Describes.base_add (h : groups.Describes components)
    (hfresh : c.repr ∉ components.map (·.repr)) {other : ComponentJson}
    (hother : other ∈ components ++ [c]) :
    Function.update groups.baseOfDereference c.repr c.base other.repr = other.base := by
  rcases List.mem_append.mp hother with hother | hother
  · rw [Function.update_of_ne, h.base other hother]
    intro heq
    exact hfresh (heq ▸ List.mem_map.mpr ⟨other, hother, rfl⟩)
  · cases List.mem_singleton.mp hother
    exact Function.update_self _ _ _

theorem ArgumentGroups.Describes.fresh_add (h : groups.Describes components) {repr : String}
    (hrepr : repr ∉ (components ++ [c]).map (·.repr)) :
    Function.update groups.baseOfDereference c.repr c.base repr = none := by
  rw [List.map_append, List.mem_append, not_or] at hrepr
  rw [Function.update_of_ne, h.fresh repr hrepr.1]
  rintro rfl
  simp at hrepr

private theorem ComponentJson.isPointer_of_hasCompletePointee (h : c.hasCompletePointee = true) :
    c.isPointer = true := by
  obtain ⟨base, type, repr⟩ := c
  revert h
  cases type <;> simp [hasCompletePointee, isPointer, CType.isPointerType]

theorem ArgumentGroups.Describes.add (h : groups.Describes components)
    (hfresh : c.repr ∉ components.map (·.repr)) :
    (groups.add c).Describes (components ++ [c]) := by
  have hnew : c.repr ∉ groups.dereferences := by
    rw [h.dereferences, List.mem_eraseDups]
    exact fun hmem => hfresh ((List.filter_sublist.map _).subset hmem)
  rw [ArgumentGroups.add, addDereference_fresh hnew (h.fresh _ hfresh),
    ArgumentGroups.addValue]
  by_cases hpointer : c.isPointer = true
  · rw [if_pos hpointer]
    refine ⟨?_, ?_, ?_, ?_, h.dereferences_add hnew, fun _ => h.base_add hfresh,
      fun _ => h.fresh_add⟩
    · intro type
      simp [hpointer, h.typesToValues]
    · simp [hpointer, h.pointers]
    · by_cases hpointee : c.hasCompletePointee = true
      · simp [hpointee, h.completePointeeTypes, pushNew_eraseDups, completePointees]
      · simp [hpointee, h.completePointeeTypes, completePointees]
    · simp [hpointer, h.nonPointerTypes]
  · have hpointee : ¬ c.hasCompletePointee = true :=
      mt ComponentJson.isPointer_of_hasCompletePointee hpointer
    rw [if_neg hpointer]
    refine ⟨?_, ?_, ?_, ?_, h.dereferences_add hnew, fun _ => h.base_add hfresh,
      fun _ => h.fresh_add⟩
    · intro type
      by_cases htype : c.rawType = type
      · subst htype
        simp [hpointer, h.typesToValues]
      · simp [hpointer, h.typesToValues, htype, Function.update_of_ne (Ne.symm htype)]
    · simp [hpointer, h.pointers]
    · simp [hpointee, h.completePointeeTypes, completePointees]
    · simp [hpointer, h.nonPointerTypes, pushNew_eraseDups]

end Add

theorem describes_argumentGroups {components : List ComponentJson}
    (hdistinct : (components.map (·.repr)).Nodup) :
    (argumentGroups components).Describes components := by
  induction components using List.reverseRecOn with
  | nil =>
      constructor <;> simp [argumentGroups, ArgumentGroups.empty, completePointees]
  | append_singleton components c ih =>
      rw [List.map_append, List.nodup_append] at hdistinct
      rw [argumentGroups, List.foldl_append]
      refine (ih hdistinct.1).add fun hmem => ?_
      exact hdistinct.2.2 _ hmem _ (by simp) rfl

/-! ## The common layout -/

def ComponentJson.valueText (c : ComponentJson) : String :=
  match c.base with
  | some base =>
      "(!" ++ base ++ " ? " ++ (if c.isPointer then "(void*)0" else "0") ++ " : " ++
        c.repr ++ ")"
  | none => c.repr

def nullTest (components : List ComponentJson) (repr : String) : String :=
  "!" ++ ((argumentGroups components).baseOfDereference repr).getD ""

/-- Every parameter with the elements of the array that is passed for it. -/
def layout (components : List ComponentJson) : List (Parameter × List String) :=
  ((sortedDistinct ((components.filter fun c => !c.isPointer).map (·.rawType))).map fun type =>
    (⟨.value type, argNameByNonPtrType type⟩,
      (components.filter fun c => !c.isPointer && decide (c.rawType = type)).map
        (·.valueText))) ++
  (if components.any (·.isPointer) then
    [(⟨.voidPointer, pointerArgName⟩, (components.filter (·.isPointer)).map (·.valueText)),
      (⟨.value "int", sizesArgName⟩, (sortedDistinct (completePointees components)).map fun t =>
        "sizeof(" ++ t ++ ")")]
  else []) ++
  (if components.any (·.base.isSome) then
    [(⟨.value "int", nullderefArgName⟩,
      (sortedDistinct ((components.filter (·.base.isSome)).map (·.repr))).map
        (nullTest components))]
  else [])

/-- In a group of one kind the elements are the values of its components. -/
theorem elementText_eq {components : List ComponentJson} {p : ComponentJson → Bool}
    {zero : String} (h : (argumentGroups components).Describes components)
    (hzero : ∀ c ∈ components, p c = true →
      zero = if c.isPointer then "(void*)0" else "0") :
    (components.filter p).map ((argumentGroups components).elementText zero) =
      (components.filter p).map (·.valueText) := by
  refine List.map_congr_left fun c hc => ?_
  obtain ⟨hc, hp⟩ := List.mem_filter.mp hc
  rw [ArgumentGroups.elementText, h.base c hc, hzero c hc hp]
  rfl

private theorem eraseDups_isEmpty (names : List String) :
    names.eraseDups.isEmpty = names.isEmpty := by
  cases names with
  | nil => rfl
  | cons name names =>
      rw [List.eraseDups_cons]
      rfl

private theorem valueArrays_eq {components : List ComponentJson}
    (h : (argumentGroups components).Describes components) :
    (sortNames (argumentGroups components).nonPointerTypes).map (fun type =>
        (⟨.value type, ((argumentGroups components).typesToValues type).map
          ((argumentGroups components).elementText "0")⟩ : ArrayArgument)) =
      (sortedDistinct ((components.filter fun c => !c.isPointer).map (·.rawType))).map
        fun type => ⟨.value type,
          (components.filter fun c => !c.isPointer && decide (c.rawType = type)).map
            (·.valueText)⟩ := by
  rw [h.nonPointerTypes]
  refine List.map_congr_left fun type _ => ?_
  rw [h.typesToValues, elementText_eq h]
  intro c hc hp
  simp_all

theorem makeArgumentList_layout {components : List ComponentJson}
    (hdistinct : (components.map (·.repr)).Nodup) :
    makeArgumentList components =
      (layout components).map fun array => ⟨array.1.elementType, array.2⟩ := by
  have h := describes_argumentGroups hdistinct
  have hpointers : (components.filter (·.isPointer)).isEmpty =
      !components.any (·.isPointer) := by
    rw [Bool.eq_iff_iff]
    simp
  have hpointerTexts : (components.filter (·.isPointer)).map
      ((argumentGroups components).elementText "(void*)0") =
        (components.filter (·.isPointer)).map (·.valueText) :=
    elementText_eq h (by simp_all)
  have hdereferences : (argumentGroups components).dereferences.isEmpty =
      !components.any (·.base.isSome) := by
    rw [h.dereferences, eraseDups_isEmpty, Bool.eq_iff_iff]
    simp
  have hsizes : sortNames (argumentGroups components).completePointeeTypes =
      sortedDistinct (completePointees components) := by
    rw [h.completePointeeTypes]
    rfl
  have htests : sortNames (argumentGroups components).dereferences =
      sortedDistinct ((components.filter (·.base.isSome)).map (·.repr)) := by
    rw [h.dereferences]
    rfl
  simp only [makeArgumentList, layout, valueArrays_eq h, hdereferences, hsizes, htests,
    List.map_append, List.map_map]
  rw [h.pointers, hpointers, hpointerTexts]
  congr 1
  · congr 1
    cases components.any (·.isPointer) <;> rfl
  · cases components.any (·.base.isSome) <;> rfl

private theorem nonPtrTypes_loaded (components : List ComponentJson) :
    nonPtrTypes (components.map (·.loaded)) =
      sortedDistinct ((components.filter fun c => !c.isPointer).map (·.rawType)) := by
  have htype : ((fun c : Expression => decide (c.type = .integer)) ∘ ComponentJson.loaded) =
      fun c => !c.isPointer := by
    funext c
    cases h : c.isPointer <;> simp [ComponentJson.loaded, h]
  rw [nonPtrTypes, List.filter_map, List.map_map, htype]
  rfl

theorem parameterList_layout {components : List ComponentJson} {sa : SchemaApplication}
    (hcomponents : sa.components = components.map (·.loaded)) :
    parameterList sa = (layout components).map Prod.fst := by
  have hpointers : hasPointers sa = components.any (·.isPointer) := by
    rw [hasPointers, hcomponents, List.any_map]
    congr 1
    funext c
    cases h : c.isPointer <;> simp [ComponentJson.loaded, h]
  have hdereferences : hasDereferences sa = components.any (·.base.isSome) := by
    rw [hasDereferences, hcomponents, List.any_map]
    congr 1
    funext c
    cases h : c.base <;> simp [ComponentJson.loaded, h]
  rw [parameterList, layout, hpointers, hdereferences, hcomponents, nonPtrTypes_loaded,
    List.map_append, List.map_append, List.map_map]
  congr 1
  · congr 1
    cases components.any (·.isPointer) <;> rfl
  · cases components.any (·.base.isSome) <;> rfl

section Arrays

variable {components : List ComponentJson} {c : ComponentJson}

private theorem mem_layout_values (hc : c ∈ components) (hpointer : c.isPointer = false) :
    (⟨.value c.rawType, argNameByNonPtrType c.rawType⟩,
      (components.filter fun other =>
        !other.isPointer && decide (other.rawType = c.rawType)).map (·.valueText)) ∈
      layout components := by
  refine List.mem_append_left _ (List.mem_append_left _ (List.mem_map.mpr ⟨_, ?_, rfl⟩))
  exact mem_sortedDistinct.mpr
    (List.mem_map.mpr ⟨c, List.mem_filter.mpr ⟨hc, by simp [hpointer]⟩, rfl⟩)

theorem mem_layout_pointers (hc : c ∈ components) (hpointer : c.isPointer = true) :
    (⟨.voidPointer, pointerArgName⟩, (components.filter (·.isPointer)).map (·.valueText)) ∈
        layout components ∧
      (⟨.value "int", sizesArgName⟩, (sortedDistinct (completePointees components)).map
        fun t => "sizeof(" ++ t ++ ")") ∈ layout components := by
  have hany : components.any (·.isPointer) = true := List.any_eq_true.mpr ⟨c, hc, hpointer⟩
  simp [layout, hany]

private theorem mem_layout_tests (hc : c ∈ components) (hbase : c.base.isSome = true) :
    (⟨.value "int", nullderefArgName⟩,
      (sortedDistinct ((components.filter (·.base.isSome)).map (·.repr))).map
        (nullTest components)) ∈ layout components := by
  have hany : components.any (·.base.isSome) = true := List.any_eq_true.mpr ⟨c, hc, hbase⟩
  simp [layout, hany]

end Arrays

/-! ## The indices -/

/-- The value with this text is the element at `index` of the array passed for the parameter. -/
def PassedAs (components : List ComponentJson) (sa : SchemaApplication)
    (parameter : Parameter) (index : Nat) (text : String) : Prop :=
  ∃ (position : Nat) (argument : ArrayArgument),
    (makeArgumentList components)[position]? = some argument ∧
    (parameterList sa)[position]? = some parameter ∧ argument.elements[index]? = some text

def ComponentJson.parameter (c : ComponentJson) : Parameter :=
  if c.isPointer then ⟨.voidPointer, pointerArgName⟩
  else ⟨.value c.rawType, argNameByNonPtrType c.rawType⟩

section Indices

variable {components : List ComponentJson} {sa : SchemaApplication} {c : ComponentJson}
  (hdistinct : (components.map (·.repr)).Nodup)
  (hcomponents : sa.components = components.map (·.loaded))

include hdistinct hcomponents in
theorem passedAs_of_mem {parameter : Parameter} {texts : List String} {index : Nat}
    {text : String} (hmem : (parameter, texts) ∈ layout components)
    (htext : texts[index]? = some text) : PassedAs components sa parameter index text := by
  obtain ⟨position, hposition⟩ := List.getElem?_of_mem hmem
  refine ⟨position, ⟨parameter.elementType, texts⟩, ?_, ?_, htext⟩
  · rw [makeArgumentList_layout hdistinct, List.getElem?_map, hposition]
    rfl
  · rw [parameterList_layout hcomponents, List.getElem?_map, hposition]
    rfl

private theorem builtinTypes_clangKindToString (kind : BuiltinKind) :
    clangKindToString kind ∈ builtinTypes := by
  cases kind <;> decide

include hcomponents in
theorem builtin_of_loaded :
    ∀ c ∈ sa.components, c.type = .integer → c.rawType ∈ builtinTypes := by
  rw [hcomponents]
  intro c hc htype
  obtain ⟨⟨base, type, repr⟩, -, rfl⟩ := List.mem_map.mp hc
  cases type with
  | builtin kind => exact builtinTypes_clangKindToString kind
  | pointer pointee incomplete => cases htype

theorem filter_getElem?_of_repr {p : ComponentJson → Bool} {index : Nat}
    (hdistinct : (components.map (·.repr)).Nodup) (hc : c ∈ components)
    (h : ((components.filter p).map (·.repr))[index]? = some c.repr) :
    (components.filter p)[index]? = some c ∧ p c = true := by
  obtain ⟨other, hother, hrepr⟩ : ∃ other, (components.filter p)[index]? = some other ∧
      other.repr = c.repr := by
    rwa [List.getElem?_map, Option.map_eq_some_iff] at h
  obtain ⟨hmem, hp⟩ := List.mem_filter.mp (List.mem_of_getElem? hother)
  obtain rfl := List.inj_on_of_nodup_map hdistinct hmem hc hrepr
  exact ⟨hother, hp⟩

private theorem reprsByType_loaded (type : String) :
    reprsByType (components.map (·.loaded)) type =
      (components.filter fun c => !c.isPointer && decide (c.rawType = type)).map (·.repr) := by
  have htype : ((fun c : Expression => decide (c.type = .integer ∧ c.rawType = type)) ∘
      ComponentJson.loaded) = fun c => !c.isPointer && decide (c.rawType = type) := by
    funext c
    cases h : c.isPointer <;> simp [ComponentJson.loaded, h]
  rw [reprsByType, List.filter_map, List.map_map, htype]
  rfl

private theorem pointerReprs_loaded :
    pointerReprs (components.map (·.loaded)) =
      (components.filter (·.isPointer)).map (·.repr) := by
  have htype : ((fun c : Expression => decide (c.type = .pointer)) ∘ ComponentJson.loaded) =
      (·.isPointer) := by
    funext c
    cases h : c.isPointer <;> simp [ComponentJson.loaded, h]
  rw [pointerReprs, List.filter_map, List.map_map, htype]
  rfl

include hdistinct hcomponents in
private theorem passedAs_value (hc : c ∈ components) {name : String}
    (h : (c.repr, name) ∈ renamingEntries sa.components) :
    ∃ index, name = element c.parameter.name index ∧
      PassedAs components sa c.parameter index c.valueText := by
  rw [hcomponents] at h
  rcases List.mem_append.mp h with h | h
  · obtain ⟨type, htype, h⟩ := List.mem_flatMap.mp h
    obtain ⟨index, hindex, heq⟩ := List.mem_mapIdx.mp h
    obtain ⟨hrepr, rfl⟩ := Prod.mk.inj heq
    have hlookup := List.getElem?_eq_getElem hindex
    rw [hrepr, reprsByType_loaded] at hlookup
    obtain ⟨hvalue, hinteger⟩ := filter_getElem?_of_repr hdistinct hc hlookup
    simp only [Bool.and_eq_true, Bool.not_eq_true', decide_eq_true_eq] at hinteger
    obtain ⟨hpointer, rfl⟩ := hinteger
    have hparameter : c.parameter = ⟨.value c.rawType, argNameByNonPtrType c.rawType⟩ := by
      simp [ComponentJson.parameter, hpointer]
    rw [hparameter]
    refine ⟨index, rfl, passedAs_of_mem hdistinct hcomponents
      (mem_layout_values hc hpointer) ?_⟩
    rw [List.getElem?_map, hvalue]
    rfl
  · obtain ⟨index, hindex, heq⟩ := List.mem_mapIdx.mp h
    obtain ⟨hrepr, rfl⟩ := Prod.mk.inj heq
    have hlookup := List.getElem?_eq_getElem hindex
    rw [hrepr, pointerReprs_loaded] at hlookup
    obtain ⟨hvalue, hpointer⟩ := filter_getElem?_of_repr hdistinct hc hlookup
    have hparameter : c.parameter = ⟨.voidPointer, pointerArgName⟩ := by
      simp [ComponentJson.parameter, hpointer]
    rw [hparameter]
    refine ⟨index, rfl, passedAs_of_mem hdistinct hcomponents
      (mem_layout_pointers hc hpointer).1 ?_⟩
    rw [List.getElem?_map, hvalue]
    rfl

include hdistinct hcomponents in
private theorem passedAs_size (hsizes : sa.completePointeeTypes =
      sortedDistinct (completePointees components)) (hc : c ∈ components)
    (hpointee : c.hasCompletePointee = true) :
    ∃ index, typeSizes sa c.rawType = element sizesArgName index ∧
      PassedAs components sa ⟨.value "int", sizesArgName⟩ index
        ("sizeof(" ++ c.rawType ++ ")") := by
  have hmem : c.rawType ∈ sa.completePointeeTypes := by
    rw [hsizes, mem_sortedDistinct]
    exact List.mem_map.mpr ⟨c, List.mem_filter.mpr ⟨hc, hpointee⟩, rfl⟩
  obtain ⟨index, other, hindex, hsame, hname⟩ := indexed_mem sizesArgName id hmem
  obtain rfl : other = c.rawType := hsame
  have hpointer : c.isPointer = true := by
    obtain ⟨base, type, repr⟩ := c
    cases type with
    | builtin kind => cases hpointee
    | pointer pointee incomplete => rfl
  refine ⟨index, hname, passedAs_of_mem hdistinct hcomponents
    (mem_layout_pointers hc hpointer).2 ?_⟩
  rw [List.getElem?_map, ← hsizes, hindex]
  rfl

theorem dereferences_loaded :
    dereferences (components.map (·.loaded)) =
      sortedDistinct ((components.filter (·.base.isSome)).map (·.repr)) := by
  have hkind : ((fun c : Expression => decide (c.kind = .dereference)) ∘
      ComponentJson.loaded) = (·.base.isSome) := by
    funext c
    cases h : c.base <;> simp [ComponentJson.loaded, h]
  rw [dereferences, List.filter_map, List.map_map, hkind]
  rfl

include hdistinct hcomponents in
private theorem passedAs_test {reprs : StringMap} (hrenaming : runtimeRenaming sa = .ok reprs)
    (hc : c ∈ components) {base : String} (hbase : c.base = some base) :
    ∃ index, nullDerefCondition sa reprs (reprs c.repr) =
        element nullderefArgName index ∧
      PassedAs components sa ⟨.value "int", nullderefArgName⟩ index ("!" ++ base) := by
  have hnaming : naming sa = .ok ⟨reprs, typeSizes sa, nullDerefCondition sa reprs⟩ := by
    rw [naming, hrenaming]
    rfl
  have hnames := parameterNames_nodup (builtin_of_loaded hcomponents)
  have hmem : c.repr ∈ dereferences sa.components := by
    rw [hcomponents, dereferences_loaded, mem_sortedDistinct]
    exact List.mem_map.mpr ⟨c, List.mem_filter.mpr ⟨hc, by simp [hbase]⟩, rfl⟩
  have hentry : ∀ repr ∈ dereferences sa.components,
      (repr, reprs repr) ∈ renamingEntries sa.components := by
    intro repr hrepr
    refine renaming_mem hnaming ?_
    exact (List.filter_sublist.map _).subset (mem_sortedDistinct.mp hrepr)
  obtain ⟨index, other, hindex, hsame, hname⟩ := indexed_mem nullderefArgName reprs hmem
  have hother := hentry other (List.mem_of_getElem? hindex)
  rw [hsame] at hother
  cases renaming_inj hnames hother (hentry c.repr hmem)
  refine ⟨index, hname, passedAs_of_mem hdistinct hcomponents
    (mem_layout_tests hc (by simp [hbase])) ?_⟩
  rw [hcomponents, dereferences_loaded] at hindex
  rw [List.getElem?_map, hindex]
  simp [nullTest, (describes_argumentGroups hdistinct).base c hc, hbase]

end Indices

/--
The call and the generated function agree on the arrays and their order, and
every name that the generated function has for a value, a size or a null test
denotes the element that is passed for it.
-/
theorem argumentList_agrees {app : ApplicationJson} {sa : SchemaApplication}
    (hdistinct : (app.components.map (·.repr)).Nodup)
    (hload : loadSchemaApplication app = .ok sa) :
    (makeArgumentList app.components).map (·.elementType) =
      (parameterList sa).map (·.elementType) ∧
    ((parameterList sa).map (·.name)).Nodup ∧
    ∃ reprs, runtimeRenaming sa = .ok reprs ∧ ∀ c ∈ app.components,
      (∃ index, reprs c.repr = element c.parameter.name index ∧
        PassedAs app.components sa c.parameter index c.valueText) ∧
      (c.hasCompletePointee = true → ∃ index,
        typeSizes sa c.rawType = element sizesArgName index ∧
          PassedAs app.components sa ⟨.value "int", sizesArgName⟩ index
            ("sizeof(" ++ c.rawType ++ ")")) ∧
      ∀ base, c.base = some base → ∃ index,
        nullDerefCondition sa reprs (reprs c.repr) = element nullderefArgName index ∧
          PassedAs app.components sa ⟨.value "int", nullderefArgName⟩ index ("!" ++ base) := by
  obtain ⟨-, -, hcomponents, hsizes⟩ := loadSchemaApplication_loaded hload
  have htypes : (sa.components.all fun c => c.type = .integer ∨ c.type = .pointer) = true := by
    rw [hcomponents, List.all_map, List.all_eq_true]
    intro c hc
    cases h : c.isPointer <;> simp [ComponentJson.loaded, h]
  obtain ⟨reprs, hreprs⟩ : ∃ reprs, runtimeRenaming sa = .ok reprs := ⟨_, if_pos htypes⟩
  have hnaming : naming sa = .ok ⟨reprs, typeSizes sa, nullDerefCondition sa reprs⟩ := by
    rw [naming, hreprs]
    rfl
  refine ⟨?_, ?_, reprs, hreprs, fun c hc => ⟨?_, ?_, ?_⟩⟩
  · rw [makeArgumentList_layout hdistinct, parameterList_layout hcomponents, List.map_map,
      List.map_map]
    rfl
  · rw [parameterList_names]
    exact parameterNames_nodup (builtin_of_loaded hcomponents)
  · refine passedAs_value hdistinct hcomponents hc (renaming_mem hnaming ?_)
    rw [hcomponents, List.map_map]
    exact List.mem_map.mpr ⟨c, hc, rfl⟩
  · exact passedAs_size hdistinct hcomponents hsizes hc
  · intro base hbase
    exact passedAs_test hdistinct hcomponents hreprs hc hbase

/-- A location in the scope of `int x` and of `struct node *p` with an `int` member. -/
def nodeApplication : ApplicationJson where
  appId := 0
  schema := "expression"
  location := ⟨0, 3, 7, 3, 11⟩
  context := "condition"
  expression := .leaf "variable" "integer" "int" "x"
  components :=
    [⟨none, .builtin .int, "x"⟩, ⟨some "p", .builtin .int, "p->value"⟩,
      ⟨none, .pointer "struct node" false, "p"⟩]

theorem argumentList_agrees_node : ∃ sa, loadSchemaApplication nodeApplication = .ok sa ∧
    ∃ reprs, runtimeRenaming sa = .ok reprs ∧ ∃ index,
      nullDerefCondition sa reprs (reprs "p->value") = element nullderefArgName index ∧
        PassedAs nodeApplication.components sa ⟨.value "int", nullderefArgName⟩ index "!p" := by
  refine ⟨_, rfl, ?_⟩
  obtain ⟨-, -, reprs, hreprs, hcomponents⟩ :=
    @argumentList_agrees nodeApplication _ (by decide) rfl
  exact ⟨reprs, hreprs,
    (hcomponents ⟨some "p", .builtin .int, "p->value"⟩ (by decide)).2.2 "p" rfl⟩

end F1X
