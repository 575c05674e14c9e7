import F1X.Semantics.Evaluation
import F1X.Synthesis.WellFormed

/-!
# Names in the generated function

The renaming finds every component in the array that the instrumented call
passes it in, every dereference its null flag and every pointee its size.
-/

namespace F1X.generator

open F1X.Library

theorem mem_sortedDistinct {names : List String} {name : String} :
    name ∈ sortedDistinct names ↔ name ∈ names := by
  rw [sortedDistinct, List.mem_mergeSort, List.mem_eraseDups]

theorem element_inj {array array' : String} {index index' : Nat}
    (h : element array index = element array' index') : array = array' ∧ index = index' := by
  have hlists : array.toList ++ '[' :: ((toString index).toList ++ [']']) =
      array'.toList ++ '[' :: ((toString index').toList ++ [']']) := by
    simpa [element] using congrArg String.toList h
  have hclean : ∀ n : Nat, '[' ∉ (toString n).toList ++ [']'] := by
    intro n hmem
    rcases List.mem_append.mp hmem with hmem | hmem
    · exact notMem_toString rfl n hmem
    · simp at hmem
  obtain ⟨harray, hindex⟩ := append_separator_inj (hclean index) (hclean index') hlists
  refine ⟨String.toList_inj.mp harray, toString_injective ?_⟩
  exact String.toList_inj.mp (List.append_cancel_right hindex)

/-! ## The arrays -/

/-- The integer types that the transformer spells in `clangKindToString`. -/
def builtinTypes : List String :=
  ["char", "unsigned char", "wchar_t", "unsigned short", "unsigned int", "unsigned long",
    "unsigned long long", "short", "int", "long", "long long"]

private theorem argNameByNonPtrType_toList (type : String) :
    (argNameByNonPtrType type).toList =
      "__".toList ++ type.toList.map (fun c => if c = ' ' then '_' else c) ++
        "_vals".toList := by
  simp [argNameByNonPtrType]

private theorem argNames_nodup :
    (builtinTypes.map argNameByNonPtrType ++
      [pointerArgName, sizesArgName, nullderefArgName]).Nodup := by
  apply List.Nodup.of_map String.toList
  simp only [List.map_append, List.map_map, Function.comp_def, argNameByNonPtrType_toList]
  decide

theorem parameterNames_nodup {sa : SchemaApplication}
    (hbuiltin : ∀ c ∈ sa.components, c.type = .integer → c.rawType ∈ builtinTypes) :
    (parameterNames sa).Nodup := by
  obtain ⟨hbuiltins, hothers, hdisjoint⟩ := List.nodup_append.mp argNames_nodup
  have htypes : ∀ type ∈ nonPtrTypes sa.components, type ∈ builtinTypes := by
    intro type htype
    obtain ⟨c, hc, rfl⟩ := List.mem_map.mp (mem_sortedDistinct.mp htype)
    obtain ⟨hmem, hinteger⟩ := List.mem_filter.mp hc
    exact hbuiltin c hmem (of_decide_eq_true hinteger)
  have hdistinct : (nonPtrTypes sa.components).Nodup :=
    (List.mergeSort_perm _ _).nodup_iff.mpr (nodup_eraseDups _)
  have hintegers : ((nonPtrTypes sa.components).map argNameByNonPtrType).Nodup :=
    hdistinct.map_on fun type htype other hother =>
      List.inj_on_of_nodup_map hbuiltins (htypes type htype) (htypes other hother)
  have hsublist : ((if hasPointers sa then [pointerArgName, sizesArgName] else []) ++
      if hasDereferences sa then [nullderefArgName] else []).Sublist
        [pointerArgName, sizesArgName, nullderefArgName] := by
    cases hasPointers sa <;> cases hasDereferences sa <;> simp
  rw [parameterNames, List.append_assoc, List.nodup_append]
  refine ⟨hintegers, hothers.sublist hsublist, ?_⟩
  intro name hname other hother
  obtain ⟨type, htype, rfl⟩ := List.mem_map.mp hname
  exact hdisjoint _ (List.mem_map.mpr ⟨type, htypes type htype, rfl⟩) _
    (hsublist.subset hother)

section Elements

variable {V : Type*}

theorem mem_arrayArgument {array : String} {values : List V} {name : String} {value : V} :
    (name, value) ∈ arrayArgument array values ↔
      ∃ index, name = element array index ∧ values[index]? = some value := by
  rw [arrayArgument, List.mem_mapIdx]
  constructor
  · rintro ⟨index, hindex, heq⟩
    cases heq
    exact ⟨index, rfl, List.getElem?_eq_getElem hindex⟩
  · rintro ⟨index, rfl, hvalue⟩
    obtain ⟨hindex, rfl⟩ := List.getElem?_eq_some_iff.mp hvalue
    exact ⟨index, hindex, rfl⟩

private theorem elements_names_nodup {arrays : List (String × List V)}
    (h : (arrays.map Prod.fst).Nodup) : ((elements arrays).map Prod.fst).Nodup := by
  rw [elements, List.map_flatMap, List.nodup_flatMap]
  constructor
  · rintro ⟨array, values⟩ -
    rw [arrayArgument, List.nodup_iff_injective_get]
    intro i j hij
    have hnames : element array i = element array j := by simpa using hij
    exact Fin.ext (element_inj hnames).2
  · rw [List.Nodup, List.pairwise_map] at h
    apply h.imp
    intro first second hne name hfirst hsecond
    obtain ⟨⟨_, value⟩, hmem, rfl⟩ := List.mem_map.mp hfirst
    obtain ⟨⟨_, other⟩, hmem', heq⟩ := List.mem_map.mp hsecond
    obtain ⟨index, rfl, -⟩ := mem_arrayArgument.mp hmem
    obtain ⟨index', hname, -⟩ := mem_arrayArgument.mp hmem'
    exact hne (element_inj (heq.symm.trans hname)).1

end Elements

section Scope

variable {V : Type*} {sa : SchemaApplication} (hnames : (parameterNames sa).Nodup)

private theorem argumentArrays_names (value size flag : String → V) (sa : SchemaApplication) :
    (argumentArrays value size flag sa).map Prod.fst = parameterNames sa := by
  unfold argumentArrays parameterNames
  split <;> split <;> simp

theorem pointerArray_mem (value size flag : String → V)
    (h : ∃ c ∈ sa.components, c.type = .pointer) :
    (pointerArgName, (pointerReprs sa.components).map value) ∈
        argumentArrays value size flag sa ∧
      (sizesArgName, sa.completePointeeTypes.map size) ∈
        argumentArrays value size flag sa := by
  obtain ⟨c, hc, htype⟩ := h
  have hpointers : hasPointers sa = true := by
    rw [hasPointers, List.any_eq_true]
    exact ⟨c, hc, by simp [htype]⟩
  simp [argumentArrays, hpointers]

theorem mem_elements_of_renaming (value size flag : String → V) {repr name : String}
    (h : (repr, name) ∈ renamingEntries sa.components) :
    (name, value repr) ∈ elements (argumentArrays value size flag sa) := by
  rw [elements, List.mem_flatMap]
  rcases List.mem_append.mp h with h | h
  · obtain ⟨type, htype, h⟩ := List.mem_flatMap.mp h
    obtain ⟨index, hindex, heq⟩ := List.mem_mapIdx.mp h
    cases heq
    refine ⟨_, List.mem_append_left _ (List.mem_append_left _
      (List.mem_map.mpr ⟨type, htype, rfl⟩)), ?_⟩
    exact mem_arrayArgument.mpr ⟨index, rfl, by simp [hindex]⟩
  · obtain ⟨index, hindex, heq⟩ := List.mem_mapIdx.mp h
    cases heq
    have hpointer : ∃ c ∈ sa.components, c.type = .pointer := by
      obtain ⟨c, hc, -⟩ := List.mem_map.mp (List.getElem_mem hindex)
      obtain ⟨hmem, htype⟩ := List.mem_filter.mp hc
      exact ⟨c, hmem, by simpa using htype⟩
    refine ⟨_, (pointerArray_mem value size flag hpointer).1, ?_⟩
    exact mem_arrayArgument.mpr ⟨index, rfl, by simp [hindex]⟩

private theorem mem_elements_size (value size flag : String → V)
    (hpointer : ∃ c ∈ sa.components, c.type = .pointer) {type : String} {index : Nat}
    (h : sa.completePointeeTypes[index]? = some type) :
    (element sizesArgName index, size type) ∈
      elements (argumentArrays value size flag sa) := by
  rw [elements, List.mem_flatMap]
  refine ⟨_, (pointerArray_mem value size flag hpointer).2, ?_⟩
  exact mem_arrayArgument.mpr ⟨index, rfl, by simp [h]⟩

private theorem mem_elements_flag (value size flag : String → V) {repr : String} {index : Nat}
    (h : (dereferences sa.components)[index]? = some repr) :
    (element nullderefArgName index, flag repr) ∈
      elements (argumentArrays value size flag sa) := by
  have hdereferences : hasDereferences sa = true := by
    have hmem := mem_sortedDistinct.mp (List.mem_of_getElem? h)
    obtain ⟨c, hc, -⟩ := List.mem_map.mp hmem
    obtain ⟨hmem, hkind⟩ := List.mem_filter.mp hc
    rw [hasDereferences, List.any_eq_true]
    exact ⟨c, hmem, hkind⟩
  rw [elements, List.mem_flatMap]
  refine ⟨(nullderefArgName, (dereferences sa.components).map flag),
    by simp [argumentArrays, hdereferences], ?_⟩
  exact mem_arrayArgument.mpr ⟨index, rfl, by simp [h]⟩

include hnames in
theorem lookup_elements {value size flag : String → V} {name : String} {bound : V}
    (h : (name, bound) ∈ elements (argumentArrays value size flag sa)) :
    (elements (argumentArrays value size flag sa)).lookup name = some bound := by
  refine lookup_of_mem (elements_names_nodup ?_) h
  rwa [argumentArrays_names]

include hnames in
theorem renaming_inj {repr other name : String}
    (h : (repr, name) ∈ renamingEntries sa.components)
    (h' : (other, name) ∈ renamingEntries sa.components) : repr = other := by
  have hlookup : ∀ {source : String}, (source, name) ∈ renamingEntries sa.components →
      (elements (argumentArrays id id id sa)).lookup name = some source :=
    fun hmem => lookup_elements hnames (mem_elements_of_renaming id id id hmem)
  exact Option.some.inj ((hlookup h).symm.trans (hlookup h'))

theorem renaming_mem {names : Naming} (hnaming : naming sa = .ok names) {repr : String}
    (h : repr ∈ sa.components.map (·.repr)) :
    (repr, names.runtimeReprBySource repr) ∈ renamingEntries sa.components := by
  obtain ⟨renaming_, hrenaming, hrest⟩ := bind_eq_ok_iff.mp hnaming
  cases hrest
  unfold runtimeRenaming at hrenaming
  split at hrenaming
  · rename_i htypes
    cases hrenaming
    apply assignAll_mem _
    obtain ⟨c, hc, rfl⟩ := List.mem_map.mp h
    have htype := List.all_eq_true.mp htypes c hc
    rw [renamingEntries, List.map_append, List.mem_append]
    rcases of_decide_eq_true htype with htype | htype
    · left
      rw [List.map_flatMap, List.mem_flatMap]
      refine ⟨c.rawType, mem_sortedDistinct.mpr ?_, ?_⟩
      · exact List.mem_map.mpr ⟨c, List.mem_filter.mpr ⟨hc, by simp [htype]⟩, rfl⟩
      · have hmem : c.repr ∈ reprsByType sa.components c.rawType :=
          List.mem_map.mpr ⟨c, List.mem_filter.mpr ⟨hc, by simp [htype]⟩, rfl⟩
        obtain ⟨index, hindex, heq⟩ := List.getElem_of_mem hmem
        exact List.mem_map.mpr ⟨_, List.mem_mapIdx.mpr ⟨index, hindex, rfl⟩, heq⟩
    · right
      have hmem : c.repr ∈ pointerReprs sa.components :=
        List.mem_map.mpr ⟨c, List.mem_filter.mpr ⟨hc, by simp [htype]⟩, rfl⟩
      obtain ⟨index, hindex, heq⟩ := List.getElem_of_mem hmem
      exact List.mem_map.mpr ⟨_, List.mem_mapIdx.mpr ⟨index, hindex, rfl⟩, heq⟩
  · cases hrenaming

theorem naming_maps {names : Naming} (h : naming sa = .ok names) :
    names.sizeByType = typeSizes sa ∧
      names.nullDerefByName = nullDerefCondition sa names.runtimeReprBySource := by
  obtain ⟨renaming_, -, h⟩ := bind_eq_ok_iff.mp h
  cases h
  exact ⟨rfl, rfl⟩

theorem element_ne_empty (array : String) (index : Nat) : element array index ≠ "" := by
  intro h
  have hlists := congrArg String.toList h
  simp [element] at hlists

theorem indexed_mem (array : String) (key : String → String) {names : List String}
    {name : String} (h : name ∈ names) :
    ∃ index other, names[index]? = some other ∧ key other = key name ∧
      StringMap.ofEntries (names.mapIdx fun index name => (key name, element array index))
        (key name) = element array index := by
  have hkeys : key name ∈ (names.mapIdx fun index name =>
      (key name, element array index)).map Prod.fst := by
    obtain ⟨index, hindex, rfl⟩ := List.getElem_of_mem h
    exact List.mem_map.mpr ⟨_, List.mem_mapIdx.mpr ⟨index, hindex, rfl⟩, rfl⟩
  have hentry := assignAll_mem (fun _ => "") hkeys
  obtain ⟨index, hindex, heq⟩ := List.mem_mapIdx.mp hentry
  refine ⟨index, names[index], List.getElem?_eq_getElem hindex, (Prod.mk.inj heq).1, ?_⟩
  exact (Prod.mk.inj heq).2.symm

end Scope

section Lookups

variable {V : Type*} (machine : CMachine V) (valuation : Valuation V)
  {sa : SchemaApplication} (hnames : (parameterNames sa).Nodup)
  {names : Naming} (hnaming : naming sa = .ok names)

include hnames hnaming in
theorem arguments_component {repr : String} (h : repr ∈ sa.components.map (·.repr)) :
    (arguments machine valuation sa).lookup (names.runtimeReprBySource repr) =
      some (valuation.value repr) :=
  lookup_elements hnames (mem_elements_of_renaming _ _ _ (renaming_mem hnaming h))

include hnames hnaming in
theorem arguments_flag {repr : String} (h : repr ∈ dereferences sa.components) :
    (arguments machine valuation sa).lookup
        (names.nullDerefByName (names.runtimeReprBySource repr)) =
      some (machine.flag (valuation.isNull repr)) := by
  have hcomponent : ∀ repr ∈ dereferences sa.components,
      repr ∈ sa.components.map (·.repr) := by
    intro repr hmem
    obtain ⟨c, hc, rfl⟩ := List.mem_map.mp (mem_sortedDistinct.mp hmem)
    exact List.mem_map.mpr ⟨c, (List.mem_filter.mp hc).1, rfl⟩
  obtain ⟨index, other, hindex, hsame, hname⟩ :=
    indexed_mem nullderefArgName names.runtimeReprBySource h
  have hother := List.mem_of_getElem? hindex
  have hentry := renaming_mem hnaming (hcomponent other hother)
  rw [hsame] at hentry
  cases renaming_inj hnames hentry (renaming_mem hnaming (hcomponent repr h))
  rw [(naming_maps hnaming).2, nullDerefCondition, hname]
  exact lookup_elements hnames (mem_elements_flag _ _ _ hindex)

include hnames hnaming in
theorem arguments_size (hpointer : ∃ c ∈ sa.components, c.type = .pointer)
    {type : String} (h : type ∈ sa.completePointeeTypes) :
    (arguments machine valuation sa).lookup (names.sizeByType type) =
      some (valuation.sizeof type) := by
  obtain ⟨index, other, hindex, hsame, hname⟩ := indexed_mem sizesArgName id h
  rw [show other = type from hsame] at hindex
  have hsize : typeSizes sa type = element sizesArgName index := hname
  rw [(naming_maps hnaming).1, hsize]
  exact lookup_elements hnames (mem_elements_size _ _ _ hpointer hindex)

end Lookups

end F1X.generator
