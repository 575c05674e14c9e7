import F1X.Library.CSubstitution
import F1X.Library.TextLines
import F1X.Repair.PatchTemplates
import F1X.Semantics.PrintedTree

/-!
# Patches as text

The transformer leaves a placeholder in the file, and `replacePlaceholderInFile`
puts the text of a patch there without looking at what stands around it.  The
file is read as if the patch had been put into its syntax tree.
-/

namespace F1X.Repair

open F1X.Library Project

/-! ## Lines -/

theorem readLines_line {line : List Char} (h : '\n' ∉ line) (chars : List Char) :
    readLines (String.ofList (putLine line ++ chars)) =
      line :: readLines (String.ofList chars) := by
  have hsplit : (putLine line ++ chars).splitOn '\n' = line :: chars.splitOn '\n' := by
    rw [putLine, List.append_assoc, List.singleton_append]
    refine List.splitOnP_append_cons_of_forall_mem (fun c hc => ?_) '\n' (by simp) chars
    simpa using ne_of_mem_of_not_mem hc h
  obtain ⟨first, rest, hchars⟩ : ∃ first rest, chars.splitOn '\n' = first :: rest :=
    List.exists_cons_of_ne_nil (List.splitOnP_ne_nil _ chars)
  simp only [readLines, String.toList_ofList, hsplit, hchars, List.getLast?_cons_cons,
    List.dropLast_cons_cons]
  split <;> rfl

private theorem readLines_last {line : List Char} (h : '\n' ∉ line) :
    readLines (String.ofList line) = if line = [] then [] else [line] := by
  have hsplit : line.splitOn '\n' = [line] :=
    List.splitOnP_eq_singleton fun c hc => by simpa using ne_of_mem_of_not_mem hc h
  simp only [readLines, String.toList_ofList, hsplit, List.getLast?_singleton,
    Option.some.injEq, List.dropLast_singleton]

/-! ## The placeholder -/

theorem placeholder_letter : ∀ k < placeholder.toList.length, 0 < k →
    placeholder.toList[k]? ≠ placeholder.toList[0]? := by
  decide +kernel

private theorem placeholder_overlap {front rest : List Char} (hfront : front ≠ [])
    (hstart : placeholder.toList <+: front ++ (placeholder.toList ++ rest)) :
    placeholder.toList <:+: front := by
  by_cases hlength : placeholder.toList.length ≤ front.length
  · exact (List.prefix_of_prefix_length_le hstart (List.prefix_append _ _)
      hlength).isInfix
  · obtain ⟨following, heq⟩ := hstart
    have hletter := congrArg (·[front.length]?) heq
    simp only [List.getElem?_append_left (show front.length < placeholder.toList.length by omega),
      List.getElem?_append_right le_rfl, Nat.sub_self,
      List.getElem?_append_left (show 0 < placeholder.toList.length by omega)] at hletter
    exact absurd hletter
      (placeholder_letter _ (by omega) (List.length_pos_iff.mpr hfront))

section Lines

variable {replacement line front back : List Char}

private theorem replaceInLine_start (h : placeholder.toList <+: line) :
    replacePlaceholderInLine replacement line =
      replacement ++ line.drop placeholder.toList.length := by
  cases line with
  | nil => exact absurd (List.prefix_nil.mp h) (by decide +kernel)
  | cons c line =>
      have hstart := List.isPrefixOf_iff_prefix.mpr h
      rw [replacePlaceholderInLine, if_pos hstart]

theorem replaceInLine_cons {c : Char} (h : ¬placeholder.toList <+: c :: line) :
    replacePlaceholderInLine replacement (c :: line) =
      c :: replacePlaceholderInLine replacement line := by
  rw [replacePlaceholderInLine, if_neg (mt List.isPrefixOf_iff_prefix.mp h)]

theorem replaceInLine_without (h : ¬placeholder.toList <:+: line) :
    replacePlaceholderInLine replacement line = line := by
  induction line with
  | nil => rfl
  | cons c line ih =>
      rw [replaceInLine_cons fun hstart => h hstart.isInfix,
        ih fun hinside => h (List.infix_cons hinside)]

theorem replaceInLine_placeholder (h : ¬placeholder.toList <:+: front) :
    replacePlaceholderInLine replacement (front ++ (placeholder.toList ++ back)) =
      front ++ (replacement ++ back) := by
  induction front with
  | nil =>
      rw [List.nil_append, replaceInLine_start (List.prefix_append _ _), List.drop_left]
      rfl
  | cons c front ih =>
      have hstart : ¬placeholder.toList <+: c :: (front ++ (placeholder.toList ++ back)) :=
        fun hstart => h (placeholder_overlap (List.cons_ne_nil c front) hstart)
      rw [List.cons_append, replaceInLine_cons hstart,
        ih fun hinside => h (List.infix_cons hinside)]
      rfl

end Lines

/-! ## Texts -/

def replaceInLines (replacement chars : List Char) : List Char :=
  (readLines (String.ofList chars)).flatMap fun line =>
    replacePlaceholderInLine replacement line ++ ['\n']

def lineFeed (chars : List Char) : List Char := if chars.getLast? = some '\n' then [] else ['\n']

section Texts

variable {replacement line chars front back : List Char}

theorem replaceInLines_line (h : '\n' ∉ line) :
    replaceInLines replacement (putLine line ++ chars) =
      putLine (replacePlaceholderInLine replacement line) ++ replaceInLines replacement chars := by
  rw [replaceInLines, readLines_line h, List.flatMap_cons]
  rfl

theorem replaceInLines_last (h : '\n' ∉ line) (hne : line ≠ []) :
    replaceInLines replacement line = putLine (replacePlaceholderInLine replacement line) := by
  rw [replaceInLines, readLines_last h, if_neg hne, List.flatMap_singleton]
  rfl

theorem lineFeed_of_notMem (h : '\n' ∉ chars) : lineFeed chars = ['\n'] :=
  if_neg fun hlast => h (List.mem_of_getLast? hlast)

theorem lineFeed_append (hne : back ≠ []) : lineFeed (front ++ back) = lineFeed back := by
  rw [lineFeed, lineFeed, List.getLast?_append_of_ne_nil front hne]

theorem without_line (h : ¬placeholder.toList <:+: putLine line ++ chars) :
    ¬placeholder.toList <:+: line ∧ ¬placeholder.toList <:+: chars :=
  ⟨fun hinside =>
    h (hinside.trans ((List.prefix_append _ _).trans (List.prefix_append _ _)).isInfix),
    fun hinside => h (hinside.trans (List.suffix_append _ _).isInfix)⟩

private theorem replaceInLines_without (h : ¬placeholder.toList <:+: chars) :
    replaceInLines replacement chars = chars ++ lineFeed ('\n' :: chars) := by
  induction chars using lines_induction with
  | last line hline =>
      by_cases hne : line = []
      · subst hne
        rfl
      · have hfeed : lineFeed (['\n'] ++ line) = lineFeed line := lineFeed_append hne
        rw [replaceInLines_last hline hne, replaceInLine_without h, ← List.singleton_append, hfeed,
          lineFeed_of_notMem hline]
        rfl
  | line line chars hline ih =>
      obtain ⟨hlineWithout, hcharsWithout⟩ := without_line h
      have hfeed : '\n' :: (putLine line ++ chars) = ('\n' :: line) ++ ('\n' :: chars) := by
        simp [putLine]
      rw [replaceInLines_line hline, replaceInLine_without hlineWithout, ih hcharsWithout, hfeed,
        lineFeed_append (List.cons_ne_nil _ _), List.append_assoc]

theorem placeholder_line : '\n' ∉ placeholder.toList := by
  decide +kernel

private theorem replaceInLines_placeholder (hfront : ¬placeholder.toList <:+: front)
    (hback : ¬placeholder.toList <:+: back) :
    replaceInLines replacement (front ++ (placeholder.toList ++ back)) =
      front ++ (replacement ++ (back ++ lineFeed back)) := by
  induction front using lines_induction with
  | last front hfrontLine =>
      by_cases hfeed : '\n' ∈ back
      · obtain ⟨line, rest, rfl, hline⟩ := List.eq_append_cons_of_mem hfeed
        have hrest : ¬placeholder.toList <:+: rest := fun hinside =>
          hback (hinside.trans ((List.suffix_cons _ _).trans (List.suffix_append _ _)).isInfix)
        have hwhole : '\n' ∉ front ++ (placeholder.toList ++ line) := by
          simp [hfrontLine, hline, placeholder_line]
        have hlines : front ++ (placeholder.toList ++ (line ++ '\n' :: rest)) =
            putLine (front ++ (placeholder.toList ++ line)) ++ rest := by
          simp [putLine]
        rw [hlines, replaceInLines_line hwhole, replaceInLine_placeholder hfront,
          replaceInLines_without hrest, lineFeed_append (List.cons_ne_nil _ _)]
        simp [putLine]
      · have hwhole : '\n' ∉ front ++ (placeholder.toList ++ back) := by
          simp [hfrontLine, hfeed, placeholder_line]
        have hne : front ++ (placeholder.toList ++ back) ≠ [] := fun heq =>
          absurd (List.append_eq_nil_iff.mp (List.append_eq_nil_iff.mp heq).2).1
            (by decide +kernel)
        rw [replaceInLines_last hwhole hne, replaceInLine_placeholder hfront,
          lineFeed_of_notMem hfeed]
        simp [putLine]
  | line line front hline ih =>
      obtain ⟨hlineWithout, hfrontWithout⟩ := without_line hfront
      rw [List.append_assoc, replaceInLines_line hline, replaceInLine_without hlineWithout,
        ih hfrontWithout, List.append_assoc]

end Texts

/-! ## Files with the placeholder -/

/-- A file in which the placeholder stands once, as an operand of a condition. -/
structure PlaceholderFile where
  before : String
  front : List Symbol
  back : List Symbol
  after : String
  condition : CTree
  reads : readText (front ++ (operand placeholder ++ back)) = some condition
  delimited : Delimited back
  once : ¬placeholder.toList <:+: (before ++ spell front).toList
  last : ¬placeholder.toList <:+: (spell back ++ after).toList

theorem infix_spell {text : String} {symbols : List Symbol} (h : .operand text ∈ symbols) :
    text.toList <:+: (spell symbols).toList := by
  obtain ⟨first, rest, rfl⟩ := List.append_of_mem h
  refine ⟨(spell first).toList, (spell rest).toList, ?_⟩
  simp [spell_append, spell, Symbol.text]

namespace PlaceholderFile

variable (file : PlaceholderFile)

def text (piece : List Symbol) : String :=
  file.before ++ spell (file.front ++ (piece ++ file.back)) ++ file.after

def ending : String := String.ofList (lineFeed (spell file.back ++ file.after).toList)

private theorem replacePlaceholder_text (piece : List Symbol) :
    replacePlaceholder (spell piece) (file.text (operand placeholder)) =
      file.text piece ++ file.ending := by
  have hchars : (file.text (operand placeholder)).toList =
      (file.before ++ spell file.front).toList ++
        (placeholder.toList ++ (spell file.back ++ file.after).toList) := by
    simp [text, spell_append, spell_operand]
  have hreplaced : replaceInLines (spell piece).toList _ = _ :=
    replaceInLines_placeholder file.once file.last
  rw [← hchars, replaceInLines, String.ofList_toList] at hreplaced
  rw [replacePlaceholder, hreplaced, ← String.toList_inj]
  simp [text, ending, spell_append]

private theorem readText_text {piece : List Symbol} {tree : CTree}
    (hpiece : ReadsAs ParsesUnary piece tree) :
    readText (file.front ++ (piece ++ file.back)) =
      some (file.condition.substitute placeholder tree) := by
  refine readText_substitute (by decide +kernel) file.reads file.delimited (fun hmem => ?_)
    (fun hmem => ?_) hpiece
  · refine file.once ((infix_spell hmem).trans ?_)
    rw [String.toList_append]
    exact (List.suffix_append _ _).isInfix
  · refine file.last ((infix_spell hmem).trans ?_)
    rw [String.toList_append]
    exact (List.prefix_append _ _).isInfix

end PlaceholderFile

/--
In a whole run, a file with a patch differs from the one with the placeholder in
the text of the patch and at most a last line feed.  Its condition is read as
the tree of the condition with the tree of the patch, whatever the operators are,
and has the value that the condition has with the value of the patch.
-/
theorem applications_substitute (cfg : Config) {ω : Type} {tools : Toolchain ω}
    {args : Arguments} {rewrite : String → Location → String → String}
    (htools : Rewrites tools rewrite) (hids : LocatesById tools args) (fuel : Nat)
    (sources : List ProjectFile) {ws after : Workspace ω} {result : RepairResult}
    (htemplates : ws.templates = fun _ => none) (hcalls : ws.calls = [])
    (hrun : (main cfg tools args fuel sources).run ws = some (result, after))
    {patch : Patch} {files : List ProjectFile} {before applied : Disk}
    (hrecord : .applyPatch patch files before applied ∈ after.calls)
    (hprintable : patch.modified.Printable) (template : PlaceholderFile)
    (htemplate : ∀ file content, after.files[patch.app.location.fileId]? = some file →
      ws.disk file.relpath = some content →
        rewrite file.relpath patch.app.location content =
          template.text (operand placeholder)) :
    ∃ file piece tree, after.files[patch.app.location.fileId]? = some file ∧
      expressionToString patch.modified = .ok (spell piece) ∧
      applied file.relpath = some (template.text piece ++ template.ending) ∧
      readText (template.front ++ (piece ++ template.back)) = some tree ∧
      tree = template.condition.substitute placeholder patch.modified.printedTree ∧
      ∀ {V : Type} (machine : CMachine V) (valuation : Valuation V) (read : String → V),
        (∀ value, machine.unary .plain value = some value) →
        OperandValues machine valuation read patch.modified →
        ∀ value raised, evaluate machine valuation patch.modified = some (value, raised) →
          ∀ flag, tree.eval machine flag read =
            template.condition.eval machine flag (Function.update read placeholder value) := by
  obtain ⟨rfl, file, content, replacement, hfile, hcontent, hreplacement, happlied⟩ :=
    main_applied cfg htools hids fuel sources ws ⟨rfl, htemplates, hcalls⟩ result after hrun
      patch files before applied hrecord
  obtain ⟨piece, hpiece, hreads⟩ := hprintable.readsAs_printedTree
  have hspell : expressionToString patch.modified = .ok (spell piece) := by
    rw [expressionToString_eq, hpiece]
    rfl
  obtain rfl := Except.ok.inj (hreplacement.symm.trans hspell)
  refine ⟨file, piece, _, hfile, hspell, ?_, template.readText_text hreads, rfl, ?_⟩
  · rw [happlied file (List.mem_of_getElem? hfile), if_pos rfl,
      htemplate file content hfile hcontent, template.replacePlaceholder_text]
  · intro V machine valuation read hplain hvalues value raised heval flag
    obtain ⟨-, htree⟩ := hvalues.reproduces hplain flag value raised heval
    exact CTree.eval_substitute htree template.condition

/-! ## A patch on one side of a comparison -/

def comparedText (_ : String) (_ : Location) (_ : String) : String :=
  "return (y == " ++ placeholder ++ ");\n"

def comparedTools : Toolchain Unit :=
  { onePatchTools with
    transform := fun command disk world =>
      match command with
      | .instrument file _ _ _ =>
          (true, Function.update disk file.relpath (some "instrumented\n"), world)
      | .apply relpath location =>
          (true, Function.update disk relpath (some (comparedText relpath location "")), world) }

def comparedWorkspace : Workspace Unit :=
  { onePatchWorkspace with
    disk := fun path => if path = "main.c" then some "return (y == x);\n" else none }

private theorem comparedTools_rewrites : Rewrites comparedTools comparedText where
  transform _ _ _ _ _ _ := rfl
  patch _ _ _ _ := rfl

def comparedFile : PlaceholderFile where
  before := "return "
  front := chars "(" ++ (operand "y" ++ chars " == ")
  back := chars ")"
  after := ";\n"
  condition := .binary .eq (.operand "y") (.operand placeholder)
  reads := by decide +kernel
  delimited := .inr (.inl rfl)
  once := by decide +kernel
  last := by decide +kernel

theorem applications_substitute_compared :
    ∃ result after, (main validatedConfig comparedTools onePatchArguments 100 []).run
        comparedWorkspace = some (result, after) ∧
      ∃ patch files before applied, .applyPatch patch files before applied ∈ after.calls ∧
        ∃ (file : ProjectFile) (piece : List Symbol),
          expressionToString patch.modified = .ok (spell piece) ∧
          applied file.relpath = some (comparedFile.text piece ++ comparedFile.ending) ∧
          readText (comparedFile.front ++ (piece ++ comparedFile.back)) =
            some (.binary .eq (.operand "y") (.operand "0")) ∧
          ∀ read : String → Int, read "0" = 0 →
            (CTree.binary .eq (.operand "y") (.operand "0")).eval (integers fun _ _ => 0)
                "current_panic" read =
              comparedFile.condition.eval (integers fun _ _ => 0) "current_panic"
                (Function.update read placeholder 0) := by
  have hsome : ((main validatedConfig comparedTools onePatchArguments 100 []).run
      comparedWorkspace).any (fun run => run.2.calls.any fun call =>
        match call with
        | .applyPatch patch _ _ _ => patch.modified = makeIntegerConst 0
        | _ => false) = true := by
    decide +kernel
  obtain ⟨⟨result, after⟩, hrun, hany⟩ := (Option.any_eq_true _ _).mp hsome
  obtain ⟨call, hcall, hmatch⟩ := List.any_eq_true.mp hany
  cases call with
  | applyPatch patch files before applied =>
      have hmodified : patch.modified = makeIntegerConst 0 := of_decide_eq_true hmatch
      have hprintable : patch.modified.Printable := by
        rw [hmodified]
        exact .leaf _ _ _ (by decide)
      have htext : "return (y == " ++ placeholder ++ ");\n" =
          comparedFile.text (operand placeholder) := by
        decide +kernel
      obtain ⟨file, piece, tree, -, hspell, happlied, hread, htree, hvalue⟩ :=
        applications_substitute validatedConfig comparedTools_rewrites
          (onePatchTools_locatesById onePatchArguments) 100 [] rfl rfl hrun hcall hprintable
          comparedFile fun _ _ _ _ => htext
      have hequal : tree = .binary .eq (.operand "y") (.operand "0") := by
        rw [htree, hmodified]
        decide +kernel
      subst hequal
      refine ⟨result, after, hrun, patch, files, before, applied, hcall, file, piece, hspell,
        happlied, hread, fun read hzero => ?_⟩
      refine hvalue (integers fun _ _ => 0) ⟨read, fun _ => false, fun _ => 1⟩ read
        (fun _ => rfl) ?_ 0 false ?_ "current_panic"
      · rw [hmodified]
        exact .constant _ hzero
      · rw [hmodified]
        rfl
  | _ => cases hmatch

end F1X.Repair
