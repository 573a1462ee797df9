import Handoff.Proofs.Json.RoundTrip
import Handoff.Proofs.React.Module
import Handoff.React.Project

set_option autoImplicit false
set_option relaxedAutoImplicit false

/-!
The files of a project go together.

The main file exports what the component's file does, by the path of that file, and the description of the project is
JSON that names the main file. The name of the component stands in all of them, and not with every name can they be
loaded.
-/

namespace Handoff.React
open Design

section Templates

/-- The template of the main file, cut at its values. -/
def barrelPieces : List Template.Piece :=
  [.text "export \x7b ", .value ["name"], .text " \x7d from './", .value ["name"],
    .text "';\nexport \x7b default \x7d from './", .value ["name"], .text "';\n"]

/-- The template of the description: a name spelled anew, an ending, and what only typed projects have. -/
def packagePieces : List Template.Piece :=
  [.text "\x7b\n  \"name\": \"", .call ⟨"kebab_case", ⟨[.path ["name"]], []⟩⟩ [] [],
    .text "\",\n  \"version\": \"0.1.0\",\n  \"private\": true,\n  \"main\": \"src/index.", .value ["index_ext"],
    .text "\",\n  \"peerDependencies\": \x7b\n    \"react\": \">=18\"\n  \x7d",
    .call ⟨"if", ⟨[.path ["typed"]], []⟩⟩
      [.text (",\n  \"devDependencies\": \x7b\n    \"@types/react\": \"^18.0.0\",\n"
        ++ "    \"typescript\": \"^5.0.0\"\n  \x7d")] [],
    .text "\n\x7d\n"]

set_option maxRecDepth 4000 in
private theorem parse_barrelTemplate : Template.parse barrelTemplate = some barrelPieces := by
  rw [Template.parse, barrelTemplate]
  -- The lines are taken apart one by one: a long text is slow to be taken apart as a whole.
  simp only [Text.toList_unlines_cons, String.reduceToList, List.cons_append, List.nil_append]
  rfl

set_option maxRecDepth 4000 in
private theorem parse_packageTemplate : Template.parse packageTemplate = some packagePieces := by
  rw [Template.parse, packageTemplate]
  simp only [Text.toList_unlines_cons, String.reduceToList, List.cons_append, List.nil_append]
  rfl

private theorem templates_eq : templates = some ⟨[("index", barrelPieces), ("package", packagePieces)]⟩ := by
  rw [templates, TemplateSet.add, parse_barrelTemplate]
  simp [TemplateSet.add, parse_packageTemplate, Entries.put]

end Templates

section Rendering

variable {data : Json} {key : String}

private theorem render_text (s : String) : Template.Piece.render data (.text s) = some s := by
  rw [Template.Piece.render]

private theorem render_value {s : String} (found : Template.find? [key] data = some (some (.string s))) :
    Template.Piece.render data (.value [key]) = some s := by
  simp [Template.Piece.render, found, Template.shown]

private theorem values?_path {v : Json} (found : Template.find? [key] data = some (some v)) :
    (⟨[.path [key]], []⟩ : Template.Given).values? data = some ⟨[v], []⟩ := by
  simp [Template.Given.values?, Template.Argument.value?, found]

private theorem render_kebab {s : String} (found : Template.find? [key] data = some (some (.string s))) :
    Template.Piece.render data (.call ⟨"kebab_case", ⟨[.path [key]], []⟩⟩ [] []) = some (Text.Words.kebab s) := by
  have helper : Template.Helper.named? "kebab_case" = some (.respell .kebab) := by decide
  rw [Template.Piece.render, values?_path found]
  simp only [helper, Template.Spelling.apply, Template.Values.text, List.head?_cons, Option.bind_some, Json.string?,
    Option.getD_some]

private theorem render_if {b : Bool} (found : Template.find? [key] data = some (some (.bool b)))
    (main : List Template.Piece) :
    Template.Piece.render data (.call ⟨"if", ⟨[.path [key]], []⟩⟩ main []) =
      if b then Template.renderAll data main else some "" := by
  have helper : Template.Helper.named? "if" = some (.choose true) := by decide
  rw [Template.Piece.render, values?_path found]
  simp only [helper, Template.Values.truth?, List.head?_cons, Option.map_some, Template.isTrue, Template.renderAll]

private theorem find?_templateData (options : Options) :
    Template.find? ["name"] (templateData options) = some (some (.string (componentName options.componentName))) ∧
    Template.find? ["index_ext"] (templateData options) = some (some (.string (barrelExtension options))) ∧
    Template.find? ["typed"] (templateData options) = some (some (.bool options.typed)) := by
  simp [Template.find?, templateData, Entries.get?, List.lookup]

end Rendering

section Barrel

/-- The line of the main file that exports a name of a component's module. -/
private def barrelLine (exported name : String) : String :=
  "export \x7b " ++ exported ++ " \x7d from './" ++ name ++ "';"

private def barrelLines (name : String) : List String :=
  [barrelLine name name, barrelLine "default" name]

private theorem render_barrel (options : Options) : Template.renderAll (templateData options) barrelPieces =
    some (Text.unlines (barrelLines (componentName options.componentName))) := by
  have name := (find?_templateData options).1
  simp only [barrelPieces, Template.renderAll, render_text, render_value name]
  refine congrArg some (String.toList_injective ?_)
  simp [barrelLines, barrelLine, Text.unlines, String.toList_append]

variable {exported name : String}

private theorem onLine_barrelLine (binding : Jsx.isName exported.toList = true) (plain : '\'' ∉ name.toList) :
    Item.onLine (barrelLine exported name) = some (some (.again exported ("./" ++ name))) := by
  have form : (barrelLine exported name).toList = "export ".toList ++ ("\x7b ".toList ++ (exported.toList ++
      (" \x7d".toList ++ (" from '".toList ++ (("./" ++ name).toList ++ ['\'', ';']))))) := by
    simp [barrelLine, String.toList_append]
  have path : '\'' ∉ ("./" ++ name).toList := by
    simp [String.toList_append, plain]
  rw [Item.onLine_export form, Item.readExport_again binding path]

private theorem whole_barrelLine (first : Item.Whole exported) (second : Item.Whole name) :
    Item.Whole (barrelLine exported name) :=
  Item.whole_append (Item.whole_append (Item.whole_append (Item.whole_append (by decide) first) (by decide)) second)
    (by decide)

private theorem ofModule?_barrel (named : Jsx.isName name.toList = true) :
    Item.ofModule? (Text.unlines (barrelLines name)) =
      some [.again name ("./" ++ name), .again "default" ("./" ++ name)] := by
  have letters : ∀ c ∈ name.toList, Jsx.isNameChar c = true := List.all_eq_true.mp (Bool.and_eq_true_iff.mp named).1
  have noBreak : '\n' ∉ name.toList := fun member => absurd (letters _ member) (by decide)
  have noQuote : '\'' ∉ name.toList := fun member => absurd (letters _ member) (by decide)
  have oneLine : ∀ line ∈ barrelLines name, '\n' ∉ line.toList := by
    simp [barrelLines, barrelLine, String.toList_append, noBreak]
  have whole : ∀ line ∈ barrelLines name ++ [""], Item.Whole line := by
    have inner := Item.whole_of_isName named
    simp only [barrelLines, List.cons_append, List.nil_append, List.forall_mem_cons]
    exact ⟨whole_barrelLine inner inner, whole_barrelLine (by decide) inner, by decide⟩
  rw [Item.ofModule?, Text.lines_unlines oneLine, Item.flatMap_cut whole, barrelLines, List.cons_append,
    List.cons_append, Item.inLines?_cons (onLine_barrelLine named noQuote),
    Item.inLines?_cons (onLine_barrelLine (by decide) noQuote)]
  rfl

end Barrel

section Package

/-- What is needed to check the types of a project. -/
def typeTools : Json :=
  .object [("@types/react", .string "^18.0.0"), ("typescript", .string "^5.0.0")]

/-- What describes a project by its name and its main file. -/
def packageMembers (slug main : String) (typed : Bool) : Members :=
  let always : Members := [("name", .string slug), ("version", .string "0.1.0"), ("private", .bool true),
    ("main", .string main), ("peerDependencies", .object [("react", .string ">=18")])]
  if typed then always ++ [("devDependencies", typeTools)] else always

private def isUnescaped (c : Char) : Bool :=
  Nat.ble 0x20 c.toNat && c != '"' && c != '\\'

private theorem codeChars_of_isUnescaped {c : Char} (plain : isUnescaped c = true) :
    Written.codeChars c.toNat = [c] := by
  simp only [isUnescaped, Bool.and_eq_true, Nat.ble_eq, bne_iff_ne, ne_eq] at plain
  obtain ⟨⟨above, quote⟩, slash⟩ := plain
  have quote : c.toNat ≠ 0x22 := fun same => quote (Char.toNat_inj.mp same)
  have slash : c.toNat ≠ 0x5C := fun same => slash (Char.toNat_inj.mp same)
  unfold Written.codeChars
  rw [if_neg quote, if_neg slash, if_neg (by omega), if_neg (by omega), if_neg (by omega), if_neg (by omega),
    if_neg (by omega), if_neg, Char.ofNat_toNat]
  rintro (control | high | low)
  · omega
  · exact absurd ((Written.not_half c).1.symm.trans high) (by decide)
  · exact absurd ((Written.not_half c).2.symm.trans low) (by decide)

private def Unescaped (s : String) : Prop :=
  s.toList.all isUnescaped = true

private instance (s : String) : Decidable (Unescaped s) :=
  inferInstanceAs (Decidable (_ = true))

private theorem textChars_plain {s : String} (plain : Unescaped s) :
    Written.textChars (Written.codesOf s) = '"' :: (s.toList ++ ['"']) := by
  have same : ∀ c ∈ s.toList, Written.codeChars c.toNat = [c] :=
    fun c member => codeChars_of_isUnescaped (List.all_eq_true.mp plain c member)
  have chars : (Written.codesOf s).flatMap Written.codeChars = s.toList := by
    rw [Written.codesOf, List.flatMap_map, List.flatMap_congr same, List.flatMap_singleton']
  rw [Written.textChars, chars, List.cons_append]

set_option maxRecDepth 4000 in
private theorem render_package (options : Options) {slug : String}
    (form : Text.Words.kebab (componentName options.componentName) = slug) (plain : Unescaped slug) :
    Template.renderAll (templateData options) packagePieces =
      some ((Json.object (packageMembers slug (barrelPath options) options.typed)).pretty ++ "\n") := by
  have gap : Written.Spacing.pretty.gap = [' '] := rfl
  have outer : Written.Spacing.pretty.line 0 = ['\n'] := rfl
  have inner : Written.Spacing.pretty.line (0 + 1) = ['\n', ' ', ' '] := rfl
  have innermost : Written.Spacing.pretty.line (0 + 1 + 1) = ['\n', ' ', ' ', ' ', ' '] := rfl
  obtain ⟨name, extension, ofTypes⟩ := find?_templateData options
  simp only [packagePieces, Template.renderAll, render_text, render_kebab name, render_value extension,
    render_if ofTypes, form]
  -- Both texts are taken apart into characters, up to the name and from it on.
  cases typed : options.typed
  all_goals
    simp only [if_true, if_false, Bool.false_eq_true]
    refine congrArg some (String.toList_injective ?_)
    simp (disch := first | assumption | decide) only [packageMembers, typeTools, Json.pretty, Json.print, Json.written,
      Json.writtenMembers, Written.chars, Written.memberChars, textChars_plain, gap, outer, inner, innermost, barrelPath,
      barrelExtension, typed, if_true, if_false, Bool.false_eq_true, String.toList_append, String.toList_ofList,
      String.reduceToList, List.cons_append, List.nil_append, List.append_nil, List.append_assoc]

private theorem parse_package (slug main : String) (typed : Bool) :
    Json.parse ((Json.object (packageMembers slug main typed)).pretty ++ "\n") =
      some (.object (packageMembers slug main typed)) := by
  have sound : (Json.object (packageMembers slug main typed)).Sound := by
    cases typed <;> simp [packageMembers, typeTools, Json.Sound, Json.SoundMembers]
  have shallow : (Json.object (packageMembers slug main typed)).depth ≤ Written.depthLimit := by
    cases typed <;> simp [packageMembers, typeTools, Json.depth, Json.depthMembers, Written.depthLimit]
  have blank : Written.Blank "\n".toList := by simp [Written.Blank, Written.isSpace]
  exact Json.parse_print_append Written.Spacing.fine_pretty sound shallow blank

private theorem slug_letters (configured : String) :
    ∀ c ∈ (Text.Words.kebab (componentName configured)).toList, c.isLower = true ∨ c.isDigit = true ∨ c = '-' := by
  refine Text.Words.kebab_ascii fun c member => ?_
  have letter := isNameChar_componentName configured c member
  rw [isNameChar, Bool.or_eq_true, beq_iff_eq] at letter
  exact letter.imp_right fun underscore => by rw [underscore]; rfl

private theorem unescaped_of_letters {s : String}
    (letters : ∀ c ∈ s.toList, c.isLower = true ∨ c.isDigit = true ∨ c = '-') : Unescaped s := by
  refine List.all_eq_true.mpr fun c member => ?_
  have above : 0x20 ≤ c.toNat := by
    rcases letters c member with small | digit | rfl
    · have := Text.toNat_of_isAlphanum (c := c) (by simp [Char.isAlphanum, Char.isAlpha, small])
      omega
    · have := Text.toNat_of_isAlphanum (c := c) (by simp [Char.isAlphanum, digit])
      omega
    · decide
  have quote : c ≠ '"' := by
    rintro rfl
    exact absurd (letters _ member) (by decide)
  have slash : c ≠ '\\' := by
    rintro rfl
    exact absurd (letters _ member) (by decide)
  simp [isUnescaped, above, quote, slash]

end Package

section Names

/-- The names with which the files of a project do not go together: those of the library and of the main file, and the
words of the language. -/
def unfitNames : List String :=
  ["React", "index"] ++ reservedWords

private theorem componentName_mem_unfitNames (configured : String) :
    componentName configured ∈ unfitNames ↔ String.ofList (nameCharacters configured) ∈ unfitNames := by
  have noDigit : ∀ name ∈ unfitNames, name.toList.head?.any Char.isDigit = false := by decide
  have default : defaultName ∉ unfitNames := by decide
  rw [nameCharacters, componentName]
  split
  · rename_i none
    rw [none]
    exact iff_of_false default (by decide)
  · rename_i first rest form
    rw [form]
    cases digit : first.isDigit with
    | true =>
      refine iff_of_false (by simpa using default) fun member => ?_
      have apart := noDigit _ member
      rw [String.toList_ofList, List.head?_cons, Option.any_some, digit] at apart
      cases apart
    | false => rfl

end Names

/-- The files of a project, by their paths and by what they say of each other: the main file exports the name and a
default by the path of the component's file, and the description is JSON that has the main file, a name that a package
can have, and the tools for types just where there are some. -/
structure Scaffolded (name : String) (typed : Bool) (component main package : File) : Prop where
  component_path : component.path = "src/" ++ name ++ (if typed then ".tsx" else ".jsx")
  main_path : main.path = "src/index" ++ (if typed then ".ts" else ".js")
  main_items : Item.ofModule? main.content = some [.again name ("./" ++ name), .again "default" ("./" ++ name)]
  package_path : package.path = "package.json"
  package_json : ∃ members slug, Json.parse package.content = some (.object members) ∧
    Entries.get? members "main" = some (.string main.path) ∧
    Entries.get? members "name" = some (.string slug) ∧
    (∀ c ∈ slug.toList, c.isLower = true ∨ c.isDigit = true ∨ c = '-') ∧
    Entries.has members "devDependencies" = typed

/-- The endings that a path in a module leaves out. -/
def moduleEndings : List String :=
  [".ts", ".tsx", ".js", ".jsx"]

/-- What the main file exports is there: the component's file can be loaded and exports the name and a default, the main
file can be loaded, and its path to the component's file does not lead back to itself. -/
structure GoTogether (name : String) (component main : File) : Prop where
  component_items : Item.ofComponent? component.content =
    some [.imported "React" "react", .declared name, .default name]
  component_loads : Item.Loads [.imported "React" "react", .declared name, .default name]
  main_loads : Item.Loads [.again name ("./" ++ name), .again "default" ("./" ++ name)]
  main_apart : ∀ ending ∈ moduleEndings, main.path ≠ "src/" ++ name ++ ending

section Files

variable (options : Options) (tree : Tree)

private theorem exists_project :
    ∃ component main package, project options tree = some [component, main, package] ∧
      component.content = generate options tree ∧
      Scaffolded (componentName options.componentName) options.typed component main package := by
  let name := componentName options.componentName
  let slug := Text.Words.kebab name
  have letters := slug_letters options.componentName
  have files : project options tree = some [⟨componentPath options, generate options tree⟩,
      ⟨barrelPath options, Text.unlines (barrelLines name)⟩,
      ⟨"package.json", (Json.object (packageMembers slug (barrelPath options) options.typed)).pretty ++ "\n"⟩] := by
    simp [project, templates_eq, TemplateSet.render, Entries.get?, List.lookup, render_barrel,
      render_package options rfl (unescaped_of_letters letters), name, slug]
  refine ⟨_, _, _, files, rfl, ?_, ?_, ofModule?_barrel (Item.isName_componentName options.componentName), rfl,
    packageMembers slug (barrelPath options) options.typed, slug, parse_package _ _ _, ?_, ?_, letters, ?_⟩
  all_goals cases typed : options.typed
  all_goals
    simp [componentPath, Options.extension, barrelPath, barrelExtension, packageMembers, Entries.get?, Entries.has,
      List.lookup, typed, String.append_assoc]

private theorem takeRun_ending {name ending : String} (letters : ∀ c ∈ name.toList, isNameChar c = true)
    (known : ending ∈ moduleEndings) : Text.takeRun isNameChar (name ++ ending).toList = (name, ending.toList) := by
  have dot : ∀ ending ∈ moduleEndings, ending.toList.head? = some '.' := by decide
  have stop : ∀ c ∈ ending.toList.head?, isNameChar c = false := by
    rw [dot ending known]
    simp only [Option.mem_some_iff, forall_eq']
    decide
  rw [String.toList_append, Text.takeRun_append letters stop, String.ofList_toList]

private theorem eq_index_of_path {name ending : String} {typed : Bool} (letters : ∀ c ∈ name.toList, isNameChar c = true)
    (known : ending ∈ moduleEndings) (same : "src/index" ++ (if typed then ".ts" else ".js") = "src/" ++ name ++ ending) :
    name = "index" := by
  have own : (if typed then ".ts" else ".js") ∈ moduleEndings := by cases typed <;> decide
  have index : ∀ c ∈ "index".toList, isNameChar c = true := List.all_eq_true.mp rfl
  have behind : "index" ++ (if typed then ".ts" else ".js") = name ++ ending := by
    rw [show "src/index" = "src/" ++ "index" by decide, String.append_assoc, String.append_assoc] at same
    exact String.toList_injective (List.append_cancel_left
      (String.toList_append.symm.trans ((congrArg String.toList same).trans String.toList_append)))
  have runs := congrArg (fun path => (Text.takeRun isNameChar path.toList).1) behind
  simp only [takeRun_ending index own, takeRun_ending letters known] at runs
  exact runs.symm

variable {options tree} {component main package : File}

private theorem fit_of_goTogether (content : component.content = generate options tree)
    (built : Scaffolded (componentName options.componentName) options.typed component main package)
    (together : GoTogether (componentName options.componentName) component main) :
    componentName options.componentName ∉ unfitNames := by
  intro unfit
  rcases List.mem_append.mp unfit with special | reserved
  · rcases List.mem_pair.mp special with library | index
    · have bound := together.component_loads.bound
      rw [library] at bound
      exact absurd bound (by decide)
    · have path := built.main_path
      rw [index] at together
      cases typed : options.typed with
      | true => exact together.main_apart ".ts" (by decide) (by rw [path, typed]; rfl)
      | false => exact together.main_apart ".js" (by decide) (by rw [path, typed]; rfl)
  · have items := together.component_items
    rw [content, Item.ofComponent?_reserved reserved] at items
    cases items

private theorem goTogether_of_fit (content : component.content = generate options tree)
    (built : Scaffolded (componentName options.componentName) options.typed component main package)
    (fit : componentName options.componentName ∉ unfitNames) (marks : MarksOneLine options tree) :
    GoTogether (componentName options.componentName) component main := by
  rw [unfitNames, List.mem_append, not_or, List.mem_pair, not_or] at fit
  obtain ⟨⟨library, index⟩, free⟩ := fit
  have default : componentName options.componentName ≠ "default" := fun same => free (same ▸ by decide)
  refine ⟨?_, ⟨?_, ?_, ?_⟩, ⟨?_, ?_, nofun⟩, fun ending known same => ?_⟩
  · rw [content, Item.ofComponent?_generate free marks]
  · simpa [Item.bound] using Ne.symm library
  · simpa [Item.exported] using default
  · simp [Item.bound]
  · simp [Item.bound]
  · simpa [Item.exported] using default
  · exact index (eq_index_of_path (isNameChar_componentName _) known (built.main_path.symm.trans same))

end Files

/-- A project has three files, and the first has the source of the component, whatever the design is, and whatever the
component is to be named. They go together only if what is left of the configured name is no unfit one, and then they do
unless the name of the root ends its comment early. -/
theorem project_goTogether (options : Options) (tree : Tree) :
    ∃ component main package, project options tree = some [component, main, package] ∧
      component.content = generate options tree ∧
      Scaffolded (componentName options.componentName) options.typed component main package ∧
      (GoTogether (componentName options.componentName) component main →
        String.ofList (nameCharacters options.componentName) ∉ unfitNames) ∧
      (String.ofList (nameCharacters options.componentName) ∉ unfitNames → MarksOneLine options tree →
        GoTogether (componentName options.componentName) component main) := by
  obtain ⟨component, main, package, files, content, built⟩ := exists_project options tree
  rw [← componentName_mem_unfitNames]
  exact ⟨component, main, package, files, content, built, fit_of_goTogether content built,
    goTogether_of_fit content built⟩

/-- A capital that is dropped leaves a word of the language: the component's file cannot be loaded. -/
theorem not_goTogether_default :
    let options : Options := { componentName := "!default" }
    let tree : Tree := { root := .container { id := "root" } (.panel .frame {}) [] }
    ∃ component main package, project options tree = some [component, main, package] ∧
      Item.ofComponent? component.content = none ∧ ¬ GoTogether (componentName options.componentName) component main := by
  intro options tree
  obtain ⟨component, main, package, files, content, built⟩ := exists_project options tree
  have name : componentName options.componentName = "default" := by decide +kernel
  have reserved : componentName options.componentName ∈ reservedWords := by rw [name]; decide
  refine ⟨component, main, package, files, ?_, fun together => ?_⟩
  · rw [content, Item.ofComponent?_reserved reserved]
  · exact fit_of_goTogether content built together (List.mem_append_right _ reserved)

end Handoff.React
