import Handoff.React.Component
import Handoff.Template.Render

set_option autoImplicit false
set_option relaxedAutoImplicit false

/-!
The files of a project around a component.
-/

namespace Handoff.React
open Design

structure File where
  path : String
  content : String
  deriving DecidableEq, Repr

def barrelTemplate : String :=
  Text.unlines [
    "export \x7b \x7b\x7bname\x7d\x7d \x7d from './\x7b\x7bname\x7d\x7d';",
    "export \x7b default \x7d from './\x7b\x7bname\x7d\x7d';"]

/-- Describes the project; the types are needed only where there are some. -/
def packageTemplate : String :=
  Text.unlines [
    "\x7b",
    "  \"name\": \"\x7b\x7bkebab_case name\x7d\x7d\",",
    "  \"version\": \"0.1.0\",",
    "  \"private\": true,",
    "  \"main\": \"src/index.\x7b\x7bindex_ext\x7d\x7d\",",
    "  \"peerDependencies\": \x7b",
    "    \"react\": \">=18\"",
    "  \x7d\x7b\x7b#if typed\x7d\x7d,",
    "  \"devDependencies\": \x7b",
    "    \"@types/react\": \"^18.0.0\",",
    "    \"typescript\": \"^5.0.0\"",
    "  \x7d\x7b\x7b/if\x7d\x7d",
    "\x7d"]

def templates : Option TemplateSet :=
  (TemplateSet.add {} "index" barrelTemplate).bind fun set => set.add "package" packageTemplate

def barrelExtension (options : Options) : String :=
  if options.typed then "ts" else "js"

def templateData (options : Options) : Json :=
  .object [("name", .string (componentName options.componentName)),
    ("index_ext", .string (barrelExtension options)), ("typed", .bool options.typed)]

def barrelPath (options : Options) : String :=
  "src/index." ++ barrelExtension options

def componentPath (options : Options) : String :=
  "src/" ++ componentName options.componentName ++ "." ++ options.extension

/-- The component's file, the main file that exports it, and the description of the project. -/
def project (options : Options) (tree : Tree) : Option (List File) := do
  let set ← templates
  let barrel ← set.render "index" (templateData options)
  let package ← set.render "package" (templateData options)
  return [⟨componentPath options, generate options tree⟩, ⟨barrelPath options, barrel⟩,
    ⟨"package.json", package⟩]

end Handoff.React
