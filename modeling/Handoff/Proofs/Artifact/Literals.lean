import Handoff.React.Literal
import Handoff.Proofs.Roblox.Wordless

set_option autoImplicit false
set_option relaxedAutoImplicit false

/-!
Literals stand for the texts that they were made of, in components and in scripts.

So the words of a design stay out of the code of its script: they neither end a line nor a literal.
-/

namespace Handoff
open Text (luau ecmaScript literalsOf codeOf)
open Roblox (OneLine nodeLiterals)

private theorem spells_reactLiteral (s : String) : ecmaScript.Spells (React.literal s).toList [.literal s] := by
  have form : React.literal s = Text.quoted ecmaScript.quote s := rfl
  rw [form]
  exact Text.spells_quoted Text.unquotes_ecmaScript s

/-- What literals stand for. Each one that is made of a text, for a script or for a component, is read as that text up
to its last character, whatever follows, and has no end of a line in it. So each line that a design's script is made of
is one line of its text, and a scan of the text finds these literals in order: what the player's screens are found
with, the name of the screen, and for each node its name or else its id, and its text or its source. The rest of the
script is the code that the design has without any of these words. -/
theorem literals_decode :
    (∀ s, luau.Spells (Roblox.literal s).toList [.literal s] ∧ OneLine (Roblox.literal s)) ∧
    (∀ s, ecmaScript.Spells (React.literal s).toList [.literal s] ∧ OneLine (React.literal s)) ∧
    ∀ (options : Roblox.Options) (units : Roblox.Units) (tree : Design.Tree),
      Text.lines (Roblox.generate options units tree) =
        (Roblox.scriptOf options tree).script.flatMap (Roblox.Chunk.lines units) ++ [""] ∧
      (∀ line ∈ Text.lines (Roblox.generate options units tree), OneLine line) ∧
      ∃ pieces wordless,
        luau.scan .code (Roblox.generate options units tree).toList = some pieces ∧
        luau.scan .code (Roblox.generate options.wordless units tree.wordless).toList = some wordless ∧
        literalsOf pieces =
          ["Players", "PlayerGui", "ScreenGui", options.guiName] ++ tree.root.preorder.flatMap nodeLiterals ∧
        codeOf pieces = codeOf wordless := by
  refine ⟨fun s => ⟨Roblox.spells_literal s, Text.oneLine_quoted (by decide) (by decide) s⟩,
    fun s => ⟨spells_reactLiteral s, Text.oneLine_quoted (by decide) (by decide) s⟩, fun options units tree => ?_⟩
  have plain := Roblox.plain_scriptOf options tree
  have lines := Roblox.lines_print units plain
  refine ⟨lines, ?_, _, _, Roblox.scan_print units plain,
    Roblox.scan_print units (Roblox.plain_scriptOf options.wordless tree.wordless), ?_, ?_⟩
  · rw [Roblox.generate, lines]
    exact List.forall_mem_append.mpr ⟨Roblox.oneLine_script units plain, List.forall_mem_singleton.mpr (by decide)⟩
  · rw [Roblox.literalsOf_scriptPieces, Roblox.literals_scriptOf]
  · rw [Roblox.scriptOf_wordless, Roblox.codeOf_scriptPieces_wordless]

end Handoff
