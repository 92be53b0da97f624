import Mathlib.Data.List.Forall2
import Observable.Pass.Generator
import Observable.Proofs.Layout.Spelling
import Observable.Proofs.Output.Canonical
/-! The definition of the marker is its own canonical text, but for the line break at its front. -/
namespace Observable

/-- The characters of some lines with line breaks between them. -/
theorem toList_lines {l : List String} {characters : List (List Char)}
    (h : List.Forall₂ (fun line cs => line = String.ofList cs) l characters) :
    ("\n".intercalate l).toList = ['\n'].intercalate characters := by
  rw [String.toList_intercalate, show "\n" = String.ofList ['\n'] from rfl, String.toList_ofList]
  congr 1
  induction h with
  | nil => rfl
  | cons h _ ih => rw [List.map_cons, ih, h, String.toList_ofList]

namespace Output

/-- Whether a text without its first character is the layout of the whole, and can be read. -/
def isLaidOut (text : List Char) : Bool :=
  match Grammar.readSource text with
  | .ok file =>
    (Layout.writeTokens {} { mode := .block, top := true } {} file.tokens).written ++ ['\n']
      = text.drop 1 && (Grammar.readSource (text.drop 1)).toBool
  | .error _ => false

theorem canonical_of_isLaidOut {key text : String} (h : isLaidOut text.toList = true) :
    canonical key text false = .ok (String.ofList (text.toList.drop 1)) := by
  unfold isLaidOut at h
  split at h
  · rename_i file hfile
    rw [Bool.and_eq_true, decide_eq_true_iff, ← Layout.renderFile_toList] at h
    obtain ⟨hlayout, hagain⟩ := h
    have htext : String.ofList (text.toList.drop 1) = layout file := by
      rw [← hlayout, String.ofList_toList]
      rfl
    rw [canonical_eq_ok (readUnit_of_ok hfile key)]
    refine ⟨htext, ?_⟩
    cases hread : Grammar.readSource (text.toList.drop 1) with
    | ok again => exact ⟨again, readUnit_of_ok (by rw [layout, hlayout, hread]) key⟩
    | error e =>
      rw [hread] at hagain
      cases hagain
  · cases h

end Output

namespace Marker

/-- The text of the unit that defines the marker. -/
def text : String := String.ofList (definition.toList.drop 1)

/-- The unit that defines the marker. -/
def registered : SourceUnit where
  key := key
  enclosing? := none
  body := text

theorem canonical_definition : Output.canonical key definition false = .ok text := by
  have hlines := toList_lines (l := definitionLines)
    (.cons rfl <| .cons rfl <| .cons rfl <| .cons rfl <| .cons rfl <| .cons rfl <| .cons rfl <|
      .cons rfl <| .cons rfl <| .cons rfl <| .cons rfl <| .cons rfl <| .cons rfl <| .cons rfl <|
      .cons rfl <| .cons rfl <| .nil)
  refine Output.canonical_of_isLaidOut ?_
  rw [definition, hlines]
  decide +kernel

theorem unit_eq : unit = .ok registered := by
  rw [unit, canonical_definition]
  rfl

end Marker

end Observable
