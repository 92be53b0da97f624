import Mathlib.Data.List.Forall2
import Observable.Proofs.Field.Places
/-! The path of a file shows in the locations of what a scan finds there, and in nothing else. -/
namespace Observable

theorem FieldDeclaration.unlocated_scan (d : FieldDeclaration) (file file' : String) (scope : Scope)
    (inBlock : Bool) :
    (d.scan ⟨file, scope, inBlock⟩).unlocated = (d.scan ⟨file', scope, inBlock⟩).unlocated := by
  rw [← d.unlocated_scan_placeless file file', d.unlocated_scan_placeless file' file']

/-- Walks that have come to the same place in files with different paths. -/
structure Walk.Alike (w w' : Walk) : Prop where
  scopes : w.scopes = w'.scopes
  depth : w.depth = w'.depth
  findings : w.findings.unlocated = w'.findings.unlocated

namespace Walk

theorem Alike.step {w w' : Walk} (h : w.Alike w') (s : Step) : (w.step s).Alike (w'.step s) := by
  obtain ⟨file, scopes, depth, findings⟩ := w
  obtain ⟨file', scopes', depth', findings'⟩ := w'
  obtain ⟨rfl, rfl, hfindings⟩ := h
  cases s with
  | enterModule name items => cases scopes <;> exact ⟨rfl, rfl, hfindings⟩
  | leaveModule => exact ⟨rfl, rfl, hfindings⟩
  | enterBlock => exact ⟨rfl, rfl, hfindings⟩
  | leaveBlock => exact ⟨rfl, rfl, hfindings⟩
  | field d =>
    cases scopes with
    | nil => exact ⟨rfl, rfl, hfindings⟩
    | cons scope scopes =>
      refine ⟨rfl, rfl, ?_⟩
      simp only [Walk.step, Findings.unlocated_append]
      exact congrArg₂ _ hfindings (d.unlocated_scan file file' scope _)

theorem Alike.run {w w' : Walk} (h : w.Alike w') (steps : List Step) :
    (steps.foldl Walk.step w).Alike (steps.foldl Walk.step w') := by
  induction steps generalizing w w' with
  | nil => exact h
  | cons s steps ih => exact ih (h.step s)

end Walk

/-- Two files with the same text for the same module, wherever they are. -/
structure SourceFile.Alike (f f' : SourceFile) : Prop where
  module : f.module = f'.module
  syntaxTree : f.syntaxTree = f'.syntaxTree

namespace SourceFile.Alike

variable {f f' : SourceFile}

theorem scope (h : f.Alike f') : f.scope = f'.scope := by
  rw [SourceFile.scope, h.module, h.syntaxTree, SourceFile.scope]

theorem unlocated_scan (h : f.Alike f') : f.scan.unlocated = f'.scan.unlocated := by
  have hstart : Walk.Alike { file := f.path, scopes := [f.scope] }
      { file := f'.path, scopes := [f'.scope] } := ⟨by rw [h.scope], rfl, rfl⟩
  rw [scan, scan, h.syntaxTree]
  exact (hstart.run _).findings

end SourceFile.Alike

namespace Compilation

variable {c c' : Compilation}

theorem unlocated_scan (h : List.Forall₂ SourceFile.Alike c.files c'.files) :
    c.scan.unlocated = c'.scan.unlocated := by
  have hfiles : c.files.map (fun f => f.scan.unlocated) = c'.files.map fun f => f.scan.unlocated :=
    List.forall₂_eq_eq_eq ▸ List.forall₂_map_right_iff.mpr
      (List.forall₂_map_left_iff.mpr (h.imp fun _ _ halike => halike.unlocated_scan))
  rw [scan, scan, Findings.unlocated_join, Findings.unlocated_join, List.map_map, List.map_map]
  exact congrArg Findings.join hfiles

theorem rootBinds_of_alike (h : List.Forall₂ SourceFile.Alike c.files c'.files) (name : String) :
    c.rootBinds name = c'.rootBinds name := by
  obtain ⟨files⟩ := c
  obtain ⟨files'⟩ := c'
  unfold rootBinds
  dsimp only at h ⊢
  induction h with
  | nil => rfl
  | cons halike _ ih => rw [List.any_cons, List.any_cons, ih, halike.module, halike.scope]

end Compilation

end Observable
