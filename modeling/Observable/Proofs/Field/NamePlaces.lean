import Mathlib.Data.List.Nodup
import Observable.Proofs.Build.Loading
import Observable.Proofs.Field.NameTokens
import Observable.Proofs.Text.Lines
/-! Where the candidates of a scan are: each is at its name in the text of its file, and no two of
one file are at the same place. -/
namespace Observable

open Grammar (Tree)
open Weighed

namespace Text

/-- A name stands at a place in a text, and the text has no longer name there. -/
def StandsAt (text : List Char) (place : Position) (name : List Char) : Prop :=
  ∃ after, lineFrom text place = some (name ++ after) ∧ after.head?.any isIdentContinue = false

theorem standsAt_iff {text : List Char} {place : Position} {name : List Char} :
    StandsAt text place name ↔ (lineFrom text place).any (fun line =>
      name.isPrefixOf line && !(line.drop name.length).head?.any isIdentContinue) = true := by
  cases hline : lineFrom text place with
  | none => simp [StandsAt, hline]
  | some line =>
    simp only [StandsAt, hline, Option.some.injEq, Option.any_some, Bool.and_eq_true,
      List.isPrefixOf_iff_prefix, Bool.not_eq_true']
    constructor
    · rintro ⟨after, rfl, hafter⟩
      exact ⟨List.prefix_append name after, by rwa [List.drop_left]⟩
    · rintro ⟨⟨after, rfl⟩, hafter⟩
      exact ⟨after, rfl, by rwa [List.drop_left] at hafter⟩

instance (text : List Char) (place : Position) (name : List Char) :
    Decidable (StandsAt text place name) :=
  decidable_of_iff _ standsAt_iff.symm

/-- A name stands where the text before it ends. -/
theorem standsAt_after {front name rest : List Char} (hname : '\n' ∉ name)
    (hrest : rest.head?.any isIdentContinue = false) :
    StandsAt (front ++ (name ++ rest)) (Position.start.after front) name := by
  refine ⟨rest.takeWhile (· ≠ '\n'), ?_, ?_⟩
  · have hplain : ∀ c ∈ name, decide (c ≠ '\n') = true := fun c hc =>
      decide_eq_true (by rintro rfl; exact hname hc)
    rw [lineFrom_after, List.takeWhile_append_of_pos hplain]
  · cases rest with
    | nil => rfl
    | cons c rest =>
      rw [List.takeWhile_cons]
      split
      · exact hrest
      · rfl

end Text

namespace Lexer

theorem not_mem_identText {raw : Bool} {name : String} (h : isName name.toList = true) :
    '\n' ∉ (Token.identText raw name).toList := by
  have hstart : Text.isIdentStart '\n' = false := by decide
  have hcontinue : Text.isIdentContinue '\n' = false := by decide
  obtain ⟨c, rest, hname, hc, hrest⟩ := isName_cons h
  have hplain : '\n' ∉ name.toList := by
    rw [hname, List.mem_cons, not_or]
    refine ⟨?_, fun hmem => ?_⟩
    · rintro rfl
      rw [hc] at hstart
      cases hstart
    · rw [List.all_eq_true.mp hrest _ hmem] at hcontinue
      cases hcontinue
  cases raw with
  | false => exact hplain
  | true =>
    rw [Token.identText, if_pos rfl, String.toList_append, List.mem_append, not_or]
    exact ⟨by decide, hplain⟩

/-- A word that is read somewhere in a text stands there. -/
theorem Cursor.Within.standsAt {c : Cursor} {text rest : List Char} {raw : Bool} {name : String}
    (hc : c.Within text) (h : readIdent c.rest = some (raw, name, rest)) :
    Text.StandsAt text c.place (Token.identText raw name).toList := by
  obtain ⟨front, rfl, hplace⟩ := hc
  obtain ⟨hrest, hend⟩ := eq_append_of_readIdent h
  rw [hplace, hrest]
  exact Text.standsAt_after (not_mem_identText (isName_of_readIdent h)) hend

theorem line_after {line : List Char} (h : '\n' ∉ line) (p : Position) :
    (p.after line).line = p.line := by
  induction line generalizing p with
  | nil => rfl
  | cons c line ih =>
    rw [List.mem_cons, not_or] at h
    have hstep : (p.step c).line = p.line := by simp [Position.step, Ne.symm h.1]
    exact (ih h.2 (p.step c)).trans hstep

/-- The line that names an interpreter leaves its break, so that what stands behind it is where it
was. -/
theorem Cursor.Within.of_dropInterpreter {c : Cursor} {text rest : List Char} {d : Char}
    (hc : c.Within (Grammar.dropInterpreter text)) (hrest : c.rest = d :: rest) (hd : d ≠ '\n') :
    c.Within text := by
  obtain ⟨front, htext, hplace⟩ := hc
  unfold Grammar.dropInterpreter at htext
  split at htext
  · rename_i more
    split at htext
    · exact ⟨front, htext, hplace⟩
    · generalize '#' :: '!' :: more = text at htext
      let line := text.takeWhile (· ≠ '\n')
      have hline : '\n' ∉ line := fun hmem => by
        simpa using List.all_eq_true.mp List.all_takeWhile _ hmem
      have hfirst := List.head?_dropWhile_not (· ≠ '\n') text
      rw [htext] at hfirst
      refine ⟨line ++ front, ?_, ?_⟩
      · rw [List.append_assoc, ← htext, List.takeWhile_append_dropWhile]
      · cases front with
        | nil =>
          rw [List.nil_append, hrest] at hfirst
          exact absurd (by simpa using hfirst) hd
        | cons e front =>
          obtain rfl : e = '\n' := by simpa using hfirst
          have hstep : (Position.start.after line).step '\n' = Position.start.step '\n' := by
            rw [Position.step, Position.step, line_after hline]
            rfl
          rw [Position.after_append, hplace]
          exact congrArg (Position.after · front) hstep.symm
  · exact ⟨front, htext, hplace⟩

theorem cons_of_readIdent {text rest : List Char} {raw : Bool} {name : String}
    (hblank : text.head?.any isBlank = false) (h : readIdent text = some (raw, name, rest)) :
    ∃ d more, text = d :: more ∧ d ≠ '\n' := by
  cases text with
  | nil => cases h
  | cons d more =>
    refine ⟨d, more, rfl, ?_⟩
    rintro rfl
    cases hblank

end Lexer

/-- Counts the identifiers right between braces that do not stand in a text where they are
placed. -/
def Weight.misplaced (text : List Char) : Weight where
  of around raw name place :=
    if around = some .brace ∧
      ¬ Text.StandsAt text place (Token.identText raw name).toList then 1 else 0
  of_unnamed _ := by simp

theorem Weight.covers_misplaced (text : List Char) :
    (misplaced text).Covers (Grammar.dropInterpreter text) fun _ => 0 where
  skip _ _ := Nat.le_refl _
  doc _ := by simp [misplaced]
  word _ hc hblank h := by
    obtain ⟨d, more, hrest, hd⟩ := Lexer.cons_of_readIdent hblank h
    simp [misplaced, (hc.of_dropInterpreter hrest hd).standsAt h]

/-- Counts the identifiers right between braces that are at one place. -/
def Weight.placedAt (p : Position) : Weight where
  of around _ _ place := if around = some .brace ∧ place = p then 1 else 0
  of_unnamed _ := by simp

namespace Lexer.Cursor

theorem place_skip (c : Cursor) (n : Nat) :
    (c.skip n).place = c.place ∨ c.place.Before (c.skip n).place := by
  by_cases h : c.rest.take n = []
  · rw [skip, h]
    exact .inl rfl
  · exact .inr (c.place.before_after h)

theorem before_skip_word {c : Cursor} {raw : Bool} {name : String} {rest : List Char}
    (hblank : c.rest.head?.any isBlank = false) (h : readIdent c.rest = some (raw, name, rest)) :
    c.place.Before (c.skip (Token.identText raw name).length).place := by
  obtain ⟨d, more, hrest, -⟩ := cons_of_readIdent hblank h
  obtain ⟨e, tail, hname, -⟩ := isName_cons (isName_of_readIdent h)
  obtain ⟨n, hn⟩ : ∃ n, (Token.identText raw name).length = n + 1 := by
    refine Nat.exists_eq_succ_of_ne_zero fun hzero => ?_
    have hempty : (Token.identText raw name).toList = [] := by
      rw [← List.length_eq_zero_iff, String.length_toList, hzero]
    cases raw <;> simp [Token.identText, hname] at hempty
  rw [skip, hn, hrest]
  exact c.place.before_after (List.cons_ne_nil d _)

/-- How many identifiers at a place can still come: one, unless the place is behind. -/
def leftAt (p : Position) (c : Cursor) : Nat := if c.place = p ∨ c.place.Before p then 1 else 0

theorem leftAt_skip (p : Position) (c : Cursor) (n : Nat) : (c.skip n).leftAt p ≤ c.leftAt p := by
  have hahead : (c.skip n).place = p ∨ (c.skip n).place.Before p →
      c.place = p ∨ c.place.Before p := by
    rcases c.place_skip n with heq | hbefore
    · rw [heq]
      exact id
    · rintro (rfl | h)
      · exact .inr hbefore
      · exact .inr (hbefore.trans h)
  unfold leftAt
  split
  · rename_i h
    exact Nat.le_of_eq (if_pos (hahead h)).symm
  · exact Nat.zero_le _

theorem leftAt_of_before {p : Position} {c : Cursor} (h : p.Before c.place) : c.leftAt p = 0 := by
  refine if_neg ?_
  rintro (rfl | hbefore)
  · exact Position.Before.irrefl _ h
  · exact Position.Before.irrefl _ (h.trans hbefore)

theorem leftAt_le_one (p : Position) (c : Cursor) : c.leftAt p ≤ 1 := by
  unfold leftAt
  split <;> decide

end Lexer.Cursor

/-- A text holds at most one identifier at a place. -/
theorem Weight.covers_placedAt (p : Position) (text : List Char) :
    (placedAt p).Covers text (Lexer.Cursor.leftAt p) where
  skip := Lexer.Cursor.leftAt_skip p
  doc _ := by simp [placedAt]
  word {c raw name _} around _ hblank h := by
    by_cases hplace : c.place = p
    · subst hplace
      rw [Lexer.Cursor.leftAt_of_before (Lexer.Cursor.before_skip_word hblank h), placedAt,
        Lexer.Cursor.leftAt, if_pos (.inl rfl)]
      dsimp only
      split <;> decide
    · have hnone : (placedAt p).of around raw name c.place = 0 := if_neg fun h => hplace h.2
      rw [hnone, Nat.zero_add]
      exact c.leftAt_skip p _

namespace PlacedField

/-- A candidate is located at the name of its field. -/
theorem location_of_mem {f : PlacedField} {k : Candidate} (hk : k ∈ f.scan.candidates) :
    f.scan.candidates = [k] ∧ ∃ raw name place, f.1.field.name? = some (.ident raw name place) ∧
      k.name = Token.identText raw name ∧ k.location = ⟨f.2.surroundings.file, place⟩ := by
  rcases f.1.scan_cases f.2.surroundings with ⟨hnone, -⟩ | ⟨k', raw, name, place, hk', -, -, hrest⟩
  · simp [scan, hnone] at hk
  · obtain ⟨-, -, -, -, hname, hspelling, -, hlocation⟩ := hrest
    obtain rfl : k = k' := by simpa [scan, hk'] using hk
    refine ⟨hk', raw, name, place, hname, hspelling, ?_⟩
    rw [hlocation, FieldDeclaration.place, hname]
    rfl

theorem file_inside (p : Standing) (t : Tree) :
    (p.inside t).surroundings.file = p.surroundings.file := by
  unfold Standing.inside
  split
  · split <;> rfl
  · rfl
  · rfl

mutual
theorem file_of_mem_ofTree {p : Standing} {t : Tree} {f : PlacedField} (hf : f ∈ ofTree p t) :
    f.2.surroundings.file = p.surroundings.file := by
  cases t with
  | token t => cases hf
  | group d place close parts =>
    rw [ofTree] at hf
    exact file_of_mem_ofTrees hf
  | node kind parts =>
    rw [ofTree, List.mem_append, List.mem_map] at hf
    rcases hf with ⟨d, -, rfl⟩ | hf
    · rfl
    · exact (file_of_mem_ofTrees hf).trans (file_inside p _)

theorem file_of_mem_ofTrees {p : Standing} {ts : List Tree} {f : PlacedField}
    (hf : f ∈ ofTrees p ts) : f.2.surroundings.file = p.surroundings.file := by
  cases ts with
  | nil => cases hf
  | cons t ts =>
    rw [ofTrees, List.mem_append] at hf
    rcases hf with hf | hf
    · exact file_of_mem_ofTree hf
    · exact file_of_mem_ofTrees hf
end

theorem weigh_names_perm {w : Weight} {fs gs : List PlacedField} (h : fs.Perm gs) :
    weigh w (names fs) = weigh w (names gs) :=
  ((h.map _).map _).sum_nat

theorem weigh_name_le {w : Weight} {fs : List PlacedField} {f : PlacedField} (hf : f ∈ fs) :
    weigh w f.1.field.name? ≤ weigh w (names fs) := by
  obtain ⟨before, after, rfl⟩ := List.append_of_mem hf
  rw [names_append, weigh_append, names, names, List.map_cons, weigh_cons]
  omega

theorem mem_candidates_found {fs : List PlacedField} {k : Candidate}
    (hk : k ∈ (found fs).candidates) : ∃ f ∈ fs, k ∈ f.scan.candidates := by
  rw [found, Findings.candidates_join, List.flatMap_map] at hk
  obtain ⟨f, hf, hk⟩ := List.mem_flatMap.mp hk
  exact ⟨f, (List.mem_filter.mp hf).1, hk⟩

/-- The candidate of a field that is at a place takes a name at that place. -/
theorem count_scan_le (p : Position) (f : PlacedField) :
    (f.scan.candidates.map (·.location.place)).count p
      ≤ weigh ((Weight.placedAt p).inside .brace) f.1.field.name? := by
  cases hcandidates : f.scan.candidates with
  | nil => exact Nat.zero_le _
  | cons k more =>
    obtain ⟨hone, raw, name, place, hname, -, hlocation⟩ :=
      location_of_mem (hcandidates ▸ List.mem_cons_self : k ∈ f.scan.candidates)
    obtain rfl : more = [] := (List.cons.inj (hcandidates.symm.trans hone)).2
    rw [hname, weigh_some, weigh_ident, List.map_cons, List.map_nil, hlocation,
      List.count_singleton]
    by_cases hplace : place = p
    · simp [hplace, Weight.inside, Weight.placedAt]
    · simp [hplace]

/-- Candidates at a place take names at that place, each its own. -/
theorem count_found_le (p : Position) (fs : List PlacedField) :
    ((found fs).candidates.map (·.location.place)).count p
      ≤ weigh ((Weight.placedAt p).inside .brace) (names fs) := by
  induction fs with
  | nil => exact Nat.zero_le _
  | cons f fs ih =>
    have hsplit : found (f :: fs) = found [f] ++ found fs := found_append [f] fs
    have hfirst : ((found [f]).candidates.map (·.location.place)).count p
        ≤ (f.scan.candidates.map (·.location.place)).count p := by
      rw [found, Findings.candidates_join, reached]
      cases hdetached : f.2.detached <;> simp [hdetached]
    have hcandidates : (found (f :: fs)).candidates
        = (found [f]).candidates ++ (found fs).candidates := by
      rw [hsplit]
      rfl
    rw [hcandidates, List.map_append, List.count_append, names, List.map_cons, weigh_cons]
    exact Nat.add_le_add (Nat.le_trans hfirst (count_scan_le p f)) ih

end PlacedField

/-- The candidates of a file that is read from a text: each is at its name in the text, and no two
are at the same place. -/
structure SourceFile.Locates (f : SourceFile) (path : String) (text : List Char) : Prop where
  file : ∀ k ∈ f.scan.candidates, k.location.file = path
  name : ∀ k ∈ f.scan.candidates, Text.StandsAt text k.location.place k.name.toList
  nodup : (f.scan.candidates.map (·.location)).Nodup

namespace SourceFile

theorem locates_of_readSource {f : SourceFile} {text : List Char}
    (h : Grammar.readSource text = .ok f.syntaxTree) :
    f.Locates f.path (Lexer.dropMark text) := by
  have hnames {w : Weight} {left : Lexer.Cursor → Nat}
      (hw : w.Covers (Grammar.dropInterpreter (Lexer.dropMark text)) left)
      (hdeclared : w.declared = 0) :
      weigh (w.inside .brace) (PlacedField.names (PlacedField.walkedFile f))
        ≤ left ⟨Grammar.dropInterpreter (Lexer.dropMark text), .start⟩ := by
    have hperm := PlacedField.walkedParts_perm ⟨⟨f.path, f.scope, false⟩, false⟩
      (f.syntaxTree.attributes ++ f.syntaxTree.items)
    calc weigh (w.inside .brace) (PlacedField.names (PlacedField.walkedFile f))
        = weigh (w.inside .brace) (PlacedField.names (PlacedField.ofFile f)) :=
          PlacedField.weigh_names_perm hperm
      _ ≤ weigh w (f.syntaxTree.attributes ++ f.syntaxTree.items) :=
          PlacedField.weigh_names_ofFile_le hdeclared f
      _ = weigh w f.syntaxTree := weigh_append ..
      _ ≤ _ := Grammar.weigh_readSource_le hw hdeclared h
  have hcandidate : ∀ k ∈ f.scan.candidates, ∃ d ∈ PlacedField.walkedFile f,
      k ∈ d.scan.candidates := fun k hk =>
    PlacedField.mem_candidates_found (f.scan_eq ▸ hk)
  refine ⟨fun k hk => ?_, fun k hk => ?_, ?_⟩
  · obtain ⟨d, hd, hk⟩ := hcandidate k hk
    obtain ⟨-, raw, name, place, -, -, hlocation⟩ := PlacedField.location_of_mem hk
    rw [hlocation]
    exact PlacedField.file_of_mem_ofTrees ((PlacedField.walkedParts_perm _ _).mem_iff.mp hd)
  · obtain ⟨d, hd, hk⟩ := hcandidate k hk
    obtain ⟨-, raw, name, place, hname, hspelling, hlocation⟩ := PlacedField.location_of_mem hk
    have hweight := Nat.le_trans (PlacedField.weigh_name_le hd)
      (hnames (Weight.covers_misplaced (Lexer.dropMark text)) rfl)
    rw [hname, weigh_some, weigh_ident] at hweight
    rw [hspelling, hlocation]
    by_contra hstands
    simp [Weight.inside, Weight.misplaced, hstands] at hweight
  · refine List.Nodup.of_map (fun l : Location => l.place) ?_
    rw [List.map_map, List.nodup_iff_count_le_one]
    intro p
    have hcount := PlacedField.count_found_le p (PlacedField.walkedFile f)
    rw [← f.scan_eq] at hcount
    exact Nat.le_trans hcount (Nat.le_trans (hnames (Weight.covers_placedAt p _) rfl)
      (Lexer.Cursor.leftAt_le_one p _))

end SourceFile

namespace Compilation

/-- The candidates of a crate are those of its files, one after the other. Each is in the file with
the path of its source, where its name stands in the text at its line and column, and no two of one
file have the same location. -/
theorem ofSources_locates {sources : List (String × String)} {c : Compilation}
    (h : ofSources sources = .ok c) :
    c.scan.candidates = c.files.flatMap (fun f => f.scan.candidates) ∧
    List.Forall₂ (fun source f => SourceFile.Locates f source.1 (Lexer.dropMark source.2.toList))
      sources c.files := by
  constructor
  · rw [scan, Findings.candidates_join, List.flatMap_map]
  · refine (forall₂_ofSources h).imp fun source f hf => ?_
    obtain ⟨module, tree, -, htree, rfl⟩ := SourceFile.ofSource_eq_ok.mp hf
    exact SourceFile.locates_of_readSource htree

/-- A text with two byte order marks, the first of which is not part of it, with a comment of two
lines and with a raw name. -/
theorem ofSources_locates_marks :
    ∃ text c, text
      = "\ufeff\ufeffstruct S \x7b #[ReactiveProperty] _a: u8, /**\né */ #[ReactiveProperty] r#b: u8 \x7d" ∧
      ofSources [("lib.rs", text)] = .ok c ∧
      c.scan.candidates.map (fun k => (k.name, k.location))
        = [("_a", ⟨"lib.rs", ⟨1, 33⟩⟩), ("r#b", ⟨"lib.rs", ⟨2, 26⟩⟩)] ∧
      ∀ f ∈ c.files, f.Locates "lib.rs" (Lexer.dropMark text.toList) := by
  generalize
    htext : "\ufeff\ufeffstruct S \x7b #[ReactiveProperty] _a: u8, /**\né */ #[ReactiveProperty] r#b: u8 \x7d"
    = text
  have h : (match ofSources [("lib.rs", text)] with
      | .ok c => c.scan.candidates.map (fun k => (k.name, k.location))
        == [("_a", ⟨"lib.rs", ⟨1, 33⟩⟩), ("r#b", ⟨"lib.rs", ⟨2, 26⟩⟩)]
      | .error _ => false) = true := by
    subst htext
    decide +kernel
  split at h
  · rename_i c hc
    refine ⟨text, c, rfl, hc, eq_of_beq h, fun f hf => ?_⟩
    obtain ⟨-, hfiles⟩ := ofSources_locates hc
    obtain ⟨g, files, hg, hnil, hcons⟩ := List.forall₂_cons_left_iff.mp hfiles
    cases hnil
    rw [hcons, List.mem_singleton] at hf
    exact hf ▸ hg
  · cases h

end Compilation

end Observable
