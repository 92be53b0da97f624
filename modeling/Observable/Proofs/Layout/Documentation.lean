import Observable.Proofs.Layout.Run
import Observable.Proofs.Token.Spelling
import Observable.Proofs.Text.Quoted
/-! Attributes that hold documentation: which of them are written as a comment, and that the comment
is read as the attribute again. -/
namespace Observable.Layout

open Lexer

/-- The contents of an attribute that documents something with a text. -/
def Documents (text : List Char) (body : List Token) : Prop :=
  ∃ q₁ s q₂ value q₃, body = [.ident false "doc" q₁, .punct '=' s q₂, .literal value q₃] ∧
    Literal.stringValue? value.toList = some text

/-- A text that a comment cannot hold: it breaks the line, or it makes a plain comment of it. -/
def Unwritable (inner : Bool) (text : List Char) : Prop :=
  '\n' ∈ text ∨ '\r' ∈ text ∨ inner = false ∧ text.head? = some '/'

instance (inner : Bool) (text : List Char) : Decidable (Unwritable inner text) :=
  inferInstanceAs (Decidable (_ ∨ _ ∨ _))

/-- The tokens of an attribute around its contents. -/
def attributeTokens (inner : Bool) (body : List Token) : List Token :=
  .punct '#' .alone .start ::
    ((if inner then [.punct '!' .alone .start] else []) ++ [.group .bracket body .start .start])

theorem unwritable_iff {inner : Bool} {text : List Char} :
    Unwritable inner text ↔
      (text.any (fun c => c = '\n' || c = '\r') || (!inner && text.head? = some '/')) = true := by
  simp only [Unwritable, Bool.or_eq_true, List.any_eq_true, Bool.and_eq_true, Bool.not_eq_true',
    decide_eq_true_eq, ← or_assoc]
  refine or_congr_left ⟨?_, ?_⟩
  · rintro (h | h)
    · exact ⟨_, h, .inl rfl⟩
    · exact ⟨_, h, .inr rfl⟩
  · rintro ⟨c, hc, rfl | rfl⟩
    · exact .inl hc
    · exact .inr hc

/-- An attribute has at most one text. -/
theorem Documents.unique {text text' : List Char} {body : List Token} (h : Documents text body)
    (h' : Documents text' body) : text = text' := by
  obtain ⟨q₁, s, q₂, value, q₃, rfl, hvalue⟩ := h
  obtain ⟨_, _, _, _, _, hbody, hvalue'⟩ := h'
  cases hbody
  exact Option.some.inj (hvalue.symm.trans hvalue')

/-- Contents that document something are written as a line, unless a comment cannot hold the
text. -/
theorem Documents.docLine {inner : Bool} {text : List Char} {body : List Token}
    (h : Documents text body) :
    docLine inner body =
      if Unwritable inner text then none else some (String.ofList (docMark inner ++ text)) := by
  obtain ⟨q₁, s, q₂, value, q₃, rfl, hvalue⟩ := h
  have hmark : (if inner then "//!" else "///") = String.ofList (docMark inner) := by
    cases inner <;> rfl
  simp only [Layout.docLine, hvalue, ← unwritable_iff, hmark, ← String.ofList_append, decide_true,
    Bool.and_self, if_true]

/-- Contents that are written as a line document something. -/
theorem documents_of_docLine {inner : Bool} {body : List Token} {line : String}
    (h : docLine inner body = some line) : ∃ text, Documents text body := by
  obtain ⟨q₁, s, q₂, value, q₃, text, hbody, hvalue, -⟩ := docLine_eq_some h
  exact ⟨text, q₁, s, q₂, value, q₃, hbody, hvalue⟩

/-- A line that a comment can hold is read as one attribute with the text of the line. -/
theorem tokens_docMark {inner : Bool} {text : List Char} (h : ¬ Unwritable inner text) :
    ∃ read contents, tokens (docMark inner ++ (text ++ ['\n'])) = .ok read ∧
      Documents text contents ∧ unplacedTokens read = attributeTokens inner contents := by
  simp only [Unwritable, not_or, not_and] at h
  obtain ⟨hfeed, hreturn, hslash⟩ := h
  have hplain : ∀ c ∈ text, c ≠ '\n' ∧ c ≠ '\r' := fun c hc =>
    ⟨by rintro rfl; exact hfeed hc, by rintro rfl; exact hreturn hc⟩
  obtain ⟨place, hdoc⟩ := goes_doc hplain hslash [] .start [] []
  have hread := (hdoc.trans (goes_blank (by decide) [] place [] _)).tokens (by simp [docMark])
  rw [List.append_nil, List.reverse_reverse] at hread
  refine ⟨_, [.ident false "doc" .start, .punct '=' .alone .start,
    .literal (String.ofList (Text.quoted text)) .start], hread, ?_, ?_⟩
  · exact ⟨_, _, _, _, _, rfl, by rw [String.toList_ofList, Literal.stringValue?_quoted]⟩
  · cases inner <;> rfl

/-- Contents of an attribute are written as a line unless they document nothing or a comment cannot
hold their text, and the line is read as one attribute of the same kind with the same text. -/
theorem docLine_survives (inner : Bool) (body : List Token) :
    (∀ line, docLine inner body = some line →
      ∃ text read contents, Documents text body ∧ tokens (line.toList ++ ['\n']) = .ok read ∧
        Documents text contents ∧ unplacedTokens read = attributeTokens inner contents) ∧
    (docLine inner body = none ↔ ∀ text, Documents text body → Unwritable inner text) := by
  refine ⟨fun line h => ?_, fun h text hbody => ?_, fun h => ?_⟩
  · obtain ⟨text, hbody⟩ := documents_of_docLine h
    rw [hbody.docLine] at h
    split at h
    · cases h
    · rename_i hwritable
      obtain ⟨read, contents, hread, hcontents, htokens⟩ := tokens_docMark hwritable
      refine ⟨text, read, contents, hbody, ?_, hcontents, htokens⟩
      rw [← Option.some.inj h, String.toList_ofList, List.append_assoc]
      exact hread
  · rw [hbody.docLine] at h
    refine Decidable.byContradiction fun hwritable => ?_
    rw [if_neg hwritable] at h
    cases h
  · cases hline : docLine inner body with
    | none => rfl
    | some line =>
      obtain ⟨text, hbody⟩ := documents_of_docLine hline
      rw [hbody.docLine, if_pos (h text hbody)] at hline
      cases hline

/-- A raw string that begins with a slash and holds a quote and a backslash: an inner attribute is
written as a comment, and an outer one is not. -/
theorem docLine_survives_slash :
    let body : List Token := [.ident false "doc" .start, .punct '=' .alone .start,
      .literal "r#\"/ \"\\n\"#" .start]
    docLine true body = some "//!/ \"\\n" ∧
      (∃ read contents, tokens "//!/ \"\\n\n".toList = .ok read ∧
        Documents "/ \"\\n".toList contents ∧ unplacedTokens read = attributeTokens true contents) ∧
      Documents "/ \"\\n".toList body ∧ docLine false body = none := by
  intro body
  have hbody : Documents "/ \"\\n".toList body :=
    ⟨_, _, _, _, _, rfl, by decide +kernel⟩
  have hline : docLine true body = some "//!/ \"\\n" := by decide +kernel
  obtain ⟨text, read, contents, htext, hread, hcontents, htokens⟩ :=
    (docLine_survives true body).1 _ hline
  obtain rfl := htext.unique hbody
  refine ⟨hline, ⟨read, contents, hread, hcontents, htokens⟩, hbody, ?_⟩
  refine (docLine_survives false body).2.mpr fun text htext => ?_
  obtain rfl := htext.unique hbody
  decide +kernel

end Observable.Layout
