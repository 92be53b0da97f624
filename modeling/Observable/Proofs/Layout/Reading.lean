import Observable.Proofs.Layout.Separation
import Observable.Proofs.Token.Readable
import Observable.Proofs.Token.Respaced
/-! A layout is read back as the tokens that it was made of, with the spacing that it gives to their
punctuation. -/
namespace Observable

/-- Whether the contents of brackets document with a text that is spelled as that of a comment is,
if they document at all. -/
def isPlainDoc : List Token → Bool
  | [.ident false name _, .punct c _ _, .literal text _] =>
    (Literal.stringValue? text.toList).all fun value =>
      name ≠ "doc" || c ≠ '=' || text.toList = Text.quoted value
  | _ => true

def Token.isIdent : Token → Bool
  | ident .. => true
  | _ => false

mutual
/-- Whether a name follows the mark of a lifetime, and documentation is spelled as that of comments
is. -/
def Token.isPlain (next : Option Token) : Token → Bool
  | .punct c _ _ => c ≠ '\'' || next.any Token.isIdent
  | .group _ body _ _ => isPlainDoc body && plainTokens body
  | _ => true

def plainTokens : List Token → Bool
  | [] => true
  | t :: ts => t.isPlain ts.head? && plainTokens ts
end

namespace Layout

open Lexer

/-- A piece as it is written for a token that can be read. -/
def Piece.Readable : Piece → Prop
  | word text => ∃ raw name, text = Token.identText raw name ∧ Lexer.isWord raw name = true
  | literal text => IsLiteralText text
  | mark c => isPunct c = true
  | opening d | closing d => d ≠ .invisible
  | comment inner text => isPlainLine inner text = true

theorem Flat.readable {lines : Bool} {ts : List Token} {ps : List Piece} (h : Flat lines ts ps)
    (hts : ReadableTokens ts) : ∀ piece ∈ ps, piece.Readable := by
  induction h with
  | nil => simp
  | ident _ ih => exact List.forall_mem_cons.mpr ⟨⟨_, _, rfl, hts.1⟩, ih hts.2⟩
  | literal _ ih | punct _ ih => exact List.forall_mem_cons.mpr ⟨hts.1, ih hts.2⟩
  | group hd _ _ ihbody ih =>
    exact List.forall_mem_cons.mpr ⟨hd, List.forall_mem_append.mpr
      ⟨ihbody hts.1.2, List.forall_mem_cons.mpr ⟨hd, ih hts.2⟩⟩⟩
  | invisible => exact absurd rfl hts.1.1
  | outerDoc _ _ hplain _ ih => exact List.forall_mem_cons.mpr ⟨hplain, ih hts.2.2⟩
  | innerDoc _ _ hplain _ ih => exact List.forall_mem_cons.mpr ⟨hplain, ih hts.2.2.2⟩

theorem isPunct_facts {c : Char} (h : isPunct c = true) :
    c ≠ ' ' ∧ c ≠ '\n' ∧ Text.isIdentContinue c = false := by
  have hmem : c ∈ "~!@#$%^&*-=+|;:,<.>/?'".toList := by simpa [isPunct] using h
  have hall : ∀ d ∈ "~!@#$%^&*-=+|;:,<.>/?'".toList,
      d ≠ ' ' ∧ d ≠ '\n' ∧ Text.isIdentContinue d = false := forall_mem_of_all (by decide +kernel)
  exact hall c hmem

/-- What a literal begins with, and that it does not end a line. -/
theorem IsLiteralText.front {text : String} (h : IsLiteralText text) :
    (∃ c rest, text.toList = c :: rest ∧ isBlank c = false ∧ c ≠ '/' ∧ c ≠ '*') ∧
      text.toList.getLast? ≠ some '\n' := by
  rcases h with rfl | ⟨next, hread⟩
  · exact ⟨⟨'(', _, rfl, by decide⟩, by decide⟩
  · obtain ⟨c, rest, htext⟩ : ∃ c rest, text.toList = c :: rest := by
      refine List.exists_cons_of_ne_nil fun hnil => ?_
      rw [hnil] at hread
      exact absurd (Literal.read_reads hread) Literal.Reads.irrefl
    rw [htext] at hread ⊢
    obtain ⟨hblank, hslash, hstar, -⟩ := read_front_facts hread
    refine ⟨⟨c, rest, rfl, hblank, hslash, hstar⟩, ?_⟩
    obtain ⟨d, hd, hsuffix⟩ := Literal.read_reads hread
    rw [← List.singleton_append (l := next)] at hsuffix
    obtain ⟨front, hfront⟩ := Literal.suffix_append hsuffix
    rw [← hfront, List.getLast?_append]
    simpa using hd

theorem Piece.Readable.legible {piece : Piece} (h : piece.Readable) : piece.Legible := by
  cases piece with
  | word text =>
    obtain ⟨raw, name, rfl, hword⟩ := h
    simp only [Lexer.isWord, Bool.and_eq_true] at hword
    obtain ⟨c, rest, hname, hc, hrest⟩ := isName_cons hword.1
    refine Token.Legible.word (q := .start) ⟨fun hnil => by simp [hnil] at hname, fun d hd => ?_⟩
    rw [hname] at hd
    rcases List.mem_cons.mp hd with rfl | hd
    · exact Text.isIdentContinue_of_isIdentStart hc
    · exact List.all_eq_true.mp hrest d hd
  | literal text =>
    obtain ⟨⟨c, rest, htext, -, hfront⟩, hlast⟩ := IsLiteralText.front h
    exact ⟨⟨c, rest, htext, hfront⟩, hlast⟩
  | opening d | closing d => exact h
  | mark c | comment inner text => trivial

/-- No piece begins with a blank. -/
theorem Piece.Readable.front {piece : Piece} (h : piece.Readable) :
    ∃ c rest, piece.chars = c :: rest ∧ c ≠ ' ' ∧ c ≠ '\n' := by
  cases piece with
  | word text =>
    obtain ⟨raw, name, rfl, hword⟩ := h
    obtain ⟨c, rest, htext, hblank, -⟩ := word_front hword (show stopsWord [] = true from rfl)
    rw [List.append_nil] at htext
    exact ⟨c, rest, htext, ne_of_isBlank hblank⟩
  | literal text =>
    obtain ⟨⟨c, rest, htext, hblank, -⟩, -⟩ := IsLiteralText.front h
    exact ⟨c, rest, htext, ne_of_isBlank hblank⟩
  | mark c => exact ⟨c, [], rfl, (isPunct_facts h).1, (isPunct_facts h).2.1⟩
  | opening d | closing d =>
    cases d with
    | invisible => exact absurd rfl h
    | _ => exact ⟨_, [], rfl, by decide, by decide⟩
  | comment inner text => exact ⟨'/', _, rfl, by decide, by decide⟩

/-- Some pieces in a text that they are written to, each with what follows it. -/
def follow : List Piece → List Char → List (Piece × List Char)
  | [], _ => []
  | piece :: ps, text =>
    let after := (text.dropWhile fun c => c = ' ' || c = '\n').drop piece.chars.length
    (piece, after) :: follow ps after

theorem follow_cons {gap text : List Char} {piece : Piece} {ps : List Piece}
    (hgap : ∀ c ∈ gap, c = ' ' ∨ c = '\n') (hpiece : piece.Readable) :
    follow (piece :: ps) (gap ++ (piece.chars ++ text)) = (piece, text) :: follow ps text := by
  obtain ⟨c, rest, hchars, hspace, hbreak⟩ := hpiece.front
  have hdrop : (gap ++ (piece.chars ++ text)).dropWhile (fun c => c = ' ' || c = '\n')
      = piece.chars ++ text := by
    rw [List.dropWhile_append_of_pos (fun d hd => by simpa using hgap d hd), hchars,
      List.cons_append, List.dropWhile_cons_of_neg (by simp [hspace, hbreak])]
  simp only [follow, hdrop, List.drop_left]

/-- The spacings with which a piece is read in front of a text: those of a mark, and of the marks of
the attribute that a line of documentation stands for. -/
def Piece.spacings (piece : Piece) (after : List Char) : List Spacing :=
  match piece with
  | .mark c => [if c = '\'' then .joint else spacingBefore after]
  | .comment inner _ => List.replicate (if inner then 3 else 2) .alone
  | _ => []

/-- A number is read up to its end in front of a text that goes on with a point. -/
def Piece.Stands (piece : Piece) (after : List Char) : Prop :=
  match piece with
  | .literal text => text.toList.head?.any Char.isDigit = true → after.head? = some '.' →
      Literal.read (text.toList ++ after) = some after
  | _ => True

/-- What stands behind a word goes neither on with it nor with a literal, but for a point. -/
theorem Spread.calm {a : Piece} {ps : List Piece} {text : List Char} (h : Spread (some a) ps text)
    (ha : a.isWord = true) (hps : ∀ piece ∈ ps, piece.Readable) :
    ∀ c ∈ text.head?, Text.isIdentContinue c = false ∧ c ∉ ['"', '\'', '#', '+', '-'] := by
  have hblank : ∀ d ∈ [' ', '\n'], Text.isIdentContinue d = false ∧
    d ∉ ['"', '\'', '#', '+', '-'] := forall_mem_of_all (by decide)
  cases h with
  | nil hgap _ =>
    intro c hc
    exact hblank c (by simpa using hgap c (List.mem_of_mem_head? hc))
  | @cons _ gap piece ps text hgap hapart h =>
    intro c hc
    cases gap with
    | cons d gap =>
      obtain rfl : d = c := by simpa using hc
      exact hblank d (by simpa using hgap d List.mem_cons_self)
    | nil =>
      have hties : piece.ties = false := Bool.eq_false_iff.mpr fun hties =>
        (hapart a rfl).words ha hties rfl
      have hdelimiter : ∀ d ∈ "()[]\x7b\x7d/".toList,
          Text.isIdentContinue d = false ∧ d ∉ ['"', '\'', '#', '+', '-'] :=
        forall_mem_of_all (by decide)
      have hreadable := hps piece List.mem_cons_self
      cases piece with
      | word _ | literal _ => cases hties
      | mark d =>
        obtain rfl : d = c := by simpa [Piece.chars] using hc
        have hpunct : d ≠ '"' := by
          rintro rfl
          exact absurd (show isPunct '"' = true from hreadable) (by decide)
        exact ⟨(isPunct_facts hreadable).2.2, by simpa [Piece.ties, hpunct, and_assoc] using hties⟩
      | opening d | closing d =>
        refine hdelimiter c ?_
        cases d with
        | invisible => exact absurd rfl hreadable
        | _ => simp [Piece.chars, Delimiter.opening, Delimiter.closing] at hc; subst hc; decide
      | comment inner line =>
        obtain rfl : '/' = c := by simpa [Piece.chars] using hc
        exact hdelimiter '/' (by decide)

theorem Spread.stopsWord {a : Piece} {ps : List Piece} {text : List Char}
    (h : Spread (some a) ps text) (ha : a.isWord = true) (hps : ∀ piece ∈ ps, piece.Readable) :
    stopsWord text = true := by
  cases text with
  | nil => rfl
  | cons c text =>
    obtain ⟨hc, hmem⟩ := h.calm ha hps c rfl
    simp only [List.mem_cons, not_or] at hmem
    simp [Lexer.stopsWord, hc, hmem.1, hmem.2.1, hmem.2.2.1]

/-- A literal that was read elsewhere is read here as well. -/
theorem Spread.read {ps : List Piece} {lit : String} {text next : List Char}
    (h : Spread (some (.literal lit)) ps text) (hps : ∀ piece ∈ ps, piece.Readable)
    (hread : Literal.read (lit.toList ++ next) = some next)
    (hstands : (Piece.literal lit).Stands text) :
    Literal.read (lit.toList ++ text) = some text := by
  have hcalm := h.calm rfl hps
  have hident : Literal.stopsIdent text = true := by
    cases text with
    | nil => rfl
    | cons c text => simp [Literal.stopsIdent, (hcalm c rfl).1]
  have hpound : text.head? ≠ some '#' := fun hhead => absurd (hcalm _ hhead).2 (by simp)
  by_cases hpoint : lit.toList.head?.any Char.isDigit = true ∧ text.head? = some '.'
  · exact hstands hpoint.1 hpoint.2
  · refine Literal.read_local hident hpound (fun hdigit => ?_) hread
    cases text with
    | nil => rfl
    | cons c text =>
      obtain ⟨hc, hmem⟩ := hcalm c rfl
      have hne : c ≠ '.' := fun h => hpoint ⟨hdigit, by rw [h]; rfl⟩
      simp only [List.mem_cons, List.not_mem_nil, or_false, not_or] at hmem
      simp [Literal.stops, hc, hmem.2.2.2.1, hmem.2.2.2.2, hne]

/-- What is between two pieces is passed over. -/
theorem goes_gap {gap : List Char} (hgap : ∀ c ∈ gap, c = ' ' ∨ c = '\n') (text : List Char)
    (place : Position) (groups : List OpenGroup) (done : List Token) :
    ∃ place', Goes ⟨gap ++ text, place⟩ groups done ⟨text, place'⟩ groups done := by
  induction gap generalizing place with
  | nil => exact ⟨place, .refl _ _ _⟩
  | cons c gap ih =>
    obtain ⟨hc, hgap⟩ := List.forall_mem_cons.mp hgap
    obtain ⟨place', hgoes⟩ := ih hgap (place.after [c])
    have hblank : isBlank c = true := by rcases hc with rfl | rfl <;> decide
    exact ⟨place', (goes_blank hblank _ place groups done).trans hgoes⟩

/-- A slash that begins no comment is read as a mark. -/
theorem goes_slash {text : List Char} (htext : startsComment ('/' :: text) = false)
    (place : Position) (groups : List OpenGroup) (done : List Token) :
    Goes ⟨'/' :: text, place⟩ groups done ⟨text, place.after ['/']⟩ groups
      (.punct '/' (spacingBefore text) place :: done) := by
  have hfront : ∀ word ∈ ["//", "/*", "///", "////", "//!", "/**", "/***", "/*!", "/**/"],
      startsWith word ('/' :: text) = false := by
    cases text with
    | nil => decide
    | cons c text =>
      obtain ⟨hslash, hstar⟩ : c ≠ '/' ∧ c ≠ '*' := by simpa [startsComment] using htext
      have hslash' : ('/' == c) = false := beq_eq_false_iff_ne.mpr hslash.symm
      have hstar' : ('*' == c) = false := beq_eq_false_iff_ne.mpr hstar.symm
      simp [startsWith, List.isPrefixOf, hslash', hstar']
  simp only [List.forall_mem_cons] at hfront
  have hpass : passComment ('/' :: text) = none := by simp [passComment, hfront]
  have hdoc : docComment? ('/' :: text) = none := by simp [docComment?, hfront]
  have hread : Literal.read ('/' :: text) = none := by
    rw [read_of_other (by decide) (by decide) (by decide) (by decide) (by decide)]
    exact readNumber_of_not_isDigit (by decide) text
  have hahead : punctAhead ('/' :: text) = true := by
    have hslash : isPunct '/' = true := by decide
    simp [punctAhead, hfront, hslash]
  have hleaf : readLeaf ⟨'/' :: text, place⟩
      = some (.punct '/' (spacingBefore text) place, ⟨text, place.after ['/']⟩) := by
    have htick : '/' ≠ '\'' := by decide
    simp only [readLeaf, hread, htick, hahead, if_false, if_true]
    rfl
  have hblank : isBlank '/' = false := by decide
  have hopens : opens '/' = none := by decide
  have hcloses : closes '/' = none := by decide
  exact .step (Nat.lt_succ_self _) fun fuel => by
    simp [run, hblank, hpass, hdoc, hopens, hcloses, hleaf]

/-- What stands for code that could not be expanded is read as a whole. -/
theorem goes_failed (text : List Char) (place : Position) (groups : List OpenGroup)
    (done : List Token) :
    ∃ place', Goes ⟨failedExpansion.toList ++ text, place⟩ groups done ⟨text, place'⟩ groups
      (.literal failedExpansion place :: done) := by
  have hread (rest : List Char) : Literal.read ('(' :: rest) = none := by
    rw [read_of_other (by decide) (by decide) (by decide) (by decide) (by decide)]
    exact readNumber_of_not_isDigit (by decide) rest
  have hfailed : startsWith failedExpansion (failedExpansion.toList ++ text) = true :=
    List.isPrefixOf_iff_prefix.mpr (List.prefix_append _ _)
  have hskip := skip_append failedExpansion.toList text place
  obtain ⟨rest, hrest⟩ : ∃ rest, failedExpansion.toList ++ text = '(' :: rest := ⟨_, rfl⟩
  rw [hrest] at hfailed hskip ⊢
  have hahead : punctAhead ('(' :: rest) = false := by
    have hparen : isPunct '(' = false := by decide
    simp [punctAhead, hparen]
  have hleaf : readLeaf ⟨'(' :: rest, place⟩
      = some (.literal failedExpansion place, ⟨text, place.after failedExpansion.toList⟩) := by
    have htick : '(' ≠ '\'' := by decide
    simp only [readLeaf, hread, htick, hahead, hfailed, if_false, if_true, Bool.false_eq_true]
    rw [String.length, hskip]
  have hblank : isBlank '(' = false := by decide
  have hcloses : closes '(' = none := by decide
  have hlength : text.length < ('(' :: rest).length := by
    rw [← hrest, List.length_append]
    exact Nat.lt_add_of_pos_left (by decide)
  exact ⟨place.after failedExpansion.toList, .step hlength fun fuel => by
    simp [run, hblank, passComment_of_ne, docComment?_of_ne, hfailed, hcloses, hleaf]⟩

/-- Wherever a text begins, its front up to some rest of it is read as some tokens, but for their
places and the spacing of their punctuation, which is that of the pieces in the text. -/
def ReadsTo (ts : List Token) (seen : List (Piece × List Char)) (text rest : List Char) : Prop :=
  ∀ place groups done, ∃ read place',
    unplacedTokens (unspacedTokens read) = unplacedTokens (unspacedTokens ts) ∧
      spacingsOf read = seen.flatMap (fun x => x.1.spacings x.2) ∧
      Goes ⟨text, place⟩ groups done ⟨rest, place'⟩ groups (read.reverse ++ done)

namespace ReadsTo

variable {ts us : List Token} {seen seen' : List (Piece × List Char)} {text mid rest : List Char}

theorem nil (text : List Char) : ReadsTo [] [] text text :=
  fun place groups done => ⟨[], place, rfl, rfl, .refl _ groups done⟩

theorem append (h : ReadsTo ts seen text mid) (h' : ReadsTo us seen' mid rest) :
    ReadsTo (ts ++ us) (seen ++ seen') text rest := by
  intro place groups done
  obtain ⟨read, place', hread, hspacings, hgoes⟩ := h place groups done
  obtain ⟨read', place'', hread', hspacings', hgoes'⟩ := h' place' groups (read.reverse ++ done)
  refine ⟨read ++ read', place'', ?_, ?_, ?_⟩
  · rw [unspacedTokens_append, unplacedTokens_append, hread, hread', unspacedTokens_append,
      unplacedTokens_append]
  · rw [spacingsOf_append, hspacings, hspacings', List.flatMap_append]
  · rw [List.reverse_append, List.append_assoc]
    exact hgoes.trans hgoes'

theorem gap {gap : List Char} (hgap : ∀ c ∈ gap, c = ' ' ∨ c = '\n')
    (h : ReadsTo ts seen text rest) : ReadsTo ts seen (gap ++ text) rest := by
  intro place groups done
  obtain ⟨place', hgoes⟩ := goes_gap hgap text place groups done
  obtain ⟨read, place'', hread, hspacings, hgoes'⟩ := h place' groups done
  exact ⟨read, place'', hread, hspacings, hgoes.trans hgoes'⟩

/-- One token that is read at once. -/
theorem one {t : Token} {x : Piece × List Char} (u : Position → Token)
    (hu : ∀ place, (u place).unspaced.unplaced = t.unspaced.unplaced)
    (hspacings : ∀ place, (u place).spacings = x.1.spacings x.2)
    (h : ∀ place groups done, ∃ place',
      Goes ⟨text, place⟩ groups done ⟨rest, place'⟩ groups (u place :: done)) :
    ReadsTo [t] [x] text rest := by
  intro place groups done
  obtain ⟨place', hgoes⟩ := h place groups done
  refine ⟨[u place], place', ?_, ?_, hgoes⟩
  · simp only [unspacedTokens, unplacedTokens, hu]
  · simp [spacingsOf, hspacings]

/-- A group, from its opening delimiter to its closing one. -/
theorem group {d : Delimiter} (hd : d ≠ .invisible) {body : List Token} {p q : Position}
    {inner : List Char} (hopening : startsWith "/*" inner = false)
    (h : ReadsTo body seen inner (d.closing.toList ++ rest)) :
    ReadsTo [.group d body p q] ((.opening d, inner) :: (seen ++ [(.closing d, rest)]))
      (d.opening.toList ++ inner) rest := by
  intro place groups done
  obtain ⟨place₁, hgoes₁⟩ := goes_opening hd hopening place groups done
  obtain ⟨read, place₂, hread, hspacings, hgoes₂⟩ := h place₁ (⟨d, place, done⟩ :: groups) []
  obtain ⟨place₃, hgoes₃⟩ := goes_closing hd rest place₂ place groups done (read.reverse ++ [])
  refine ⟨[.group d read place place₂], place₃, ?_, ?_, ?_⟩
  · simp only [unspacedTokens, Token.unspaced, unplacedTokens, Token.unplaced, hread]
  · simp [spacingsOf, Token.spacings, Piece.spacings, hspacings]
  · rw [List.append_nil, List.reverse_reverse] at hgoes₃
    rw [List.append_nil] at hgoes₂
    exact hgoes₁.trans (hgoes₂.trans hgoes₃)

end ReadsTo

theorem startsWith_comment_of_ne {c : Char} (hc : c ≠ '/') (rest : List Char) :
    startsWith "/*" (c :: rest) = false := by
  have hne : ('/' == c) = false := beq_eq_false_iff_ne.mpr hc.symm
  simp [startsWith, List.isPrefixOf, hne]

theorem startsWith_comment_gap {gap rest : List Char} (hgap : ∀ c ∈ gap, c = ' ' ∨ c = '\n')
    (hne : gap ≠ []) : startsWith "/*" (gap ++ rest) = false := by
  obtain ⟨c, gap, rfl⟩ := List.exists_cons_of_ne_nil hne
  refine startsWith_comment_of_ne ?_ _
  rcases hgap c List.mem_cons_self with rfl | rfl <;> decide

/-- No block comment starts where some pieces do. -/
theorem Spread.opensNoComment {before : Option Piece} {ps : List Piece} {text : List Char}
    (h : Spread before ps text) (hps : ∀ piece ∈ ps, piece.Readable) :
    startsWith "/*" text = false := by
  cases h with
  | nil hgap _ =>
    by_cases hnil : text = []
    · rw [hnil]
      rfl
    · rw [← List.append_nil text]
      exact startsWith_comment_gap hgap hnil
  | @cons _ gap piece ps text hgap _ h =>
    by_cases hnil : gap = []
    · subst hnil
      obtain ⟨hpiece, hlater⟩ := List.forall_mem_cons.mp hps
      obtain ⟨c, rest, hchars, -⟩ := hpiece.front
      rw [List.nil_append]
      cases piece with
      | comment inner line => rfl
      | mark d =>
        by_cases hd : d = '/'
        · subst hd
          have hcomment := h.startsComment_eq_false fun piece hp => (hlater piece hp).legible
          cases text with
          | nil => rfl
          | cons c text =>
            have hstar : c ≠ '*' := by
              rintro rfl
              cases hcomment
            have hne : ('*' == c) = false := beq_eq_false_iff_ne.mpr hstar.symm
            simp [startsWith, List.isPrefixOf, Piece.chars, hne]
        · exact startsWith_comment_of_ne hd _
      | literal text =>
        obtain ⟨⟨d, rest', htext, -, hslash, -⟩, -⟩ := IsLiteralText.front hpiece
        rw [Piece.chars, htext]
        exact startsWith_comment_of_ne hslash _
      | word | opening | closing =>
        rw [hchars]
        refine startsWith_comment_of_ne ?_ _
        rintro rfl
        cases hpiece.legible.eq_slash rfl (by rw [hchars]; exact List.mem_cons_self)
    · exact startsWith_comment_gap hgap hnil

/-- The front of a text is read as some tokens, up to where the last of its pieces follow. -/
def ReadsFront (ts : List Token) (ps qs : List Piece) (text : List Char) : Prop :=
  ∃ seen rest after, follow ps text = seen ++ follow qs rest ∧ Spread after qs rest ∧
    ReadsTo ts seen text rest

/-- A piece in front of others, after a gap. -/
theorem ReadsFront.cons {ts us : List Token} {piece : Piece} {ps qs : List Piece}
    {gap text : List Char} (hgap : ∀ c ∈ gap, c = ' ' ∨ c = '\n') (hpiece : piece.Readable)
    (hone : ReadsTo us [(piece, text)] (piece.chars ++ text) text) (h : ReadsFront ts ps qs text) :
    ReadsFront (us ++ ts) (piece :: ps) qs (gap ++ (piece.chars ++ text)) := by
  obtain ⟨seen, rest, after, hfollow, hspread, hreads⟩ := h
  refine ⟨(piece, text) :: seen, rest, after, ?_, hspread, .gap hgap (hone.append hreads)⟩
  rw [follow_cons hgap hpiece, hfollow, List.cons_append]

/-- A group in front of others, after a gap. -/
theorem ReadsFront.group {d : Delimiter} (hd : d ≠ .invisible) {body ts : List Token}
    {q r : Position} {inner ps qs : List Piece} {gap text : List Char}
    (hgap : ∀ c ∈ gap, c = ' ' ∨ c = '\n') (hno : startsWith "/*" text = false)
    (hbody : ReadsFront body inner (.closing d :: ps) text)
    (h : ∀ {before text'}, Spread before ps text' →
      (∀ x ∈ follow ps text', x ∈ follow inner text) → ReadsFront ts ps qs text') :
    ReadsFront (.group d body q r :: ts) (.opening d :: inner) qs
      (gap ++ ((Piece.opening d).chars ++ text)) := by
  obtain ⟨seen, rest, before, hfollow, hclose, hreads⟩ := hbody
  obtain _ | @⟨_, gap', _, _, text', hgap', -, hclose⟩ := hclose
  have hclosing : (Piece.closing d).Readable := hd
  rw [follow_cons hgap' hclosing] at hfollow
  obtain ⟨seen', rest', after, hfollow', hspread, hreads'⟩ := h hclose fun x hx => by
    rw [hfollow]
    exact List.mem_append_right _ (List.mem_cons_of_mem _ hx)
  have hinner : ReadsTo body seen text (d.closing.toList ++ text') := by
    have hboth := hreads.append (.gap hgap' (.nil (d.closing.toList ++ text')))
    rwa [List.append_nil, List.append_nil] at hboth
  have hopening : (Piece.opening d).Readable := hd
  have hgroup : ReadsTo [.group d body q r] _ ((Piece.opening d).chars ++ text) text' :=
    .group hd hno hinner
  have hall : ReadsTo (.group d body q r :: ts) _ ((Piece.opening d).chars ++ text) rest' :=
    hgroup.append hreads'
  refine ⟨_, rest', after, ?_, hspread, .gap hgap hall⟩
  rw [follow_cons hgap hopening, hfollow, hfollow']
  simp only [List.cons_append, List.append_assoc, List.nil_append]

theorem readsTo_word {raw : Bool} {name : String} {q : Position} {text : List Char}
    (hword : Lexer.isWord raw name = true) (hstop : Lexer.stopsWord text = true) :
    ReadsTo [.ident raw name q] [(.word (Token.identText raw name), text)]
      ((Token.identText raw name).toList ++ text) text :=
  .one (.ident raw name) (fun _ => rfl) (fun _ => rfl) fun place groups done =>
    ⟨_, goes_word hword hstop place groups done⟩

theorem readsTo_literal {lit : String} {q : Position} {text : List Char}
    (h : lit = failedExpansion ∨ Literal.read (lit.toList ++ text) = some text) :
    ReadsTo [.literal lit q] [(.literal lit, text)] (lit.toList ++ text) text := by
  refine .one (.literal lit) (fun _ => rfl) (fun _ => rfl) fun place groups done => ?_
  rcases h with rfl | hread
  · exact goes_failed text place groups done
  · obtain ⟨c, rest, hlit⟩ : ∃ c rest, lit.toList = c :: rest := by
      refine List.exists_cons_of_ne_nil fun hnil => ?_
      rw [hnil] at hread
      exact absurd (Literal.read_reads hread) Literal.Reads.irrefl
    obtain rfl : lit = String.ofList (c :: rest) := by rw [← hlit, String.ofList_toList]
    rw [String.toList_ofList] at hread ⊢
    exact ⟨_, goes_literal hread place groups done⟩

theorem readsTo_mark {c : Char} {s : Spacing} {q : Position} {text : List Char}
    (hpunct : isPunct c = true) (htick : c ≠ '\'')
    (hcomment : c = '/' → startsComment ('/' :: text) = false) :
    ReadsTo [.punct c s q] [(.mark c, text)] (c :: text) text := by
  refine .one (.punct c (spacingBefore text)) (fun _ => rfl) (fun _ => ?_)
    fun place groups done => ?_
  · simp [Token.spacings, Piece.spacings, htick]
  · by_cases hslash : c = '/'
    · subst hslash
      exact ⟨_, goes_slash (hcomment rfl) place groups done⟩
    · exact ⟨_, goes_mark (by simp [isMark, hpunct, htick, hslash]) text place groups done⟩

theorem readsTo_tick {s : Spacing} {q : Position} {raw : Bool} {name : String} {text : List Char}
    (hword : Lexer.isWord raw name = true) (hstop : Lexer.stopsWord text = true) :
    ReadsTo [.punct '\'' s q]
      [(.mark '\'', (Token.identText raw name).toList ++ text)]
      ('\'' :: ((Token.identText raw name).toList ++ text))
      ((Token.identText raw name).toList ++ text) :=
  .one (.punct '\'' .joint) (fun _ => rfl) (fun _ => rfl) fun place groups done =>
    ⟨_, goes_tick hword hstop place groups done⟩

theorem readsTo_comment {inner : Bool} {line rest : List Char} {ts : List Token}
    (hline : isPlainLine inner line = true)
    (hts : ∀ place rest,
    unplacedTokens (unspacedTokens (DocComment.tokens ⟨line, inner, rest⟩ place))
      = unplacedTokens (unspacedTokens ts)) :
    ReadsTo ts [(.comment inner line, '\n' :: rest)]
      ((Piece.comment inner line).chars ++ '\n' :: rest) ('\n' :: rest) := by
  intro place groups done
  simp only [isPlainLine, Bool.and_eq_true, List.all_eq_true, decide_eq_true_eq,
    Bool.or_eq_true] at hline
  have hslash : inner = false → line.head? ≠ some '/' := fun h =>
    hline.2.resolve_left (by simp [h])
  obtain ⟨place', hgoes⟩ := goes_doc hline.1 hslash rest place groups done
  refine ⟨_, place', hts place ('\n' :: rest), ?_, ?_⟩
  · cases inner <;> rfl
  · cases inner <;> exact hgoes

/-- A line of documentation ends where it is written. -/
theorem Spread.line {inner : Bool} {line text : List Char} {ps : List Piece}
    (h : Spread (some (.comment inner line)) ps text) : ∃ rest, text = '\n' :: rest := by
  cases h with
  | nil _ hline => exact hline _ rfl rfl
  | cons _ hapart _ =>
    obtain ⟨rest, rfl⟩ := (hapart _ rfl).line rfl
    exact ⟨_, rfl⟩

theorem value_of_isPlainDoc {value : String} {text : List Char} {q₁ s₂ q₂ q₃}
    (h : isPlainDoc [.ident false "doc" q₁, .punct '=' s₂ q₂, .literal value q₃] = true)
    (hvalue : Literal.stringValue? value.toList = some text) :
    value = String.ofList (Text.quoted text) := by
  have hquoted : value.toList = Text.quoted text := by simpa [isPlainDoc, hvalue] using h
  rw [← hquoted, String.ofList_toList]

/-- The first of the pieces in a text: after a gap, and as it must stand there. -/
theorem Spread.front {before : Option Piece} {piece : Piece} {ps : List Piece} {text : List Char}
    (h : Spread before (piece :: ps) text) (hpiece : piece.Readable)
    (hstands : ∀ x ∈ follow (piece :: ps) text, x.1.Stands x.2) :
    ∃ gap rest, text = gap ++ (piece.chars ++ rest) ∧ (∀ c ∈ gap, c = ' ' ∨ c = '\n') ∧
      Spread (some piece) ps rest ∧ piece.Stands rest ∧ ∀ x ∈ follow ps rest, x.1.Stands x.2 := by
  obtain _ | @⟨_, gap, _, _, rest, hgap, -, hspread⟩ := h
  rw [follow_cons hgap hpiece] at hstands
  obtain ⟨hfront, hstands⟩ := List.forall_mem_cons.mp hstands
  exact ⟨gap, rest, rfl, hgap, hspread, hfront, hstands⟩

/-- A line of documentation in front of others, read as the attribute that it stands for. -/
theorem ReadsFront.comment {inner : Bool} {line text : List Char} {before : Option Piece}
    (us : List Token) {ts : List Token} {ps qs : List Piece}
    (hline : isPlainLine inner line = true)
    (hattribute : ∀ place rest,
      unplacedTokens (unspacedTokens (DocComment.tokens ⟨line, inner, rest⟩ place))
        = unplacedTokens (unspacedTokens us))
    (hspread : Spread before (.comment inner line :: ps) text)
    (hstands : ∀ x ∈ follow (.comment inner line :: ps) text, x.1.Stands x.2)
    (h : ∀ {before rest}, Spread before ps rest → (∀ x ∈ follow ps rest, x.1.Stands x.2) →
      ReadsFront ts ps qs rest) :
    ReadsFront (us ++ ts) (.comment inner line :: ps) qs text := by
  have hpiece : (Piece.comment inner line).Readable := hline
  obtain ⟨gap, rest, rfl, hgap, hspread, -, hstands⟩ := hspread.front hpiece hstands
  have hrest := h hspread hstands
  obtain ⟨rest, rfl⟩ := hspread.line
  exact .cons hgap hpiece (readsTo_comment hline hattribute) hrest

/-- From the place where its pieces begin, a row of tokens is read back, when the pieces are kept
apart in the text and no number runs into a point. -/
theorem Flat.readsFront {lines : Bool} {ts : List Token} {ps : List Piece} (h : Flat lines ts ps)
    (hts : ReadableTokens ts) (hplain : plainTokens ts = true) {before : Option Piece}
    {qs : List Piece} {text : List Char} (hspread : Spread before (ps ++ qs) text)
    (hqs : ∀ piece ∈ qs, piece.Readable)
    (hstands : ∀ x ∈ follow (ps ++ qs) text, x.1.Stands x.2) :
    ReadsFront ts (ps ++ qs) qs text := by
  induction h generalizing before qs text with
  | nil => exact ⟨[], text, before, rfl, hspread, .nil text⟩
  | @ident raw name q ts ps h ih =>
    have hps : ∀ piece ∈ ps ++ qs, piece.Readable :=
      List.forall_mem_append.mpr ⟨h.readable hts.2, hqs⟩
    have hpiece : (Piece.word (Token.identText raw name)).Readable := ⟨raw, name, rfl, hts.1⟩
    obtain ⟨gap, rest, rfl, hgap, hspread, -, hstands⟩ := hspread.front hpiece hstands
    rw [plainTokens, Bool.and_eq_true] at hplain
    exact .cons hgap hpiece (readsTo_word hts.1 (hspread.stopsWord rfl hps))
      (ih hts.2 hplain.2 hspread hqs hstands)
  | @literal lit q ts ps h ih =>
    have hps : ∀ piece ∈ ps ++ qs, piece.Readable :=
      List.forall_mem_append.mpr ⟨h.readable hts.2, hqs⟩
    have hpiece : (Piece.literal lit).Readable := hts.1
    obtain ⟨gap, rest, rfl, hgap, hspread, hlit, hstands⟩ := hspread.front hpiece hstands
    rw [plainTokens, Bool.and_eq_true] at hplain
    refine .cons hgap hpiece (readsTo_literal ?_) (ih hts.2 hplain.2 hspread hqs hstands)
    exact hts.1.imp_right fun ⟨next, hread⟩ => hspread.read hps hread hlit
  | @punct c s q ts ps h ih =>
    have hps : ∀ piece ∈ ps ++ qs, piece.Readable :=
      List.forall_mem_append.mpr ⟨h.readable hts.2, hqs⟩
    have hpiece : (Piece.mark c).Readable := hts.1
    obtain ⟨gap, rest, rfl, hgap, hspread, -, hstands⟩ := hspread.front hpiece hstands
    rw [plainTokens, Bool.and_eq_true] at hplain
    have hrest := ih hts.2 hplain.2 hspread hqs hstands
    by_cases htick : c = '\''
    · subst htick
      -- The name of a lifetime is written right after its mark.
      obtain ⟨raw, name, p, ts', rfl⟩ : ∃ raw name p ts', ts = .ident raw name p :: ts' := by
        rcases ts with _ | ⟨_ | _ | _ | _, ts⟩ <;> simp [Token.isPlain, Token.isIdent] at hplain ⊢
      obtain _ | hname := h
      obtain _ | ⟨hnone, hnear, hafter⟩ := hspread
      obtain rfl := (hnear _ rfl).tick rfl rfl
      have hstop := hafter.stopsWord rfl
        (List.forall_mem_append.mpr ⟨hname.readable hts.2.2, hqs⟩)
      exact .cons hgap hpiece (readsTo_tick hts.2.1 hstop) hrest
    · refine .cons hgap hpiece (readsTo_mark hts.1 htick ?_) hrest
      rintro rfl
      exact hspread.startsComment_eq_false fun piece hp => (hps piece hp).legible
  | @group d body q r ts bs ps hd hbody h ihbody ih =>
    have hps : ∀ piece ∈ .closing d :: (ps ++ qs), piece.Readable :=
      List.forall_mem_cons.mpr ⟨hd, List.forall_mem_append.mpr ⟨h.readable hts.2, hqs⟩⟩
    have hopening : (Piece.opening d).Readable := hd
    rw [plainTokens, Token.isPlain, Bool.and_eq_true, Bool.and_eq_true] at hplain
    rw [List.cons_append, List.append_assoc, List.cons_append] at hspread hstands ⊢
    obtain ⟨gap, rest, rfl, hgap, hspread, -, hstands⟩ := hspread.front hopening hstands
    have hno := hspread.opensNoComment
      (List.forall_mem_append.mpr ⟨hbody.readable hts.1.2, hps⟩)
    exact .group hd hgap hno (ihbody hts.1.2 hplain.1.2 hspread hps hstands)
      fun hafter hsub => ih hts.2 hplain.2 hafter hqs fun x hx => hstands x (hsub x hx)
  | invisible => exact absurd rfl hts.1.1
  | @outerDoc s q q₁ s₂ q₂ value q₃ r r' ts ps line hlines hvalue hline h ih =>
    simp only [plainTokens, Token.isPlain, Bool.and_eq_true] at hplain
    obtain rfl := value_of_isPlainDoc hplain.2.1.1 hvalue
    exact .comment [.punct '#' s q, .group .bracket [.ident false "doc" q₁,
      .punct '=' s₂ q₂, .literal (String.ofList (Text.quoted line)) q₃] r r']
      hline (fun _ _ => rfl) hspread hstands fun hrest => ih hts.2.2 hplain.2.2 hrest hqs
  | @innerDoc s q s' q' q₁ s₂ q₂ value q₃ r r' ts ps line hlines hvalue hline h ih =>
    simp only [plainTokens, Token.isPlain, Bool.and_eq_true] at hplain
    obtain rfl := value_of_isPlainDoc hplain.2.2.1.1 hvalue
    exact .comment [.punct '#' s q, .punct '!' s' q', .group .bracket [.ident false "doc" q₁,
      .punct '=' s₂ q₂, .literal (String.ofList (Text.quoted line)) q₃] r r']
      hline (fun _ _ => rfl) hspread hstands fun hrest => ih hts.2.2.2 hplain.2.2.2 hrest hqs

end Layout

end Observable
