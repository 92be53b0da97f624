import Observable.Proofs.Evaluation
import Observable.Proofs.Layout.Places
import Observable.Proofs.Text.Quoted
import Observable.Token.Lexer
/-! Texts that spell tokens, and that they are read as these tokens. -/
namespace Observable.Lexer

/-- Whether some characters are one identifier. -/
def isName : List Char → Bool
  | [] => false
  | c :: rest => Text.isIdentStart c && rest.all Text.isIdentContinue

/-- Whether an identifier can be spelled, with the mark of a raw one or without it. -/
def isWord (raw : Bool) (name : String) : Bool :=
  isName name.toList && if raw then !isUnraw name else !name.toList.head?.any isBlank

/-- Whether a word, a lifetime or a number ends in front of a text. -/
def stopsWord (next : List Char) : Bool :=
  next.head?.all fun c => !Text.isIdentContinue c && c ≠ '"' && c ≠ '\'' && c ≠ '#'

/-- Punctuation that is a token wherever it stands, unlike the mark of a lifetime and the slash of a
comment. -/
def isMark (c : Char) : Bool := isPunct c && c ≠ '\'' && c ≠ '/'

/-- The spacing of a punctuation in front of a text. -/
def spacingBefore (text : List Char) : Spacing := if punctAhead text then .joint else .alone

/-- The rest of a line of documentation. -/
def isDocLine (line : List Char) : Bool :=
  line.all (fun c => c ≠ '\n' && c ≠ '\r') && line.head? ≠ some '/'

/-- The attribute that a line of documentation stands for. -/
def docTokens (line : List Char) : List Token := DocComment.tokens ⟨line, false, []⟩ .start

/-- A text spells some tokens, which stand nowhere, up to a tail of it. -/
inductive Spells : List Char → List Token → List Char → Prop
  | done (next) : Spells next [] next
  | blank {c text ts next} (hblank : isBlank c = true) (h : Spells text ts next) :
      Spells (c :: text) ts next
  | word {raw name text ts next} (hword : isWord raw name = true) (hstop : stopsWord text = true)
      (h : Spells text ts next) :
      Spells ((Token.identText raw name).toList ++ text) (.ident raw name .start :: ts) next
  | mark {c text ts next} (hmark : isMark c = true) (h : Spells text ts next) :
      Spells (c :: text) (.punct c (spacingBefore text) .start :: ts) next
  | lifetime {name text ts next} (hword : isWord false name = true) (hstop : stopsWord text = true)
      (h : Spells text ts next) :
      Spells ('\'' :: (name.toList ++ text))
        (.punct '\'' .joint .start :: .ident false name .start :: ts) next
  | literal {c lit text ts next} (hfirst : c = '"' ∨ c.isDigit = true)
      (hread : Literal.read (c :: lit ++ text) = some text) (h : Spells text ts next) :
      Spells (c :: lit ++ text) (.literal (String.ofList (c :: lit)) .start :: ts) next
  | group {d inner body text ts next} (hd : d ≠ .invisible)
      (hbody : Spells inner body (d.closing.toList ++ text)) (h : Spells text ts next) :
      Spells (d.opening.toList ++ inner) (.group d body .start .start :: ts) next
  | doc {line text ts next} (hline : isDocLine line = true) (h : Spells ('\n' :: text) ts next) :
      Spells ('/' :: '/' :: '/' :: (line ++ '\n' :: text)) (docTokens line ++ ts) next

/-- Two texts one after the other spell the tokens of both. -/
theorem Spells.append {text mid next : List Char} {ts us : List Token} (h : Spells text ts mid)
    (h' : Spells mid us next) : Spells text (ts ++ us) next := by
  induction h with
  | done => exact h'
  | blank hblank _ ih => exact .blank hblank (ih h')
  | word hword hstop _ ih => exact .word hword hstop (ih h')
  | mark hmark _ ih => exact .mark hmark (ih h')
  | lifetime hword hstop _ ih => exact .lifetime hword hstop (ih h')
  | literal hfirst hread _ ih => exact .literal hfirst hread (ih h')
  | group hd hbody _ _ ih => exact .group hd hbody (ih h')
  | doc hline _ ih => rw [List.append_assoc]; exact .doc hline (ih h')

theorem Spells.blanks {gap text next : List Char} {ts : List Token}
    (hgap : ∀ c ∈ gap, isBlank c = true) (h : Spells text ts next) :
    Spells (gap ++ text) ts next := by
  induction gap with
  | nil => exact h
  | cons c gap ih =>
    exact .blank (hgap c List.mem_cons_self) (ih fun d hd => hgap d (List.mem_cons_of_mem c hd))

/-- Reading goes on from one place in a text to a later one, whatever fuel there is. -/
def Goes (c : Cursor) (groups : List OpenGroup) (done : List Token) (c' : Cursor)
    (groups' : List OpenGroup) (done' : List Token) : Prop :=
  ∀ fuel, c.rest.length < fuel →
    ∃ fuel', c'.rest.length < fuel' ∧ run fuel c groups done = run fuel' c' groups' done'

theorem Goes.refl (c : Cursor) (groups : List OpenGroup) (done : List Token) :
    Goes c groups done c groups done := fun fuel hfuel => ⟨fuel, hfuel, rfl⟩

theorem Goes.trans {c c' c'' : Cursor} {groups groups' groups'' : List OpenGroup}
    {done done' done'' : List Token} (h : Goes c groups done c' groups' done')
    (h' : Goes c' groups' done' c'' groups'' done'') : Goes c groups done c'' groups'' done'' := by
  intro fuel hfuel
  obtain ⟨fuel', hfuel', hrun⟩ := h fuel hfuel
  obtain ⟨fuel'', hfuel'', hrun'⟩ := h' fuel' hfuel'
  exact ⟨fuel'', hfuel'', hrun.trans hrun'⟩

/-- One step that reads something. -/
theorem Goes.step {c c' : Cursor} {groups groups' : List OpenGroup} {done done' : List Token}
    (hlt : c'.rest.length < c.rest.length)
    (h : ∀ fuel, run (fuel + 1) c groups done = run fuel c' groups' done') :
    Goes c groups done c' groups' done' := by
  intro fuel hfuel
  obtain _ | fuel := fuel
  · exact absurd hfuel (Nat.not_lt_zero _)
  · exact ⟨fuel, Nat.lt_of_lt_of_le hlt (Nat.le_of_lt_succ hfuel), h fuel⟩

theorem skip_append (front text : List Char) (place : Position) :
    Cursor.skip ⟨front ++ text, place⟩ front.length = ⟨text, place.after front⟩ := by
  simp [Cursor.skip]

theorem moveTo_append (front text : List Char) (place : Position) :
    Cursor.moveTo ⟨front ++ text, place⟩ text = ⟨text, place.after front⟩ := by
  rw [Cursor.moveTo, show (front ++ text).length - text.length = front.length by simp]
  exact skip_append front text place

theorem upTo_append (front text : List Char) (place : Position) :
    Cursor.upTo ⟨front ++ text, place⟩ text = front := by
  simp [Cursor.upTo]

/-- A character other than a slash begins no comment. -/
theorem passComment_of_ne {c : Char} (hc : c ≠ '/') (text : List Char) :
    passComment (c :: text) = none := by
  have hne : ('/' == c) = false := by simpa using Ne.symm hc
  simp [passComment, startsWith, List.isPrefixOf, hne]

theorem docComment?_of_ne {c : Char} (hc : c ≠ '/') (text : List Char) :
    docComment? (c :: text) = none := by
  have hne : ('/' == c) = false := by simpa using Ne.symm hc
  simp [docComment?, startsWith, List.isPrefixOf, hne]

theorem startsWith_failedExpansion {c : Char} (hc : c ≠ '(') (text : List Char) :
    startsWith failedExpansion (c :: text) = false := by
  have hne : ('(' == c) = false := by simpa using Ne.symm hc
  simp [startsWith, failedExpansion, List.isPrefixOf, hne]

/-- One step that reads a token which is no group. -/
theorem run_leaf {c : Char} {text : List Char} {place : Position} {t : Token} {c' : Cursor}
    (hblank : isBlank c = false) (hslash : c ≠ '/') (hopens : opens c = none)
    (hcloses : closes c = none) (hleaf : readLeaf ⟨c :: text, place⟩ = some (t, c')) (fuel : Nat)
    (groups : List OpenGroup) (done : List Token) :
    run (fuel + 1) ⟨c :: text, place⟩ groups done = run fuel c' groups (t :: done) := by
  simp [run, hblank, passComment_of_ne hslash, docComment?_of_ne hslash, hopens, hcloses, hleaf]

theorem ne_of_isIdentContinue {c d : Char} (hc : Text.isIdentContinue c = true)
    (hd : Text.isIdentContinue d = false) : c ≠ d := by
  rintro rfl
  exact absurd hc (by simp [hd])

theorem isPunct_of_isIdentContinue {c : Char} (hc : Text.isIdentContinue c = true) :
    isPunct c = false := by
  refine Bool.eq_false_iff.mpr fun h => ?_
  have hmem : c ∈ "~!@#$%^&*-=+|;:,<.>/?'".toList := by simpa [isPunct] using h
  have hall : ∀ d ∈ "~!@#$%^&*-=+|;:,<.>/?'".toList, Text.isIdentContinue d = false :=
    forall_mem_of_all (by decide +kernel)
  exact absurd hc (by simp [hall c hmem])

theorem isDigit_of_isIdentStart {c : Char} (hc : Text.isIdentStart c = true) :
    c.isDigit = false := by
  refine Bool.eq_false_iff.mpr fun h => ?_
  have hdigit : 48 ≤ c.toNat ∧ c.toNat ≤ 57 := by
    simpa [Char.isDigit, UInt32.le_iff_toNat_le] using h
  have halpha : ¬ (65 ≤ c.toNat ∧ c.toNat ≤ 90 ∨ 97 ≤ c.toNat ∧ c.toNat ≤ 122 ∨ c.toNat = 95) := by
    omega
  rw [Text.isIdentStart, if_pos (by omega)] at hc
  refine halpha ?_
  have hcases : (c.isUpper = true ∨ c.isLower = true) ∨ c = '_' := by
    rw [show c.isAlpha = (c.isUpper || c.isLower) from rfl] at hc
    simpa using hc
  rcases hcases with (h | h) | rfl
  · have h : 'A'.val ≤ c.val ∧ c.val ≤ 'Z'.val := of_decide_eq_true h
    exact .inl h
  · have h : 'a'.val ≤ c.val ∧ c.val ≤ 'z'.val := by
      rw [show c.isLower = (decide ('a'.val ≤ c.val) && decide (c.val ≤ 'z'.val)) from rfl] at h
      simpa using h
    exact .inr (.inl h)
  · exact .inr (.inr (by decide))

/-- A text that does not turn a letter in front of it into the opening of a literal. -/
def Clean (text : List Char) : Prop :=
  ∀ c, text.head? = some c → c ≠ '"' ∧ c ≠ '\'' ∧ c ≠ '#'

theorem clean_append {rest text : List Char} (hrest : rest.all Text.isIdentContinue = true)
    (hstop : stopsWord text = true) : Clean (rest ++ text) := by
  intro c hc
  cases rest with
  | nil =>
    rw [List.nil_append] at hc
    simp only [stopsWord, hc, Option.all_some, Bool.and_eq_true, decide_eq_true_eq] at hstop
    exact ⟨hstop.1.1.2, hstop.1.2, hstop.2⟩
  | cons d rest =>
    obtain rfl : d = c := by simpa using hc
    have hd : Text.isIdentContinue d = true := by simp at hrest; exact hrest.1
    exact ⟨ne_of_isIdentContinue hd (by decide), ne_of_isIdentContinue hd (by decide),
      ne_of_isIdentContinue hd (by decide)⟩

theorem readPounds_of_clean {text : List Char} (h : Clean text) (family : Literal.Family) :
    Literal.readPounds family text = none := by
  cases text with
  | nil => rfl
  | cons c text =>
    obtain ⟨hquote, -, hpound⟩ := h c rfl
    have hne : (c == '#') = false := by simpa using hpound
    simp [Literal.readPounds, List.takeWhile, hne, hquote]

/-- A number begins with a digit. -/
theorem readNumber_of_not_isDigit {c : Char} (hc : c.isDigit = false) (text : List Char) :
    Literal.readNumber (c :: text) = none := by
  simp [Literal.readNumber, hc]

/-- No literal begins with a letter that the rest of a word follows. -/
theorem read_of_clean {c : Char} {text : List Char} (hc : Text.isIdentStart c = true)
    (h : Clean text) (hnext : ∀ d rest, text = d :: rest → d = 'r' → Clean rest) :
    Literal.read (c :: text) = none := by
  have hletter := Text.isIdentContinue_of_isIdentStart hc
  unfold Literal.read
  split
  · rename_i heq
    exact absurd (List.cons.inj heq).1 (ne_of_isIdentContinue hletter (by decide))
  · rename_i heq
    obtain ⟨-, rfl⟩ := List.cons.inj heq
    simp [readPounds_of_clean h]
  · rename_i heq
    obtain ⟨-, rfl⟩ := List.cons.inj heq
    exact absurd rfl (h _ rfl).1
  · rename_i heq
    obtain ⟨-, rfl⟩ := List.cons.inj heq
    simp [readPounds_of_clean (hnext _ _ rfl rfl)]
  · rename_i heq
    obtain ⟨-, rfl⟩ := List.cons.inj heq
    exact absurd rfl (h _ rfl).2.1
  · rename_i heq
    obtain ⟨-, rfl⟩ := List.cons.inj heq
    exact absurd rfl (h _ rfl).1
  · rename_i heq
    obtain ⟨-, rfl⟩ := List.cons.inj heq
    simp [readPounds_of_clean (hnext _ _ rfl rfl)]
  · rename_i heq
    exact absurd (List.cons.inj heq).1 (ne_of_isIdentContinue hletter (by decide))
  · exact readNumber_of_not_isDigit (isDigit_of_isIdentStart hc) text

theorem opensLiteral_of_clean {c : Char} {text : List Char} (h : Clean text)
    (hnext : ∀ d rest, text = d :: rest → d = 'r' → Clean rest) :
    opensLiteral (c :: text) = false := by
  rcases text with _ | ⟨d, text⟩
  · simp [opensLiteral, startsWith, List.isPrefixOf]
  · obtain ⟨hquote, htick, hpound⟩ := h d rfl
    have hquote' : ('"' == d) = false := by simpa using Ne.symm hquote
    have htick' : ('\'' == d) = false := by simpa using Ne.symm htick
    have hpound' : ('#' == d) = false := by simpa using Ne.symm hpound
    rcases text with _ | ⟨e, text⟩
    · simp [opensLiteral, startsWith, List.isPrefixOf, hquote', htick', hpound']
    · by_cases hd : d = 'r'
      · obtain ⟨hquote, -, hpound⟩ := hnext d _ rfl hd e rfl
        have hquoteE : ('"' == e) = false := by simpa using Ne.symm hquote
        have hpoundE : ('#' == e) = false := by simpa using Ne.symm hpound
        simp [opensLiteral, startsWith, List.isPrefixOf, hquote', htick', hpound', hquoteE, hpoundE]
      · have hd' : ('r' == d) = false := by simpa using Ne.symm hd
        simp [opensLiteral, startsWith, List.isPrefixOf, hquote', htick', hpound', hd']

theorem takeWhile_append_of_stops {rest text : List Char}
    (hrest : rest.all Text.isIdentContinue = true) (hstop : stopsWord text = true) :
    (rest ++ text).takeWhile Text.isIdentContinue = rest
      ∧ (rest ++ text).dropWhile Text.isIdentContinue = text := by
  have hall : ∀ c ∈ rest, Text.isIdentContinue c = true := List.all_eq_true.mp hrest
  have htext : text.takeWhile Text.isIdentContinue = []
      ∧ text.dropWhile Text.isIdentContinue = text := by
    cases text with
    | nil => exact ⟨rfl, rfl⟩
    | cons c text =>
      have hc : Text.isIdentContinue c = false := by
        simp only [stopsWord, List.head?_cons, Option.all_some, Bool.and_eq_true] at hstop
        simpa using hstop.1.1.1
      simp [List.takeWhile, List.dropWhile, hc]
  rw [List.takeWhile_append_of_pos hall, List.dropWhile_append_of_pos hall, htext.1, htext.2]
  exact ⟨List.append_nil _, rfl⟩

theorem isName_cons {name : List Char} (h : isName name = true) :
    ∃ c rest, name = c :: rest ∧ Text.isIdentStart c = true
      ∧ rest.all Text.isIdentContinue = true := by
  cases name with
  | nil => cases h
  | cons c rest =>
    simp only [isName, Bool.and_eq_true] at h
    exact ⟨c, rest, rfl, h.1, h.2⟩

/-- The front of a word without its first letter is clean. -/
theorem clean_of_word {rest text : List Char} (hrest : rest.all Text.isIdentContinue = true)
    (hstop : stopsWord text = true) :
    ∀ d front, rest ++ text = d :: front → d = 'r' → Clean front := by
  intro d front heq hd
  cases rest with
  | nil =>
    rw [List.nil_append] at heq
    rw [heq, hd] at hstop
    exact absurd hstop (by simp only [stopsWord, List.head?_cons, Option.all_some]; decide)
  | cons e rest =>
    obtain ⟨-, rfl⟩ := List.cons.inj heq
    simp only [List.all_cons, Bool.and_eq_true] at hrest
    exact clean_append hrest.2 hstop

theorem readIdent_word {raw : Bool} {name : String} {text : List Char}
    (hword : isWord raw name = true) (hstop : stopsWord text = true) :
    readIdent ((Token.identText raw name).toList ++ text) = some (raw, name, text) := by
  simp only [isWord, Bool.and_eq_true] at hword
  obtain ⟨c, rest, hname, hc, hrest⟩ := isName_cons hword.1
  obtain ⟨htake, hdrop⟩ := takeWhile_append_of_stops hrest hstop
  have hofList : String.ofList (c :: rest) = name := by rw [← hname, String.ofList_toList]
  cases raw with
  | true =>
    have hfront : (Token.identText true name).toList ++ text
        = 'r' :: '#' :: (c :: rest ++ text) := by
      simp [Token.identText, hname]
    rw [hfront]
    simpa [readIdent, startsWith, List.isPrefixOf, hc, htake, hdrop, hofList] using hword.2
  | false =>
    have hclean := clean_append hrest hstop
    have hraw : startsWith "r#" (c :: (rest ++ text)) = false := by
      rcases hrt : rest ++ text with _ | ⟨d, u⟩
      · simp [startsWith, List.isPrefixOf]
      · rw [hrt] at hclean
        have hpound : ('#' == d) = false := by simpa using Ne.symm (hclean d rfl).2.2
        simp [startsWith, List.isPrefixOf, hpound]
    rw [show (Token.identText false name).toList ++ text = c :: (rest ++ text) by
      simp [Token.identText, hname]]
    simp [readIdent, hraw, hc, htake, hdrop, hofList]

/-- What an identifier and what follows it look like from its first character. -/
theorem word_front {raw : Bool} {name : String} {text : List Char}
    (hword : isWord raw name = true) (hstop : stopsWord text = true) :
    ∃ c rest, (Token.identText raw name).toList ++ text = c :: rest ∧ isBlank c = false
      ∧ Text.isIdentStart c = true ∧ Literal.read (c :: rest) = none
      ∧ opensLiteral (c :: rest) = false := by
  simp only [isWord, Bool.and_eq_true] at hword
  obtain ⟨c, rest, hname, hc, hrest⟩ := isName_cons hword.1
  cases raw with
  | true =>
    have hletter := Text.isIdentContinue_of_isIdentStart hc
    have hquote : ('"' == c) = false := by
      simpa using (ne_of_isIdentContinue hletter (by decide)).symm
    have hpound : ('#' == c) = false := by
      simpa using (ne_of_isIdentContinue hletter (by decide)).symm
    have hfront : (Token.identText true name).toList ++ text
        = 'r' :: '#' :: (c :: rest ++ text) := by
      simp [Token.identText, hname]
    have hblank : isBlank 'r' = false := by decide
    have hstart : Text.isIdentStart 'r' = true := by decide
    refine ⟨'r', '#' :: (c :: rest ++ text), hfront, hblank, hstart, ?_, ?_⟩
    · have hpounds : (c == '#') = false := by rw [Bool.beq_comm]; exact hpound
      have hne : c ≠ '"' := (ne_of_isIdentContinue hletter (by decide))
      simp [Literal.read, Literal.readPounds, List.takeWhile, hpounds, hne]
    · simp [opensLiteral, startsWith, List.isPrefixOf, hquote, hpound]
  | false =>
    have hclean := clean_append hrest hstop
    have hnext := clean_of_word hrest hstop
    have hblank : isBlank c = false := by simpa [hname] using hword.2
    exact ⟨c, rest ++ text, by simp [Token.identText, hname], hblank, hc,
      read_of_clean hc hclean hnext, opensLiteral_of_clean hclean hnext⟩

theorem opens_of_isIdentContinue {c : Char} (hc : Text.isIdentContinue c = true) :
    opens c = none := by
  rw [opens, if_neg (ne_of_isIdentContinue hc (by decide)),
    if_neg (ne_of_isIdentContinue hc (by decide)), if_neg (ne_of_isIdentContinue hc (by decide))]

theorem closes_of_isIdentContinue {c : Char} (hc : Text.isIdentContinue c = true) :
    closes c = none := by
  rw [closes, if_neg (ne_of_isIdentContinue hc (by decide)),
    if_neg (ne_of_isIdentContinue hc (by decide)), if_neg (ne_of_isIdentContinue hc (by decide))]

/-- A word is read as an identifier. -/
theorem goes_word {raw : Bool} {name : String} {text : List Char}
    (hword : isWord raw name = true) (hstop : stopsWord text = true) (place : Position)
    (groups : List OpenGroup) (done : List Token) :
    Goes ⟨(Token.identText raw name).toList ++ text, place⟩ groups done
      ⟨text, place.after (Token.identText raw name).toList⟩ groups
      (.ident raw name place :: done) := by
  obtain ⟨c, rest, htext, hblank, hc, hread, hopens⟩ := word_front hword hstop
  have hletter := Text.isIdentContinue_of_isIdentStart hc
  have hident := readIdent_word hword hstop
  have hskip := skip_append (Token.identText raw name).toList text place
  have hlength : text.length < ((Token.identText raw name).toList ++ text).length := by
    have hname : name.toList ≠ [] := by
      intro hnil
      simp [isWord, hnil, isName] at hword
    have hpos : 0 < (Token.identText raw name).toList.length := by
      cases raw <;> simp [Token.identText, List.length_pos_iff, hname]
    rw [List.length_append]
    omega
  rw [htext] at hident hskip hlength ⊢
  have hpunct : punctAhead (c :: rest) = false := by
    simp [punctAhead, isPunct_of_isIdentContinue hletter]
  have hleaf : readLeaf ⟨c :: rest, place⟩
      = some (.ident raw name place, ⟨text, place.after (Token.identText raw name).toList⟩) := by
    have htick : c ≠ '\'' := ne_of_isIdentContinue hletter (by decide)
    have hfailed := startsWith_failedExpansion (ne_of_isIdentContinue hletter (by decide)) rest
    simp only [readLeaf, hread, htick, hpunct, hfailed, hopens, hident, if_false,
      Bool.false_eq_true, Option.map_some]
    rw [String.length, hskip]
  exact .step hlength fun fuel => run_leaf hblank (ne_of_isIdentContinue hletter (by decide))
    (opens_of_isIdentContinue hletter) (closes_of_isIdentContinue hletter) hleaf fuel groups done

/-- A literal that no quote and no letter begins is a number. -/
theorem read_of_other {c : Char} (hquote : c ≠ '"') (hr : c ≠ 'r') (hb : c ≠ 'b') (hc : c ≠ 'c')
    (htick : c ≠ '\'') (text : List Char) :
    Literal.read (c :: text) = Literal.readNumber (c :: text) := by
  unfold Literal.read
  split <;> rename_i heq
  all_goals first | rfl | (obtain ⟨rfl, -⟩ := List.cons.inj heq; contradiction)

/-- Facts about a punctuation that is a token wherever it stands. -/
theorem isMark_facts {c : Char} (h : isMark c = true) :
    isBlank c = false ∧ c ≠ '/' ∧ c ≠ '\'' ∧ c ≠ '(' ∧ opens c = none ∧ closes c = none ∧
      isPunct c = true ∧ ∀ text, Literal.read (c :: text) = none := by
  simp only [isMark, Bool.and_eq_true, decide_eq_true_eq] at h
  obtain ⟨⟨hpunct, htick⟩, hslash⟩ := h
  have hmem : c ∈ "~!@#$%^&*-=+|;:,<.>/?'".toList := by simpa [isPunct] using hpunct
  have hall : ∀ d ∈ "~!@#$%^&*-=+|;:,<.>/?'".toList, isBlank d = false ∧ d ≠ '(' ∧
      opens d = none ∧ closes d = none ∧ d ≠ '"' ∧ d ≠ 'r' ∧ d ≠ 'b' ∧ d ≠ 'c' ∧
      d.isDigit = false := forall_mem_of_all (by decide +kernel)
  obtain ⟨hblank, hparen, hopens, hcloses, hquote, hr, hb, hc, hdigit⟩ := hall c hmem
  refine ⟨hblank, hslash, htick, hparen, hopens, hcloses, hpunct, fun text => ?_⟩
  rw [read_of_other hquote hr hb hc htick]
  exact readNumber_of_not_isDigit hdigit text

/-- Punctuation is read as such, joint with one that follows it. -/
theorem goes_mark {c : Char} (h : isMark c = true) (text : List Char) (place : Position)
    (groups : List OpenGroup) (done : List Token) :
    Goes ⟨c :: text, place⟩ groups done ⟨text, place.after [c]⟩ groups
      (.punct c (spacingBefore text) place :: done) := by
  obtain ⟨hblank, hslash, htick, hparen, hopens, hcloses, hpunct, hread⟩ := isMark_facts h
  have hahead : punctAhead (c :: text) = true := by
    have hne : ('/' == c) = false := by simpa using Ne.symm hslash
    simp [punctAhead, startsWith, List.isPrefixOf, hne, hpunct]
  have hleaf : readLeaf ⟨c :: text, place⟩
      = some (.punct c (spacingBefore text) place, ⟨text, place.after [c]⟩) := by
    simp only [readLeaf, hread, htick, hahead, if_false, if_true]
    rfl
  exact .step (Nat.lt_succ_self _) fun fuel =>
    run_leaf hblank hslash hopens hcloses hleaf fuel groups done

/-- A word after a quote is no character between quotes. -/
theorem readCharBody_word {raw : Bool} {name : String} {text : List Char}
    (hword : isWord raw name = true) (hstop : stopsWord text = true) :
    Literal.readCharBody .text ((Token.identText raw name).toList ++ text) = none := by
  simp only [isWord, Bool.and_eq_true] at hword
  obtain ⟨c, rest, hname, hc, hrest⟩ := isName_cons hword.1
  cases raw with
  | true => simp [Token.identText, hname, Literal.readCharBody]
  | false =>
    have hletter := Text.isIdentContinue_of_isIdentStart hc
    have hslash : c ≠ '\\' := ne_of_isIdentContinue hletter (by decide)
    have hclean := clean_append hrest hstop
    rw [show Token.identText false name = name from rfl, hname, List.cons_append]
    rcases hrt : rest ++ text with _ | ⟨d, front⟩
    · simp [Literal.readCharBody, hslash]
    · rw [hrt] at hclean
      have htick := (hclean d rfl).2.1
      simp [Literal.readCharBody, hslash, htick]

/-- The mark of a lifetime is read as punctuation joint with the name after it. -/
theorem goes_tick {raw : Bool} {name : String} {text : List Char} (hword : isWord raw name = true)
    (hstop : stopsWord text = true) (place : Position) (groups : List OpenGroup)
    (done : List Token) :
    Goes ⟨'\'' :: ((Token.identText raw name).toList ++ text), place⟩ groups done
      ⟨(Token.identText raw name).toList ++ text, place.after ['\'']⟩ groups
      (.punct '\'' .joint place :: done) := by
  have hident := readIdent_word hword hstop
  have hbody := readCharBody_word hword hstop
  have hahead : lifetimeAhead ('\'' :: ((Token.identText raw name).toList ++ text)) = true := by
    simp only [lifetimeAhead, hident]
    cases text with
    | nil => rfl
    | cons d text =>
      simp only [stopsWord, List.head?_cons, Option.all_some, Bool.and_eq_true,
        decide_eq_true_eq] at hstop
      simp [hstop.1.2, hstop.2]
  have hleaf : readLeaf ⟨'\'' :: ((Token.identText raw name).toList ++ text), place⟩
      = some (.punct '\'' .joint place,
          ⟨(Token.identText raw name).toList ++ text, place.after ['\'']⟩) := by
    simp only [readLeaf, Literal.read, hbody, hahead, Option.map_none, if_true]
    rfl
  have hblank : isBlank '\'' = false := by decide
  have hopens : opens '\'' = none := by decide
  have hcloses : closes '\'' = none := by decide
  exact .step (Nat.lt_succ_self _) fun fuel =>
    run_leaf hblank (by decide) hopens hcloses hleaf fuel groups done

/-- What a literal begins with. -/
theorem read_front {c : Char} {rest tail : List Char} (h : Literal.read (c :: rest) = some tail) :
    c ∈ ['"', 'r', 'b', 'c', '\''] ∨ c.isDigit = true := by
  by_cases hc : c ∈ ['"', 'r', 'b', 'c', '\'']
  · exact .inl hc
  · simp only [List.mem_cons, List.not_mem_nil, or_false, not_or] at hc
    obtain ⟨hquote, hr, hb, hc, htick⟩ := hc
    rw [read_of_other hquote hr hb hc htick] at h
    cases hdigit : c.isDigit with
    | true => exact .inr rfl
    | false => rw [readNumber_of_not_isDigit hdigit] at h; cases h

/-- What begins a literal is neither a blank nor a delimiter, and begins no comment. -/
theorem read_front_facts {c : Char} {rest tail : List Char}
    (h : Literal.read (c :: rest) = some tail) :
    isBlank c = false ∧ c ≠ '/' ∧ c ≠ '*' ∧ opens c = none ∧ closes c = none := by
  rcases read_front h with hc | hdigit
  · have hall : ∀ d ∈ ['"', 'r', 'b', 'c', '\''],
        isBlank d = false ∧ d ≠ '/' ∧ d ≠ '*' ∧ opens d = none ∧ closes d = none :=
      forall_mem_of_all (by decide)
    exact hall c hc
  · have hmem : c ∈ "0123456789".toList := by
      have hrange : 48 ≤ c.toNat ∧ c.toNat ≤ 57 := by
        simpa [Char.isDigit, UInt32.le_iff_toNat_le] using hdigit
      have hall : ∀ n : Fin 10, Char.ofNat (48 + n.val) ∈ "0123456789".toList := by decide +kernel
      have hc := hall ⟨c.toNat - 48, by omega⟩
      rwa [Nat.add_sub_cancel' hrange.1, Char.ofNat_toNat] at hc
    have hall : ∀ d ∈ "0123456789".toList,
        isBlank d = false ∧ d ≠ '/' ∧ d ≠ '*' ∧ opens d = none ∧ closes d = none :=
      forall_mem_of_all (by decide +kernel)
    exact hall c hmem

/-- A literal is read as a whole. -/
theorem goes_literal {c : Char} {lit text : List Char}
    (hread : Literal.read (c :: lit ++ text) = some text) (place : Position)
    (groups : List OpenGroup) (done : List Token) :
    Goes ⟨c :: lit ++ text, place⟩ groups done ⟨text, place.after (c :: lit)⟩ groups
      (.literal (String.ofList (c :: lit)) place :: done) := by
  obtain ⟨hblank, hslash, -, hopens, hcloses⟩ := read_front_facts hread
  have hleaf : readLeaf ⟨c :: lit ++ text, place⟩
      = some (.literal (String.ofList (c :: lit)) place, ⟨text, place.after (c :: lit)⟩) := by
    simp only [readLeaf, hread, upTo_append]
    rw [skip_append]
  exact .step (by simp only [List.length_append, List.length_cons]; omega) fun fuel =>
    run_leaf hblank hslash hopens hcloses hleaf fuel groups done

/-- What begins some tokens, or follows them, begins no block comment. -/
theorem Spells.opensNoComment {text next : List Char} {ts : List Token} (h : Spells text ts next)
    (hnext : next.head? ≠ some '/') : startsWith "/*" text = false := by
  have hhead : ∀ {c : Char} {rest : List Char}, c ≠ '/' → startsWith "/*" (c :: rest) = false := by
    intro c rest hc
    have hne : ('/' == c) = false := by simpa using Ne.symm hc
    simp [startsWith, List.isPrefixOf, hne]
  cases h with
  | done =>
    cases text with
    | nil => rfl
    | cons c rest => exact hhead fun heq => hnext (by rw [heq]; rfl)
  | blank hblank => exact hhead (by rintro rfl; exact absurd hblank (by decide))
  | word hword hstop =>
    obtain ⟨c, rest, htext, -, hc, -⟩ := word_front hword hstop
    rw [htext]
    exact hhead (ne_of_isIdentContinue (Text.isIdentContinue_of_isIdentStart hc) (by decide))
  | mark hmark => exact hhead (isMark_facts hmark).2.1
  | lifetime => exact hhead (by decide)
  | literal hfirst =>
    exact hhead (by rintro rfl; exact absurd hfirst (by decide))
  | @group d _ _ _ _ _ hd =>
    cases d with
    | invisible => exact absurd rfl hd
    | _ => exact hhead (by decide)
  | doc => rfl

theorem opens_opening {d : Delimiter} (hd : d ≠ .invisible) :
    ∃ c, d.opening.toList = [c] ∧ c ≠ '/' ∧ isBlank c = false ∧ opens c = some d := by
  cases d with
  | parenthesis => exact ⟨'(', rfl, by decide⟩
  | bracket => exact ⟨'[', rfl, by decide⟩
  | brace => exact ⟨'\x7b', rfl, by decide⟩
  | invisible => exact absurd rfl hd

theorem closes_closing {d : Delimiter} (hd : d ≠ .invisible) :
    ∃ c, d.closing.toList = [c] ∧ c ≠ '/' ∧ c ≠ '(' ∧ isBlank c = false ∧ opens c = none
      ∧ closes c = some d := by
  cases d with
  | parenthesis => exact ⟨')', rfl, by decide⟩
  | bracket => exact ⟨']', rfl, by decide⟩
  | brace => exact ⟨'\x7d', rfl, by decide⟩
  | invisible => exact absurd rfl hd

/-- An opening delimiter begins a group. -/
theorem goes_opening {d : Delimiter} (hd : d ≠ .invisible) {text : List Char}
    (htext : startsWith "/*" text = false) (place : Position) (groups : List OpenGroup)
    (done : List Token) :
    ∃ place', Goes ⟨d.opening.toList ++ text, place⟩ groups done ⟨text, place'⟩
      (⟨d, place, done⟩ :: groups) [] := by
  obtain ⟨c, hopening, hslash, hblank, hopens⟩ := opens_opening hd
  rw [hopening]
  have hfailed : startsWith failedExpansion (c :: text) = false := by
    rcases text with _ | ⟨a, _ | ⟨b, text⟩⟩
    · simp [startsWith, failedExpansion, List.isPrefixOf]
    · simp [startsWith, failedExpansion, List.isPrefixOf]
    · have hfront : ('/' == a && '*' == b) = false := by
        simpa [startsWith, List.isPrefixOf] using htext
      rcases Bool.and_eq_false_iff.mp hfront with hne | hne <;>
        simp [startsWith, failedExpansion, List.isPrefixOf, hne]
  refine ⟨place.after [c], .step (Nat.lt_succ_self _) fun fuel => ?_⟩
  simp [run, hblank, passComment_of_ne hslash, docComment?_of_ne hslash, hfailed, hopens,
    Cursor.skip]

/-- A closing delimiter ends the group that it belongs to. -/
theorem goes_closing {d : Delimiter} (hd : d ≠ .invisible) (text : List Char)
    (place opening : Position) (groups : List OpenGroup) (before done : List Token) :
    ∃ place', Goes ⟨d.closing.toList ++ text, place⟩ (⟨d, opening, before⟩ :: groups) done
      ⟨text, place'⟩ groups (.group d done.reverse opening place :: before) := by
  obtain ⟨c, hclosing, hslash, hparen, hblank, hopens, hcloses⟩ := closes_closing hd
  rw [hclosing]
  refine ⟨place.after [c], .step (Nat.lt_succ_self _) fun fuel => ?_⟩
  simp [run, hblank, passComment_of_ne hslash, docComment?_of_ne hslash,
    startsWith_failedExpansion hparen, hopens, hcloses, Cursor.skip]

theorem takeLine_docLine {line : List Char} (h : ∀ c ∈ line, c ≠ '\n' ∧ c ≠ '\r')
    (text : List Char) : takeLine (line ++ '\n' :: text) = (line, '\n' :: text) := by
  induction line with
  | nil => rfl
  | cons c line ih =>
    obtain ⟨hfeed, hreturn⟩ := h c List.mem_cons_self
    rw [List.cons_append, takeLine.eq_4 _ _ (fun h => hfeed h) (fun _ h => absurd h hreturn),
      ih fun d hd => h d (List.mem_cons_of_mem c hd)]

theorem hasBareReturn_docLine {line : List Char} (h : ∀ c ∈ line, c ≠ '\n' ∧ c ≠ '\r') :
    hasBareReturn line = false := by
  induction line with
  | nil => rfl
  | cons c line ih =>
    rw [hasBareReturn.eq_3 _ _ (h c List.mem_cons_self).2]
    exact ih fun d hd => h d (List.mem_cons_of_mem c hd)

theorem not_startsWith_fourth {line : List Char} (hslash : line.head? ≠ some '/')
    (text : List Char) :
    startsWith "////" ('/' :: '/' :: '/' :: (line ++ '\n' :: text)) = false := by
  cases line with
  | nil => rfl
  | cons c line =>
    have hne : ('/' == c) = false := by simpa using Ne.symm (fun h => hslash (by rw [h]; rfl))
    simp [startsWith, List.isPrefixOf, hne]

/-- The characters that begin a line of documentation. -/
def docMark (inner : Bool) : List Char := ['/', '/', if inner then '!' else '/']

theorem passComment_doc {inner : Bool} {line : List Char}
    (hslash : inner = false → line.head? ≠ some '/') (text : List Char) :
    passComment (docMark inner ++ (line ++ '\n' :: text)) = none := by
  cases inner with
  | true => simp [docMark, passComment, startsWith, List.isPrefixOf]
  | false =>
    have hfour := not_startsWith_fourth (hslash rfl) text
    have hthree : startsWith "///" ('/' :: '/' :: '/' :: (line ++ '\n' :: text)) = true := rfl
    have hstar : ∀ word ∈ ["/*", "/*!", "/**", "/**/"],
        startsWith word ('/' :: '/' :: '/' :: (line ++ '\n' :: text)) = false := by
      simp [startsWith, List.isPrefixOf]
    simp [docMark, passComment, hthree, hfour, hstar]

theorem docComment?_doc {inner : Bool} {line : List Char}
    (hline : ∀ c ∈ line, c ≠ '\n' ∧ c ≠ '\r') (hslash : inner = false → line.head? ≠ some '/')
    (text : List Char) :
    docComment? (docMark inner ++ (line ++ '\n' :: text)) = some ⟨line, inner, '\n' :: text⟩ := by
  cases inner with
  | true =>
    have hbang : startsWith "//!" ('/' :: '/' :: '!' :: (line ++ '\n' :: text)) = true := rfl
    simp only [docMark, docComment?, if_true, List.cons_append, List.nil_append, hbang]
    change Option.filter _ (some (⟨(takeLine (line ++ '\n' :: text)).1, true,
      (takeLine (line ++ '\n' :: text)).2⟩ : DocComment)) = _
    simp [takeLine_docLine hline, hasBareReturn_docLine hline]
  | false =>
    have hfour := not_startsWith_fourth (hslash rfl) text
    have hthree : startsWith "///" ('/' :: '/' :: '/' :: (line ++ '\n' :: text)) = true := rfl
    have hother : ∀ word ∈ ["//!", "/*!"],
        startsWith word ('/' :: '/' :: '/' :: (line ++ '\n' :: text)) = false := by
      simp [startsWith, List.isPrefixOf]
    simp only [docMark, docComment?, hthree, hfour, hother, List.cons_append, List.nil_append,
      List.mem_cons, true_or, or_true, if_true, if_false, Bool.false_eq_true, Bool.not_false,
      Bool.and_self]
    change Option.filter _ (some (⟨(takeLine (line ++ '\n' :: text)).1, false,
      (takeLine (line ++ '\n' :: text)).2⟩ : DocComment)) = _
    simp [takeLine_docLine hline, hasBareReturn_docLine hline]

/-- A line of documentation is read as an attribute. -/
theorem goes_doc {inner : Bool} {line : List Char} (hline : ∀ c ∈ line, c ≠ '\n' ∧ c ≠ '\r')
    (hslash : inner = false → line.head? ≠ some '/') (text : List Char) (place : Position)
    (groups : List OpenGroup) (done : List Token) :
    ∃ place', Goes ⟨docMark inner ++ (line ++ '\n' :: text), place⟩ groups done
      ⟨'\n' :: text, place'⟩ groups
      ((DocComment.tokens ⟨line, inner, '\n' :: text⟩ place).reverse ++ done) := by
  have hpass := passComment_doc hslash text
  have hdoc := docComment?_doc hline hslash text
  refine ⟨place.after (docMark inner ++ line), .step ?_ fun fuel => ?_⟩
  · simp only [docMark, List.length_cons, List.length_append]
    omega
  · have hblank : isBlank '/' = false := by decide
    have hmove := moveTo_append (docMark inner ++ line) ('\n' :: text) place
    simp only [docMark, List.cons_append, List.nil_append] at hpass hdoc hmove
    simp only [docMark, List.cons_append, List.nil_append, run, hblank, hpass, hdoc,
      Bool.false_eq_true, if_false, hmove]

theorem isDocLine_iff {line : List Char} :
    isDocLine line = true ↔ (∀ c ∈ line, c ≠ '\n' ∧ c ≠ '\r') ∧ line.head? ≠ some '/' := by
  simp [isDocLine]

/-- A blank is passed over. -/
theorem goes_blank {c : Char} (hblank : isBlank c = true) (text : List Char) (place : Position)
    (groups : List OpenGroup) (done : List Token) :
    Goes ⟨c :: text, place⟩ groups done ⟨text, place.after [c]⟩ groups done :=
  .step (Nat.lt_succ_self _) fun fuel => by simp [run, hblank, Cursor.skip]

/-- A text is read as the tokens that it spells. -/
theorem Spells.goes {text next : List Char} {ts : List Token} (h : Spells text ts next)
    (place : Position) (groups : List OpenGroup) (done : List Token) :
    ∃ read place', unplacedTokens read = ts ∧
      Goes ⟨text, place⟩ groups done ⟨next, place'⟩ groups (read.reverse ++ done) := by
  induction h generalizing place groups done with
  | done next => exact ⟨[], place, rfl, .refl _ _ _⟩
  | @blank c text ts next hblank _ ih =>
    obtain ⟨read, place', hread, hgoes⟩ := ih (place.after [c]) groups done
    exact ⟨read, place', hread, (goes_blank hblank text place groups done).trans hgoes⟩
  | @word raw name text ts next hword hstop _ ih =>
    obtain ⟨read, place', hread, hgoes⟩ := ih (place.after (Token.identText raw name).toList) groups
      (.ident raw name place :: done)
    refine ⟨.ident raw name place :: read, place', by
      rw [unplacedTokens, hread, Token.unplaced], ?_⟩
    rw [List.reverse_cons, List.append_assoc]
    exact (goes_word hword hstop place groups done).trans hgoes
  | @mark c text ts next hmark _ ih =>
    obtain ⟨read, place', hread, hgoes⟩ := ih (place.after [c]) groups
      (.punct c (spacingBefore text) place :: done)
    refine ⟨.punct c (spacingBefore text) place :: read, place',
      by rw [unplacedTokens, hread, Token.unplaced], ?_⟩
    rw [List.reverse_cons, List.append_assoc]
    exact (goes_mark hmark text place groups done).trans hgoes
  | @lifetime name text ts next hword hstop _ ih =>
    let after := place.after ['\'']
    obtain ⟨read, place', hread, hgoes⟩ := ih (after.after name.toList) groups
      (.ident false name after :: .punct '\'' .joint place :: done)
    refine ⟨.punct '\'' .joint place :: .ident false name after :: read, place',
      by simp only [unplacedTokens, hread, Token.unplaced], ?_⟩
    rw [List.reverse_cons, List.reverse_cons, List.append_assoc, List.append_assoc]
    exact (goes_tick hword hstop place groups done).trans
      ((goes_word hword hstop after groups _).trans hgoes)
  | @literal c lit text ts next hfirst hlit _ ih =>
    obtain ⟨read, place', hread, hgoes⟩ := ih (place.after (c :: lit)) groups
      (.literal (String.ofList (c :: lit)) place :: done)
    refine ⟨.literal (String.ofList (c :: lit)) place :: read, place',
      by rw [unplacedTokens, hread, Token.unplaced], ?_⟩
    rw [List.reverse_cons, List.append_assoc]
    exact (goes_literal hlit place groups done).trans hgoes
  | @group d inner body text ts next hd hbody _ ihbody ih =>
    have hnext : (d.closing.toList ++ text).head? ≠ some '/' := by
      obtain ⟨c, hclosing, hslash, -⟩ := closes_closing hd
      rw [hclosing]
      exact fun h => hslash (Option.some.inj h)
    obtain ⟨inside, hopening⟩ := goes_opening hd (hbody.opensNoComment hnext) place groups done
    obtain ⟨readBody, outside, hreadBody, hgoesBody⟩ :=
      ihbody inside (⟨d, place, done⟩ :: groups) []
    obtain ⟨after, hclosing⟩ := goes_closing hd text outside place groups done
      (readBody.reverse ++ [])
    obtain ⟨read, place', hread, hgoes⟩ := ih after groups (.group d readBody place outside :: done)
    refine ⟨.group d readBody place outside :: read, place',
      by rw [unplacedTokens, hread, Token.unplaced, hreadBody], ?_⟩
    rw [List.append_nil] at hgoesBody hclosing
    rw [List.reverse_reverse] at hclosing
    rw [List.reverse_cons, List.append_assoc]
    exact hopening.trans (hgoesBody.trans (hclosing.trans hgoes))
  | @doc line text ts next hline _ ih =>
    obtain ⟨hplain, hslash⟩ := isDocLine_iff.mp hline
    obtain ⟨after, hdoc⟩ := @goes_doc false line hplain (fun _ => hslash) text place groups
      done
    obtain ⟨read, place', hread, hgoes⟩ := ih after groups _
    refine ⟨DocComment.tokens ⟨line, false, '\n' :: text⟩ place ++ read, place', ?_, ?_⟩
    · rw [unplacedTokens_append, hread]
      rfl
    · rw [List.reverse_append, List.append_assoc]
      exact hdoc.trans hgoes

theorem dropMark_of_head {text : List Char} (h : text.head? ≠ some '\ufeff') :
    dropMark text = text := by
  cases text with
  | nil => rfl
  | cons c text => exact dropMark.eq_2 _ fun _ heq => h (by rw [heq]; rfl)

/-- A text that is read up to its end, with no group left open, has the tokens that were read. -/
theorem Goes.tokens {text : List Char} {place : Position} {done : List Token}
    (h : Goes ⟨text, .start⟩ [] [] ⟨[], place⟩ [] done) (hmark : text.head? ≠ some '\ufeff') :
    tokens text = .ok done.reverse := by
  have hdrop := dropMark_of_head hmark
  have hstart : Cursor.moveTo ⟨text, .start⟩ (dropMark text) = ⟨text, .start⟩ := by
    rw [hdrop]
    exact moveTo_append [] text .start
  obtain ⟨fuel, hfuel, hrun⟩ := h (text.length + 1) (Nat.lt_succ_self _)
  obtain ⟨fuel, rfl⟩ := Nat.exists_eq_succ_of_ne_zero (Nat.ne_zero_of_lt hfuel)
  rw [Lexer.tokens, hstart]
  exact hrun.trans (by rw [run])

/-- The whole of a text that spells some tokens is read as these tokens. -/
theorem Spells.tokens {text : List Char} {ts : List Token} (h : Spells text ts [])
    (hmark : text.head? ≠ some '\ufeff') :
    ∃ read, Lexer.tokens text = .ok read ∧ unplacedTokens read = ts := by
  obtain ⟨read, place', hread, hgoes⟩ := h.goes .start [] []
  refine ⟨read, ?_, hread⟩
  rw [hgoes.tokens hmark, List.append_nil, List.reverse_reverse]

end Observable.Lexer
