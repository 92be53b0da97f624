import Observable.Grammar.Source
import Observable.Proofs.Text.Case
import Observable.Proofs.Token.Spelling
/-! What a text that spells tokens begins with. -/
namespace Observable.Lexer

/-- Whether a character begins what is spelled other than by a mark. -/
def opensSpelling (c : Char) : Bool :=
  isBlank c || Text.isIdentStart c || c.isDigit || "\"'([\x7b/".toList.contains c

theorem opensSpelling_of_mem {c : Char} (h : c ∈ "\"'([\x7b/".toList) : opensSpelling c = true := by
  rw [opensSpelling, List.contains_iff_mem.mpr h, Bool.or_true]

/-- What a group is opened with. -/
theorem opening_eq {d : Delimiter} (hd : d ≠ .invisible) :
    ∃ c, d.opening.toList = [c] ∧ opensSpelling c = true := by
  cases d with
  | parenthesis => exact ⟨'(', rfl, opensSpelling_of_mem (by decide)⟩
  | bracket => exact ⟨'[', rfl, opensSpelling_of_mem (by decide)⟩
  | brace => exact ⟨'\x7b', rfl, opensSpelling_of_mem (by decide)⟩
  | invisible => exact absurd rfl hd

/-- What a text that spells tokens begins with. -/
theorem Spells.front {text next : List Char} {ts : List Token} (h : Spells text ts next) :
    text = next ∨ ∃ c rest, text = c :: rest ∧
      (opensSpelling c = true ∨ isMark c = true ∧
      ∃ us, ts = .punct c (spacingBefore rest) .start :: us) := by
  cases h with
  | done => exact .inl rfl
  | blank hblank => exact .inr ⟨_, _, rfl, .inl (by simp [opensSpelling, hblank])⟩
  | word hword hstop =>
    obtain ⟨c, rest, htext, -, hc, -⟩ := word_front hword hstop
    exact .inr ⟨c, rest, htext, .inl (by simp [opensSpelling, hc])⟩
  | mark hmark => exact .inr ⟨_, _, rfl, .inr ⟨hmark, _, rfl⟩⟩
  | lifetime => exact .inr ⟨_, _, rfl, .inl (opensSpelling_of_mem (by decide))⟩
  | literal hfirst =>
    refine .inr ⟨_, _, rfl, .inl ?_⟩
    rcases hfirst with rfl | hdigit
    · exact opensSpelling_of_mem (by decide)
    · simp [opensSpelling, hdigit]
  | group hd =>
    obtain ⟨c, htext, hc⟩ := opening_eq hd
    exact .inr ⟨c, _, by rw [htext]; rfl, .inl hc⟩
  | doc => exact .inr ⟨_, _, rfl, .inl (opensSpelling_of_mem (by decide))⟩

theorem opensSpelling_of_isIdentStart {c : Char} (hc : Text.isIdentStart c = false)
    (h : opensSpelling c = true) :
    (isBlank c || c.isDigit || "\"'([\x7b/".toList.contains c) = true := by
  simpa [opensSpelling, hc] using h

theorem isIdentStart_mark : Text.isIdentStart '\ufeff' = false := by
  refine Bool.eq_false_iff.mpr fun hstart => ?_
  have hink := Text.isInk_of_isIdentContinue (Text.isIdentContinue_of_isIdentStart hstart)
  exact absurd hink (by decide)

/-- A text that spells tokens begins with no byte order mark. -/
theorem Spells.head_ne_mark {text : List Char} {ts : List Token} (h : Spells text ts []) :
    text.head? ≠ some '\ufeff' := by
  rcases h.front with rfl | ⟨c, rest, rfl, hc⟩
  · simp
  · rintro heq
    cases Option.some.inj heq
    rcases hc with hopens | ⟨hmark, -⟩
    · exact absurd (opensSpelling_of_isIdentStart isIdentStart_mark hopens) (by decide)
    · exact absurd hmark (by decide)

/-- A text names no interpreter when what it spells begins with no joint `#`. -/
theorem Spells.dropInterpreter {text : List Char} {ts : List Token} (h : Spells text ts [])
    (hts : ∀ p rest, ts ≠ .punct '#' .joint p :: rest) : Grammar.dropInterpreter text = text := by
  have hfront : ∀ rest, text ≠ '#' :: '!' :: rest := by
    rintro rest rfl
    obtain hnil | ⟨c, more, heq, hopens | ⟨-, us, rfl⟩⟩ := h.front
    · cases hnil
    · cases heq
      exact absurd hopens (by decide)
    · cases heq
      exact hts _ _ rfl
  exact Grammar.dropInterpreter.eq_2 _ hfront

end Observable.Lexer
