import Observable.Property.Name
/-! What is read as an identifier. -/
namespace Observable

namespace Grammar

theorem ident_eq_ok {s s' : Input} {tree : Tree} (h : ident s = .ok (tree, s')) :
    ∃ raw name p rest, s.rest = .ident raw name p :: rest ∧ isIdentifier raw name = true ∧
      tree = .token (.ident raw name p) ∧ s' = { s with rest := rest } := by
  obtain ⟨tokens, close, delimiter, leftover⟩ := s
  have hone : ∀ {raw name p rest}, tokens = .ident raw name p :: rest →
      oneToken Look.ident (.expected [.identifier]) ⟨tokens, close, delimiter, leftover⟩
        = .ok (tree, s') → isIdentifier raw name = true ∧ tree = .token (.ident raw name p) ∧
          s' = ⟨rest, close, delimiter, leftover⟩ := by
    rintro raw name p rest rfl hone
    cases hfree : isIdentifier raw name with
    | false =>
      simp [oneToken, Look.ident, hfree] at hone
    | true =>
      simp only [oneToken, Look.ident, hfree, if_true] at hone
      cases hone
      exact ⟨rfl, rfl, rfl⟩
  rcases tokens with _ | ⟨⟨raw, name, p⟩ | _ | _ | _, rest⟩
  case cons.ident =>
    refine ⟨raw, name, p, rest, rfl, hone rfl ?_⟩
    cases raw with
    | true => exact h
    | false =>
      simp only [ident] at h
      split at h
      · exact h
      · cases h
  all_goals cases h

end Grammar

namespace Property

/-- An identifier is read from a text that holds one token, a word that is not reserved. -/
theorem identifier?_eq_some {text : String} {t : Token} (h : identifier? text = some t) :
    ∃ raw name p, t = .ident raw name p ∧ Grammar.isIdentifier raw name = true ∧
      Lexer.tokens text.toList = .ok [.ident raw name p] := by
  have hread : Grammar.readIdentifier text.toList = .ok (.token t) := by
    unfold identifier? at h
    split at h
    · rename_i hread
      rw [hread, Option.some.inj h]
    · cases h
  cases hlex : Lexer.tokens text.toList with
  | error place =>
    simp [Grammar.readIdentifier, Grammar.read, Grammar.tokensOf, hlex, bind, Except.bind] at hread
  | ok tokens =>
    have hall : Grammar.readAll tokens (fun _ => Grammar.ident) = .ok (.token t) := by
      simpa [Grammar.readIdentifier, Grammar.read, Grammar.tokensOf, hlex, bind, Except.bind]
        using hread
    simp only [Grammar.readAll, Grammar.readUpTo] at hall
    split at hall
    · rename_i tree s hident
      obtain ⟨raw, name, p, rest, hrest, hfree, rfl, rfl⟩ := Grammar.ident_eq_ok hident
      obtain rfl : tokens = .ident raw name p :: rest := hrest
      cases rest with
      | nil =>
        obtain rfl : t = .ident raw name p := by simpa [Grammar.Input.settled] using hall.symm
        exact ⟨raw, name, p, rfl, hfree, rfl⟩
      | cons => simp [Grammar.Input.settled] at hall
    · cases hall

end Property

end Observable
