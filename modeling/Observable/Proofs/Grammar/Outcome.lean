import Observable.Grammar.Parser
/-! Where a reader ends, as a relation between what stands ahead and what is read or refused. -/
namespace Observable.Grammar

/-- The place of the first of some tokens, or where they end. -/
def placeAhead (close : Position) : List Token → Position
  | t :: _ => t.place
  | [] => close

/-- A complaint about the first of some tokens, or about their end. -/
def refusedAt (close : Position) (ts : List Token) (c : Complaint) : SyntaxError :=
  { place := placeAhead close ts, complaint := c, atEnd := ts.isEmpty }

/-- Where a reader ends: with something bad that is wrong, or with something good and what is
left. -/
def Ends {α : Type} (p : Parser α) (s : Input) (bad : SyntaxError → Prop)
    (good : α → Input → Prop) : Prop :=
  match p s with
  | .ok (a, s') => good a s'
  | .error e => bad e

namespace Ends

variable {α β : Type} {p : Parser α} {q : α → Parser β} {s : Input} {bad bad' : SyntaxError → Prop}
  {m m' : α → Input → Prop} {good : β → Input → Prop} {look : List Token → Bool}

theorem pure {a : α} (h : m a s) : Ends (Pure.pure a) s bad m := h

theorem bind (hp : Ends p s bad m) (hq : ∀ a s', m a s' → Ends (q a) s' bad good) :
    Ends (p >>= q) s bad good := by
  have hbind : (p >>= q) s = (p s).bind fun r => q r.1 r.2 := rfl
  unfold Ends at hp ⊢
  rw [hbind]
  cases h : p s with
  | error e =>
    rw [h] at hp
    exact hp
  | ok r =>
    rw [h] at hp
    exact hq r.1 r.2 hp

theorem mono (h : Ends p s bad m) (hbad : ∀ e, bad e → bad' e)
    (hm : ∀ a s', m a s' → m' a s') : Ends p s bad' m' := by
  unfold Ends at h ⊢
  split
  · rename_i a s' hs
    rw [hs] at h
    exact hm a s' h
  · rename_i e hs
    rw [hs] at h
    exact hbad e h

/-- A reader that asks what stands ahead goes on with the answer. -/
theorem looking {f : Bool → Parser β} (h : Ends (f (look s.rest)) s bad good) :
    Ends (Grammar.looking look >>= f) s bad good := h

theorem ite {c : Prop} [Decidable c] {p' : Parser α} (h : c → Ends p s bad m)
    (h' : ¬ c → Ends p' s bad m) : Ends (if c then p else p') s bad m := by
  split
  · exact h ‹_›
  · exact h' ‹_›

/-- A test of what stands ahead decides between two readers. -/
theorem branch {p' : Parser α} (h : look s.rest = true → Ends p s bad m)
    (h' : look s.rest = false → Ends p' s bad m) :
    Ends (Grammar.looking look >>= fun b => if b = true then p else p') s bad m :=
  looking (ite h fun hlook => h' (Bool.not_eq_true _ ▸ hlook))

end Ends

section

variable {s : Input} {bad : SyntaxError → Prop}

theorem place_eq_placeAhead (s : Input) : s.place = placeAhead s.close s.rest := by
  unfold Input.place placeAhead
  split <;> simp_all

theorem ends_refuse {α : Type} {good : α → Input → Prop} {c : Complaint}
    (h : bad (refusedAt s.close s.rest c)) : Ends (refuse c) s bad good := by
  rw [refusedAt, ← place_eq_placeAhead] at h
  exact h

theorem ends_op {text : String} {good : Tree → Input → Prop}
    (hgood : Look.op text s.rest = true →
      good (.ofTokens (respaced (s.rest.take text.length)))
        { s with rest := s.rest.drop text.length })
    (hbad : Look.op text s.rest = false →
      bad { place := placeAhead s.close s.rest, complaint := .expected [.spelled text] }) :
    Ends (op text) s bad good := by
  unfold Ends op
  cases hlook : Look.op text s.rest with
  | true => exact hgood hlook
  | false => exact place_eq_placeAhead s ▸ hbad hlook

theorem ends_oneToken {look : List Token → Bool} {c : Complaint} {good : Tree → Input → Prop}
    (hgood : ∀ u rest, s.rest = u :: rest → look (u :: rest) = true →
      good (.token u) { s with rest := rest })
    (hbad : look s.rest = false ∨ s.rest = [] → bad (refusedAt s.close s.rest c)) :
    Ends (oneToken look c) s bad good := by
  unfold Ends oneToken
  cases hs : s.rest with
  | nil =>
    have hrefused := hbad (.inr hs)
    rw [hs] at hrefused
    exact hrefused
  | cons u rest =>
    cases hlook : look (u :: rest) with
    | true => exact hgood u rest hs hlook
    | false =>
      have hrefused := hbad (.inl (hs ▸ hlook))
      rw [hs] at hrefused
      exact hrefused

end

end Observable.Grammar
