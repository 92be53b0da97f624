import Observable.Proofs.Grammar.Blurred.Item
import Observable.Proofs.Token.Respaced
/-! A file is read of its tokens alike when they have another spacing where spacing does not
matter. -/
namespace Observable

open Blurs

mutual
/-- The places of punctuation whose spacing matters. -/
def Token.boundPlaces (next : Option Token) : Token → List Position
  | .punct c _ p => if bindsTo c next then [p] else []
  | .group _ body _ _ => boundPlaces body
  | _ => []

def boundPlaces : List Token → List Position
  | [] => []
  | t :: ts => t.boundPlaces ts.head? ++ boundPlaces ts
end

/-- Sees no spacing but that of the punctuation whose spacing matters in some tokens. -/
def Blur.settling (ts : List Token) : Blur where
  place := id
  place_start := rfl
  loose p := !(boundPlaces ts).contains p

/-- Sees no places. -/
def Blur.unplacing : Blur where
  place _ := .start
  place_start := rfl
  loose _ := false

variable {b : Blur}

theorem bindsTo_unspaced (c : Char) (ts : List Token) :
    bindsTo c (unspacedTokens ts).head? = bindsTo c ts.head? := by
  rcases ts with _ | ⟨_ | _ | _ | _, ts⟩ <;> rfl

mutual
theorem Token.boundPlaces_unspaced (t : Token) (ts : List Token) :
    t.unspaced.boundPlaces (unspacedTokens ts).head? = t.boundPlaces ts.head? := by
  cases t with
  | punct c s p => simp only [Token.unspaced, Token.boundPlaces, bindsTo_unspaced]
  | group d body p q => exact boundPlaces_unspaced body
  | _ => rfl

theorem boundPlaces_unspaced (ts : List Token) :
    boundPlaces (unspacedTokens ts) = boundPlaces ts := by
  cases ts with
  | nil => rfl
  | cons t ts =>
    rw [unspacedTokens, boundPlaces, boundPlaces, Token.boundPlaces_unspaced t ts,
      boundPlaces_unspaced ts]
end

mutual
theorem Token.spared_iff (t : Token) (next : Option Token) :
    t.Spared b next ↔ ∀ p ∈ t.boundPlaces next, b.loose p = false := by
  cases t with
  | punct c s p =>
    cases hloose : b.loose p <;> cases hnext : next.any (·.joinsAfter c) <;>
      simp [Token.Spared, Token.boundPlaces, bindsTo, hloose, hnext]
  | group d body p q => exact spares_iff body
  | _ => simp [Token.Spared, Token.boundPlaces]

/-- No spacing that is not seen decides about an operator when no place is loose where spacing
matters. -/
theorem spares_iff (ts : List Token) : b.Spares ts ↔ ∀ p ∈ boundPlaces ts, b.loose p = false := by
  cases ts with
  | nil => simp [Blur.Spares, boundPlaces]
  | cons t ts =>
    rw [Blur.Spares, Token.spared_iff t ts.head?, spares_iff ts, boundPlaces,
      List.forall_mem_append]
end

theorem spares_of_unspaced {ts us : List Token} (h : unspacedTokens ts = unspacedTokens us)
    (hus : b.Spares us) : b.Spares ts := by
  rw [spares_iff] at hus ⊢
  rwa [← boundPlaces_unspaced, h, boundPlaces_unspaced]

theorem spares_settling (ts : List Token) : (Blur.settling ts).Spares ts :=
  (spares_iff ts).mpr fun p hp => by simpa [Blur.settling] using hp

theorem spares_unplacing (ts : List Token) : Blur.unplacing.Spares ts :=
  (spares_iff ts).mpr fun _ _ => rfl

theorem bindsTo_blur (c : Char) (ts : List Token) :
    bindsTo c (blur b ts).head? = bindsTo c ts.head? := by
  rcases ts with _ | ⟨_ | _ | _ | _, ts⟩ <;> rfl

mutual
theorem Token.settled_blur {t : Token} {ts : List Token} (h : t.Spared b ts.head?) :
    (blur b t).settled (blur b ts).head? = t.settled ts.head? := by
  cases t with
  | punct c s p =>
    simp only [blur_punct, Token.settled, bindsTo_blur]
    by_cases hbinds : bindsTo c ts.head? = true
    · have hkept : b.loose p = false :=
        (Token.spared_iff (.punct c s p) ts.head?).mp h p (by simp [Token.boundPlaces, hbinds])
      simp [hkept]
    · simp [hbinds]
  | group d body p q =>
    have hbody : settledTokens (blur b body) = settledTokens body := settledTokens_blur h
    simp only [blur_group, Token.settled, hbody]
  | _ => rfl

/-- What is not seen of tokens does not matter. -/
theorem settledTokens_blur {ts : List Token} (h : b.Spares ts) :
    settledTokens (blur b ts) = settledTokens ts := by
  cases ts with
  | nil => rfl
  | cons t ts => rw [blur_cons, settledTokens, settledTokens, Token.settled_blur h.1,
      settledTokens_blur h.2]
end

mutual
theorem Token.unspaced_blur (hplace : b.place = id) (t : Token) :
    (blur b t).unspaced = t.unspaced := by
  have hsame : ∀ p : Position, blur b p = p := fun p => congrFun hplace p
  cases t with
  | punct c s p => simp only [blur_punct, Token.unspaced, hsame]
  | group d body p q =>
    simp only [blur_group, Token.unspaced, hsame, unspacedTokens_blur hplace body]
  | _ => simp only [blur_ident, blur_literal, Token.unspaced, hsame]

theorem unspacedTokens_blur (hplace : b.place = id) (ts : List Token) :
    unspacedTokens (blur b ts) = unspacedTokens ts := by
  cases ts with
  | nil => rfl
  | cons t ts =>
    rw [blur_cons, unspacedTokens, unspacedTokens, Token.unspaced_blur hplace t,
      unspacedTokens_blur hplace ts]
end

mutual
theorem Token.blur_unplacing (t : Token) : blur Blur.unplacing t = t.unplaced := by
  cases t with
  | group d body p q => rw [blur_group, Token.unplaced, blur_unplacing body]; rfl
  | _ => rfl

theorem blur_unplacing (ts : List Token) : blur Blur.unplacing ts = unplacedTokens ts := by
  cases ts with
  | nil => rfl
  | cons t ts => rw [blur_cons, unplacedTokens, Token.blur_unplacing t, blur_unplacing ts]
end

namespace Grammar

theorem File.tokens_blur (f : File) : (blur b f).tokens = blur b f.tokens := by
  have hparts : (blur b f).attributes ++ (blur b f).items = blur b (f.attributes ++ f.items) :=
    (blur_append f.attributes f.items).symm
  rw [File.tokens, hparts, Tree.treesTokens_blur, File.tokens]

/-- A file that keeps all its tokens is read alike of tokens that stand elsewhere and have another
spacing where spacing does not matter. -/
theorem readAll_settled {source read ts : List Token} {f : File}
    (h : readAll source file = .ok f) (hwhole : unspacedTokens f.tokens = unspacedTokens source)
    (hts : blur (.settling source) ts = blur (.settling source) source)
    (hread : unplacedTokens read = unplacedTokens ts) :
    ∃ again, readAll read file = .ok again ∧
      settledTokens again.tokens = settledTokens f.tokens := by
  let b := Blur.settling source
  have hunspaced : ∀ us : List Token, unspacedTokens (blur b us) = unspacedTokens us :=
    unspacedTokens_blur rfl
  have hspares {us : List Token} (hus : unspacedTokens us = unspacedTokens source) : b.Spares us :=
    spares_of_unspaced hus (spares_settling source)
  -- With the other spacing, another file is read that looks the same.
  have hsame : unspacedTokens ts = unspacedTokens source := by
    rw [← hunspaced ts, ← hunspaced source, hts]
  have hblurred := readAll_blur (fun _ => Follows.file) (spares_settling source) h
  rw [← hts] at hblurred
  obtain ⟨g, hg, hfg⟩ := readAll_of_blur (fun _ => Follows.file) (hspares hsame) hblurred
  have htokens : blur b f.tokens = blur b g.tokens := by
    rw [← File.tokens_blur, ← File.tokens_blur]
    exact congrArg File.tokens hfg
  -- And so it is at the other places.
  have hunplaced := readAll_blur (fun _ => Follows.file) (spares_unplacing ts) hg
  rw [blur_unplacing, ← hread, ← blur_unplacing] at hunplaced
  obtain ⟨again, hagain, hga⟩ := readAll_of_blur (fun _ => Follows.file)
    (spares_unplacing read) hunplaced
  refine ⟨again, hagain, ?_⟩
  have hgwhole : unspacedTokens g.tokens = unspacedTokens source := by
    rw [← hunspaced g.tokens, ← htokens, hunspaced, hwhole]
  calc settledTokens again.tokens
      = settledTokens (blur .unplacing again.tokens) :=
        (settledTokens_blur (spares_unplacing _)).symm
    _ = settledTokens (blur .unplacing g.tokens) := by
      rw [← File.tokens_blur, ← hga, File.tokens_blur]
    _ = settledTokens g.tokens := settledTokens_blur (spares_unplacing _)
    _ = settledTokens (blur b g.tokens) := (settledTokens_blur (hspares hgwhole)).symm
    _ = settledTokens (blur b f.tokens) := by rw [htokens]
    _ = settledTokens f.tokens := settledTokens_blur (hspares hwhole)

end Grammar

end Observable
