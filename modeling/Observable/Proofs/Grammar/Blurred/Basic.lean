import Observable.Grammar.Parser
import Observable.Proofs.Token.Settled
/-! Readers do not see where tokens stand, nor the spacing of punctuation that no operator joins
with what follows it: from a row without these they read the same without these. -/
namespace Observable

/-- What is not seen of tokens: their places, and the spacing of the punctuation that stands at some
places. -/
structure Blur where
  place : Position → Position
  place_start : place .start = .start
  loose : Position → Bool

/-- Something with tokens in it, without what is not seen of them. -/
class Blurs (α : Type) where
  blur : Blur → α → α

export Blurs (blur)

variable {α β : Type} [Blurs α] [Blurs β] {b : Blur}

mutual
def Token.blurred (b : Blur) : Token → Token
  | .ident raw name p => .ident raw name (b.place p)
  | .punct c s p => .punct c (if b.loose p then .alone else s) (b.place p)
  | .literal text p => .literal text (b.place p)
  | .group d body p q => .group d (blurredTokens b body) (b.place p) (b.place q)

def blurredTokens (b : Blur) : List Token → List Token
  | [] => []
  | t :: ts => t.blurred b :: blurredTokens b ts
end

mutual
/-- No spacing that is not seen decides about an operator: no mark of a lifetime has one, and no
punctuation that an operator joins with the next token. -/
def Token.Spared (b : Blur) (next : Option Token) : Token → Prop
  | .punct c _ p => b.loose p = true → c ≠ '\'' ∧ next.any (·.joinsAfter c) = false
  | .group _ body _ _ => b.Spares body
  | _ => True

def Blur.Spares (b : Blur) : List Token → Prop
  | [] => True
  | t :: ts => t.Spared b ts.head? ∧ b.Spares ts
end

instance : Blurs Token := ⟨Token.blurred⟩

instance : Blurs (List α) := ⟨fun b l => l.map (blur b)⟩

instance : Blurs (Option α) := ⟨fun b o => o.map (blur b)⟩

instance : Blurs (α × β) := ⟨fun b p => (blur b p.1, blur b p.2)⟩

instance : Blurs Unit := ⟨fun _ u => u⟩

instance : Blurs Bool := ⟨fun _ x => x⟩

instance : Blurs Nat := ⟨fun _ n => n⟩

instance : Blurs String := ⟨fun _ s => s⟩

instance : Blurs Position := ⟨Blur.place⟩

instance : Blurs Grammar.Precedence := ⟨fun _ p => p⟩

namespace Blurs

@[simp] theorem blur_nil : blur b ([] : List α) = [] := rfl

@[simp] theorem blur_cons (a : α) (l : List α) : blur b (a :: l) = blur b a :: blur b l := rfl

@[simp] theorem blur_append (l l' : List α) : blur b (l ++ l') = blur b l ++ blur b l' :=
  List.map_append

@[simp] theorem blur_reverse (l : List α) : blur b l.reverse = (blur b l).reverse :=
  List.map_reverse

theorem blur_take (n : Nat) (l : List α) : blur b (l.take n) = (blur b l).take n := List.map_take

theorem blur_drop (n : Nat) (l : List α) : blur b (l.drop n) = (blur b l).drop n := List.map_drop

@[simp] theorem isEmpty_blur (l : List α) : (blur b l).isEmpty = l.isEmpty := List.isEmpty_map

@[simp] theorem length_blur (l : List α) : (blur b l).length = l.length := List.length_map _

@[simp] theorem head?_blur (l : List α) : (blur b l).head? = l.head?.map (blur b) := List.head?_map

@[simp] theorem getLast?_blur (l : List α) : (blur b l).getLast? = l.getLast?.map (blur b) :=
  List.getLast?_map

@[simp] theorem blur_none : blur b (none : Option α) = none := rfl

@[simp] theorem blur_some (a : α) : blur b (some a) = some (blur b a) := rfl

@[simp] theorem isSome_blur (o : Option α) : (blur b o).isSome = o.isSome := Option.isSome_map

@[simp] theorem isNone_blur (o : Option α) : (blur b o).isNone = o.isNone := Option.isNone_map

@[simp] theorem blur_pair (p : α × β) : blur b p = (blur b p.1, blur b p.2) := rfl

@[simp] theorem blur_unit (u : Unit) : blur b u = u := rfl

@[simp] theorem blur_bool (x : Bool) : blur b x = x := rfl

@[simp] theorem blur_nat (n : Nat) : blur b n = n := rfl

@[simp] theorem blur_string (s : String) : blur b s = s := rfl

@[simp] theorem blur_precedence (p : Grammar.Precedence) : blur b p = p := rfl

@[simp] theorem blur_start : blur b Position.start = .start := b.place_start

@[simp] theorem blurredTokens_eq (ts : List Token) : blurredTokens b ts = blur b ts := by
  induction ts with
  | nil => rfl
  | cons t ts ih => rw [blurredTokens, ih]; rfl

@[simp] theorem blur_ident (raw : Bool) (name : String) (p : Position) :
    blur b (Token.ident raw name p) = .ident raw name (blur b p) := rfl

theorem blur_punct (c : Char) (s : Spacing) (p : Position) :
    blur b (Token.punct c s p) = .punct c (if b.loose p then .alone else s) (blur b p) := rfl

@[simp] theorem blur_punct_alone (c : Char) (p : Position) :
    blur b (Token.punct c .alone p) = .punct c .alone (blur b p) := by
  rw [blur_punct, ite_self]

@[simp] theorem blur_literal (text : String) (p : Position) :
    blur b (Token.literal text p) = .literal text (blur b p) := rfl

@[simp] theorem blur_group (d : Delimiter) (body : List Token) (p q : Position) :
    blur b (Token.group d body p q) = .group d (blur b body) (blur b p) (blur b q) := by
  rw [← blurredTokens_eq]; rfl

@[simp] theorem place_blur (t : Token) : (blur b t).place = blur b t.place := by cases t <;> rfl

end Blurs

open Blurs

namespace Blur.Spares

variable {t : Token} {ts : List Token}

theorem tail (h : b.Spares (t :: ts)) : b.Spares ts := h.2

theorem drop (h : b.Spares ts) (n : Nat) : b.Spares (ts.drop n) := by
  induction n generalizing ts with
  | zero => rwa [List.drop_zero]
  | succ n ih =>
    cases ts with
    | nil => exact h
    | cons t ts => exact ih h.tail

theorem body {d : Delimiter} {body : List Token} {p q : Position}
    (h : b.Spares (.group d body p q :: ts)) : b.Spares body := h.1

/-- The mark of a lifetime, and punctuation that is joined with what follows it, keep their
spacing. -/
theorem kept {c : Char} {s : Spacing} {p : Position} (h : b.Spares (.punct c s p :: ts))
    (hc : c = '\'' ∨ ts.head?.any (·.joinsAfter c) = true) : b.loose p = false := by
  refine Bool.eq_false_iff.mpr fun hloose => ?_
  obtain ⟨htick, hnext⟩ := h.1 hloose
  rcases hc with rfl | hc
  · exact htick rfl
  · rw [hnext] at hc
    cases hc

end Blur.Spares

namespace Grammar

namespace Look

variable {ts : List Token}

theorem spells_blur {cs : List Char} (hcs : isJoined cs = true) (h : b.Spares ts) :
    spells cs (blur b ts) = spells cs ts := by
  induction cs generalizing ts with
  | nil => rfl
  | cons c cs ih =>
    rcases ts with _ | ⟨t, ts⟩
    · cases cs <;> rfl
    cases t with
    | punct d s p =>
      cases cs with
      | nil => rfl
      | cons e cs =>
        obtain ⟨hjoins, hrest⟩ := Bool.and_eq_true_iff.mp hcs
        simp only [blur_cons, blur_punct, spells, ih hrest h.tail]
        by_cases hd : c = d
        · cases hspells : spells (e :: cs) ts with
          | false => simp
          | true =>
            -- what follows is the next character of the operator, so the spacing is seen
            obtain ⟨s', p', ts', rfl⟩ : ∃ s' p' ts', ts = .punct e s' p' :: ts' := by
              rcases ts with _ | ⟨_ | ⟨f, s', p'⟩ | _ | _, ts'⟩ <;>
                cases cs <;> simp [spells] at hspells
              · exact ⟨s', p', ts', by rw [hspells]⟩
              · exact ⟨s', p', ts', by rw [hspells.1.1]⟩
            rw [h.kept (.inr (by simpa [Token.joinsAfter, ← hd] using hjoins))]
            rfl
        · simp [hd]
    | group d body p q => cases cs <;> simp [spells]
    | _ => cases cs <;> rfl

theorem op_blur (h : b.Spares ts) {text : String} (htext : isJoined text.toList = true) :
    op text (blur b ts) = op text ts := spells_blur htext h

@[simp] theorem word_blur (name : String) : word name (blur b ts) = word name ts := by
  rcases ts with _ | ⟨⟨_ | _, _, _⟩ | _ | _ | _, ts⟩ <;> simp [blur_punct, word]

@[simp] theorem anyOf_blur (names : List String) : anyOf names (blur b ts) = anyOf names ts := by
  simp only [anyOf, word_blur]

@[simp] theorem ident_blur : ident (blur b ts) = ident ts := by
  rcases ts with _ | ⟨_ | _ | _ | _, ts⟩ <;> simp [blur_punct, ident]

@[simp] theorem anyWord_blur : anyWord (blur b ts) = anyWord ts := by
  rcases ts with _ | ⟨_ | _ | _ | _, ts⟩ <;> simp [blur_punct, anyWord]

@[simp] theorem group_blur (d : Delimiter) : group d (blur b ts) = group d ts := by
  rcases ts with _ | ⟨_ | _ | _ | _, ts⟩ <;> simp [blur_punct, group]

@[simp] theorem paren_blur : paren (blur b ts) = paren ts := group_blur _

@[simp] theorem bracket_blur : bracket (blur b ts) = bracket ts := group_blur _

@[simp] theorem brace_blur : brace (blur b ts) = brace ts := group_blur _

@[simp] theorem literalText?_blur : literalText? (blur b ts) = literalText? ts := by
  rcases ts with _ | ⟨⟨_ | _, _, _⟩ | ⟨c, s, p⟩ | _ | _, ts⟩
  case cons.punct =>
    rcases ts with _ | ⟨_ | _ | _ | _, ts⟩
    case cons.literal => by_cases hc : c = '-' <;> simp [blur_punct, literalText?, hc]
    all_goals simp [blur_punct, literalText?]
  all_goals simp [literalText?]

@[simp] theorem literal_blur : literal (blur b ts) = literal ts := by
  rw [literal, literal, literalText?_blur]

@[simp] theorem literalForm?_blur : literalForm? (blur b ts) = literalForm? ts := by
  rw [literalForm?, literalForm?, literalText?_blur]

@[simp] theorem string_blur : string (blur b ts) = string ts := by
  rw [string, string, literalForm?_blur]

@[simp] theorem integer_blur : integer (blur b ts) = integer ts := by
  rw [integer, integer, literalForm?_blur]

@[simp] theorem atEnd_blur : atEnd (blur b ts) = atEnd ts := isEmpty_blur ts

theorem lifetime_blur (h : b.Spares ts) : lifetime (blur b ts) = lifetime ts := by
  rcases ts with _ | ⟨_ | ⟨c, s, p⟩ | _ | _, ts⟩
  case cons.punct =>
    by_cases hc : c = '\''
    · have hkept := h.kept (.inl hc)
      subst hc
      cases s <;> rcases ts with _ | ⟨_ | _ | _ | _, ts⟩ <;> simp [blur_punct, hkept, lifetime]
    · rcases ts with _ | ⟨_ | _ | _ | _, ts⟩ <;> simp [blur_punct, lifetime, hc]
  all_goals simp [lifetime]

theorem skip_blur (h : b.Spares ts) : skip (blur b ts) = blur b (skip ts) := by
  rcases ts with _ | ⟨_ | ⟨c, s, p⟩ | _ | _, ts⟩
  case cons.punct =>
    by_cases hc : c = '\''
    · have hkept := h.kept (.inl hc)
      cases s <;> rcases ts with _ | ⟨_ | _ | _ | _, ts⟩ <;>
        simp [blur_punct, hkept, skip, hc]
    · rcases ts with _ | ⟨_ | _ | _ | _, ts⟩ <;> simp [blur_punct, skip, hc]
  all_goals simp [skip]

theorem spares_skip (h : b.Spares ts) : b.Spares (skip ts) := by
  unfold skip
  split
  · exact h.tail.tail
  · exact h.tail
  · exact h

theorem second_blur (h : b.Spares ts) {look look' : List Token → Bool}
    (hlook : look' (blur b (skip ts)) = look (skip ts)) :
    second look' (blur b ts) = second look ts := by
  rw [second, second, isEmpty_blur, skip_blur h, hlook]

theorem third_blur (h : b.Spares ts) {look look' : List Token → Bool}
    (hlook : look' (blur b (skip (skip ts))) = look (skip (skip ts))) :
    third look' (blur b ts) = third look ts := by
  rw [third, third, isEmpty_blur, skip_blur h, second_blur (spares_skip h) hlook]

end Look

mutual
def Tree.blurred (b : Blur) : Tree → Tree
  | .token t => .token (blur b t)
  | .group d p q parts => .group d (blur b p) (blur b q) (blurredTrees b parts)
  | .node kind parts => .node kind (blurredTrees b parts)

def blurredTrees (b : Blur) : List Tree → List Tree
  | [] => []
  | t :: ts => t.blurred b :: blurredTrees b ts
end

instance : Blurs Tree := ⟨Tree.blurred⟩

namespace Tree

@[simp] theorem blurredTrees_eq (ts : List Tree) : blurredTrees b ts = blur b ts := by
  induction ts with
  | nil => rfl
  | cons t ts ih => rw [blurredTrees, ih]; rfl

@[simp] theorem blur_token (t : Token) : blur b (token t) = token (blur b t) := rfl

@[simp] theorem blur_group (d : Delimiter) (p q : Position) (parts : List Tree) :
    blur b (group d p q parts) = group d (blur b p) (blur b q) (blur b parts) := by
  rw [← blurredTrees_eq]; rfl

@[simp] theorem blur_node (kind : Kind) (parts : List Tree) :
    blur b (node kind parts) = node kind (blur b parts) := by
  rw [← blurredTrees_eq]; rfl

@[simp] theorem blur_absent : blur b absent = absent := rfl

@[simp] theorem blur_sequence (parts : List Tree) :
    blur b (sequence parts) = sequence (blur b parts) := blur_node _ _

@[simp] theorem blur_map_token (ts : List Token) :
    blur b (ts.map token) = (blur b ts).map token := by
  induction ts with
  | nil => rfl
  | cons t ts ih => simp [ih]

@[simp] theorem blur_ofTokens (ts : List Token) : blur b (ofTokens ts) = ofTokens (blur b ts) := by
  rw [ofTokens, blur_node, blur_map_token, ofTokens]

@[simp] theorem isPresent_blur (t : Tree) : (blur b t).isPresent = t.isPresent := by
  rcases t with _ | _ | ⟨kind, _ | ⟨part, parts⟩⟩
  all_goals try rfl
  all_goals cases kind <;> rfl

mutual
@[simp] theorem tokens_blur (t : Tree) : (blur b t).tokens = blur b t.tokens := by
  cases t with
  | token t => rfl
  | group d p q parts => simp [tokens, treesTokens_blur parts]
  | node kind parts => simp [tokens, treesTokens_blur parts]

@[simp] theorem treesTokens_blur (ts : List Tree) :
    treesTokens (blur b ts) = blur b (treesTokens ts) := by
  cases ts with
  | nil => rfl
  | cons t ts => simp [treesTokens, tokens_blur t, treesTokens_blur ts]
end

@[simp] theorem exprForm_blur (t : Tree) : (blur b t).exprForm = t.exprForm := by
  rcases t with _ | _ | ⟨kind, parts⟩
  all_goals try rfl
  cases kind <;> rfl

@[simp] theorem typeForm_blur (t : Tree) : (blur b t).typeForm = t.typeForm := by
  rcases t with _ | _ | ⟨kind, parts⟩
  all_goals try rfl
  cases kind <;> rfl

@[simp] theorem blur_withAttributes (attributes : List Tree) (t : Tree) :
    blur b (t.withAttributes attributes) = (blur b t).withAttributes (blur b attributes) := by
  cases t <;> simp [withAttributes]

end Tree

@[simp] theorem blur_flat (pairs : List (Tree × Tree)) :
    blur b (flat pairs) = flat (blur b pairs) := by
  induction pairs with
  | nil => rfl
  | cons p pairs ih =>
    have hcons : flat (p :: pairs) = p.1 :: p.2 :: flat pairs := rfl
    rw [hcons, blur_cons, blur_cons, ih]
    rfl

/-- A test that does not look at what is not seen parts pairs alike. -/
theorem blur_inFront {test : Tree → Bool} (htest : ∀ t, test (blur b t) = test t)
    (pairs : List (Tree × Tree)) : blur b (inFront test pairs) = inFront test (blur b pairs) := by
  have hfilter : ∀ keep : Bool → Bool,
      (blur b pairs).filter (fun p => keep (test p.1))
        = blur b (pairs.filter fun p => keep (test p.1)) := by
    intro keep
    induction pairs with
    | nil => rfl
    | cons p pairs ih =>
      simp only [blur_cons, List.filter_cons, ih, blur_pair, htest]
      split <;> rfl
  have hfirst := hfilter id
  have hothers := hfilter not
  simp only [id] at hfirst
  simp only [inFront, List.partition_eq_filter_filter, Function.comp_def, hfirst, hothers,
    getLast?_blur, isEmpty_blur, Option.all_map, blur_pair, Tree.isPresent_blur, blur_append,
    blur_flat]
  congr 2
  split <;> simp

namespace Input

def blurred (b : Blur) (s : Input) : Input where
  rest := blur b s.rest
  close := blur b s.close
  delimiter := s.delimiter
  leftover := s.leftover.map fun (place, d) => (blur b place, d)

theorem place_blurred (s : Input) : (s.blurred b).place = blur b s.place := by
  rcases s with ⟨_ | ⟨t, rest⟩, close, d, leftover⟩
  · rfl
  · exact place_blur t

theorem settled_blurred (s : Input) :
    (s.blurred b).settled = s.settled.map fun (place, d) => (blur b place, d) := by
  rcases s with ⟨_ | ⟨t, rest⟩, close, d, _ | leftover⟩
  all_goals simp [blurred, settled]

theorem since_blurred (s s' : Input) :
    (s.blurred b).since (s'.blurred b) = blur b (s.since s') := by
  simp only [since, blurred, length_blur, blur_take]

end Input

/-- A reader follows another one when it reads, from a row without what is not seen, what the other
reads from the row itself, but for what is not seen; and it refuses what the other refuses. -/
def Follows (b : Blur) (p q : Parser α) : Prop :=
  ∀ s, b.Spares s.rest →
    match p s with
    | .ok (a, s') => q (s.blurred b) = .ok (blur b a, s'.blurred b) ∧ b.Spares s'.rest
    | .error _ => ∃ e, q (s.blurred b) = .error e

namespace Follows

variable {p p' q q' : Parser α} {f g : α → Parser β} {look look' : List Token → Bool}

theorem pure {a a' : α} (h : a' = blur b a) : Follows b (Pure.pure a) (Pure.pure a') :=
  fun _ hs => ⟨by rw [h]; rfl, hs⟩

theorem refuse (c : Complaint) : Follows b (Grammar.refuse c : Parser α) (Grammar.refuse c) :=
  fun _ _ => ⟨_, rfl⟩

theorem refuseAt (place place' : Position) (c : Complaint) :
    Follows b (Grammar.refuseAt place c : Parser α) (Grammar.refuseAt place' c) :=
  fun _ _ => ⟨_, rfl⟩

theorem expecting (all : List Expectation) :
    Follows b (Grammar.expecting all : Parser α) (Grammar.expecting all) := refuse _

theorem bind (h : Follows b p q) (hf : ∀ a, Follows b (f a) (g (blur b a))) :
    Follows b (p >>= f) (q >>= g) := by
  intro s hs
  have hp := h s hs
  rw [show (p >>= f) s = (p s).bind fun r => f r.1 r.2 from rfl,
    show (q >>= g) (s.blurred b) = (q (s.blurred b)).bind fun r => g r.1 r.2 from rfl]
  cases hps : p s with
  | error e =>
    rw [hps] at hp
    obtain ⟨e', he'⟩ := hp
    exact ⟨e', by rw [he']; rfl⟩
  | ok r =>
    rw [hps] at hp
    rw [hp.1]
    exact hf r.1 r.2 hp.2

theorem ite {c : Prop} [Decidable c] (h : Follows b p q) (h' : Follows b p' q') :
    Follows b (if c then p else p') (if c then q else q') := by
  split
  · exact h
  · exact h'

theorem looking (h : ∀ ts, b.Spares ts → look' (blur b ts) = look ts) :
    Follows b (Grammar.looking look) (Grammar.looking look') :=
  fun s hs => ⟨by simp only [Grammar.looking, Input.blurred, h s.rest hs, blur_bool], hs⟩

/-- A test of what stands ahead decides between two readers. -/
theorem branch (hlook : ∀ ts, b.Spares ts → look' (blur b ts) = look ts) (h : Follows b p q)
    (h' : Follows b p' q') :
    Follows b (Grammar.looking look >>= fun c => if c = true then p else p')
      (Grammar.looking look' >>= fun c => if c = true then q else q') :=
  bind (looking hlook) fun _ => ite h h'

omit [Blurs α] in
/-- What is given without reading is known to the readers after it. -/
theorem given {a a' : α} (h : Follows b (f a) (g a')) :
    Follows b (Pure.pure a >>= f) (Pure.pure a' >>= g) := h

/-- Two readers of one thing, and what comes after either of them. -/
theorem joined {c : Prop} [Decidable c] (h : Follows b p q) (h' : Follows b p' q')
    (hf : ∀ a, Follows b (f a) (g (blur b a))) :
    Follows b (if c then p >>= f else p' >>= f) (if c then q >>= g else q' >>= g) :=
  ite (bind h hf) (bind h' hf)

/-- A test of what stands ahead decides between two readers of one thing. -/
theorem choice (hlook : ∀ ts, b.Spares ts → look' (blur b ts) = look ts) (h : Follows b p q)
    (h' : Follows b p' q') (hf : ∀ a, Follows b (f a) (g (blur b a))) :
    Follows b (Grammar.looking look >>= fun c => if c = true then p >>= f else p' >>= f)
      (Grammar.looking look' >>= fun c => if c = true then q >>= g else q' >>= g) :=
  bind (looking hlook) fun _ => joined h h' hf

/-- Two things that stand one after the other or are both absent, and what comes after them. -/
theorem clause {first first' second second' : Parser Tree} {f g : List Tree → Parser β}
    (hlook : ∀ ts, b.Spares ts → look' (blur b ts) = look ts) (hfirst : Follows b first first')
    (hsecond : Follows b second second') (hf : ∀ parts, Follows b (f parts) (g (blur b parts))) :
    Follows b
      (Grammar.looking look >>= fun c =>
        if c = true then first >>= fun x => second >>= fun y => Pure.pure [x, y] >>= f
        else Pure.pure [] >>= f)
      (Grammar.looking look' >>= fun c =>
        if c = true then first' >>= fun x => second' >>= fun y => Pure.pure [x, y] >>= g
        else Pure.pure [] >>= g) :=
  branch hlook (bind hfirst fun x => bind hsecond fun y => given (hf [x, y])) (given (hf []))

theorem nextPlace : Follows b Grammar.nextPlace Grammar.nextPlace :=
  fun s hs => ⟨by simp only [Grammar.nextPlace, Input.place_blurred], hs⟩

theorem pass (n : Nat) : Follows b (Grammar.pass n) (Grammar.pass n) :=
  fun s hs => ⟨by simp only [Grammar.pass, Input.blurred, blur_drop, blur_unit], hs.drop n⟩

/-- What is seen of a row is the same. -/
theorem sees {a a' : List Token → α} (h : ∀ ts, b.Spares ts → a' (blur b ts) = blur b (a ts)) :
    Follows b (fun s => .ok (a s.rest, s)) fun s => .ok (a' s.rest, s) :=
  fun s hs => ⟨by simp only [Input.blurred, h s.rest hs], hs⟩

theorem optionally {p q : Parser Tree} (hlook : ∀ ts, b.Spares ts → look' (blur b ts) = look ts)
    (h : Follows b p q) : Follows b (Grammar.optionally look p) (Grammar.optionally look' q) :=
  branch hlook h (pure rfl)

theorem attempt (h : Follows b p q) : Follows b (Grammar.attempt p) (Grammar.attempt q) := by
  intro s hs
  have hp := h s hs
  simp only [Grammar.attempt]
  cases hps : p s with
  | error e =>
    rw [hps] at hp
    obtain ⟨e', he'⟩ := hp
    exact ⟨by rw [he']; rfl, hs⟩
  | ok r =>
    rw [hps] at hp
    exact ⟨by rw [hp.1]; rfl, hp.2⟩

theorem ahead (h : Follows b p q) : Follows b (Grammar.ahead p) (Grammar.ahead q) := by
  intro s hs
  have hp := h s hs
  simp only [Grammar.ahead]
  cases hps : p s with
  | error e =>
    rw [hps] at hp
    obtain ⟨e', he'⟩ := hp
    exact ⟨e', by rw [he']⟩
  | ok r =>
    rw [hps] at hp
    exact ⟨by rw [hp.1], hs⟩

theorem withSource (h : Follows b p q) :
    Follows b (Grammar.withSource p) (Grammar.withSource q) := by
  intro s hs
  have hp := h s hs
  simp only [Grammar.withSource]
  cases hps : p s with
  | error e =>
    rw [hps] at hp
    obtain ⟨e', he'⟩ := hp
    exact ⟨e', by rw [he']⟩
  | ok r =>
    rw [hps] at hp
    exact ⟨by rw [hp.1]; simp only [Input.since_blurred, blur_pair], hp.2⟩

/-- The inside of a group, and what is made of it between its delimiters. -/
theorem inside {d : Delimiter} {f g : α × (List Tree → Tree) → Parser β} (h : Follows b p q)
    (hf : ∀ a place close,
      Follows b (f (a, .group d place close))
        (g (blur b a, .group d (blur b place) (blur b close)))) :
    Follows b (Grammar.inside d p >>= f) (Grammar.inside d q >>= g) := by
  intro s hs
  rw [show (Grammar.inside d p >>= f) s = (Grammar.inside d p s).bind fun r => f r.1 r.2 from rfl,
    show (Grammar.inside d q >>= g) (s.blurred b)
      = (Grammar.inside d q (s.blurred b)).bind fun r => g r.1 r.2 from rfl]
  obtain ⟨rest, close, outer, leftover⟩ := s
  rcases rest with _ | ⟨_ | ⟨c, s, p⟩ | _ | ⟨d', body, place, close'⟩, rest⟩
  case cons.group =>
    by_cases hd : d = d'
    · subst hd
      have hp := h ⟨body, close', d, leftover⟩ hs.body
      simp only [Grammar.inside, Input.blurred, blur_cons, blur_group, if_true] at hp ⊢
      cases hps : p ⟨body, close', d, leftover⟩ with
      | error e =>
        rw [hps] at hp
        obtain ⟨e', he'⟩ := hp
        exact ⟨e', by rw [he']; rfl⟩
      | ok r =>
        rw [hps] at hp
        have hrest := hf r.1 place close' ⟨rest, close, outer, r.2.settled⟩ hs.tail
        rw [hp.1]
        simp only [Input.blurred, ← Input.settled_blurred] at hrest
        exact hrest
    · simp only [Grammar.inside, Input.blurred, blur_cons, blur_group, hd, if_false]
      exact ⟨_, rfl⟩
  all_goals exact ⟨_, rfl⟩

theorem within {d : Delimiter} {p q : Parser (List Tree)} (h : Follows b p q) :
    Follows b (Grammar.within d p) (Grammar.within d q) :=
  inside h fun _ _ _ => pure (by simp)

theorem parens {p q : Parser (List Tree)} (h : Follows b p q) :
    Follows b (Grammar.parens p) (Grammar.parens q) := within h

theorem brackets {p q : Parser (List Tree)} (h : Follows b p q) :
    Follows b (Grammar.brackets p) (Grammar.brackets q) := within h

theorem braces {p q : Parser (List Tree)} (h : Follows b p q) :
    Follows b (Grammar.braces p) (Grammar.braces q) := within h

/-- The characters of an operator take their spacing from their order. -/
theorem respaced_blur {cs : List Char} (hcs : isJoined cs = true) {ts : List Token}
    (h : b.Spares ts) (hspells : Look.spells cs ts = true) :
    respaced ((blur b ts).take cs.length) = blur b (respaced (ts.take cs.length)) := by
  induction cs generalizing ts with
  | nil => rfl
  | cons c cs ih =>
    rcases ts with _ | ⟨t, ts⟩
    · rfl
    cases cs with
    | nil =>
      cases t <;> simp [respaced, blur_punct]
    | cons e cs =>
      cases t with
      | punct d s p =>
        obtain ⟨hjoins, hrest⟩ := Bool.and_eq_true_iff.mp hcs
        simp only [Look.spells, Bool.and_eq_true, decide_eq_true_eq] at hspells
        obtain ⟨⟨rfl, -⟩, hspells⟩ := hspells
        have htail := ih hrest h.tail hspells
        obtain ⟨s', p', ts', rfl⟩ : ∃ s' p' ts', ts = .punct e s' p' :: ts' := by
          rcases ts with _ | ⟨_ | ⟨f, s', p'⟩ | _ | _, ts'⟩ <;>
            cases cs <;> simp [Look.spells] at hspells
          · exact ⟨s', p', ts', by rw [hspells]⟩
          · exact ⟨s', p', ts', by rw [hspells.1.1]⟩
        have hkept := h.kept (.inr (by simpa [Token.joinsAfter] using hjoins))
        simp only [List.length_cons, blur_cons, List.take_succ_cons, blur_punct] at htail ⊢
        have hcons : ∀ (s : Spacing) (q : Position) (t : Token) (rest : List Token),
            respaced (.punct c s q :: t :: rest) = .punct c .joint q :: respaced (t :: rest) :=
          fun _ _ _ _ => rfl
        rw [hcons, hcons, htail]
        simp [blur_punct, hkept]
      | _ => simp [Look.spells] at hspells

theorem op {text : String} (htext : isJoined text.toList = true) :
    Follows b (Grammar.op text) (Grammar.op text) := by
  intro s hs
  have hlook := Look.op_blur hs htext
  simp only [Grammar.op, Input.blurred, hlook]
  by_cases h : Look.op text s.rest = true
  · rw [if_pos h, if_pos h]
    refine ⟨?_, hs.drop _⟩
    have hrespaced := respaced_blur htext hs h
    rw [String.length_toList] at hrespaced
    simp only [hrespaced, Tree.blur_ofTokens, blur_drop]
  · rw [if_neg h, if_neg h]
    exact ⟨_, rfl⟩

theorem op? {text : String} (htext : isJoined text.toList = true) :
    Follows b (Grammar.op? text) (Grammar.op? text) :=
  optionally (fun _ hs => Look.op_blur hs htext) (op htext)

theorem oneToken (hlook : ∀ ts, b.Spares ts → look' (blur b ts) = look ts) (c : Complaint) :
    Follows b (Grammar.oneToken look c) (Grammar.oneToken look' c) := by
  intro s hs
  have hlook := hlook s.rest hs
  obtain ⟨rest, close, d, leftover⟩ := s
  cases rest with
  | nil => exact ⟨_, rfl⟩
  | cons t rest =>
    simp only [blur_cons] at hlook
    simp only [Grammar.oneToken, Input.blurred, blur_cons, hlook]
    cases look (t :: rest) with
    | true => exact ⟨by simp, hs.tail⟩
    | false => exact ⟨_, rfl⟩

theorem word (name : String) : Follows b (Grammar.word name) (Grammar.word name) :=
  oneToken (fun _ _ => Look.word_blur name) _

theorem word? (name : String) : Follows b (Grammar.word? name) (Grammar.word? name) :=
  optionally (fun _ _ => Look.word_blur name) (word name)

theorem anyWord : Follows b Grammar.anyWord Grammar.anyWord :=
  oneToken (fun _ _ => Look.anyWord_blur) _

theorem ident : Follows b Grammar.ident Grammar.ident := by
  intro s hs
  have hone := oneToken (b := b) (fun _ _ => Look.ident_blur) (.expected [.identifier]) s hs
  obtain ⟨rest, close, d, leftover⟩ := s
  rcases rest with _ | ⟨⟨_ | _, name, p⟩ | ⟨c, s, p⟩ | _ | _, rest⟩
  case cons.ident.false =>
    simp only [Grammar.ident, Input.blurred, blur_cons, blur_ident] at hone ⊢
    cases isIdentifier false name with
    | true => exact hone
    | false => exact ⟨_, rfl⟩
  all_goals exact hone

theorem lifetime : Follows b Grammar.lifetime Grammar.lifetime := by
  intro s hs
  have hlook := Look.lifetime_blur hs
  simp only [Grammar.lifetime, Input.blurred, hlook]
  by_cases h : Look.lifetime s.rest = true
  · rw [if_pos h, if_pos h]
    exact ⟨by simp [blur_take, blur_drop], hs.drop _⟩
  · rw [if_neg h, if_neg h]
    exact ⟨_, rfl⟩

theorem literal : Follows b Grammar.literal Grammar.literal := by
  intro s hs
  have hone := oneToken (b := b) (fun _ _ => Look.literal_blur) (.expected [.literal]) s hs
  have hlook : Look.literal (blur b s.rest) = Look.literal s.rest := Look.literal_blur
  obtain ⟨rest, close, d, leftover⟩ := s
  rcases rest with _ | ⟨_ | ⟨c, s, p⟩ | _ | _, rest⟩
  case cons.punct =>
    rcases rest with _ | ⟨_ | ⟨c', s', p'⟩ | ⟨text, p'⟩ | _, rest⟩
    case cons.literal =>
      by_cases hc : c = '-'
      · subst hc
        simp only [blur_cons, blur_punct, blur_literal] at hlook
        simp only [Grammar.literal, Input.blurred, blur_cons, blur_punct, blur_literal, hlook]
        cases Look.literal (.punct '-' s p :: .literal text p' :: rest) with
        | true =>
          have hliteral : blur b (Token.ofLiteral ("-" ++ text) p)
              = Token.ofLiteral ("-" ++ text) (blur b p) := by
            rw [Token.ofLiteral, Token.ofLiteral]
            split <;> simp
          exact ⟨by simp [hliteral], hs.tail.tail⟩
        | false => exact ⟨_, rfl⟩
      · simp only [Grammar.literal, Input.blurred, blur_cons, blur_punct, blur_literal] at hone ⊢
        simpa [hc] using hone
    all_goals simpa [Grammar.literal, Input.blurred, blur_punct] using hone
  all_goals exact hone

theorem string : Follows b Grammar.string Grammar.string :=
  oneToken (fun _ _ => Look.string_blur) _

theorem everything : Follows b Grammar.everything Grammar.everything :=
  fun s _ => ⟨by simp only [Grammar.everything, Input.blurred, Tree.blur_map_token, blur_nil],
    trivial⟩

theorem anyGroup : Follows b Grammar.anyGroup Grammar.anyGroup := by
  intro s hs
  obtain ⟨rest, close, outer, leftover⟩ := s
  rcases rest with _ | ⟨_ | _ | _ | ⟨d, body, place, close'⟩, rest⟩
  case cons.group =>
    simp only [Grammar.anyGroup, Input.blurred, blur_cons, blur_group]
    by_cases hd : d = .invisible
    · simp only [hd, if_true]
      exact ⟨_, rfl⟩
    · simp only [hd, if_false]
      exact ⟨by simp, hs.tail⟩
  all_goals exact ⟨_, rfl⟩

theorem iterateUpTo {step step' : α → Parser (α × Bool)}
    (h : ∀ a, Follows b (step a) (step' (blur b a))) (n : Nat) (a : α) :
    Follows b (Grammar.iterateUpTo step n a) (Grammar.iterateUpTo step' n (blur b a)) := by
  induction n generalizing a with
  | zero => exact pure rfl
  | succ n ih => exact bind (h a) fun r => ite (ih r.1) (pure rfl)

/-- A loop follows another one when its step does. -/
theorem iterate {step step' : α → Parser (α × Bool)}
    (h : ∀ a, Follows b (step a) (step' (blur b a))) {a a' : α} (ha : a' = blur b a) :
    Follows b (Grammar.iterate step a) (Grammar.iterate step' a') := by
  intro s hs
  subst ha
  have hloop := iterateUpTo h (s.rest.length + 1) a s hs
  simpa only [Grammar.iterate, Input.blurred, length_blur] using hloop

theorem listed {stop stop' goesOn goesOn' : List Token → Bool}
    {separator separator' item item' : Parser Tree}
    (hstop : ∀ ts, b.Spares ts → stop' (blur b ts) = stop ts)
    (hgoesOn : ∀ ts, b.Spares ts → goesOn' (blur b ts) = goesOn ts)
    (hseparator : Follows b separator separator') (hitem : Follows b item item') :
    Follows b (Grammar.listed stop goesOn separator item)
      (Grammar.listed stop' goesOn' separator' item') := by
  refine bind (iterate (fun found => ?_) rfl) fun found => pure (by simp)
  refine branch hstop (pure (by simp)) (bind hitem fun x => branch hgoesOn ?_ (pure (by simp)))
  exact bind hseparator fun c => pure (by simp)

theorem upTo {stop stop' : List Token → Bool} {separator : String} {item item' : Parser Tree}
    (hstop : ∀ ts, b.Spares ts → stop' (blur b ts) = stop ts)
    (hseparator : isJoined separator.toList = true) (h : Follows b item item') :
    Follows b (Grammar.upTo stop separator item) (Grammar.upTo stop' separator item') :=
  listed hstop (fun ts hs => by rw [hstop ts hs]) (op hseparator) h

theorem terminated {separator : String} {item item' : Parser Tree}
    (hseparator : isJoined separator.toList = true) (h : Follows b item item') :
    Follows b (Grammar.terminated separator item) (Grammar.terminated separator item') :=
  bind (upTo (fun _ _ => Look.atEnd_blur) hseparator h) fun _ => pure (by simp)

theorem allItems {item item' : Parser Tree} (h : Follows b item item') :
    Follows b (Grammar.allItems item) (Grammar.allItems item') := by
  refine bind (iterate (fun found => ?_) rfl) fun found => pure (by simp)
  exact branch (fun _ _ => Look.atEnd_blur) (pure (by simp)) (bind h fun x => pure (by simp))

end Follows

end Grammar

end Observable
