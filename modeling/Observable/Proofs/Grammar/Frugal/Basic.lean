import Mathlib.Algebra.GroupWithZero.Nat
import Observable.Grammar.Parser
/-! Readers give no more than they take: what is weighed is the identifiers in tokens and trees, and
the types that a tree declares outside of blocks. With a weight for one identifier at one place,
what a reader gives has it at most as often as what it took. Tokens declare no type, so that with a
weight for types the readers of all that is no item are seen to declare them in blocks only. -/
namespace Observable

/-- What an identifier counts, by the delimiter that is right around it, its spelling and its place,
and what a type counts that is declared outside of blocks. A name that is left out between
parentheses is read as `_`, which counts nothing. -/
structure Weight where
  of : Option Delimiter → Bool → String → Position → Nat
  of_unnamed : ∀ place, of (some .parenthesis) false "_" place = 0
  declared : Nat := 0
  around : Option Delimiter := none

/-- The weight of what stands between some delimiters. -/
def Weight.inside (w : Weight) (d : Delimiter) : Weight := { w with around := some d }

/-- Only the delimiters right around an identifier count. -/
@[simp] theorem Weight.inside_inside (w : Weight) (d d' : Delimiter) :
    (w.inside d).inside d' = w.inside d' := rfl

/-- The weight of what stands in a block, where types count nothing. -/
def Weight.sheltered (w : Weight) : Weight := { w with declared := 0 }

theorem Weight.sheltered_of_declared {w : Weight} (hw : w.declared = 0) : w.sheltered = w := by
  cases w
  cases hw
  rfl

/-- It does not matter what stands around an identifier. -/
def Weight.Uniform (w : Weight) : Prop :=
  ∀ around around' raw name place, w.of around raw name place = w.of around' raw name place

/-- Something that identifiers stand in. -/
class Weighed (α : Type) where
  weigh : Weight → α → Nat

export Weighed (weigh)

variable {α β : Type} [Weighed α] [Weighed β] {w : Weight}

mutual
def Token.weight (w : Weight) : Token → Nat
  | .ident raw name place => w.of w.around raw name place
  | .group d body _ _ => tokensWeight (w.inside d) body
  | _ => 0

def tokensWeight (w : Weight) : List Token → Nat
  | [] => 0
  | t :: ts => t.weight w + tokensWeight w ts
end

instance : Weighed Token := ⟨Token.weight⟩

instance : Weighed (List α) := ⟨fun w l => (l.map (weigh w)).sum⟩

instance : Weighed (Option α) := ⟨fun w o => o.elim 0 (weigh w)⟩

instance : Weighed (α × β) := ⟨fun w p => weigh w p.1 + weigh w p.2⟩

instance : Weighed Unit := ⟨fun _ _ => 0⟩

instance : Weighed Bool := ⟨fun _ _ => 0⟩

instance : Weighed Nat := ⟨fun _ _ => 0⟩

instance : Weighed Position := ⟨fun _ _ => 0⟩

instance : Weighed Grammar.Precedence := ⟨fun _ _ => 0⟩

instance : Weighed String := ⟨fun _ _ => 0⟩

namespace Weighed

@[simp] theorem weigh_nil : weigh w ([] : List α) = 0 := rfl

@[simp] theorem weigh_cons (a : α) (l : List α) : weigh w (a :: l) = weigh w a + weigh w l := rfl

@[simp] theorem weigh_append (l l' : List α) : weigh w (l ++ l') = weigh w l + weigh w l' := by
  simp [weigh]

@[simp] theorem weigh_reverse (l : List α) : weigh w l.reverse = weigh w l := by
  simp [weigh, List.sum_reverse]

theorem weigh_partition (l : List α) (test : α → Bool) :
    weigh w (l.filter test) + weigh w (l.filter (!test ·)) = weigh w l := by
  induction l with
  | nil => rfl
  | cons a l ih =>
    cases h : test a <;> simp only [List.filter_cons, h, Bool.not_true, Bool.not_false, if_true,
      Bool.false_eq_true, if_false, weigh_cons] <;> omega

@[simp] theorem weigh_none : weigh w (none : Option α) = 0 := rfl

@[simp] theorem weigh_some (a : α) : weigh w (some a) = weigh w a := rfl

@[simp] theorem weigh_pair (p : α × β) : weigh w p = weigh w p.1 + weigh w p.2 := rfl

@[simp] theorem weigh_unit (u : Unit) : weigh w u = 0 := rfl

@[simp] theorem weigh_bool (b : Bool) : weigh w b = 0 := rfl

@[simp] theorem weigh_nat (n : Nat) : weigh w n = 0 := rfl

@[simp] theorem weigh_position (p : Position) : weigh w p = 0 := rfl

@[simp] theorem weigh_precedence (p : Grammar.Precedence) : weigh w p = 0 := rfl

@[simp] theorem weigh_string (s : String) : weigh w s = 0 := rfl

theorem tokensWeight_eq (ts : List Token) : tokensWeight w ts = weigh w ts := by
  induction ts with
  | nil => rfl
  | cons t ts ih => rw [tokensWeight, ih]; rfl

@[simp] theorem weigh_ident (raw : Bool) (name : String) (p : Position) :
    weigh w (Token.ident raw name p) = w.of w.around raw name p := rfl

@[simp] theorem weigh_punct (c : Char) (s : Spacing) (p : Position) :
    weigh w (Token.punct c s p) = 0 := rfl

@[simp] theorem weigh_literal (text : String) (p : Position) :
    weigh w (Token.literal text p) = 0 := rfl

@[simp] theorem weigh_group (d : Delimiter) (body : List Token) (p q : Position) :
    weigh w (Token.group d body p q) = weigh (w.inside d) body :=
  tokensWeight_eq body

theorem weigh_tokens_inside (hw : w.Uniform) (d : Delimiter) (ts : List Token) :
    weigh (w.inside d) ts = weigh w ts := by
  induction ts with
  | nil => rfl
  | cons t ts ih =>
    rw [weigh_cons, weigh_cons, ih]
    cases t with
    | ident raw name place => rw [weigh_ident, weigh_ident]; exact congrArg (· + _) (hw ..)
    | _ => rfl

mutual
theorem weight_sheltered (w : Weight) (t : Token) : t.weight w.sheltered = t.weight w := by
  cases t with
  | group d body p q => exact tokensWeight_sheltered (w.inside d) body
  | _ => rfl

theorem tokensWeight_sheltered (w : Weight) (ts : List Token) :
    tokensWeight w.sheltered ts = tokensWeight w ts := by
  cases ts with
  | nil => rfl
  | cons t ts => rw [tokensWeight, weight_sheltered w t, tokensWeight_sheltered w ts, tokensWeight]
end

/-- A token declares no type. -/
@[simp] theorem weigh_tokens_sheltered (ts : List Token) : weigh w.sheltered ts = weigh w ts := by
  rw [← tokensWeight_eq, tokensWeight_sheltered, tokensWeight_eq]

mutual
theorem weight_eq_zero {w : Weight} (hw : ∀ around raw name place, w.of around raw name place = 0)
    (t : Token) : t.weight w = 0 := by
  cases t with
  | ident raw name place => exact hw ..
  | group d body p q => exact tokensWeight_eq_zero (w := w.inside d) hw body
  | _ => rfl

theorem tokensWeight_eq_zero {w : Weight}
    (hw : ∀ around raw name place, w.of around raw name place = 0) (ts : List Token) :
    tokensWeight w ts = 0 := by
  cases ts with
  | nil => rfl
  | cons t ts => rw [tokensWeight, weight_eq_zero hw, tokensWeight_eq_zero hw]
end

/-- Tokens weigh nothing if identifiers count nothing. -/
theorem weigh_tokens_eq_zero (hw : ∀ around raw name place, w.of around raw name place = 0)
    (ts : List Token) : weigh w ts = 0 := by
  rw [← tokensWeight_eq, tokensWeight_eq_zero hw]

theorem weigh_operator (chars : List Char) (p : Position) :
    weigh w (Token.operator chars p) = 0 := by
  induction chars with
  | nil => rfl
  | cons c chars ih =>
    cases chars with
    | nil => rfl
    | cons d chars => simp [Token.operator, ih]

theorem weigh_ofLiteral (text : String) (p : Position) : weigh w (Token.ofLiteral text p) = 0 := by
  rw [Token.ofLiteral]
  split <;> rfl

end Weighed

open Weighed

namespace Grammar

/-- What a node of some kind counts beside its parts. -/
@[simp] def Kind.weight (w : Weight) : Kind → Nat
  | .item .struct | .item .union | .item .enumeration => w.declared
  | _ => 0

/-- The weight of the parts of a node of some kind. -/
@[simp] def Kind.within (w : Weight) : Kind → Weight
  | .block => w.sheltered
  | _ => w

mutual
def Tree.weight (w : Weight) : Tree → Nat
  | .token t => t.weight w
  | .group d _ _ parts => treesWeight (w.inside d) parts
  | .node kind parts => kind.weight w + treesWeight (kind.within w) parts

def treesWeight (w : Weight) : List Tree → Nat
  | [] => 0
  | t :: ts => t.weight w + treesWeight w ts
end

instance : Weighed Tree := ⟨Tree.weight⟩

namespace Tree

theorem treesWeight_eq (ts : List Tree) : treesWeight w ts = weigh w ts := by
  induction ts with
  | nil => rfl
  | cons t ts ih => rw [treesWeight, ih]; rfl

@[simp] theorem weigh_token (t : Token) : weigh w (Tree.token t) = weigh w t := rfl

@[simp] theorem weigh_node (kind : Kind) (parts : List Tree) :
    weigh w (Tree.node kind parts) = kind.weight w + weigh (kind.within w) parts :=
  congrArg _ (treesWeight_eq parts)

/-- Where types count nothing, a node weighs what its parts weigh. -/
theorem weigh_node_of_declared (hw : w.declared = 0) (kind : Kind) (parts : List Tree) :
    weigh w (Tree.node kind parts) = weigh w parts := by
  have hkind : kind.weight w = 0 := by
    unfold Kind.weight
    split <;> first | exact hw | rfl
  have hwithin : kind.within w = w := by
    unfold Kind.within
    split
    · exact Weight.sheltered_of_declared hw
    · rfl
  rw [weigh_node, hkind, hwithin, Nat.zero_add]

@[simp] theorem weigh_group (d : Delimiter) (p q : Position) (parts : List Tree) :
    weigh w (Tree.group d p q parts) = weigh (w.inside d) parts :=
  treesWeight_eq parts

mutual
/-- Without blocks there is no less to count. -/
theorem weight_sheltered_le (w : Weight) (t : Tree) : t.weight w.sheltered ≤ t.weight w := by
  cases t with
  | token t => exact Nat.le_of_eq (Weighed.weight_sheltered w t)
  | group d p q parts => exact treesWeight_sheltered_le (w.inside d) parts
  | node kind parts =>
    refine Nat.add_le_add ?_ ?_
    · unfold Kind.weight
      split <;> exact Nat.zero_le _
    · unfold Kind.within
      split
      · exact Nat.le_refl _
      · exact treesWeight_sheltered_le w parts

theorem treesWeight_sheltered_le (w : Weight) (ts : List Tree) :
    treesWeight w.sheltered ts ≤ treesWeight w ts := by
  cases ts with
  | nil => exact Nat.le_refl _
  | cons t ts => exact Nat.add_le_add (weight_sheltered_le w t) (treesWeight_sheltered_le w ts)
end

theorem weigh_within_le (kind : Kind) (ts : List Tree) : weigh (kind.within w) ts ≤ weigh w ts := by
  unfold Kind.within
  split
  · rw [← treesWeight_eq, ← treesWeight_eq]
    exact treesWeight_sheltered_le w ts
  · exact Nat.le_refl _

mutual
theorem weight_inside {w : Weight} (hw : w.Uniform) (d : Delimiter) (t : Tree) :
    t.weight (w.inside d) = t.weight w := by
  cases t with
  | token t =>
    have htoken := Weighed.weigh_tokens_inside hw d [t]
    rw [weigh_cons, weigh_cons, weigh_nil, weigh_nil, Nat.add_zero, Nat.add_zero] at htoken
    exact htoken
  | group d' p q parts => rfl
  | node kind parts =>
    have hkind : kind.weight (w.inside d) = kind.weight w := by
      unfold Kind.weight
      split <;> rfl
    rw [Tree.weight, hkind, Tree.weight]
    refine congrArg _ ?_
    unfold Kind.within
    split
    · exact treesWeight_inside (w := w.sheltered) hw d parts
    · exact treesWeight_inside hw d parts

theorem treesWeight_inside {w : Weight} (hw : w.Uniform) (d : Delimiter) (ts : List Tree) :
    treesWeight (w.inside d) ts = treesWeight w ts := by
  cases ts with
  | nil => rfl
  | cons t ts => rw [treesWeight, weight_inside hw, treesWeight_inside hw, treesWeight]
end

theorem weigh_trees_inside (hw : w.Uniform) (d : Delimiter) (ts : List Tree) :
    weigh (w.inside d) ts = weigh w ts := by
  rw [← treesWeight_eq, ← treesWeight_eq, treesWeight_inside hw]

@[simp] theorem weigh_absent : weigh w Tree.absent = 0 := rfl

@[simp] theorem weigh_sequence (parts : List Tree) :
    weigh w (Tree.sequence parts) = weigh w parts := by
  simp [sequence]

@[simp] theorem weigh_map_token (ts : List Token) : weigh w (ts.map Tree.token) = weigh w ts := by
  induction ts with
  | nil => rfl
  | cons t ts ih => simp [ih]

@[simp] theorem weigh_ofTokens (ts : List Token) : weigh w (Tree.ofTokens ts) = weigh w ts := by
  simp [ofTokens]

theorem weigh_withAttributes (attributes : List Tree) (t : Tree) :
    weigh w (t.withAttributes attributes) ≤ weigh w attributes + weigh w t := by
  cases t with
  | node kind parts =>
    have hattributes := weigh_within_le (w := w) kind attributes
    simp only [withAttributes, weigh_node, weigh_append]
    omega
  | _ => exact Nat.le_add_left ..

end Tree

@[simp] theorem weigh_flat (pairs : List (Tree × Tree)) : weigh w (flat pairs) = weigh w pairs := by
  induction pairs with
  | nil => rfl
  | cons p pairs ih =>
    have hcons : flat (p :: pairs) = p.1 :: p.2 :: flat pairs := rfl
    rw [hcons, weigh_cons, weigh_cons, weigh_cons, ih]
    exact (Nat.add_assoc ..).symm

/-- Nothing gets lost in front, and the comma between the two kinds has no weight. -/
@[simp] theorem weigh_inFront (test : Tree → Bool) (pairs : List (Tree × Tree)) :
    weigh w (inFront test pairs) = weigh w pairs := by
  have hparts := weigh_partition (w := w) pairs fun p => test p.1
  simp only [inFront, List.partition_eq_filter_filter, Function.comp_def]
  split <;> simpa using hparts

/-- What a reader gives weighs no more than some budget and what it takes, and it takes from the
front. -/
def Frugal (w : Weight) (budget : Nat) (p : Parser α) : Prop :=
  ∀ s a s', p s = .ok (a, s') →
    s'.rest <:+ s.rest ∧ weigh w a + weigh w s'.rest ≤ budget + weigh w s.rest

namespace Frugal

variable {k j : Nat} {p p' : Parser α} {q : α → Parser β} {look : List Token → Bool}

theorem mono (h : Frugal w j p) (hk : j ≤ k) : Frugal w k p := fun s a s' hs =>
  ⟨(h s a s' hs).1, Nat.le_trans (h s a s' hs).2 (Nat.add_le_add_right hk _)⟩

theorem pure {a : α} (h : weigh w a ≤ k) : Frugal w k (Pure.pure a : Parser α) := by
  intro s a' s' hs
  cases hs
  exact ⟨List.suffix_refl _, Nat.add_le_add_right h _⟩

theorem refuse (c : Complaint) : Frugal w k (Grammar.refuse c : Parser α) :=
  fun s a s' hs => by cases hs

theorem refuseAt (place : Position) (c : Complaint) :
    Frugal w k (Grammar.refuseAt place c : Parser α) :=
  fun s a s' hs => by cases hs

theorem expecting (all : List Expectation) : Frugal w k (Grammar.expecting all : Parser α) :=
  refuse _

omit [Weighed α] [Weighed β] in
theorem bind_ok {p : Parser α} {q : α → Parser β} {s s' : Input} {b : β}
    (h : (p >>= q) s = .ok (b, s')) : ∃ a t, p s = .ok (a, t) ∧ q a t = .ok (b, s') := by
  have hbind : (p >>= q) s = (p s).bind fun r => q r.1 r.2 := rfl
  rw [hbind] at h
  cases hp : p s with
  | error e =>
    rw [hp] at h
    cases h
  | ok r =>
    rw [hp] at h
    exact ⟨r.1, r.2, rfl, h⟩

/-- What a first reader gives can be spent by the readers after it. -/
theorem bindUsing (hp : Frugal w j p) (hq : ∀ a, Frugal w (k - j + weigh w a) (q a)) (hk : j ≤ k) :
    Frugal w k (p >>= q) := by
  intro s b s' hs
  obtain ⟨a, t, ha, hb⟩ := bind_ok hs
  obtain ⟨hrest, hweight⟩ := hp s a t ha
  obtain ⟨hrest', hweight'⟩ := hq a t b s' hb
  exact ⟨hrest'.trans hrest, by omega⟩

theorem bind (hp : Frugal w 0 p) (hq : ∀ a, Frugal w (k + weigh w a) (q a)) :
    Frugal w k (p >>= q) :=
  bindUsing hp (fun a => (hq a).mono (Nat.le_of_eq (by rw [Nat.sub_zero]))) (Nat.zero_le k)

omit [Weighed α] in
/-- What is given without reading is known to the readers after it. -/
theorem given {a : α} (h : Frugal w k (q a)) : Frugal w k (Pure.pure a >>= q) := h

theorem ite {c : Prop} [Decidable c] (h : Frugal w k p) (h' : Frugal w k p') :
    Frugal w k (if c then p else p') := by
  split
  · exact h
  · exact h'

theorem looking : Frugal w k (Grammar.looking look) := by
  intro s a s' hs
  cases hs
  exact ⟨List.suffix_refl _, by simp⟩

theorem nextPlace : Frugal w k Grammar.nextPlace := by
  intro s a s' hs
  cases hs
  exact ⟨List.suffix_refl _, by simp⟩

theorem looks {f : Bool → Parser α} (h : ∀ b, Frugal w k (f b)) :
    Frugal w k (Grammar.looking look >>= f) :=
  bind looking fun b => (h b).mono (Nat.le_add_right ..)

/-- A test of what stands ahead decides between two readers. -/
theorem branch (h : Frugal w k p) (h' : Frugal w k p') :
    Frugal w k (Grammar.looking look >>= fun b => if b = true then p else p') :=
  looks fun _ => ite h h'

/-- Two readers of one thing, and what comes after either of them. -/
theorem joined {c : Prop} [Decidable c] (h : Frugal w 0 p) (h' : Frugal w 0 p')
    (hq : ∀ a, Frugal w (k + weigh w a) (q a)) :
    Frugal w k (if c then p >>= q else p' >>= q) :=
  ite (bind h hq) (bind h' hq)

/-- Two things that stand one after the other or are both absent, and what comes after them. -/
theorem clause {first second : Parser Tree} {f : List Tree → Parser β}
    (hfirst : Frugal w 0 first) (hsecond : Frugal w 0 second)
    (hf : ∀ parts, Frugal w (k + weigh w parts) (f parts)) :
    Frugal w k (Grammar.looking look >>= fun b =>
      if b = true then first >>= fun x => second >>= fun y => Pure.pure [x, y] >>= f
      else Pure.pure [] >>= f) := by
  refine branch (bind hfirst fun x => bind hsecond fun y => given ((hf [x, y]).mono ?_)) ?_
  · simp +arith
  · exact given ((hf []).mono (by simp))

theorem places {f : Position → Parser α} (h : ∀ place, Frugal w k (f place)) :
    Frugal w k (Grammar.nextPlace >>= f) :=
  bind nextPlace fun place => (h place).mono (Nat.le_add_right ..)

omit [Weighed α] in
/-- What is seen ahead has no weight that could be spent. -/
theorem sees {f : Input → α} (h : ∀ a, Frugal w k (q a)) :
    Frugal w k ((fun s => .ok (f s, s) : Parser α) >>= q) :=
  fun s b s' hs => h (f s) s b s' hs

theorem pass (n : Nat) : Frugal w k (Grammar.pass n) := by
  intro s a s' hs
  cases hs
  refine ⟨List.drop_suffix _ _, ?_⟩
  have hrest := weigh_append (w := w) (s.rest.take n) (s.rest.drop n)
  rw [List.take_append_drop] at hrest
  simp only [weigh_unit]
  omega

theorem optionally {p : Parser Tree} (h : Frugal w 0 p) : Frugal w 0 (Grammar.optionally look p) :=
  branch h (pure (by simp))

theorem attempt (h : Frugal w 0 p) : Frugal w 0 (Grammar.attempt p) := by
  intro s a s' hs
  rw [Grammar.attempt] at hs
  split at hs
  · rename_i a' t ha
    cases hs
    exact h s a' _ ha
  · cases hs
    exact ⟨List.suffix_refl _, by simp⟩

omit [Weighed α] in
/-- What is read ahead is not taken, so that it must not be spent. -/
theorem ahead (h : ∀ a, Frugal w k (q a)) : Frugal w k (Grammar.ahead p >>= q) := by
  intro s b s' hs
  obtain ⟨a, t, ha, hb⟩ := bind_ok hs
  rw [Grammar.ahead] at ha
  split at ha
  · cases ha
    exact h a s b s' hb
  · cases ha

theorem weigh_take_drop (n : Nat) (ts : List Token) :
    weigh w (ts.take n) + weigh w (ts.drop n) = weigh w ts := by
  rw [← weigh_append, List.take_append_drop]

theorem since_append {s s' : Input} (h : s'.rest <:+ s.rest) : s.since s' ++ s'.rest = s.rest := by
  obtain ⟨taken, htaken⟩ := h
  have hlength : s.rest.length - s'.rest.length = taken.length := by
    rw [← htaken, List.length_append, Nat.add_sub_cancel]
  rw [Input.since, hlength, ← htaken, List.take_left]

/-- Either what is read or its source can be spent, but not both. -/
theorem withSource (hp : Frugal w 0 p)
    {f : α × List Token → Parser β}
    (hf : ∀ a source n, weigh w a ≤ n → weigh w source ≤ n → Frugal w (k + n) (f (a, source))) :
    Frugal w k (Grammar.withSource p >>= f) := by
  intro s b s' hs
  obtain ⟨⟨a, source⟩, t, ha, hb⟩ := bind_ok hs
  rw [Grammar.withSource] at ha
  split at ha
  · rename_i a' t' ha'
    cases ha
    obtain ⟨hrest, hweight⟩ := hp s a t ha'
    have hsource := congrArg (weigh w) (since_append hrest)
    rw [weigh_append] at hsource
    obtain ⟨hrest', hweight'⟩ := hf a (s.since t) _ (by omega) (Nat.le_refl _) t b s' hb
    exact ⟨hrest'.trans hrest, by omega⟩
  · cases ha

theorem inside {d : Delimiter} {f : α × (List Tree → Tree) → Parser β}
    (hp : Frugal (w.inside d) 0 p)
    (hf : ∀ a place close, Frugal w (k + weigh (w.inside d) a) (f (a, .group d place close))) :
    Frugal w k (Grammar.inside d p >>= f) := by
  intro s b s' hs
  obtain ⟨⟨a, wrap⟩, t, ha, hb⟩ := bind_ok hs
  rw [Grammar.inside] at ha
  split at ha
  · rename_i d' body place close rest hgroup
    split at ha
    · subst d'
      split at ha
      · rename_i a' inner ha'
        cases ha
        obtain ⟨-, hbody⟩ := hp _ a inner ha'
        obtain ⟨hrest', hweight'⟩ := hf a place close _ b s' hb
        rw [hgroup, weigh_cons, Weighed.weigh_group]
        exact ⟨hrest'.trans (List.suffix_cons _ _), by simp only at hbody hweight'; omega⟩
      · cases ha
    · cases ha
  · cases ha

theorem within {d : Delimiter} {p : Parser (List Tree)} (h : Frugal (w.inside d) 0 p) :
    Frugal w 0 (Grammar.within d p) :=
  inside h fun parts _ _ => pure (by simp)

/-- What is read inside a block is sheltered by it. -/
theorem enclosed {p : Parser Tree} (h : Frugal w.sheltered 0 p) :
    Frugal w 0 (p >>= fun body => Pure.pure (Tree.node .block [body])) := by
  intro s block s' hs
  obtain ⟨body, t, hbody, hblock⟩ := bind_ok hs
  cases hblock
  obtain ⟨hrest, hweight⟩ := h s body _ hbody
  rw [weigh_tokens_sheltered, weigh_tokens_sheltered] at hweight
  exact ⟨hrest, by simpa using hweight⟩

theorem parens {p : Parser (List Tree)} (h : Frugal (w.inside .parenthesis) 0 p) :
    Frugal w 0 (Grammar.parens p) :=
  within h

theorem brackets {p : Parser (List Tree)} (h : Frugal (w.inside .bracket) 0 p) :
    Frugal w 0 (Grammar.brackets p) :=
  within h

theorem braces {p : Parser (List Tree)} (h : Frugal (w.inside .brace) 0 p) :
    Frugal w 0 (Grammar.braces p) :=
  within h

theorem weigh_respaced (ts : List Token) : weigh w (respaced ts) = weigh w ts := by
  induction ts using respaced.induct with
  | case1 => rfl
  | case2 => rfl
  | case3 c s p rest _ ih => simp [respaced, ih]
  | case4 t rest _ _ ih => simp [respaced, ih]

theorem op (text : String) : Frugal w 0 (Grammar.op text) := by
  intro s a s' hs
  rw [Grammar.op] at hs
  split at hs
  · cases hs
    refine ⟨List.drop_suffix _ _, ?_⟩
    have htext := weigh_take_drop (w := w) text.length s.rest
    simp only [Tree.weigh_ofTokens, weigh_respaced]
    omega
  · cases hs

theorem op? (text : String) : Frugal w 0 (Grammar.op? text) := optionally (op text)

theorem firstOf (texts : List String) : Frugal w 0 (Grammar.firstOf texts) := by
  induction texts with
  | nil => exact expecting _
  | cons text texts ih => exact branch (op text) ih

theorem oneToken {c : Complaint} : Frugal w 0 (Grammar.oneToken look c) := by
  intro s a s' hs
  rw [Grammar.oneToken] at hs
  split at hs
  · rename_i t rest hrest
    split at hs
    · cases hs
      rw [hrest]
      exact ⟨List.suffix_cons _ _, by simp⟩
    · cases hs
  · cases hs

theorem word (name : String) : Frugal w 0 (Grammar.word name) := oneToken

theorem word? (name : String) : Frugal w 0 (Grammar.word? name) := optionally (word name)

theorem anyWord : Frugal w 0 Grammar.anyWord := oneToken

theorem ident : Frugal w 0 Grammar.ident := by
  intro s a s' hs
  rw [Grammar.ident] at hs
  split at hs
  · split at hs
    · exact oneToken s a s' hs
    · cases hs
  · exact oneToken s a s' hs

theorem lifetime : Frugal w 0 Grammar.lifetime := by
  intro s a s' hs
  rw [Grammar.lifetime] at hs
  split at hs
  · cases hs
    refine ⟨List.drop_suffix _ _, ?_⟩
    have htext := weigh_take_drop (w := w) 2 s.rest
    simp only [Tree.weigh_node, Kind.weight, Kind.within, Tree.weigh_map_token]
    omega
  · cases hs

theorem literal : Frugal w 0 Grammar.literal := by
  intro s a s' hs
  rw [Grammar.literal] at hs
  split at hs
  · rename_i p text q rest hrest
    split at hs
    · cases hs
      rw [hrest]
      refine ⟨(List.suffix_cons _ _).trans (List.suffix_cons _ _), ?_⟩
      simp [weigh_ofLiteral]
    · cases hs
  · exact oneToken s a s' hs

theorem string : Frugal w 0 Grammar.string := oneToken

theorem everything : Frugal w 0 Grammar.everything := by
  intro s a s' hs
  cases hs
  exact ⟨List.nil_suffix, by simp⟩

theorem anyGroup : Frugal w 0 Grammar.anyGroup := by
  intro s a s' hs
  rw [Grammar.anyGroup] at hs
  split at hs
  · rename_i d body place close rest hrest
    split at hs
    · cases hs
    · cases hs
      rw [hrest]
      exact ⟨List.suffix_cons _ _, by simp⟩
  · cases hs

theorem iterateUpTo {step : α → Parser (α × Bool)} (h : ∀ a, Frugal w (weigh w a) (step a))
    (n : Nat) (a : α) : Frugal w (weigh w a) (Grammar.iterateUpTo step n a) := by
  induction n generalizing a with
  | zero => exact pure (Nat.le_refl _)
  | succ n ih =>
    refine bindUsing (h a) (fun r => ?_) (Nat.le_refl _)
    refine (ite ((ih r.1).mono ?_) (pure ?_)) <;> cases r <;> simp

/-- A loop is frugal when its step spends no more than what it has found before. -/
theorem iterate {step : α → Parser (α × Bool)} (h : ∀ a, Frugal w (weigh w a) (step a)) (a : α) :
    Frugal w (weigh w a) (Grammar.iterate step a) :=
  fun s => iterateUpTo h (s.rest.length + 1) a s

theorem listed {stop goesOn : List Token → Bool} {separator item : Parser Tree}
    (hseparator : Frugal w 0 separator) (hitem : Frugal w 0 item) :
    Frugal w 0 (Grammar.listed stop goesOn separator item) := by
  refine bind (iterate (fun found => ?_) []) fun found => pure (by simp)
  refine branch (pure (by simp)) (bind hitem fun x => branch ?_ (pure (by simp +arith)))
  exact bind hseparator fun c => pure (by simp +arith)

theorem upTo {stop : List Token → Bool} {separator : String} {item : Parser Tree}
    (h : Frugal w 0 item) : Frugal w 0 (Grammar.upTo stop separator item) :=
  listed (op _) h

theorem terminated {separator : String} {item : Parser Tree} (h : Frugal w 0 item) :
    Frugal w 0 (Grammar.terminated separator item) :=
  bind (upTo h) fun _ => pure (by simp)

theorem allItems {item : Parser Tree} (h : Frugal w 0 item) : Frugal w 0 (Grammar.allItems item) :=
  bind (iterate (fun _ => branch (pure (by simp)) (bind h fun _ => pure (by simp +arith))) [])
    fun _ => pure (by simp)

end Frugal

end Grammar

end Observable
