import Observable.Grammar.Parser
import Observable.Proofs.Token.Eased
/-! What readers do on rows of tokens that are known up to places and soft spacing. -/
namespace Observable

theorem easedTokens_eq_nil {ts : List Token} : easedTokens ts = [] ↔ ts = [] := by
  cases ts <;> simp [easedTokens]

theorem length_easedTokens (ts : List Token) : (easedTokens ts).length = ts.length := by
  induction ts with
  | nil => rfl
  | cons t ts ih => simp [easedTokens, ih]

theorem easedTokens_eq_ident {ts us : List Token} {raw : Bool} {name : String} {p : Position}
    (h : easedTokens ts = .ident raw name p :: us) :
    ∃ q rest, ts = .ident raw name q :: rest ∧ easedTokens rest = us := by
  cases ts with
  | nil => cases h
  | cons t rest =>
    obtain ⟨ht, hrest⟩ := List.cons.inj h
    cases t <;> cases ht
    exact ⟨_, rest, rfl, hrest⟩

theorem easedTokens_eq_literal {ts us : List Token} {text : String} {p : Position}
    (h : easedTokens ts = .literal text p :: us) :
    ∃ q rest, ts = .literal text q :: rest ∧ easedTokens rest = us := by
  cases ts with
  | nil => cases h
  | cons t rest =>
    obtain ⟨ht, hrest⟩ := List.cons.inj h
    cases t <;> cases ht
    exact ⟨_, rest, rfl, hrest⟩

theorem easedTokens_eq_group {ts us body : List Token} {d : Delimiter} {p q : Position}
    (h : easedTokens ts = .group d body p q :: us) :
    ∃ inner p' q' rest, ts = .group d inner p' q' :: rest ∧ easedTokens inner = body ∧
      easedTokens rest = us := by
  cases ts with
  | nil => cases h
  | cons t rest =>
    obtain ⟨ht, hrest⟩ := List.cons.inj h
    cases t <;> cases ht
    exact ⟨_, _, _, rest, rfl, rfl, hrest⟩

theorem easedTokens_eq_punct {ts us : List Token} {c : Char} {s : Spacing} {p : Position}
    (h : easedTokens ts = .punct c s p :: us) :
    ∃ s' q rest, ts = .punct c s' q :: rest ∧ easedTokens rest = us ∧
      (isSoft c = false → s' = s) := by
  cases ts with
  | nil => cases h
  | cons t rest =>
    obtain ⟨ht, hrest⟩ := List.cons.inj h
    cases t <;> cases ht
    exact ⟨_, _, rest, rfl, hrest, fun hsoft => by simp [hsoft]⟩

namespace Grammar

variable {α β : Type} {look other : List Token → Bool} {us vs ws : List Token} {b : Bool}

/-- A test that answers alike on tokens and on the same tokens eased. -/
def Steady (look : List Token → Bool) : Prop := ∀ ts, look (easedTokens ts) = look ts

/-- What a test answers on every row with some eased tokens. -/
def Sees (look : List Token → Bool) (us : List Token) (b : Bool) : Prop :=
  ∀ ts, easedTokens ts = us → look ts = b

namespace Steady

theorem sees (h : Steady look) (hb : look us = b) : Sees look us b :=
  fun ts hts => by rw [← h ts, hts, hb]

theorem word (name : String) : Steady (Look.word name) := by
  rintro (_ | ⟨_ | _ | _ | _, ts⟩)
  case cons.ident raw _ _ => cases raw <;> rfl
  all_goals rfl

theorem anyOf (names : List String) : Steady (Look.anyOf names) := by
  intro ts
  simp only [Look.anyOf, word _ ts]

theorem ident : Steady Look.ident := by
  rintro (_ | ⟨_ | _ | _ | _, ts⟩) <;> rfl

theorem anyWord : Steady Look.anyWord := by
  rintro (_ | ⟨_ | _ | _ | _, ts⟩) <;> rfl

theorem group (d : Delimiter) : Steady (Look.group d) := by
  rintro (_ | ⟨_ | _ | _ | _, ts⟩) <;> rfl

theorem atEnd : Steady atEnd := by
  rintro (_ | ⟨_, ts⟩) <;> rfl

theorem or (h : Steady look) (h' : Steady other) : Steady fun ts => look ts || other ts :=
  fun ts => by simp only [h ts, h' ts]

end Steady

/-- Whether all but the last of some characters keep their spacing. -/
def isHard : List Char → Bool
  | c :: d :: rest => !isSoft c && isHard (d :: rest)
  | _ => true

theorem spells_easedTokens {chars : List Char} (h : isHard chars = true) (ts : List Token) :
    Look.spells chars (easedTokens ts) = Look.spells chars ts := by
  induction chars generalizing ts with
  | nil => rfl
  | cons c rest ih =>
    rcases ts with _ | ⟨_ | ⟨d, s, p⟩ | _ | _, ts⟩
    case cons.punct =>
      cases rest with
      | nil => rfl
      | cons e rest =>
        simp only [isHard, Bool.and_eq_true, Bool.not_eq_true'] at h
        by_cases hc : c = d
        · subst hc
          simp [Look.spells, easedTokens, Token.eased, h.1, ih h.2 ts]
        · simp [Look.spells, easedTokens, Token.eased, hc]
    all_goals cases rest <;> rfl

theorem Steady.op {text : String} (h : isHard text.toList = true) : Steady (Look.op text) :=
  fun ts => spells_easedTokens h ts

/-- Whether some characters stand at the front of a row, whatever their spacing. -/
def spelledAhead : List Char → List Token → Bool
  | [], _ => true
  | c :: cs, .punct d _ _ :: rest => c = d && spelledAhead cs rest
  | _, _ => false

theorem spelledAhead_easedTokens (chars : List Char) (ts : List Token) :
    spelledAhead chars (easedTokens ts) = spelledAhead chars ts := by
  induction chars generalizing ts with
  | nil => rfl
  | cons c rest ih =>
    rcases ts with _ | ⟨_ | _ | _ | _, ts⟩
    case cons.punct => simp [spelledAhead, easedTokens, Token.eased, ih ts]
    all_goals rfl

theorem spelledAhead_of_spells {chars : List Char} {ts : List Token}
    (h : Look.spells chars ts = true) : spelledAhead chars ts = true := by
  induction chars generalizing ts with
  | nil => rfl
  | cons c rest ih =>
    rcases ts with _ | ⟨_ | ⟨d, s, p⟩ | _ | _, ts⟩
    case cons.punct =>
      cases rest with
      | nil => simpa [Look.spells, spelledAhead] using h
      | cons e rest =>
        simp only [Look.spells, Bool.and_eq_true, decide_eq_true_eq] at h
        simp [spelledAhead, h.1.1, ih h.2]
    all_goals (cases rest <;> cases h)

theorem skip_easedTokens (ts : List Token) :
    Look.skip (easedTokens ts) = easedTokens (Look.skip ts) := by
  rcases ts with _ | ⟨_ | ⟨c, s, p⟩ | _ | _, ts⟩
  case cons.punct =>
    by_cases hc : c = '\''
    · subst hc
      have hsoft : isSoft '\'' = false := by decide
      cases s with
      | alone => simp [easedTokens, Token.eased, Look.skip, hsoft]
      | joint => rcases ts with _ | ⟨_ | _ | _ | _, ts⟩ <;> simp [easedTokens, Token.eased,
          Look.skip, hsoft]
    · simp [easedTokens, Token.eased, Look.skip, hc]
  all_goals simp [easedTokens, Token.eased, Look.skip]

theorem Steady.second (h : Steady look) : Steady (Look.second look) := by
  intro ts
  simp only [Look.second, skip_easedTokens, h _]
  cases ts <;> rfl

theorem Steady.third (h : Steady look) : Steady (Look.third look) := by
  intro ts
  simp only [Look.third, skip_easedTokens, h.second _]
  cases ts <;> rfl

theorem Steady.lifetime : Steady Look.lifetime := by
  rintro (_ | ⟨_ | ⟨c, s, p⟩ | _ | _, ts⟩)
  case cons.punct =>
    by_cases hc : c = '\''
    · subst hc
      have hsoft : isSoft '\'' = false := by decide
      cases s with
      | alone => simp [easedTokens, Token.eased, Look.lifetime, hsoft]
      | joint => rcases ts with _ | ⟨_ | _ | _ | _, ts⟩ <;> simp [easedTokens, Token.eased,
          Look.lifetime, hsoft]
    · simp [easedTokens, Token.eased, Look.lifetime, hc]
  all_goals rfl

theorem literalText?_easedTokens (ts : List Token) :
    Look.literalText? (easedTokens ts) = Look.literalText? ts := by
  rcases ts with _ | ⟨⟨raw, name, p⟩ | ⟨c, s, p⟩ | _ | _, ts⟩
  case cons.ident => cases raw <;> rfl
  case cons.punct =>
    by_cases hc : c = '-'
    · subst hc
      rcases ts with _ | ⟨_ | _ | _ | _, ts⟩ <;> rfl
    · simp [easedTokens, Token.eased, Look.literalText?, hc]
  all_goals rfl

theorem Steady.literal : Steady Look.literal :=
  fun ts => by simp only [Look.literal, literalText?_easedTokens]

namespace Sees

theorem word {name : String} (h : Look.word name us = b) : Sees (Look.word name) us b :=
  (Steady.word name).sees h

theorem anyOf {names : List String} (h : Look.anyOf names us = b) : Sees (Look.anyOf names) us b :=
  (Steady.anyOf names).sees h

theorem ident (h : Look.ident us = b) : Sees Look.ident us b := Steady.ident.sees h

theorem group {d : Delimiter} (h : Look.group d us = b) : Sees (Look.group d) us b :=
  (Steady.group d).sees h

theorem lifetime (h : Look.lifetime us = b) : Sees Look.lifetime us b := Steady.lifetime.sees h

theorem literal (h : Look.literal us = b) : Sees Look.literal us b := Steady.literal.sees h

theorem atEnd (h : Grammar.atEnd us = b) : Sees Grammar.atEnd us b := Steady.atEnd.sees h

theorem op {text : String} (htext : isHard text.toList = true) (h : Look.op text us = b) :
    Sees (Look.op text) us b :=
  (Steady.op htext).sees h

/-- An operator is not ahead where other characters are. -/
theorem noOp {text : String} (h : spelledAhead text.toList us = false) :
    Sees (Look.op text) us false := by
  rintro ts rfl
  refine Bool.eq_false_iff.mpr fun hop => ?_
  have hahead := spelledAhead_of_spells hop
  rw [← spelledAhead_easedTokens, h] at hahead
  cases hahead

theorem and (h : Sees look us true) (h' : Sees other us b) :
    Sees (fun ts => look ts && other ts) us b :=
  fun ts hts => by simp only [h ts hts, h' ts hts, Bool.true_and]

theorem and_left (h : Sees look us false) : Sees (fun ts => look ts && other ts) us false :=
  fun ts hts => by simp only [h ts hts, Bool.false_and]

theorem and_right (h : Sees other us false) : Sees (fun ts => look ts && other ts) us false :=
  fun ts hts => by simp only [h ts hts, Bool.and_false]

theorem or (h : Sees look us false) (h' : Sees other us b) :
    Sees (fun ts => look ts || other ts) us b :=
  fun ts hts => by simp only [h ts hts, h' ts hts, Bool.false_or]

theorem or_left (h : Sees look us true) : Sees (fun ts => look ts || other ts) us true :=
  fun ts hts => by simp only [h ts hts, Bool.true_or]

theorem not (h : Sees look us (!b)) : Sees (fun ts => !look ts) us b :=
  fun ts hts => by simp only [h ts hts, Bool.not_not]

/-- A test on the second token sees what it sees once the first one is skipped. -/
theorem second {t : Token} (h : Sees look (Look.skip (t :: us)) b) :
    Sees (Look.second look) (t :: us) b := by
  intro ts hts
  have hne : ts.isEmpty = false := by cases ts <;> simp_all [easedTokens]
  rw [Look.second, hne, Bool.not_false, Bool.true_and]
  exact h _ (by rw [← skip_easedTokens, hts])

end Sees

/-- The tokens that a tree stands for, without their places. -/
def Tree.unplaced (t : Tree) : List Token := unplacedTokens t.tokens

/-- The tokens that some trees stand for, without their places. -/
def unplacedTrees (ts : List Tree) : List Token := unplacedTokens (treesTokens ts)

section

variable {t : Tree} {ts : List Tree} {kind : Kind} {d : Delimiter} {p q : Position}

@[simp] theorem unplacedTrees_nil : unplacedTrees [] = [] := rfl

@[simp] theorem unplacedTrees_cons : unplacedTrees (t :: ts) = t.unplaced ++ unplacedTrees ts := by
  rw [unplacedTrees, treesTokens, unplacedTokens_append, Tree.unplaced, unplacedTrees]

@[simp] theorem unplacedTrees_append (ts us : List Tree) :
    unplacedTrees (ts ++ us) = unplacedTrees ts ++ unplacedTrees us := by
  rw [unplacedTrees, treesTokens_append, unplacedTokens_append, unplacedTrees, unplacedTrees]

@[simp] theorem unplaced_token {t : Token} : (Tree.token t).unplaced = [t.unplaced] := rfl

@[simp] theorem unplaced_node : (Tree.node kind ts).unplaced = unplacedTrees ts := rfl

@[simp] theorem unplaced_group :
    (Tree.group d p q ts).unplaced = [.group d (unplacedTrees ts) .start .start] := rfl

@[simp] theorem unplaced_absent : Tree.absent.unplaced = [] := rfl

@[simp] theorem unplaced_sequence : (Tree.sequence ts).unplaced = unplacedTrees ts := rfl

theorem unplacedTrees_tokens (ts : List Token) :
    unplacedTrees (ts.map .token) = unplacedTokens ts := by
  induction ts with
  | nil => rfl
  | cons t ts ih => simp [ih, unplacedTokens]

theorem unplaced_ofTokens (ts : List Token) : (Tree.ofTokens ts).unplaced = unplacedTokens ts := by
  rw [Tree.ofTokens, unplaced_node, unplacedTrees_tokens]

/-- What stands for some tokens is present. -/
theorem isPresent_of_unplaced {t : Tree} {u : Token} {us : List Token} (h : t.unplaced = u :: us) :
    t.isPresent = true := by
  unfold Tree.isPresent
  split
  · cases h
  · rfl

@[simp] theorem isPresent_absent : Tree.absent.isPresent = false := rfl

end

/-- On every row with some eased tokens, a reader succeeds with something good and leaves a row with
some other eased tokens. -/
def Reads (p : Parser α) (us vs : List Token) (good : α → Prop) : Prop :=
  ∀ s : Input, s.leftover = none → easedTokens s.rest = us →
    ∃ a s', p s = .ok (a, s') ∧ s'.leftover = none ∧ easedTokens s'.rest = vs ∧ good a

namespace Reads

variable {p : Parser α} {f : α → Parser β} {good fine : α → Prop} {better : β → Prop}

theorem bind_ok {s s' : Input} {a : α} (h : p s = .ok (a, s')) : (p >>= f) s = f a s' := by
  show (do let (a, s) ← p s; f a s) = f a s'
  rw [h]
  rfl

theorem pure {a : α} (h : good a) : Reads (pure a) us us good :=
  fun s hleft hrest => ⟨a, s, rfl, hleft, hrest, h⟩

theorem bind (hp : Reads p us vs good) (hf : ∀ a, good a → Reads (f a) vs ws better) :
    Reads (p >>= f) us ws better := by
  intro s hleft hrest
  obtain ⟨a, s', hs, hleft', hrest', ha⟩ := hp s hleft hrest
  obtain ⟨b, s'', hs', hend⟩ := hf a ha s' hleft' hrest'
  exact ⟨b, s'', by rw [bind_ok hs, hs'], hend⟩

theorem pure_bind {a : α} (h : Reads (f a) us vs better) : Reads (Pure.pure a >>= f) us vs better :=
  h

theorem weaken (h : Reads p us vs good) (hgood : ∀ a, good a → fine a) : Reads p us vs fine := by
  intro s hleft hrest
  obtain ⟨a, s', hs, hleft', hrest', ha⟩ := h s hleft hrest
  exact ⟨a, s', hs, hleft', hrest', hgood a ha⟩

theorem looking (h : Sees look us b) : Reads (looking look) us us (· = b) :=
  fun s hleft hrest => ⟨look s.rest, s, rfl, hleft, hrest, h s.rest hrest⟩

theorem seeing {f : Bool → Parser β} (h : Sees look us b) (hf : Reads (f b) us vs better) :
    Reads (Grammar.looking look >>= f) us vs better :=
  (looking h).bind fun _ hb => by rw [hb]; exact hf

/-- What a function of the tokens ahead gives. -/
theorem asking {g : List Token → α} {a : α} (h : ∀ ts, easedTokens ts = us → g ts = a) :
    Reads (fun s => .ok (g s.rest, s)) us us (· = a) :=
  fun s hleft hrest => ⟨g s.rest, s, rfl, hleft, hrest, h s.rest hrest⟩

/-- A branch that is taken. -/
theorem take {q : Parser α} (h : Sees look us true) (hp : Reads p us vs good) :
    Reads (do if ← Grammar.looking look then p else q) us vs good :=
  (looking h).bind fun _ hb => by rw [hb]; exact hp

/-- A branch that is passed over. -/
theorem skip {q : Parser α} (h : Sees look us false) (hp : Reads p us vs good) :
    Reads (do if ← Grammar.looking look then q else p) us vs good :=
  (looking h).bind fun _ hb => by rw [hb]; exact hp

/-- Something optional that is not there. -/
theorem optionally_absent {p : Parser Tree} (h : Sees look us false) :
    Reads (optionally look p) us us (· = .absent) :=
  .skip h (.pure rfl)

theorem op_absent {text : String} (h : Sees (Look.op text) us false) :
    Reads (op? text) us us (· = .absent) :=
  optionally_absent h

theorem word_absent {name : String} (h : Look.word name us = false) :
    Reads (word? name) us us (· = .absent) :=
  optionally_absent (.word h)

theorem optionally_present {p : Parser Tree} {good : Tree → Prop} (h : Sees look us true)
    (hp : Reads p us vs good) : Reads (optionally look p) us vs good :=
  .take h hp

end Reads

theorem operator_easedTokens {chars : List Char} (hchars : isHard chars = true) {ts vs : List Token}
    (h : easedTokens ts = Token.operator chars .start ++ vs) :
    Look.spells chars ts = true ∧ easedTokens (ts.drop chars.length) = vs ∧
      unplacedTokens (respaced (ts.take chars.length)) = Token.operator chars .start := by
  induction chars generalizing ts with
  | nil => exact ⟨rfl, h, rfl⟩
  | cons c rest ih =>
    cases rest with
    | nil =>
      obtain ⟨s, q, ts, rfl, hts, -⟩ := easedTokens_eq_punct h
      exact ⟨by simp [Look.spells], hts, rfl⟩
    | cons d rest =>
      simp only [isHard, Bool.and_eq_true, Bool.not_eq_true'] at hchars
      obtain ⟨s, q, ts, rfl, hts, hs⟩ := easedTokens_eq_punct h
      obtain rfl := hs hchars.1
      obtain ⟨hspells, hdrop, htaken⟩ := ih hchars.2 hts
      refine ⟨by simp [Look.spells, hspells], hdrop, ?_⟩
      have htake : (Token.punct c .joint q :: ts).take (c :: d :: rest).length
          = .punct c .joint q :: ts.take (d :: rest).length := rfl
      rw [htake]
      cases hfront : ts.take (d :: rest).length with
      | nil =>
        rw [hfront] at htaken
        cases rest <;> cases htaken
      | cons t front =>
        rw [hfront] at htaken
        simp only [respaced, unplacedTokens, htaken]
        rfl

namespace Reads

/-- An operator is read where its characters stand, and is spelled with its own spacing. -/
theorem op {text : String} (hus : us = Token.operator text.toList .start ++ vs)
    (htext : isHard text.toList = true) :
    Reads (op text) us vs (·.unplaced = Token.operator text.toList .start) := by
  intro s hleft hrest
  rw [hus] at hrest
  obtain ⟨hspells, hdrop, htaken⟩ := operator_easedTokens htext hrest
  rw [String.length_toList] at hdrop htaken
  refine ⟨_, { s with rest := s.rest.drop text.length }, if_pos hspells, hleft, hdrop, ?_⟩
  exact (unplaced_ofTokens _).trans htaken

theorem op_present {text : String} (hus : us = Token.operator text.toList .start ++ vs)
    (htext : isHard text.toList = true) (h : Look.op text us = true) :
    Reads (op? text) us vs (·.unplaced = Token.operator text.toList .start) :=
  optionally_present (.op htext h) (.op hus htext)

/-- The next token is taken as it is. -/
theorem oneToken_token {t : Token} {c : Complaint} {taken : Token → Prop}
    (h : Sees look (t :: us) true) (ht : ∀ (u : Token) (followed : Bool), u.eased followed
      = t → taken u) :
    Reads (oneToken look c) (t :: us) us fun x => ∃ u, x = .token u ∧ taken u := by
  intro s hleft hrest
  have hlook := h _ hrest
  obtain ⟨rest, close, d, leftover⟩ := s
  cases rest with
  | nil => cases hrest
  | cons u rest =>
    obtain ⟨hu, hrest⟩ := List.cons.inj hrest
    exact ⟨.token u, ⟨rest, close, d, leftover⟩, if_pos hlook, hleft, hrest, u, rfl, ht u _ hu⟩

theorem oneToken {t : Token} {c : Complaint} (h : Sees look (t :: us) true)
    (ht : ∀ (u : Token) (followed : Bool), u.eased followed = t → u.unplaced = t) :
    Reads (oneToken look c) (t :: us) us (·.unplaced = [t]) :=
  (oneToken_token h ht).weaken fun _ ⟨_, hx, hu⟩ => by rw [hx, unplaced_token, hu]

theorem unplaced_of_eased_ident {raw : Bool} {name : String} (u : Token) (followed : Bool)
    (h : u.eased followed = .ident raw name .start) : u.unplaced = .ident raw name .start := by
  cases u <;> cases h
  rfl

theorem word {name : String} :
    Reads (word name) (.ident false name .start :: us) us
      (·.unplaced = [.ident false name .start]) :=
  .oneToken (.word (by simp [Look.word])) unplaced_of_eased_ident

theorem anyWord {raw : Bool} {name : String} :
    Reads anyWord (.ident raw name .start :: us) us (·.unplaced = [.ident raw name .start]) :=
  .oneToken (Steady.anyWord.sees rfl) unplaced_of_eased_ident

theorem identToken {raw : Bool} {name : String} (h : isIdentifier raw name = true) :
    Reads ident (.ident raw name .start :: us) us fun t => ∃ p, t = .token (.ident raw name p) := by
  intro s hleft hrest
  obtain ⟨p, rest, hs, hrest'⟩ := easedTokens_eq_ident hrest
  refine ⟨.token (.ident raw name p), { s with rest := rest }, ?_, hleft, hrest', p, rfl⟩
  have hone : Grammar.oneToken Look.ident (.expected [.identifier]) s
      = .ok (.token (.ident raw name p), { s with rest := rest }) := by
    simp only [Grammar.oneToken, hs, Look.ident, h, if_true]
  rw [Grammar.ident, hs]
  cases raw with
  | false => simpa only [h, if_true] using hone
  | true => exact hone

theorem ident {raw : Bool} {name : String} (h : isIdentifier raw name = true) :
    Reads ident (.ident raw name .start :: us) us (·.unplaced = [.ident raw name .start]) :=
  (identToken h).weaken fun _ ⟨_, ht⟩ => by rw [ht]; rfl

theorem lifetime {raw : Bool} {name : String} :
    Reads lifetime (.punct '\'' .joint .start :: .ident raw name .start :: us) us
      (·.unplaced = [.punct '\'' .joint .start, .ident raw name .start]) := by
  intro s hleft hrest
  have hlook : Look.lifetime s.rest = true := Steady.lifetime.sees rfl s.rest hrest
  obtain ⟨s', q, rest, hs, hrest', hs'⟩ := easedTokens_eq_punct hrest
  obtain ⟨q', rest', rfl, hrest''⟩ := easedTokens_eq_ident hrest'
  obtain rfl := hs' (by decide)
  refine ⟨.node .lifetime ((s.rest.take 2).map .token), { s with rest := s.rest.drop 2 },
    if_pos hlook, hleft, ?_, ?_⟩
  · rw [hs]
    exact hrest''
  · exact unplaced_node.trans ((unplacedTrees_tokens _).trans (by rw [hs]; rfl))

/-- A literal without a sign. -/
theorem literalToken {text : String} :
    Reads literal (.literal text .start :: us) us fun t => ∃ q, t = .token (.literal text q) := by
  have hread : Reads (Grammar.oneToken Look.literal (.expected [.literal]))
      (.literal text .start :: us) us fun t => ∃ u, t = .token u ∧ ∃ q, u = .literal text q := by
    refine .oneToken_token (.literal rfl) fun u followed hu => ?_
    cases u <;> cases hu
    exact ⟨_, rfl⟩
  intro s hleft hrest
  obtain ⟨q, rest, hs, -⟩ := easedTokens_eq_literal hrest
  have hliteral : Grammar.literal s = Grammar.oneToken Look.literal (.expected [.literal]) s := by
    rw [Grammar.literal, hs]
  rw [hliteral]
  exact hread.weaken (fun _ ⟨_, ht, q, hu⟩ => ⟨q, by rw [ht, hu]⟩) s hleft hrest

theorem literal {text : String} :
    Reads literal (.literal text .start :: us) us (·.unplaced = [.literal text .start]) :=
  literalToken.weaken fun _ ⟨_, ht⟩ => by rw [ht]; rfl

/-- The inside of a group, all of which is read. -/
theorem inside {d : Delimiter} {body : List Token} {p : Parser α} {good : α → Prop}
    (hp : Reads p body [] good) :
    Reads (inside d p) (.group d body .start .start :: us) us fun r =>
      good r.1 ∧ ∀ parts, (r.2 parts).unplaced
        = [.group d (unplacedTrees parts) .start .start] := by
  intro s hleft hrest
  obtain ⟨inner, place, close, rest, hs, hinner, hrest'⟩ := easedTokens_eq_group hrest
  obtain ⟨a, s', hs', hleft', hend, ha⟩ :=
    hp { rest := inner, close := close, delimiter := d, leftover := s.leftover } hleft hinner
  have hsettled : s'.settled = none := by
    rw [Input.settled, hleft', easedTokens_eq_nil.mp hend]
  refine ⟨(a, .group d place close), { s with rest := rest, leftover := s'.settled }, ?_, hsettled,
    hrest', ha, fun parts => unplaced_group⟩
  rw [Grammar.inside, hs]
  simp only [if_true, hs']

theorem within {d : Delimiter} {body ws : List Token} {p : Parser (List Tree)}
    (hp : Reads p body [] (unplacedTrees · = ws)) :
    Reads (within d p) (.group d body .start .start :: us) us
      (·.unplaced = [.group d ws .start .start]) :=
  (Reads.inside hp).bind fun ⟨parts, wrap⟩ ⟨hparts, hwrap⟩ => .pure (by rw [hwrap, hparts])

theorem withSource {p : Parser α} {good : α → Prop} (hp : Reads p us vs good) :
    Reads (withSource p) us vs fun r => good r.1 := by
  intro s hleft hrest
  obtain ⟨a, s', hs, hend⟩ := hp s hleft hrest
  exact ⟨(a, s.since s'), s', by rw [Grammar.withSource, hs], hend⟩

theorem ahead {p : Parser α} {good : α → Prop} (hp : Reads p us vs good) :
    Reads (ahead p) us us good := by
  intro s hleft hrest
  obtain ⟨a, s', hs, -, -, ha⟩ := hp s hleft hrest
  exact ⟨a, s, by rw [Grammar.ahead, hs], hleft, hrest, ha⟩

theorem attempt {p : Parser α} {good : α → Prop} (hp : Reads p us vs good) :
    Reads (attempt p) us vs fun r => ∃ a, r = some a ∧ good a := by
  intro s hleft hrest
  obtain ⟨a, s', hs, hleft', hrest', ha⟩ := hp s hleft hrest
  exact ⟨some a, s', by rw [Grammar.attempt, hs], hleft', hrest', a, rfl, ha⟩

/-- The contents of a macro call are kept as they are. -/
theorem anyGroup {d : Delimiter} {body : List Token} (hd : d ≠ .invisible)
    (hbody : ∀ ts, easedTokens ts = body → unplacedTokens ts = body) :
    Reads anyGroup (.group d body .start .start :: us) us
      (·.unplaced = [.group d body .start .start]) := by
  intro s hleft hrest
  obtain ⟨inner, place, close, rest, hs, hinner, hrest'⟩ := easedTokens_eq_group hrest
  refine ⟨.token (.group d inner place close), { s with rest := rest }, ?_, hleft, hrest', ?_⟩
  · rw [Grammar.anyGroup, hs]
    simp only [hd, if_false]
  · exact unplaced_token.trans (by rw [Token.unplaced, hbody inner hinner])

end Reads

/-- A loop whose steps read what they should: the last one says that it is done, and every other one
reads a token. -/
inductive Runs (step : α → Parser (α × Bool)) (good : α → Prop) :
    α → List Token → List Token → Prop
  | stop {a us vs} (h : Reads (step a) us vs fun r => r.2 = false ∧ good r.1) :
      Runs step good a us vs
  | next {a us vs ws} (mid : α → Prop) (h : Reads (step a) us vs fun r => r.2 = true ∧ mid r.1)
      (hlength : vs.length < us.length) (hmid : ∀ b, mid b → Runs step good b vs ws) :
      Runs step good a us ws

theorem Runs.upTo {step : α → Parser (α × Bool)} {good : α → Prop} {a : α}
    (h : Runs step good a us vs)
    {n : Nat} (hn : us.length < n) : Reads (iterateUpTo step n a) us vs good := by
  induction h generalizing n with
  | @stop a us vs h =>
    obtain ⟨n, rfl⟩ := Nat.exists_eq_succ_of_ne_zero (Nat.ne_zero_of_lt hn)
    refine h.bind fun r hr => ?_
    obtain ⟨a, again⟩ := r
    obtain ⟨rfl, ha⟩ := hr
    exact .pure ha
  | @next a us vs ws mid h hlength hmid ih =>
    obtain ⟨n, rfl⟩ := Nat.exists_eq_succ_of_ne_zero (Nat.ne_zero_of_lt hn)
    refine h.bind fun r hr => ?_
    obtain ⟨b, again⟩ := r
    obtain ⟨rfl, hb⟩ := hr
    exact ih b hb (Nat.lt_of_lt_of_le hlength (Nat.le_of_lt_succ hn))

theorem Runs.reads {step : α → Parser (α × Bool)} {good : α → Prop} {a : α}
    (h : Runs step good a us vs) : Reads (iterate step a) us vs good := by
  intro s hleft hrest
  have hlength : us.length < s.rest.length + 1 := by
    rw [← hrest, length_easedTokens]
    exact Nat.lt_succ_self _
  exact h.upTo hlength s hleft hrest

/-- On every row with some eased tokens, a reader refuses. -/
def Refuses (p : Parser α) (us : List Token) : Prop :=
  ∀ s : Input, s.leftover = none → easedTokens s.rest = us → ∃ e, p s = .error e

namespace Refuses

variable {p : Parser α} {f : α → Parser β} {good : α → Prop}

theorem bind (h : Refuses p us) : Refuses (p >>= f) us := by
  intro s hleft hrest
  obtain ⟨e, he⟩ := h s hleft hrest
  refine ⟨e, ?_⟩
  show (do let (a, s) ← p s; f a s) = .error e
  rw [he]
  rfl

theorem after (hp : Reads p us vs good) (hf : ∀ a, good a → Refuses (f a) vs) :
    Refuses (p >>= f) us := by
  intro s hleft hrest
  obtain ⟨a, s', hs, hleft', hrest', ha⟩ := hp s hleft hrest
  obtain ⟨e, he⟩ := hf a ha s' hleft' hrest'
  exact ⟨e, by rw [Reads.bind_ok hs, he]⟩

theorem oneToken {c : Complaint} (h : Sees look us false) : Refuses (oneToken look c) us := by
  intro s hleft hrest
  have hlook := h s.rest hrest
  obtain ⟨rest, close, d, leftover⟩ := s
  cases rest with
  | nil => exact ⟨_, rfl⟩
  | cons t rest => exact ⟨_, if_neg (by simpa using hlook)⟩

theorem word {name : String} (h : Look.word name us = false) : Refuses (word name) us :=
  .oneToken (.word h)

theorem ident (h : Look.ident us = false) : Refuses ident us := by
  have hone : Refuses (Grammar.oneToken Look.ident (.expected [.identifier])) us :=
    .oneToken (.ident h)
  intro s hleft hrest
  unfold Grammar.ident
  split
  · split
    · exact hone s hleft hrest
    · exact ⟨_, rfl⟩
  · exact hone s hleft hrest

/-- Something that is tried in vain. -/
theorem attempt (h : Refuses p us) : Reads (attempt p) us us (· = none) := by
  intro s hleft hrest
  obtain ⟨e, he⟩ := h s hleft hrest
  exact ⟨none, s, by rw [Grammar.attempt, he], hleft, hrest, rfl⟩

end Refuses

end Grammar

end Observable
