import Observable.Proofs.Grammar.Functions
/-! Reading methods, implementations and structs. -/
namespace Observable.Grammar

variable {rules : Rules} {us vs row : List Token} {n : Nat} {raw : Bool} {name : String}

/-- No attributes change nothing. -/
theorem unplaced_withoutAttributes (t : Tree) : (t.withAttributes []).unplaced = t.unplaced := by
  cases t <;> rfl

/-- What is not kept as its source. -/
theorem Reads.orSource {p : Parser (Option Tree)} {ts : List Token}
    (h : Reads p us vs fun r => ∃ t : Tree, r = some t ∧ t.unplaced = ts) :
    Reads (orSource p) us vs (·.unplaced = ts) := by
  unfold Grammar.orSource
  refine h.withSource.bind ?_
  rintro ⟨_, source⟩ ⟨t, rfl, ht⟩
  exact .pure ht

/-- The body of a method. -/
theorem reads_functionBody {body : List Token} (hfront : spelledAhead ['#'] body = false)
    (h : Reads rules.statements body [] (unplacedTrees · = body)) :
    Reads (functionBody rules) (Quote.braces body :: vs) vs (·.unplaced = [Quote.braces body]) := by
  have hinside : Reads (do
      let attributes ← innerAttributes rules
      return attributes ++ (← rules.statements)) body [] (unplacedTrees · = body) := by
    refine .bind (.whileAhead_none (.and_left (.noOp hfront))) ?_
    rintro _ rfl
    exact h.bind fun parts hparts => .pure hparts
  unfold functionBody bodyWithAttributes
  refine .bind (.within hinside) fun group hgroup => .pure ?_
  simpa [Quote.braces, Quote.nowhere] using hgroup

/-- The tokens of a public method without its attributes. -/
def methodTokens (constant : Bool) (name : Token) (inputs result body : List Token) : List Token :=
  Quote.word "pub" :: signatureTokens constant name inputs (result ++ [Quote.braces body])

theorem signatureTokens_append {constant : Bool} {name : Token} {inputs result : List Token} :
    signatureTokens constant name inputs result ++ us
      = signatureTokens constant name inputs (result ++ us) := by
  simp [signatureTokens]

theorem signatureAhead_tokens {constant : Bool} {name : Token} {inputs : List Token} :
    Sees (signatureAhead false) (signatureTokens constant name inputs us) true := by
  intro ts hts
  cases constant with
  | true =>
    obtain ⟨p, rest, rfl, hrest⟩ := easedTokens_eq_ident hts
    obtain ⟨q, rest, rfl, -⟩ := easedTokens_eq_ident hrest
    rfl
  | false =>
    obtain ⟨p, rest, rfl, -⟩ := easedTokens_eq_ident hts
    rfl

section

variable {constant : Bool} {inputs result body : List Token}
  (hname : isIdentifier raw name = true)
  (hinputs : Reads (functionInputs rules) inputs [] (unplacedTrees · = inputs))
  (hresult : IsResult rules result) (hfront : spelledAhead ['#'] body = false)
  (hbody : Reads rules.statements body [] (unplacedTrees · = body))
include hname hinputs hresult hfront hbody

theorem reads_implFunction :
    Reads (implFunction rules)
      (methodTokens constant (.ident raw name .start) inputs result body ++ vs) vs
      fun r => ∃ parts, r = some parts ∧
        unplacedTrees parts
          = methodTokens constant (.ident raw name .start) inputs result body := by
  have hword : ∀ ts, Look.anyWord (signatureTokens constant (.ident raw name .start) inputs ts)
      = true := by
    cases constant <;> exact fun _ => rfl
  have hdefault : ∀ ts,
      Look.word "default" (signatureTokens constant (.ident raw name .start) inputs ts)
        = false := by
    cases constant <;> exact fun _ => rfl
  unfold implFunction methodTokens
  rw [List.cons_append, signatureTokens_append, List.append_assoc]
  refine .bind (reads_visibility_pub (hword _)) fun vis hvis => ?_
  refine .bind (.word_absent (hdefault _)) ?_
  rintro _ rfl
  refine .bind (reads_signature hname hinputs hresult) fun parts hparts => .skip (.noOp rfl) ?_
  refine .bind (reads_functionBody hfront hbody) fun block hblock => .pure ⟨_, rfl, ?_⟩
  simp [hvis.1, hparts, hblock, signatureTokens_append]

/-- A method with its attributes. -/
theorem reads_implMember {bodies : List (List Token)}
    (hbodies : ∀ body ∈ bodies, IsMeta rules body) :
    Reads (implMember rules) (bodies.flatMap Quote.attr
        ++ methodTokens constant (.ident raw name .start) inputs result body ++ vs) vs
      (·.unplaced = bodies.flatMap Quote.attr
        ++ methodTokens constant (.ident raw name .start) inputs result body) := by
  let member := methodTokens constant (.ident raw name .start) inputs result body
  have hword : Look.anyWord (signatureTokens constant (.ident raw name .start) inputs
      (result ++ [Quote.braces body] ++ vs)) = true := by
    cases constant <;> rfl
  have hdefault : Look.word "default" (signatureTokens constant (.ident raw name .start) inputs
      (result ++ [Quote.braces body] ++ vs)) = false := by
    cases constant <;> rfl
  have hlook : Reads (do
      let vis ← visibility
      let marked ← looking defaultAhead
      if marked then pass 1
      fun s => .ok ((vis, marked, s.rest), s)) (member ++ vs)
      (signatureTokens constant (.ident raw name .start) inputs
        (result ++ [Quote.braces body] ++ vs))
      fun r : Tree × Bool × List Token => signatureAhead false r.2.2 = true := by
    rw [show member ++ vs
      = Quote.word "pub" :: signatureTokens constant (.ident raw name .start) inputs
      (result ++ [Quote.braces body] ++ vs) by simp [member, methodTokens, signatureTokens_append]]
    refine .bind (reads_visibility_pub hword) fun vis hvis => ?_
    refine .seeing (.and_left (.word hdefault)) fun s hleft hrest => ?_
    exact ⟨_, s, rfl, hleft, hrest, signatureAhead_tokens s.rest hrest⟩
  unfold implMember
  rw [List.append_assoc]
  refine .orSource (.bind (reads_outerAttributes hbodies rfl) fun attributes hattributes =>
    .bind (.ahead hlook) ?_)
  rintro ⟨vis, marked, rest⟩ hrest
  simp only [hrest, if_true]
  refine .bind (reads_implFunction hname hinputs hresult hfront hbody) ?_
  rintro _ ⟨parts, rfl, hparts⟩
  refine .pure ⟨_, rfl, ?_⟩
  simp [memberOf, hattributes, hparts]

end

/-- Whether no attribute that belongs to what it stands in opens a row. -/
def opensPlain : List Token → Bool
  | .punct _ _ _ :: .punct _ _ _ :: _ => false
  | _ => true

theorem reads_innerAttributes_none (h : opensPlain us = true) :
    Reads (innerAttributes rules) us us (· = []) := by
  refine .whileAhead_none fun ts hts => ?_
  subst hts
  rcases ts with _ | ⟨_ | ⟨c, s, p⟩ | _ | _, ts⟩
  case cons.punct =>
    by_cases hc : c = '#'
    · subst hc
      rcases ts with _ | ⟨_ | _ | _ | _, ts⟩
      case cons.punct => cases h
      all_goals rfl
    · simp [Look.op, Look.spells, Ne.symm hc]
  all_goals rfl

/-- The members of an implementation, where the brackets of attributes may open the first one. -/
theorem reads_memberBody {item : Parser Tree} {rows : List (List Token)}
    (hfront : opensPlain rows.flatten = true)
    (hrows : ∀ row ∈ rows, row ≠ [] ∧ ∀ vs, Reads item (row ++ vs) vs (·.unplaced = row)) :
    Reads (memberBody rules item) (Quote.braces rows.flatten :: vs) vs
      (·.unplaced = [Quote.braces rows.flatten]) := by
  unfold memberBody
  refine .within (.bind (reads_innerAttributes_none hfront) ?_)
  rintro _ rfl
  exact (Reads.allItems hrows).bind fun items hitems => .pure hitems

/-- An implementation of a type. -/
theorem reads_implItem {path : List Token} {rows : List (List Token)}
    (hpath : ∃ first rest, path = Quote.word first :: rest ∧ first ≠ "const")
    (htype : ∀ vs, endsType vs = true → Reads (rules.type true) (path ++ vs) vs (·.unplaced = path))
    (hfront : opensPlain rows.flatten = true)
    (hrows : ∀ row ∈ rows, row ≠ [] ∧
      ∀ vs, Reads (implMember rules) (row ++ vs) vs (·.unplaced = row)) :
    Reads (implItem rules (.node .visibility []))
      (Quote.word "impl" :: (path ++ Quote.braces rows.flatten :: vs)) vs
      fun r => ∃ t : Tree, r = some t ∧
        t.unplaced = Quote.word "impl" :: (path ++ [Quote.braces rows.flatten]) := by
  obtain ⟨first, rest, rfl, hfirst⟩ := hpath
  have hconst : Look.word "const" (Quote.word first :: rest ++ Quote.braces rows.flatten :: vs)
      = false := by
    simpa [Look.word, Quote.word] using hfirst
  unfold implItem
  refine .bind (.word_absent rfl) ?_
  rintro _ rfl
  refine .bind (.word_absent rfl) ?_
  rintro _ rfl
  refine .bind .word fun impl himpl => .seeing (.and_left (.noOp rfl)) (.pure_bind ?_)
  refine .seeing (.or (.word hconst) (.and_left (.noOp rfl))) ?_
  refine .bind (@Reads.withSource _ _ _ _
    (fun r : Tree × Tree => r.1 = .absent ∧ r.2.unplaced = Quote.word first :: rest)
    (.seeing (.and_left (.noOp rfl)) (.pure_bind (.bind (htype _ rfl)
      fun type htype => .pure ⟨rfl, htype⟩)))) ?_
  rintro ⟨⟨_, type⟩, source⟩ ⟨rfl, htype⟩
  refine .seeing (.word rfl) (.pure_bind (.bind (.skip (.word rfl) (.pure rfl)) ?_))
  rintro _ rfl
  refine .bind (reads_memberBody hfront hrows) fun body hbody => .pure ⟨_, rfl, ?_⟩
  simp [itemOf, himpl, htype, hbody]
  rfl

/-- A public field with its attributes. -/
theorem reads_namedField {bodies : List (List Token)} (hbodies : ∀ body ∈ bodies, IsMeta rules body)
    (hname : isIdentifier raw name = true)
    (htype : Reads (rules.type true) us vs (·.unplaced = row)) :
    Reads (namedField rules) (bodies.flatMap Quote.attr
        ++ Quote.word "pub" :: .ident raw name .start :: (Quote.op ":" ++ us)) vs
      (·.unplaced = bodies.flatMap Quote.attr
        ++ Quote.word "pub" :: .ident raw name .start :: (Quote.op ":" ++ row)) := by
  unfold namedField fieldType
  refine .bind (reads_outerAttributes hbodies rfl) fun attributes hattributes => ?_
  refine .bind (reads_visibility_pub rfl) fun vis hvis => ?_
  refine .seeing (.word (word_of_isIdentifier hname (by decide) _ _)) ?_
  refine .bind (.ident hname) fun name hname => .bind (.op rfl rfl) fun colon hcolon => ?_
  refine .bind (.skip (.and_left fun _ _ => rfl) htype) fun type htype => .pure ?_
  simp [hattributes, hvis.1, hname, hcolon, htype]
  rfl

/-- The tokens of a struct without its attributes. -/
def structTokens (name : Token) (rows : List (List Token)) : List Token :=
  [Quote.word "struct", name, Quote.braces (separated (Quote.op ",") true rows)]

/-- A struct with named fields. -/
theorem reads_structItem {vis : Tree} {rows : List (List Token)}
    (hname : isIdentifier raw name = true)
    (hrows : ∀ row ∈ rows, row ≠ [] ∧ ∀ vs, (vs = [] ∨ ∃ ws, vs = Quote.op "," ++ ws) →
      Reads (namedField rules) (row ++ vs) vs (·.unplaced = row)) :
    Reads (structItem rules vis) (structTokens (.ident raw name .start) rows ++ vs) vs
      fun t => ∃ parts, t = .node (.item .struct) parts ∧
        unplacedTrees parts = vis.unplaced ++ structTokens (.ident raw name .start) rows := by
  unfold structItem
  refine .bind .word fun keyword hkeyword => .bind (.ident hname) fun name hname => ?_
  refine .bind (.skip (.noOp rfl) (.pure rfl)) ?_
  rintro _ rfl
  have hfields : Reads (namedFields rules)
    (Quote.braces (separated (Quote.op ",") true rows) :: vs) vs
      (·.unplaced = [Quote.braces (separated (Quote.op ",") true rows)]) := by
    refine .bind (.within (.terminated true hrows)) fun group hgroup => .pure ?_
    simpa [Quote.braces, Quote.nowhere] using hgroup
  have hbody : Reads (structBody rules) (Quote.braces (separated (Quote.op ",") true rows) :: vs) vs
      (unplacedTrees · = [Quote.braces (separated (Quote.op ",") true rows)]) := by
    refine .skip (.word rfl) (.skip (.group rfl) (.take (.group rfl) ?_))
    refine .bind hfields fun fields hfields => .pure ?_
    simpa using hfields
  refine .bind hbody fun body hbody => .pure ⟨_, rfl, ?_⟩
  simp [hkeyword, hname, hbody]
  rfl

/-- No function begins with another word. -/
theorem signatureAhead_word {first : String}
    (h : first ∉ ["const", "async", "unsafe", "extern", "fn"]) :
    Sees (signatureAhead false) (Quote.word first :: us) false := by
  intro ts hts
  obtain ⟨p, rest, rfl, -⟩ := easedTokens_eq_ident hts
  simp only [List.mem_cons, List.not_mem_nil, or_false, not_or] at h
  simp [signatureAhead, dropWord, dropConvention, Look.word, h]

/-- A public struct with its attributes. -/
theorem reads_itemTree_struct {bodies rows : List (List Token)}
    (hbodies : ∀ body ∈ bodies, IsMeta rules body) (hname : isIdentifier raw name = true)
    (hrows : ∀ row ∈ rows, row ≠ [] ∧ ∀ vs, (vs = [] ∨ ∃ ws, vs = Quote.op "," ++ ws) →
      Reads (namedField rules) (row ++ vs) vs (·.unplaced = row)) :
    Reads (itemTree rules) (bodies.flatMap Quote.attr
        ++ Quote.word "pub" :: (structTokens (.ident raw name .start) rows ++ vs)) vs
      (·.unplaced = bodies.flatMap Quote.attr
        ++ Quote.word "pub" :: structTokens (.ident raw name .start) rows) := by
  unfold itemTree
  refine .orSource (.bind (reads_outerAttributes hbodies rfl) fun attributes hattributes => ?_)
  refine .bind (reads_visibility_pub rfl) fun vis hvis => ?_
  have hitem : Reads (itemRest rules vis) (structTokens (.ident raw name .start) rows ++ vs) vs
      fun r => ∃ parts, r = some (.node (.item .struct) parts) ∧
        unplacedTrees parts = vis.unplaced ++ structTokens (.ident raw name .start) rows := by
    unfold itemRest
    refine .skip (signatureAhead_word (by decide)) (.skip (.word rfl) (.skip (.word rfl) ?_))
    refine .skip (.word rfl) (.skip (.word rfl) (.skip (.word rfl) (.skip (.word rfl) ?_)))
    refine .skip (.word rfl) (.take (.word rfl) ?_)
    refine (reads_structItem hname hrows).bind ?_
    rintro _ ⟨parts, rfl, hparts⟩
    exact .pure ⟨parts, rfl, hparts⟩
  refine hitem.bind ?_
  rintro _ ⟨parts, rfl, hparts⟩
  refine .pure ⟨_, rfl, ?_⟩
  simp [Tree.withAttributes, hattributes, hparts, hvis.1]

/-- An implementation of a type, which has no visibility. -/
theorem reads_itemTree_impl {path : List Token} {rows : List (List Token)}
    (hpath : ∃ first rest, path = Quote.word first :: rest ∧ first ≠ "const")
    (htype : ∀ vs, endsType vs = true → Reads (rules.type true) (path ++ vs) vs (·.unplaced = path))
    (hfront : opensPlain rows.flatten = true)
    (hrows : ∀ row ∈ rows, row ≠ [] ∧
      ∀ vs, Reads (implMember rules) (row ++ vs) vs (·.unplaced = row)) :
    Reads (itemTree rules) (Quote.word "impl" :: (path ++ Quote.braces rows.flatten :: vs)) vs
      (·.unplaced = Quote.word "impl" :: (path ++ [Quote.braces rows.flatten])) := by
  unfold itemTree
  refine .orSource (.bind (.outerAttributes_none rfl) ?_)
  rintro _ rfl
  refine .bind (reads_visibility_none rfl) ?_
  rintro _ rfl
  have hitem : Reads (itemRest rules (.node .visibility []))
      (Quote.word "impl" :: (path ++ Quote.braces rows.flatten :: vs)) vs fun r => ∃ t : Tree,
        r = some t ∧ t.unplaced = Quote.word "impl" :: (path ++ [Quote.braces rows.flatten]) := by
    unfold itemRest
    refine .skip (signatureAhead_word (by decide)) (.skip (.word rfl) (.skip (.word rfl) ?_))
    refine .skip (.word rfl) (.skip (.word rfl) (.skip (.word rfl) (.skip (.word rfl) ?_)))
    refine .skip (.word rfl) (.skip (.word rfl) (.skip (.word rfl) ?_))
    refine .skip (.and_left (.word rfl)) (.skip (.word rfl) (.skip (.and_left (.word rfl)) ?_))
    exact .take (.or_left (.word rfl)) (reads_implItem hpath htype hfront hrows)
  refine hitem.bind ?_
  rintro _ ⟨t, rfl, ht⟩
  exact .pure ⟨_, rfl, (unplaced_withoutAttributes t).trans ht⟩

/-- A file of two items. -/
theorem reads_file {rows : List (List Token)} (hfront : opensPlain rows.flatten = true)
    (hrows : ∀ row ∈ rows, row ≠ [] ∧ ∀ vs, Reads rules.item (row ++ vs) vs (·.unplaced = row)) :
    Reads (file rules) rows.flatten [] fun f => unplacedTokens f.tokens = rows.flatten := by
  unfold file
  refine .bind (reads_innerAttributes_none hfront) ?_
  rintro _ rfl
  exact (Reads.allItems hrows).bind fun items hitems => .pure hitems

end Observable.Grammar
