import Mathlib.Data.List.Forall2
import Observable.Field.Candidate
import Observable.Proofs.Derive.Arguments
import Observable.Proofs.Grammar.Expressions
/-! The check of a marked type and the generator on the arguments of a marker. -/
namespace Observable

/-- The characters of the string that a token is. -/
def Token.stringValue? : Token → Option (List Char)
  | .literal text _ => Literal.stringValue? text.toList
  | _ => none

/-- The strings in the group of a marker. -/
def Grammar.Tree.givenNames (attr : Tree) : List (List Char) :=
  match attr.attributeMeta? with
  | some (.node (.metaItem .list) [_, items]) => items.groupTokens.filterMap Token.stringValue?
  | _ => []

/-- Whether a scan tells of a field that the arguments of its marker cannot be used. -/
def Findings.RefusesArguments (f : Findings) : Prop :=
  ∃ d ∈ f.diagnostics, ∃ field e, d.message = (ResolveError.arguments field e).message

/-- What stands first in a text still does when more follows. -/
theorem head?_toList_append {s : String} {c : Char} (h : s.toList.head? = some c) (t : String) :
    (s ++ t).toList.head? = some c := by
  rw [String.toList_append, List.head?_append, h, Option.some_or]

/-- Only a problem with the arguments of a marker is told as one. -/
theorem ResolveError.head?_message (e : ResolveError) :
    e.message.toList.head? = some 'i' ↔ ∃ field found, e = .arguments field found := by
  have hother {c : Char} (h : e.message.toList.head? = some c) (hc : c ≠ 'i')
      (he : ∀ field found, e ≠ .arguments field found) :
      e.message.toList.head? = some 'i' ↔ ∃ field found, e = .arguments field found := by
    rw [h, Option.some_inj]
    exact iff_of_false hc fun ⟨field, found, h⟩ => he field found h
  cases e with
  | unnamed owner index =>
    refine hother (c := 'f') ?_ (by decide) nofun
    iterate 4 apply head?_toList_append
    rfl
  | «local» owner =>
    refine hother (c := '`') ?_ (by decide) nofun
    iterate 2 apply head?_toList_append
    rfl
  | generic owner =>
    refine hother (c := '`') ?_ (by decide) nofun
    iterate 2 apply head?_toList_append
    rfl
  | arguments field found =>
    refine iff_of_true ?_ ⟨field, found, rfl⟩
    iterate 3 apply head?_toList_append
    rfl

namespace FieldDeclaration

theorem refusesArguments_problem (location : Location) (e : ResolveError) :
    (problem location e).RefusesArguments ↔ ∃ field found, e = .arguments field found := by
  constructor
  · rintro ⟨d, hd, field, found, hmessage⟩
    obtain rfl := List.mem_singleton.mp hd
    rw [← e.head?_message, show e.message = _ from hmessage, ResolveError.head?_message]
    exact ⟨field, found, rfl⟩
  · rintro ⟨field, found, rfl⟩
    exact ⟨_, List.mem_singleton_self _, field, found, rfl⟩

theorem not_refusesArguments_repeated (candidates : List Candidate) (name : String) (count : Nat)
    (location : Location) :
    ¬ Findings.RefusesArguments { candidates, diagnostics := repeated name count location } := by
  rintro ⟨d, hd, field, found, hmessage⟩
  have hhead : d.message.toList.head? = some 'i' := by
    rw [hmessage, ResolveError.head?_message]
    exact ⟨field, found, rfl⟩
  unfold repeated at hd
  split at hd
  · obtain rfl := List.mem_singleton.mp hd
    simp at hhead
  · cases hd

/-- A field is left out for the arguments of its first marker when they are refused and nothing else
keeps it from being a candidate. -/
theorem refusesArguments_scan_iff {d : FieldDeclaration} {s : Surroundings}
    {first : Grammar.Tree} {more : List Grammar.Tree}
    (h : d.field.attributes.filter (Marker.marks s.scope) = first :: more) :
    (d.scan s).RefusesArguments ↔ d.accessibility = .confined ∧ (∃ found, d.resolve s = .ok found) ∧
      ¬ ∃ name, Marker.nameOf first = .ok name := by
  have hnone : ¬ Findings.RefusesArguments {} := fun ⟨_, hd, _⟩ => by cases hd
  unfold scan
  simp only [h]
  by_cases haccess : d.accessibility = .confined
  · cases hresolve : d.resolve s with
    | error e =>
      have hcause : ¬ ∃ field found, e = .arguments field found := by
        rintro ⟨field, found, rfl⟩
        unfold resolve at hresolve
        split at hresolve
        · cases hresolve
        · split at hresolve
          · cases hresolve
          · split at hresolve <;> cases hresolve
      simp [haccess, refusesArguments_problem, hcause]
    | ok found =>
      cases hname : Marker.nameOf first with
      | error e => simp [haccess, refusesArguments_problem]
      | ok argument => simp [haccess, not_refusesArguments_repeated]
  · simp [haccess, hnone]

end FieldDeclaration

namespace Derive

open Grammar

/-- The names that are given are the strings among the tokens. -/
theorem Gives.strings {ts : List Token} {names : List (List Char)} (h : Gives ts names) :
    ts.filterMap Token.stringValue? = names := by
  induction h with
  | nil => rfl
  | last h => simp only [List.filterMap_cons, List.filterMap_nil, Token.stringValue?, h]
  | more h _ ih => simp only [List.filterMap_cons, Token.stringValue?, h, ih]

/-- Names are given wherever the tokens stand. -/
theorem Gives.unplaced {ts : List Token} {names : List (List Char)} (h : Gives ts names) :
    Gives (unplacedTokens ts) names := by
  induction h with
  | nil => exact .nil
  | last h => exact .last h
  | more h _ ih => exact .more h ih

/-- What the check accepts in the group of a marker. -/
theorem gives_of_accepted {body : List Token} {close : Position} {found : List Tree}
    (h : (readUpTo body close fun _ => nestedArguments argument) = .ok found) :
    ∃ names, Gives body names := by
  rcases readArguments_cases body close with ⟨⟨names, hnames, -⟩, -⟩ | ⟨e, -, hread⟩
  · exact ⟨names, hnames⟩
  · rw [h] at hread
    cases hread

/-- An item that gives a name. -/
def IsNamed (name : List Char) (item : Tree) : Prop :=
  ∃ path equals text q, item = .node (.metaItem .nameValue)
      [path, equals, .node (.expression .literal) [.token (.literal text q)]] ∧
    path.pathWords = [Marker.nameArgument] ∧ Literal.stringValue? text.toList = some name

section

variable {sp : Spacing} {text : String} {name : List Char} {us vs : List Token} {n : Nat}

/-- A single character is read whatever its spacing. -/
theorem reads_mark {c : Char} {mark : String} (hmark : mark.toList = [c]) :
    Reads (op mark) (.punct c sp .start :: us) us fun _ => True := by
  intro s hleft hrest
  obtain ⟨sp', q, rest, hs, hrest', -⟩ := easedTokens_eq_punct hrest
  have hlength : mark.length = 1 := by rw [← String.length_toList, hmark]; rfl
  have hop : Look.op mark s.rest = true := by simp [Look.op, hmark, Look.spells, hs]
  refine ⟨_, { s with rest := s.rest.drop mark.length }, if_pos hop, hleft, ?_, trivial⟩
  simpa [hlength, hs] using hrest'

theorem reads_wordPath :
    Reads wordPath (.ident false Marker.nameArgument .start :: .punct '=' sp .start :: us)
      (.punct '=' sp .start :: us) (·.pathWords = [Marker.nameArgument]) := by
  unfold wordPath
  refine .bind (.op_absent (.noOp rfl)) ?_
  rintro _ rfl
  have hword : Reads anyWord (.ident false Marker.nameArgument .start :: .punct '=' sp .start :: us)
      (.punct '=' sp .start :: us)
      fun t => ∃ u, t = .token u ∧ ∃ q, u = .ident false Marker.nameArgument q := by
    refine .oneToken_token (Steady.anyWord.sees rfl) fun u followed hu => ?_
    cases u <;> cases hu
    exact ⟨_, rfl⟩
  refine @Reads.bind _ _ _ (.punct '=' sp .start :: us) _ _ _ (fun found => ∃ q, found
      = [(.node .segment [.token (.ident false Marker.nameArgument q), .absent], .absent)]) _
    (Runs.reads (.stop (.take (Steady.anyWord.sees rfl) (.bind hword ?_)))) ?_
  · rintro _ ⟨_, rfl, q, rfl⟩
    exact .skip (.noOp rfl) (.pure ⟨rfl, q, rfl⟩)
  · rintro _ ⟨q, rfl⟩
    exact .pure rfl

/-- What can follow an argument. -/
def EndsArgument (vs : List Token) : Prop := vs = [] ∨ ∃ sp ws, vs = .punct ',' sp .start :: ws

/-- The value of an argument is that literal, whether it ends the arguments or not. -/
theorem reads_metaValue (hends : EndsArgument vs) :
    Reads (metaValue (Rules.upTo (n + 2))) (.literal text .start :: vs) vs
      fun e => ∃ q, e = .node (.expression .literal) [.token (.literal text q)] := by
  unfold metaValue
  rcases hends with rfl | ⟨sp, ws, rfl⟩
  · refine .bind (.attempt (.bind .literalToken fun t ht => .take (.atEnd rfl) (.pure ht))) ?_
    rintro _ ⟨_, rfl, q, rfl⟩
    exact .pure ⟨q, rfl⟩
  · have hrefuses : Refuses (do
        let value ← literal
        if ← looking atEnd then return value else refuse (.expected [.literal]))
        (.literal text .start :: .punct ',' sp .start :: ws) := by
      refine .after .literalToken fun t ht => .after (.looking (.atEnd rfl)) ?_
      rintro _ rfl
      exact fun s _ _ => ⟨_, rfl⟩
    refine .bind hrefuses.attempt ?_
    rintro _ rfl
    refine .skip (.and_left (.noOp rfl)) ?_
    exact reads_expression_literal rfl rfl

theorem reads_argumentItem (hstring : Literal.stringValue? text.toList = some name)
    (hends : EndsArgument vs) :
    Reads (argumentItem (Rules.upTo (n + 2)))
      (.ident false Marker.nameArgument .start :: .punct '=' sp .start :: .literal text
      .start :: vs)
      vs (IsNamed name) := by
  unfold argumentItem
  refine .skip (.and_left (.literal rfl)) (.take (.or_left (Steady.anyWord.sees rfl)) ?_)
  refine .bind reads_wordPath fun path hpath => ?_
  unfold metaRest
  refine .skip (.or (.or (.group rfl) (.group rfl)) (.group rfl)) (.take (.op rfl rfl) ?_)
  refine .bind (reads_mark rfl) fun equals _ => .bind (reads_metaValue hends) ?_
  rintro _ ⟨q, rfl⟩
  exact .pure ⟨path, equals, text, q, rfl, hpath, hstring⟩

theorem named_concat {before : List (List Char)} {found : List (Tree × Tree)} {x : Tree}
    (h : List.Forall₂ IsNamed before (found.reverse.map Prod.fst)) (hx : IsNamed name x)
    (c : Tree) :
    List.Forall₂ IsNamed (before ++ [name]) (((x, c) :: found).reverse.map Prod.fst) := by
  rw [List.reverse_cons, List.map_append]
  exact List.rel_append h (.cons hx .nil)

/-- The generator reads an item for each name that is given. -/
theorem runs_arguments {ts : List Token} {names : List (List Char)} (h : Gives ts names)
    (before : List (List Char)) (found : List (Tree × Tree))
    (hfound : List.Forall₂ IsNamed before (found.reverse.map Prod.fst)) :
    Runs (fun found => do
        if ← looking atEnd then return (found, false)
        let x ← argumentItem (Rules.upTo (n + 2))
        if ← looking (fun ts => !atEnd ts) then
          let c ← op ","
          return ((x, c) :: found, true)
        else return ((x, .absent) :: found, false))
      (fun found => List.Forall₂ IsNamed (before ++ names) (found.reverse.map Prod.fst))
      found (easedTokens ts) [] := by
  induction h generalizing before found with
  | nil => exact .stop (.take (.atEnd rfl) (.pure ⟨rfl, by simpa using hfound⟩))
  | @last q s q₁ text q₂ name hstring =>
    refine .stop (.skip (.atEnd rfl) (.bind (reads_argumentItem hstring (.inl rfl)) fun x hx => ?_))
    exact .skip (.not (.atEnd rfl)) (.pure ⟨rfl, named_concat hfound hx _⟩)
  | @more q s q₁ text q₂ s' q₃ name ts names hstring _ ih =>
    refine @Runs.next _ _ _ _ _ (easedTokens ts) _
      (fun found => List.Forall₂ IsNamed (before ++ [name]) (found.reverse.map Prod.fst))
      (.skip (.atEnd rfl) (.bind (reads_argumentItem hstring (.inr ⟨_, _, rfl⟩)) fun x hx =>
        ?_)) ?_ ?_
    · exact .take (.not (.atEnd rfl)) (.bind (reads_mark rfl) fun c _ =>
        .pure ⟨rfl, named_concat hfound hx _⟩)
    · simp only [easedTokens, List.length_cons]
      omega
    · intro found hfound
      have hruns := ih (before ++ [name]) found hfound
      rwa [List.append_assoc, List.singleton_append] at hruns

/-- The arguments of a marker as the generator reads them, where names are given. -/
theorem readArguments_of_gives {body : List Token} {names : List (List Char)}
    (h : Gives body names) :
    ∃ items, readArguments body = .ok items ∧ List.Forall₂ IsNamed names items := by
  let ts := unplacedTokens body
  obtain ⟨n, hn⟩ : ∃ n, 16 * (countTokens ts + 1) = n + 2 := ⟨16 * countTokens ts + 14, by omega⟩
  have hreads : Reads (upTo atEnd "," (argumentItem (Rules.upTo (n + 2)))) (easedTokens ts) []
      fun found => List.Forall₂ IsNamed names (found.map Prod.fst) :=
    (runs_arguments h.unplaced [] [] .nil).reads.bind fun found hfound => .pure hfound
  obtain ⟨found, s', hread, hleft, hrest, hnames⟩ :=
    hreads { rest := ts, close := .start, delimiter := .invisible } rfl rfl
  have hsettled : s'.settled = none := by
    rw [Input.settled, hleft, easedTokens_eq_nil.mp hrest]
  refine ⟨found.map Prod.fst, ?_, hnames⟩
  rw [readArguments, readAll, readUpTo, Rules.enough, hn, hread]
  simp only [hsettled]
  rfl

/-- What one item after the other gives, once the name was given. -/
theorem outcomes_given {names : List (List Char)} {items : List Tree}
    (h : List.Forall₂ IsNamed names items) :
    Marker.outcomes true items = List.replicate names.length (.error .duplicate) := by
  induction h with
  | nil => rfl
  | cons hx _ ih =>
    obtain ⟨path, equals, text, q, rfl, hpath, -⟩ := hx
    simp [Marker.outcomes, hpath, ih, List.replicate_succ]

theorem stringOf_literal {q : Position} (h : Literal.stringValue? text.toList = some name) :
    Marker.stringOf (.node (.expression .literal) [.token (.literal text q)])
      = .ok (String.ofList name) := by
  have hform := form_eq_string h
  simp [Marker.stringOf, treesTokens, Tree.tokens, Look.anyOf, Look.word, Look.literalForm?,
    Look.literalText?, hform]

/-- Items that each give a name are accepted when there is at most one. -/
theorem argumentsName_isOk_iff {names : List (List Char)} {items : List Tree}
    (h : List.Forall₂ IsNamed names items) :
    (∃ name, Marker.argumentsName items = .ok name) ↔ names.length ≤ 1 := by
  cases h with
  | nil => exact ⟨fun _ => Nat.zero_le 1, fun _ => ⟨none, rfl⟩⟩
  | @cons name _ names items hx hrest =>
    obtain ⟨path, equals, text, q, rfl, hpath, hstring⟩ := hx
    have houtcomes : Marker.outcomes false (.node (.metaItem .nameValue) [path, equals,
        .node (.expression .literal) [.token (.literal text q)]] :: items)
          = .ok (String.ofList name) :: List.replicate names.length (.error .duplicate) := by
      simp [Marker.outcomes, hpath, Marker.argumentValue, stringOf_literal hstring,
        outcomes_given hrest, Except.mapError]
    rw [Marker.argumentsName, houtcomes]
    rcases names with _ | ⟨second, _ | ⟨third, names⟩⟩
    · exact ⟨fun _ => Nat.le_refl 1, fun _ => ⟨_, rfl⟩⟩
    · refine ⟨fun ⟨_, h⟩ => ?_, fun h => by simp at h⟩
      cases h
    · refine ⟨fun ⟨_, h⟩ => ?_, fun h => by simp at h⟩
      simp [Marker.refusals, List.replicate_succ] at h

/-- What the check accepts after the name of a marker gives names. -/
theorem gives_of_checkAttribute {attr path items : Tree}
    (hmeta : attr.attributeMeta? = some (.node (.metaItem .list) [path, items]))
    (hpath : path.pathIs Marker.name = true) (h : checkAttribute attr = none) :
    ∃ names, Gives items.groupTokens names := by
  unfold checkAttribute at h
  simp only [hmeta, hpath, Bool.not_true, Bool.false_eq_true, if_false] at h
  cases items with
  | token t =>
    cases t with
    | group d body place close =>
      dsimp only at h
      split at h
      · rename_i hread
        exact gives_of_accepted hread
      · cases h
    | _ => exact ⟨[], .nil⟩
  | _ => exact ⟨[], .nil⟩

/-- A marker that is not refused is accepted by the generator when it gives at most one name. -/
theorem nameOf_isOk_iff {attr : Tree}
    (hmarker : attr.attributePath?.any (·.pathIs Marker.name) = true)
    (h : checkAttribute attr = none) :
    (∃ name, Marker.nameOf attr = .ok name) ↔ attr.givenNames.length ≤ 1 := by
  have hbare : (∃ name, (.ok none : Except ArgumentError (Option String)) = .ok name) ↔
      ([] : List (List Char)).length ≤ 1 := ⟨fun _ => Nat.zero_le 1, fun _ => ⟨none, rfl⟩⟩
  unfold Marker.nameOf
  unfold Tree.attributePath? at hmarker
  split
  · rename_i path items hmeta
    have hpath : path.pathIs Marker.name = true := by simpa [hmeta] using hmarker
    obtain ⟨names, hnames⟩ := gives_of_checkAttribute hmeta hpath h
    obtain ⟨found, hread, hnamed⟩ := readArguments_of_gives hnames
    have hgiven : attr.givenNames = names := by
      simp only [Tree.givenNames, hmeta, hnames.strings]
    rw [hread, hgiven]
    exact argumentsName_isOk_iff hnamed
  · rename_i parts hmeta
    unfold checkAttribute at h
    cases parts with
    | nil => simp [hmeta] at hmarker
    | cons path rest =>
      have hpath : path.pathIs Marker.name = true := by simpa [hmeta] using hmarker
      simp [hmeta, hpath] at h
  · rename_i hlist _
    have hgiven : attr.givenNames = [] := by
      unfold Tree.givenNames
      split
      · rename_i path items hmeta
        exact absurd hmeta (hlist path items)
      · rfl
    rw [hgiven]
    exact hbare

theorem refusal_ne_nil (e : SyntaxError) : refusal e ≠ [] := by
  simp [refusal]

theorem flatMap_refusal_eq_nil_iff {errors : List SyntaxError} :
    errors.flatMap refusal = [] ↔ errors = [] := by
  rw [List.flatMap_eq_nil_iff, List.eq_nil_iff_forall_not_mem]
  simp only [refusal_ne_nil, imp_false]

/-- A type for which nothing is refused is a type whose markers the generator accepts, but for the
ones that give more than one name. So a scan leaves a field of the type out for the arguments of its
marker exactly when they give more than one, and nothing else keeps the field from being a
candidate. -/
theorem expand_accepts_iff {tokens : List Token} (h : expand tokens = []) :
    ∃ item, readAll tokens deriveInput = .ok item ∧
      (∀ attr ∈ item.fields.flatMap Tree.attributes,
        attr.attributePath?.any (·.pathIs Marker.name) = true →
          ((∃ name, Marker.nameOf attr = .ok name) ↔ attr.givenNames.length ≤ 1)) ∧
      ∀ (d : FieldDeclaration) (s : Surroundings) (first : Tree) (more : List Tree),
        d.field ∈ item.fields → d.field.attributes.filter (Marker.marks s.scope) = first :: more →
        first.attributePath?.any (·.pathIs Marker.name) = true →
          ((d.scan s).RefusesArguments ↔ d.accessibility = .confined ∧
            (∃ found, d.resolve s = .ok found) ∧ 1 < first.givenNames.length) := by
  have hcheck : check tokens = [] := flatMap_refusal_eq_nil_iff.mp h
  unfold check at hcheck
  split at hcheck
  · rename_i item hread
    have haccepts : ∀ attr ∈ item.fields.flatMap Tree.attributes,
        attr.attributePath?.any (·.pathIs Marker.name) = true →
          ((∃ name, Marker.nameOf attr = .ok name) ↔ attr.givenNames.length ≤ 1) := by
      refine fun attr hattr hmarker => nameOf_isOk_iff hmarker ?_
      unfold checkType at hcheck
      split at hcheck
      · exact List.filterMap_eq_nil_iff.mp hcheck attr hattr
      · split at hcheck <;> cases hcheck
    refine ⟨item, hread, haccepts, fun d s first more hd hfirst hmarker => ?_⟩
    have hmem : first ∈ d.field.attributes.filter (Marker.marks s.scope) :=
      hfirst ▸ List.mem_cons_self
    have hattr : first ∈ item.fields.flatMap Tree.attributes :=
      List.mem_flatMap.mpr ⟨d.field, hd, (List.mem_filter.mp hmem).1⟩
    rw [FieldDeclaration.refusesArguments_scan_iff hfirst, haccepts first hattr hmarker,
      Nat.not_le]
  · cases hcheck

/-- A marker with a name, among the tokens of a type for which nothing is refused. -/
theorem expand_accepts_named :
    ∃ tokens,
      Lexer.tokens "struct S \x7b #[ReactiveProperty(property_name = \"A\")] _x: u8 \x7d".toList
        = .ok tokens ∧
      ∃ item, readAll tokens deriveInput = .ok item ∧ item.fields.flatMap Tree.attributes ≠ [] ∧
        ∀ attr ∈ item.fields.flatMap Tree.attributes, ∃ name, Marker.nameOf attr = .ok name := by
  have h : (Lexer.tokens
        "struct S \x7b #[ReactiveProperty(property_name = \"A\")] _x: u8 \x7d".toList).toOption.any
      (fun tokens =>
        (expand tokens).isEmpty && (readAll tokens deriveInput).toOption.any fun item =>
        !(item.fields.flatMap Tree.attributes).isEmpty &&
          (item.fields.flatMap Tree.attributes).all fun attr =>
            attr.attributePath?.any (·.pathIs Marker.name) && attr.givenNames.length ≤ 1)
              = true := by
    decide +kernel
  obtain ⟨tokens, htokens, h⟩ := exists_of_any h
  rw [Bool.and_eq_true, List.isEmpty_iff] at h
  obtain ⟨item, hread, hitem⟩ := exists_of_any h.2
  obtain ⟨item', hread', haccepts, -⟩ := expand_accepts_iff h.1
  obtain rfl : item = item' := Except.ok.inj (hread.symm.trans hread')
  simp only [Bool.and_eq_true, Bool.not_eq_true', List.isEmpty_eq_false_iff, List.all_eq_true,
    decide_eq_true_eq] at hitem
  exact ⟨tokens, htokens, item, hread, hitem.1, fun attr hattr =>
    (haccepts attr hattr (hitem.2 attr hattr).1).mpr (hitem.2 attr hattr).2⟩

/-- A marker that gives two names is not refused for its type, and the generator does not accept
it. -/
theorem expand_accepts_twice :
    ∃ tokens item attr, Lexer.tokens ("struct S \x7b #[ReactiveProperty(property_name = \"A\", "
          ++ "property_name = \"B\")] _x: u8 \x7d").toList = .ok tokens ∧
      expand tokens = [] ∧ readAll tokens deriveInput = .ok item ∧
      attr ∈ item.fields.flatMap Tree.attributes ∧
      attr.attributePath?.any (·.pathIs Marker.name) = true ∧
      ¬ ∃ name, Marker.nameOf attr = .ok name := by
  have h : (Lexer.tokens ("struct S \x7b #[ReactiveProperty(property_name = \"A\", "
          ++ "property_name = \"B\")] _x: u8 \x7d").toList).toOption.any
      (fun tokens =>
        (expand tokens).isEmpty && (readAll tokens deriveInput).toOption.any fun item =>
        (item.fields.flatMap Tree.attributes).any fun attr =>
          attr.attributePath?.any (·.pathIs Marker.name) && !(Marker.nameOf attr).isOk) = true := by
    decide +kernel
  obtain ⟨tokens, htokens, h⟩ := exists_of_any h
  rw [Bool.and_eq_true, List.isEmpty_iff] at h
  obtain ⟨item, hread, h'⟩ := exists_of_any h.2
  obtain ⟨attr, hattr, hrefused⟩ := List.any_eq_true.mp h'
  rw [Bool.and_eq_true, Bool.not_eq_true'] at hrefused
  refine ⟨tokens, item, attr, htokens, h.1, hread, hattr, hrefused.1, ?_⟩
  rintro ⟨name, hname⟩
  rw [hname] at hrefused
  cases hrefused.2

end

end Derive
end Observable
