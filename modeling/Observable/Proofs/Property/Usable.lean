import Observable.Proofs.Output.Naming
/-! The identifiers of a property can be used: all of them are names that can be spelled, only that
of the getter is ever raw, and no two are the same. -/
namespace Observable

open Lexer (isName isWord)
open Text (isInk)

theorem Grammar.isIdentifier_iff {raw : Bool} {name : String} :
    isIdentifier raw name = true ↔ raw = true ∨ name ∉ reservedWords := by
  simp [isIdentifier]

/-- A raw name can be spelled without its mark. -/
theorem isWord_of_raw {name : String} (h : isWord true name = true) : isWord false name = true := by
  have hname : isName name.toList = true := (Bool.and_eq_true_iff.mp h).1
  obtain ⟨c, rest, hc, -, -⟩ := Lexer.isName_cons hname
  have hink := all_isInk_of_isName hname
  rw [hc] at hname hink
  simp only [List.all_cons, Bool.and_eq_true] at hink
  simp [isWord, hc, hname, (Text.ne_of_isInk hink.1).1]

theorem Token.IsName.spelled {raw : Bool} {name : String} {place : Position}
    (h : (Token.ident raw name place).IsName) :
    Grammar.isIdentifier raw name = true ∧ isWord raw name = true := by
  obtain ⟨raw, name, heq, hfree, hword⟩ := h
  cases heq
  exact ⟨hfree, hword⟩

namespace Property

/-- The words of a name in lower case, joined by underscores; an empty word, which two underscores
in a row enclose, is one of them. -/
def joinedWords (name : String) : String :=
  String.ofList (['_'].intercalate ((Text.nameWords name.toList).map Text.lowerText))

theorem ofList_snakeCase {name : String} (h : name.toList ≠ []) :
    String.ofList (Text.snakeCase name.toList) = joinedWords name := by
  rw [Text.snakeCase, if_neg (by simpa using h), joinedWords]

/-- A method is spelled as the words of its name are, and raw exactly when that is a keyword. -/
theorem methodName?_raw_iff {name : String} {t : Token} (hink : name.toList.all isInk = true)
    (hne : name.toList ≠ []) (h : methodName? name = some t) :
    ∃ raw, t = .ident raw (joinedWords name) .start ∧
      (raw = true ↔ joinedWords name ∈ Grammar.reservedWords) := by
  have hisName := isName_of_methodName? hink h
  simp only [methodName?, ofList_snakeCase hne] at h
  split_ifs at h with hplain
  · cases h
    obtain ⟨hfree, -⟩ := hisName.spelled
    refine ⟨false, rfl, ?_⟩
    simpa [Grammar.isIdentifier_iff] using hfree
  · cases h
    obtain ⟨-, hword⟩ := hisName.spelled
    refine ⟨true, rfl, ?_⟩
    -- were it no keyword, it would have been read without the mark
    by_contra hkeyword
    have hfree : joinedWords name ∉ Grammar.reservedWords := by simpa using hkeyword
    obtain ⟨p, hp⟩ := isPlainName_iff.mpr
      ⟨isWord_of_raw hword, Grammar.isIdentifier_iff.mpr (.inr hfree)⟩
    exact hplain (Option.isSome_iff_exists.mpr ⟨_, hp⟩)

theorem eventOf_ne_nil (property : String) : (eventOf property).toList ≠ [] := by
  simp [eventOf, eventSuffix]

/-- The name of an event is no keyword: no keyword ends in its suffix. -/
theorem isIdentifier_joinedWords_eventOf (property : String) :
    Grammar.isIdentifier false (joinedWords (eventOf property)) = true := by
  have hsolids : Text.solids (joinedWords (eventOf property)).toList
      = Text.loweredSolids property.toList ++ "changed".toList := by
    rw [← ofList_snakeCase (eventOf_ne_nil property), String.toList_ofList,
      Text.solids_snakeCase, eventOf,
      String.toList_append, Text.loweredSolids_append]
    rfl
  refine isIdentifier_of_all (p := fun text => "changed".toList.isSuffixOf (Text.solids text)) ?_
    (by decide +kernel)
  rw [hsolids]
  exact List.isSuffixOf_iff_suffix.mpr (List.suffix_append _ _)

/-- Only a field without the mark of a raw name backs a property. -/
theorem not_raw_of_nameOf {raw : Bool} {name property : String}
    (h : nameOf (Token.identText raw name) = .ok property) : raw = false := by
  obtain ⟨second, rest, hfield, -⟩ := nameOf_eq_ok h
  cases raw with
  | false => rfl
  | true => simp [Token.identText, fieldMark] at hfield

theorem isIdentifier_of_nameOf {field property : String} (h : nameOf field = .ok property) :
    isIdentifier property = true := by
  unfold nameOf at h
  split at h
  · split at h
    · cases h
    · dsimp only at h
      split at h
      · rename_i hidentifier
        cases h
        exact hidentifier
      · cases h
  · cases h

/-- A property has no characters but those of its field in one case or the other, and at least
one. -/
theorem inked_of_nameOf {raw : Bool} {name property : String} (hname : isWord raw name = true)
    (h : nameOf (Token.identText raw name) = .ok property) :
    property.toList.all isInk = true ∧ property.toList ≠ [] := by
  obtain rfl := not_raw_of_nameOf h
  refine ⟨all_isInk_nameOf (all_isInk_of_isName (Bool.and_eq_true_iff.mp hname).1) h,
    fun hnil => ?_⟩
  have hidentifier := isIdentifier_of_nameOf h
  rw [String.toList_inj.mp (hnil.trans String.toList_empty.symm)] at hidentifier
  cases hidentifier

theorem all_isInk_eventOf {property : String} (h : property.toList.all isInk = true) :
    (eventOf property).toList.all isInk = true := by
  have hsuffix : eventSuffix.toList.all isInk = true := by decide
  rw [eventOf, String.toList_append, List.all_append, h, hsuffix]
  rfl

end Property

namespace Descriptor

/-- What a descriptor has that is derived for a field of some name. -/
structure IsUsable (d : Descriptor) (name : String) : Prop where
  property : Property.nameOf name = .ok d.property
  event : d.event = d.property ++ "Changed"
  field : d.field.spelling = name
  getter : ∃ raw, d.getter = .ident raw (Property.joinedWords d.property) .start ∧
    (raw = true ↔ Property.joinedWords d.property ∈ Grammar.reservedWords)
  setter : d.setter = .ident false ("set_" ++ Property.joinedWords d.property) .start
  accessor : d.accessor = .ident false (Property.joinedWords d.event) .start
  isName : d.getter.IsName ∧ d.setter.IsName ∧ d.accessor.IsName
  nodup : d.identifiers.Nodup

/-- A method and the one that sets are identifiers when they are made. -/
theorem isName_methods {text : String} {t : Token} (hink : text.toList.all isInk = true)
    (h : Property.methodName? text = some t) : t.IsName ∧ (t.renamed "set_" "").IsName := by
  have hisName := Property.isName_of_methodName? hink h
  refine ⟨hisName, ?_⟩
  obtain ⟨raw, rfl⟩ := Property.methodName?_eq h
  obtain ⟨-, hword⟩ := hisName.spelled
  rw [Token.renamed, String.append_empty]
  exact isName_setter (Bool.and_eq_true_iff.mp hword).1

/-- A field is spelled as its name is. -/
theorem spelling_of_identifier? {name : String} {t : Token} (hname : isWord false name = true)
    (h : Property.identifier? name = some t) : t.spelling = name := by
  obtain ⟨raw, name', p, rfl, -, htokens⟩ := Property.identifier?_eq_some h
  have hink := all_isInk_of_isName (Bool.and_eq_true_iff.mp hname).1
  have hvisible : ∀ c ∈ name.toList, Lexer.IsVisible c := fun c hc =>
    isVisible_of_isInk (List.all_eq_true.mp hink c hc)
  exact (String.toList_inj.mp (Lexer.eq_identText_of_tokens hvisible htokens)).symm

/-- A descriptor that is derived has identifiers that can be used. -/
theorem isUsable_of_ofField {raw : Bool} {name : String} {type : List Token} {d : Descriptor}
    (hname : isWord raw name = true) (h : ofField (Token.identText raw name) type = .ok d) :
    d.IsUsable (Token.identText raw name) := by
  obtain ⟨hproperty, hevent, hfield, -, hgetter, haccessor, hsetter⟩ := ofField_eq_ok h
  obtain ⟨hink, hne⟩ := Property.inked_of_nameOf hname hproperty
  obtain rfl := Property.not_raw_of_nameOf hproperty
  have hinkEvent := Property.all_isInk_eventOf hink
  rw [hevent] at haccessor
  obtain ⟨hisGetter, hisSetter⟩ := isName_methods hink hgetter
  obtain ⟨hisAccessor, -⟩ := isName_methods hinkEvent haccessor
  obtain ⟨mark, hg, hmark⟩ := Property.methodName?_raw_iff hink hne hgetter
  obtain ⟨mark', ha, hmark'⟩ :=
    Property.methodName?_raw_iff hinkEvent (Property.eventOf_ne_nil _) haccessor
  -- the accessor ends in the suffix of events, which no keyword does
  have hplain : mark' = false := by
    have hfree := Grammar.isIdentifier_iff.mp (Property.isIdentifier_joinedWords_eventOf d.property)
    rw [← Bool.not_eq_true, hmark']
    simpa using hfree
  subst hplain
  exact {
    property := hproperty
    event := hevent
    field := spelling_of_identifier? hname hfield
    getter := ⟨mark, hg, hmark⟩
    setter := by rw [hsetter, hg, Token.renamed, String.append_empty]
    accessor := hevent ▸ ha
    isName := ⟨hisGetter, hsetter ▸ hisSetter, hisAccessor⟩
    nodup := identifiers_nodup h }

/-- Of a field whose name is an identifier, raw or not, the names of the methods are identifiers
whenever they are made, and what is derived is an error or a descriptor with identifiers that can be
used. -/
theorem ofField_usable {raw : Bool} {name : String} (hname : isWord raw name = true)
    (type : List Token) :
    (∀ property, Property.nameOf (Token.identText raw name) = .ok property →
      ∀ text ∈ [property, Property.eventOf property], ∀ t, Property.methodName? text = some t →
        t.IsName ∧ (t.renamed "set_" "").IsName) ∧
    ((∃ e, ofField (Token.identText raw name) type = .error e) ∨
      ∃ d, ofField (Token.identText raw name) type = .ok d ∧
        d.IsUsable (Token.identText raw name)) := by
  constructor
  · intro property hproperty text htext t ht
    obtain ⟨hink, -⟩ := Property.inked_of_nameOf hname hproperty
    refine isName_methods ?_ ht
    simp only [List.mem_cons, List.not_mem_nil, or_false] at htext
    rcases htext with rfl | rfl
    · exact hink
    · exact Property.all_isInk_eventOf hink
  · cases h : ofField (Token.identText raw name) type with
    | error e => exact .inl ⟨e, rfl⟩
    | ok d => exact .inr ⟨d, rfl, isUsable_of_ofField hname h⟩

/-- A field whose getter is raw: its name is a keyword behind the mark of a field. -/
theorem ofField_usable_keyword :
    isWord false "_type" = true ∧ ∃ d, ofField "_type" [] = .ok d ∧ d.IsUsable "_type" ∧
      d.getter = .ident true "type" .start ∧ d.setter = .ident false "set_type" .start ∧
      d.accessor = .ident false "type_changed" .start := by
  have hname : isWord false "_type" = true := by decide +kernel
  have hproperty : (ofField "_type" []).toOption.any (·.property = "Type") = true := by
    decide +kernel
  obtain ⟨d, hd, hproperty⟩ := exists_of_any hproperty
  rcases (ofField_usable hname []).2 with ⟨e, he⟩ | ⟨d', hd', husable⟩
  · cases hd.symm.trans he
  · obtain rfl : d = d' := Except.ok.inj (hd.symm.trans hd')
    rw [decide_eq_true_eq] at hproperty
    have hgetter : Property.joinedWords d.property = "type" := by rw [hproperty]; decide +kernel
    have haccessor : Property.joinedWords d.event = "type_changed" := by
      rw [husable.event, hproperty]
      decide +kernel
    obtain ⟨mark, hg, hmark⟩ := husable.getter
    obtain rfl : mark = true := hmark.mpr (by rw [hgetter]; decide)
    exact ⟨hname, d, hd, husable, by rw [hg, hgetter], by rw [husable.setter, hgetter]; rfl,
      by rw [husable.accessor, haccessor]⟩

/-- Two underscores in a row stay two in the name of the getter: the empty word between them is not
dropped. -/
theorem ofField_keeps_empty_words :
    isWord false "_x__y" = true ∧ ∃ d, ofField "_x__y" [] = .ok d ∧
      d.getter.spelling = "x__y" ∧
      d.getter.spelling ≠ String.ofList (['_'].intercalate
        (((Text.nameWords d.property.toList).filter (!·.isEmpty)).map Text.lowerText)) := by
  have h : (ofField "_x__y" []).toOption.any (fun d => d.getter.spelling = "x__y" &&
      d.getter.spelling ≠ String.ofList (['_'].intercalate
        (((Text.nameWords d.property.toList).filter (!·.isEmpty)).map Text.lowerText))) = true := by
    decide +kernel
  obtain ⟨d, hd, h⟩ := exists_of_any h
  simp only [Bool.and_eq_true, decide_eq_true_eq] at h
  exact ⟨by decide +kernel, d, hd, h⟩

end Descriptor

end Observable
