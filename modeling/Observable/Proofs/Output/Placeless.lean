import Observable.Output.Emission
import Observable.Proofs.Field.Places
/-! What is generated for an owner, wherever the names and types that it is made from stand. -/
namespace Observable

mutual
/-- Where a token stands does not show in its plain text. -/
theorem Token.spaced_unplaced (t : Token) : t.unplaced.spaced = t.spaced := by
  cases t with
  | group d body p q =>
    have hbody := spacedTokens_unplaced body
    cases body with
    | nil => cases d <;> rfl
    | cons t ts =>
      simp only [unplacedTokens] at hbody
      cases d <;> simp only [Token.unplaced, unplacedTokens, Token.spaced, hbody]
  | _ => rfl

theorem spacedTokens_unplaced (ts : List Token) :
    spacedTokens (unplacedTokens ts) = spacedTokens ts := by
  match ts with
  | [] => rfl
  | [t] => simp only [unplacedTokens, spacedTokens, Token.spaced_unplaced t]
  | t :: u :: ts =>
    have hrest := spacedTokens_unplaced (u :: ts)
    have ht := Token.spaced_unplaced t
    simp only [unplacedTokens] at hrest
    cases t with
    | punct c s p =>
      cases s <;> simp only [unplacedTokens, Token.unplaced, spacedTokens, Token.spaced, hrest]
    | _ =>
      simp only [Token.unplaced] at ht
      simp only [unplacedTokens, Token.unplaced, spacedTokens, hrest, ht]
end

namespace Quote

theorem unplaced_op (text : String) : unplacedTokens (op text) = op text := by
  have hchars : ∀ chars, unplacedTokens (Token.operator chars nowhere)
      = Token.operator chars nowhere := by
    intro chars
    induction chars using Token.operator.induct with
    | case1 => rfl
    | case2 c => rfl
    | case3 c rest hrest ih =>
      rw [Token.operator.eq_3 _ _ _ hrest, unplacedTokens, ih]
      rfl
  exact hchars text.toList

theorem unplaced_parens (body : List Token) :
    (parens body).unplaced = parens (unplacedTokens body) := rfl

theorem unplaced_braces (body : List Token) :
    (braces body).unplaced = braces (unplacedTokens body) := rfl

theorem unplaced_word (name : String) : (word name).unplaced = word name := rfl

theorem unplaced_words (names : List String) :
    unplacedTokens (words names) = words names := by
  induction names with
  | nil => rfl
  | cons name names ih => exact congrArg _ ih

theorem unplaced_attr (body : List Token) :
    unplacedTokens (attr body) = attr (unplacedTokens body) := by
  rw [attr, unplacedTokens_append, unplaced_op]
  rfl

theorem unplaced_doc (line : String) : unplacedTokens (doc line) = doc line := by
  rw [doc, unplaced_attr, unplacedTokens_append, unplacedTokens_append, unplaced_op]
  rfl

theorem unplaced_libraryPath (names : List String) :
    unplacedTokens (libraryPath names) = libraryPath names := by
  induction names with
  | nil => rfl
  | cons name names ih =>
    rw [libraryPath, List.flatMap_cons, unplacedTokens_append, unplacedTokens_append, unplaced_op,
      ← libraryPath, ih]
    rfl

end Quote

/-- Names that stand nowhere. -/
def OwnerNames.unplaced (names : OwnerNames) : OwnerNames where
  name := names.name.unplaced
  path := unplacedTokens names.path
  events := names.events.unplaced

namespace Descriptor

/-- A descriptor whose tokens stand nowhere. -/
def unplaced (d : Descriptor) : Descriptor :=
  { d with
    field := d.field.unplaced
    type := unplacedTokens d.type
    getter := d.getter.unplaced
    setter := d.setter.unplaced
    accessor := d.accessor.unplaced }

variable (d : Descriptor) (events : Token)

theorem unplaced_slot : d.unplaced.slot.tokens = unplacedTokens d.slot.tokens := by
  have hname : d.unplaced.slot.name = d.slot.name.unplaced := rfl
  have hsummary : d.unplaced.slot.summary = d.slot.summary := rfl
  simp only [Slot.tokens, hname, hsummary, eventType, unplacedTokens_append, unplacedTokens,
    Quote.unplaced_doc, Quote.unplaced_word, Quote.unplaced_op, Quote.unplaced_libraryPath]

theorem unplaced_part (name : Token) : part name.unplaced = unplacedTokens (part name) := by
  simp only [part, unplacedTokens_append, unplacedTokens, Quote.unplaced_word, Quote.unplaced_op]

theorem unplaced_ownSlot :
    ownSlot events.unplaced d.unplaced = unplacedTokens (ownSlot events d) := by
  have haccessor : d.unplaced.accessor = d.accessor.unplaced := rfl
  simp only [ownSlot, haccessor, unplaced_part, unplacedTokens_append, unplacedTokens,
    Quote.unplaced_op]

theorem unplaced_change : d.unplaced.change events.unplaced = unplacedTokens (d.change events) := by
  have hfield : d.unplaced.field = d.field.unplaced := rfl
  simp only [change, hfield, unplaced_part, unplaced_ownSlot, unplacedTokens_append, unplacedTokens,
    Quote.unplaced_word, Quote.unplaced_op, Quote.unplaced_parens]

theorem unplaced_sharedSelf : unplacedTokens sharedSelf = sharedSelf := by
  rw [sharedSelf, unplacedTokens_append, Quote.unplaced_op]
  rfl

theorem unplaced_changingSelf : unplacedTokens changingSelf = changingSelf := by
  rw [changingSelf, unplacedTokens_append, Quote.unplaced_op, Quote.unplaced_words]

end Descriptor

/-- A method whose parts stand nowhere. -/
theorem Method.unplaced_tokens_eq {m m' : Method} (hsummary : m'.summary = m.summary)
    (hattributes : m'.attributes = unplacedTokens m.attributes)
    (hqualifiers : m'.qualifiers = m.qualifiers) (hname : m'.name = m.name.unplaced)
    (hparameters : m'.parameters = unplacedTokens m.parameters)
    (hresult : m'.result = unplacedTokens m.result) (hbody : m'.body = unplacedTokens m.body) :
    m'.tokens = unplacedTokens m.tokens := by
  simp only [tokens, unplacedTokens_append, unplacedTokens, Quote.unplaced_doc,
    Quote.unplaced_words,
    Quote.unplaced_parens, Quote.unplaced_braces, hsummary, hattributes, hqualifiers, hname,
    hparameters, hresult, hbody]

namespace Descriptor

variable (d : Descriptor) (events : Token)

theorem unplaced_accessorMethod :
    (d.unplaced.accessorMethod events.unplaced).tokens
      = unplacedTokens (d.accessorMethod events).tokens := by
  refine Method.unplaced_tokens_eq ?_ ?_ ?_ ?_ ?_ ?_ ?_
  · exact Eq.refl (" Subscribe to or raise `" ++ d.event ++ "`.")
  · exact Eq.refl []
  · exact Eq.refl ["pub", "const", "fn"]
  · exact Eq.refl d.accessor.unplaced
  · exact unplaced_changingSelf.symm
  · show Quote.op "->" ++ Quote.op "&" ++ [Quote.word "mut"] ++ eventType
      = unplacedTokens (Quote.op "->" ++ Quote.op "&" ++ [Quote.word "mut"] ++ eventType)
    simp only [unplacedTokens_append, unplacedTokens, Quote.unplaced_op,
      Quote.unplaced_word, eventType,
      Quote.unplaced_libraryPath]
  · show Quote.op "&" ++ [Quote.word "mut"] ++ ownSlot events.unplaced d.unplaced
      = unplacedTokens (Quote.op "&" ++ [Quote.word "mut"] ++ ownSlot events d)
    simp only [unplacedTokens_append, unplacedTokens, Quote.unplaced_op, Quote.unplaced_word,
      unplaced_ownSlot]

theorem unplaced_getterMethod :
    d.unplaced.getterMethod.tokens = unplacedTokens d.getterMethod.tokens := by
  refine Method.unplaced_tokens_eq ?_ ?_ ?_ ?_ ?_ ?_ ?_
  · show " Current value of `" ++ d.property ++ "`, backed by `"
      ++ d.field.unplaced.spelling ++ "`."
      = " Current value of `" ++ d.property ++ "`, backed by `" ++ d.field.spelling ++ "`."
    rw [Token.spelling_unplaced]
  · show Quote.attr [Quote.word "must_use"] = unplacedTokens (Quote.attr [Quote.word "must_use"])
    rw [Quote.unplaced_attr]
    exact Eq.refl (Quote.attr [Quote.word "must_use"])
  · exact Eq.refl ["pub", "const", "fn"]
  · exact Eq.refl d.getter.unplaced
  · exact unplaced_sharedSelf.symm
  · show Quote.op "->" ++ Quote.op "&" ++ unplacedTokens d.type
      = unplacedTokens (Quote.op "->" ++ Quote.op "&" ++ d.type)
    simp only [unplacedTokens_append, Quote.unplaced_op]
  · show Quote.op "&" ++ part d.field.unplaced = unplacedTokens (Quote.op "&" ++ part d.field)
    simp only [unplacedTokens_append, Quote.unplaced_op, unplaced_part]

theorem unplaced_setterMethod :
    (d.unplaced.setterMethod events.unplaced).tokens
      = unplacedTokens (d.setterMethod events).tokens := by
  let allowed := [Quote.word "allow",
    Quote.parens ([Quote.word "clippy"] ++ Quote.op "::" ++ [Quote.word "float_cmp"])]
  refine Method.unplaced_tokens_eq ?_ ?_ ?_ ?_ ?_ ?_ ?_
  · exact Eq.refl (" Set `" ++ d.property ++ "`, raising `" ++ d.event
      ++ "` only when the value changes.")
  · show Quote.attr allowed = unplacedTokens (Quote.attr allowed)
    simp only [allowed, Quote.unplaced_attr, unplacedTokens, Quote.unplaced_word,
      Quote.unplaced_parens, unplacedTokens_append, Quote.unplaced_op]
  · exact Eq.refl ["pub", "fn"]
  · exact Eq.refl d.setter.unplaced
  · show changingSelf ++ Quote.op "," ++ [Quote.word "value"] ++ Quote.op ":"
      ++ unplacedTokens d.type
      = unplacedTokens (changingSelf ++ Quote.op "," ++ [Quote.word "value"]
        ++ Quote.op ":" ++ d.type)
    simp only [unplacedTokens_append, unplacedTokens, unplaced_changingSelf, Quote.unplaced_op,
      Quote.unplaced_word]
  · exact Eq.refl []
  · show [Quote.word "if"] ++ part d.field.unplaced ++ Quote.op "!=" ++ [Quote.word "value"]
        ++ [Quote.braces (d.unplaced.change events.unplaced)]
      = unplacedTokens ([Quote.word "if"] ++ part d.field ++ Quote.op "!=" ++ [Quote.word "value"]
        ++ [Quote.braces (d.change events)])
    simp only [unplacedTokens_append, unplacedTokens, Quote.unplaced_word, Quote.unplaced_op,
      Quote.unplaced_braces, unplaced_part, unplaced_change]

theorem unplaced_methods :
    (d.unplaced.methods events.unplaced).flatMap (·.tokens)
      = unplacedTokens ((d.methods events).flatMap (·.tokens)) := by
  simp only [methods, List.flatMap_cons, List.flatMap_nil, unplacedTokens_append,
    unplaced_accessorMethod, unplaced_getterMethod, unplaced_setterMethod, unplacedTokens]

end Descriptor

theorem unplacedTokens_flatMap {α : Type} {f g : α → List Token}
    (h : ∀ a, g a = unplacedTokens (f a)) (l : List α) :
    l.flatMap g = unplacedTokens (l.flatMap f) := by
  induction l with
  | nil => rfl
  | cons a l ih => rw [List.flatMap_cons, List.flatMap_cons, unplacedTokens_append, h, ih]

/-- What is generated from names and types that stand nowhere stands nowhere. -/
theorem Augmentation.unplaced_tokens (owner : OwnerNames) (events : Token) (ds : List Descriptor) :
    (ofProperties owner.unplaced events.unplaced (ds.map Descriptor.unplaced)).tokens
      = unplacedTokens (ofProperties owner events ds).tokens := by
  have hspelling : owner.unplaced.name.spelling = owner.name.spelling :=
    owner.name.spelling_unplaced
  have hslots : ((ds.map Descriptor.unplaced).map (·.slot)).flatMap (·.tokens)
      = unplacedTokens ((ds.map (·.slot)).flatMap (·.tokens)) := by
    rw [List.map_map, List.flatMap_map, List.flatMap_map]
    exact unplacedTokens_flatMap Descriptor.unplaced_slot ds
  have hmethods : ((ds.map Descriptor.unplaced).flatMap (·.methods events.unplaced)).flatMap
    (·.tokens)
      = unplacedTokens ((ds.flatMap (·.methods events)).flatMap (·.tokens)) := by
    rw [List.flatMap_map, List.flatMap_assoc, List.flatMap_assoc]
    exact unplacedTokens_flatMap (Descriptor.unplaced_methods · events) ds
  have hnames : owner.unplaced.events = owner.events.unplaced := rfl
  have hpath : owner.unplaced.path = unplacedTokens owner.path := rfl
  simp only [tokens, eventsStruct, ofProperties, hslots, hmethods, hspelling, hnames, hpath,
    unplacedTokens_append, unplacedTokens, Quote.unplaced_doc, Quote.unplaced_attr,
    Quote.unplaced_word, Quote.unplaced_parens, Quote.unplaced_braces, Quote.unplaced_op]

end Observable
