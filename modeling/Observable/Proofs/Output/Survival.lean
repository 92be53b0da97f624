import Observable.Proofs.Grammar.Depth
import Observable.Proofs.Output.OwnerPath
import Observable.Proofs.Output.Placeless
import Observable.Proofs.Output.Rejections
import Observable.Proofs.Output.Steady
import Observable.Proofs.Token.Front
/-! The unit of a group with plain names and plain types: it has a canonical text, which says the
same and is its own canonical text. -/
namespace Observable

open Grammar (Rules Reads)
open Lexer (Spells)

mutual
theorem Token.count_eased (followed : Bool) (t : Token) : (t.eased followed).count = t.count := by
  cases t with
  | group d body p q => simp only [Token.eased, Token.count, countTokens_easedTokens body]
  | _ => rfl

theorem countTokens_easedTokens (ts : List Token) :
    countTokens (easedTokens ts) = countTokens ts := by
  cases ts with
  | nil => rfl
  | cons t ts =>
    simp only [easedTokens, countTokens, Token.count_eased _ t, countTokens_easedTokens ts]
end

theorem countTokens_le_flatMap {α : Type} {f : α → List Token} {a : α} {l : List α} (h : a ∈ l) :
    countTokens (f a) ≤ countTokens (l.flatMap f) := by
  obtain ⟨front, back, rfl⟩ := List.append_of_mem h
  rw [List.flatMap_append, List.flatMap_cons, countTokens_append, countTokens_append]
  omega

/-- A text that spells some tokens has these tokens as a source. -/
theorem Grammar.tokensOf_of_spells {text : List Char} {us : List Token} (h : Spells text us [])
    (hfront : ∀ p rest, easedTokens us ≠ .punct '#' .joint p :: rest) :
    ∃ read, tokensOf (dropInterpreter (Lexer.dropMark text)) = .ok read ∧
      unplacedTokens read = us := by
  obtain ⟨read, htokens, hread⟩ := h.tokens h.head_ne_mark
  have hdrop : dropInterpreter text = text := by
    refine h.dropInterpreter fun p rest hjoint => hfront .start (easedTokens rest) ?_
    rw [hjoint]
    simp [easedTokens, Token.eased, isSoft]
  exact ⟨read, by rw [Lexer.dropMark_of_head h.head_ne_mark, hdrop, tokensOf, htokens], hread⟩

/-- A text that spells some tokens is a source file when rules that suffice for them read them. -/
theorem Grammar.readSource_of_spells {text : List Char} {us ts : List Token} {good : File → Prop}
    (h : Spells text us []) (hus : easedTokens us = ts)
    (hfront : ∀ p rest, ts ≠ .punct '#' .joint p :: rest)
    (hfile : Reads (file (Rules.enough ts)) ts [] good) :
    ∃ f, readSource text = .ok f ∧ good f := by
  obtain ⟨read, htokens, hread⟩ := tokensOf_of_spells h fun p rest => hus ▸ hfront p rest
  have heased : easedTokens read = ts := by
    rw [← easedTokens_unplacedTokens, hread, hus]
  have henough : Rules.enough read = Rules.enough ts := by
    rw [Rules.enough, Rules.enough, ← heased, countTokens_easedTokens]
  rw [← henough] at hfile
  obtain ⟨f, hf, hgood⟩ := readAll_of_reads hfile heased
  refine ⟨f, ?_, hgood⟩
  rw [readSource, Grammar.read, htokens]
  exact hf

namespace Augmentation

/-- Names and descriptors from which a text is generated that can be read back. -/
structure IsPlain (owner : OwnerNames) (events : Token) (ds : List Descriptor) : Prop where
  struct : owner.events.IsName
  path : IsOwnerPath owner.path
  tame : TameRow owner.path
  events : events.IsName
  descriptors : ∀ d ∈ ds, ∃ τ, d.IsPlain τ

variable {owner : OwnerNames} {events : Token} {ds : List Descriptor}

/-- The type of a property is a part of what is generated. -/
theorem countTokens_type_le {d : Descriptor} (h : d ∈ ds) :
    countTokens d.type ≤ countTokens (ofProperties owner events ds).tokens := by
  have hmethod : d.getterMethod ∈ ds.flatMap (·.methods events) :=
    List.mem_flatMap.mpr ⟨d, h, by simp [Descriptor.methods]⟩
  have htype : countTokens d.type ≤ countTokens d.getterMethod.tokens := by
    have hresult : d.getterMethod.result = Quote.op "->" ++ Quote.op "&" ++ d.type := rfl
    rw [Method.tokens, hresult]
    simp only [countTokens_append]
    omega
  have hmethods := countTokens_le_flatMap (f := fun m : Method => m.tokens) hmethod
  have hall : countTokens ((ds.flatMap (·.methods events)).flatMap fun m => m.tokens)
      ≤ countTokens (ofProperties owner events ds).tokens := by
    rw [tokens, countTokens_append, ofProperties]
    simp only [countTokens, Quote.braces, Token.count]
    omega
  omega

namespace IsPlain

theorem tokens_tame (h : IsPlain owner events ds) : Tame (ofProperties owner events ds).tokens :=
  Augmentation.tame h.struct h.tame h.events h.descriptors

theorem reads_file (h : IsPlain owner events ds) :
    let ts := (ofProperties owner events ds).tokens
    Reads (Grammar.file (Rules.enough ts)) ts [] fun f => unplacedTokens f.tokens = ts := by
  intro ts
  obtain ⟨n, hn⟩ : ∃ n, 16 * (countTokens ts + 1) = n + 7 :=
    ⟨16 * (countTokens ts + 1) - 7, by omega⟩
  have hplain : ∀ d ∈ ds, ∃ τ, Descriptor.IsPlain d τ ∧ τ.depth ≤ n + 5 := by
    intro d hd
    obtain ⟨τ, hτ⟩ := h.descriptors d hd
    have hdepth := τ.depth_le
    have htype : countTokens d.type ≤ countTokens ts := countTokens_type_le hd
    rw [hτ.type] at htype
    exact ⟨τ, hτ, by omega⟩
  rw [Rules.enough, hn]
  exact reads_tokens h.struct h.path h.events hplain

end IsPlain

theorem tokens_front (p : Position) (rest : List Token) :
    (ofProperties owner events ds).tokens ≠ .punct '#' .joint p :: rest := by
  obtain ⟨tail, htail⟩ :
      ∃ tail, (ofProperties owner events ds).tokens = .punct '#' .alone .start :: tail := ⟨_, rfl⟩
  rw [htail]
  simp

/-- What is generated is read back from its plain text and from its layout, which has its tokens. -/
theorem reads_back (h : IsPlain owner.unplaced events.unplaced (ds.map Descriptor.unplaced)) :
    let ts := (ofProperties owner events ds).tokens
    (∃ f, Grammar.readSource (spacedTokens ts).toList = .ok f ∧ sameTokens f.tokens ts = true) ∧
      (∃ f, Grammar.readSource (Layout.renderFile ts).toList = .ok f ∧
        sameTokens f.tokens ts = true) ∧
      ∃ read, Output.sourceTokens (Layout.renderFile ts) = .ok read ∧
        unplacedTokens (unspacedTokens read) = unplacedTokens (unspacedTokens ts) := by
  intro ts
  let us := unplacedTokens ts
  have hus : (ofProperties owner.unplaced events.unplaced (ds.map Descriptor.unplaced)).tokens
    = us :=
    unplaced_tokens owner events ds
  have hunplaced : unplacedTokens us = us := unplacedTokens_unplacedTokens ts
  have htame : Tame us := hus ▸ h.tokens_tame
  have hreads : Reads (Grammar.file (Rules.enough us)) us [] (unplacedTokens ·.tokens = us) :=
    hus ▸ h.reads_file
  have hfront : ∀ p rest, us ≠ .punct '#' .joint p :: rest := hus ▸ tokens_front
  have hlayout : Layout.renderFile ts = Layout.renderFile us :=
    Layout.renderFile_congr ((sameTokens_iff ts us).mpr hunplaced.symm)
  obtain ⟨vs, hvs, hspells⟩ := Layout.spells_renderFile htame
  rw [hunplaced] at hvs
  rw [← hlayout] at hspells
  simp only [sameTokens_iff]
  refine ⟨?_, Grammar.readSource_of_spells hspells hvs hfront hreads, ?_⟩
  · have hplain := htame.spells_spaced [] rfl
    rw [List.append_nil, spacedTokens_unplaced] at hplain
    refine Grammar.readSource_of_spells hplain ?_ hfront hreads
    rw [easedTokens_unplacedTokens, htame.eased, hunplaced]
  · obtain ⟨read, hread, hsame⟩ :=
      Grammar.tokensOf_of_spells hspells fun p rest => hvs ▸ hfront p rest
    refine ⟨read, hread, ?_⟩
    rw [← unspacedTokens_eased, ← unspacedTokens_eased,
      ← easedTokens_unplacedTokens read, hsame, hvs,
      ← easedTokens_unplacedTokens ts, htame.eased, hunplaced]

end Augmentation

/-- The names of an owner with plain names. -/
theorem Owner.IsPlain.ofOwner? {o : Owner} (h : o.IsPlain) :
    ∃ names, OwnerNames.ofOwner? o = some names ∧ names.unplaced.events.IsName ∧
      Augmentation.IsOwnerPath names.unplaced.path ∧ TameRow names.unplaced.path := by
  obtain ⟨p, hname⟩ := h.name
  have hevents : (Token.ident false o.name p).renamed "" "Events"
      = .ident false (o.name ++ "Events") p := by
    simp [Token.renamed]
  cases hroot : o.module.isRoot with
  | true =>
    refine ⟨⟨.ident false o.name p, [.ident false o.name p], .ident false (o.name ++ "Events") p⟩,
      ?_,
      isName_events h.name.isWord, isOwnerPath_name h.name, .quoted h.name.isWord⟩
    simp [OwnerNames.ofOwner?, hname, Owner.enclosing?, hroot, hevents]
  | false =>
    obtain ⟨tree, htree, hpath⟩ := h.readPath_display hroot
    refine ⟨⟨.ident false o.name p, tree.tokens, .ident false (o.name ++ "Events") p⟩, ?_,
      isName_events h.name.isWord, ?_, ?_⟩
    · simp [OwnerNames.ofOwner?, hname, Owner.enclosing?, hroot, hevents, htree]
    · show Augmentation.IsOwnerPath tree.unplaced
      rw [hpath]
      exact h.isOwnerPath
    · show TameRow tree.unplaced
      rw [hpath]
      exact tameRow_namesTokens h.isWord_pathNames

/-- A field whose name is an identifier, with a plain type. -/
structure Candidate.IsPlain (c : Candidate) : Prop where
  name : ∃ raw name p, Property.identifier? c.name = some (.ident raw name p) ∧
    c.name = Token.identText raw name
  type : ∃ τ : PlainType, unplacedTokens c.type = τ.tokens

/-- The descriptor of a field with a plain type. -/
theorem Candidate.IsPlain.descriptor {c : Candidate} (h : c.IsPlain) {d : Descriptor}
    (hd : Descriptor.ofField c.name c.type = .ok d) : ∃ τ, d.unplaced.IsPlain τ := by
  obtain ⟨hproperty, hevent, hfield, htype, hgetter, haccessor, hsetter⟩ :=
    Descriptor.ofField_eq_ok hd
  obtain ⟨raw, name, p, hname, htext⟩ := h.name
  obtain ⟨τ, hτ⟩ := h.type
  obtain ⟨second, rest, hmark, -⟩ := Property.nameOf_eq_ok hproperty
  cases raw with
  | true =>
    -- a raw identifier does not begin with the mark of a field
    rw [htext, Token.identText, if_pos rfl, String.toList_append] at hmark
    exact absurd (List.cons.inj hmark).1 (by decide)
  | false =>
    obtain rfl : c.name = name := htext
    obtain ⟨raw, _, q, ht, hfree, -⟩ := Property.identifier?_eq_some hname
    cases ht
    have hword := Property.isWord_of_identifier? hname
    have hink : c.name.toList.all Text.isInk = true :=
      all_isInk_of_isName (Bool.and_eq_true_iff.mp hword).1
    have hproperty := Property.all_isInk_nameOf hink hproperty
    have hevent : d.event.toList.all Text.isInk = true := by
      rw [hevent, Property.eventOf, String.toList_append, List.all_append, hproperty]
      decide
    have hgetter := Property.isName_of_methodName? hproperty hgetter
    have haccessor := Property.isName_of_methodName? hevent haccessor
    refine ⟨τ, ?_, ?_, ?_, ?_, ?_⟩
    · show d.field.unplaced.IsName
      rw [← Option.some.inj (hname.symm.trans hfield)]
      exact ⟨false, c.name, rfl, hfree, hword⟩
    · show d.getter.unplaced.IsName
      rw [hgetter.unplaced]
      exact hgetter
    · show d.setter.unplaced.IsName
      obtain ⟨raw, name, hget, -, hword⟩ := hgetter
      have hset : d.setter.unplaced = .ident false ("set_" ++ name) .start := by
        rw [hsetter, hget]
        simp [Token.renamed, Token.unplaced]
      rw [hset]
      exact isName_setter (Bool.and_eq_true_iff.mp hword).1
    · show d.accessor.unplaced.IsName
      rw [haccessor.unplaced]
      exact haccessor
    · show unplacedTokens d.type = τ.tokens
      rw [htype, hτ]

/-- A group of ordinary code: plain names lead to its owner, and its fields have names and plain
types. -/
structure Group.IsPlain (g : Group) : Prop where
  owner : g.owner.IsPlain
  fields : ∀ c ∈ g.fields, c.IsPlain

namespace Group.IsPlain

variable {g : Group}

theorem descriptors (h : g.IsPlain) :
    ∀ d ∈ (Emission.survivors (Emission.derived g)).map (·.descriptor), ∃ τ,
      d.unplaced.IsPlain τ := by
  intro d hd
  obtain ⟨derived, hderived, rfl⟩ := List.mem_map.mp hd
  obtain ⟨c, hc, hfield⟩ := List.mem_filterMap.mp (List.mem_filter.mp hderived).1
  cases hof : Descriptor.ofField c.name c.type with
  | error e => simp [Derived.ofCandidate, hof, Except.map, Except.toOption] at hfield
  | ok d =>
    obtain rfl : derived = ⟨c, d⟩ := by
      simpa [Derived.ofCandidate, hof, Except.map, Except.toOption, eq_comm] using hfield
    exact (h.fields c hc).descriptor hof

/-- What is generated for a group is read back. -/
theorem reads_back {events : Token} (h : g.IsPlain) {name : String}
    (hevents : Property.identifier? name = some events) {names : OwnerNames}
    (hnames : OwnerNames.ofOwner? g.owner = some names) :
    let ts := (Emission.augmentation g names events).tokens
    (∃ f, Grammar.readSource (spacedTokens ts).toList = .ok f ∧ sameTokens f.tokens ts = true) ∧
      (∃ f, Grammar.readSource (Layout.renderFile ts).toList = .ok f ∧
        sameTokens f.tokens ts = true) ∧
      ∃ read, Output.sourceTokens (Layout.renderFile ts) = .ok read ∧
        unplacedTokens (unspacedTokens read) = unplacedTokens (unspacedTokens ts) := by
  obtain ⟨names', hnames', hstruct, hpath, htame⟩ := h.owner.ofOwner?
  obtain rfl := Option.some.inj (hnames'.symm.trans hnames)
  have hname : events.unplaced.IsName := by
    obtain ⟨raw, name, p, rfl, hfree, -⟩ := Property.identifier?_eq_some hevents
    exact ⟨raw, name, rfl, hfree, Property.isWord_of_identifier? hevents⟩
  refine Augmentation.reads_back ⟨hstruct, hpath, htame, hname, fun d hd => ?_⟩
  obtain ⟨placed, hplaced, rfl⟩ := List.mem_map.mp hd
  exact h.descriptors placed hplaced

/-- A group of which a field is kept is emitted with the canonical text of what is generated for
it. -/
theorem outcome {events : Token} (h : g.IsPlain)
    (hkept : Emission.survivors (Emission.derived g) ≠ [])
    {name : String} (hevents : Property.identifier? name = some events) (key : String) :
    let emission := Emission.ofGroup g key events
    ∃ unit text file again, emission.unit = some unit ∧
      Output.canonical key unit.body false = .ok text ∧
      Output.readUnit key unit.body = .ok file ∧ Output.readUnit key text = .ok again ∧
      sameTokens again.tokens file.tokens = true ∧ Output.canonical key text false = .ok text ∧
      GroupOutcome.ofGroup events g key
        = .emitted { unit with body := text } emission.properties emission.diagnostics := by
  intro emission
  obtain ⟨names, hnames, -⟩ := h.owner.ofOwner?
  let ts := (Emission.augmentation g names events).tokens
  obtain ⟨⟨file, hfile, hsame⟩, ⟨again, hagain, hsame'⟩, -⟩ := h.reads_back hevents hnames
  let unit : SourceUnit := ⟨key, g.owner.enclosing?, spacedTokens ts⟩
  have hunit : emission.unit = some unit := by
    simp only [emission, Emission.ofGroup, hnames]
    rw [if_neg (by simpa using hkept)]
    rfl
  have hread : Output.readUnit key unit.body = .ok file := Output.readUnit_eq_ok.mpr hfile
  have hlayout : Output.layout file = Layout.renderFile ts := Layout.renderFile_congr hsame
  have hreread : Output.readUnit key (Output.layout file) = .ok again := by
    rw [hlayout]
    exact Output.readUnit_eq_ok.mpr hagain
  have hboth : sameTokens again.tokens file.tokens = true := by
    rw [sameTokens_iff] at hsame hsame' ⊢
    exact hsame'.trans hsame.symm
  have hsettled : settledTokens again.tokens = settledTokens file.tokens := by
    rw [← settledTokens_unplaced, (sameTokens_iff _ _).mp hboth, settledTokens_unplaced]
  obtain ⟨hcanonical, hstable⟩ := Output.canonical_of_settled hread hreread hsettled
  refine ⟨unit, Output.layout file, file, again, hunit, hcanonical, hread, hreread, hboth,
    hstable, ?_⟩
  have hunit : (Emission.ofGroup g key events).unit = some unit := hunit
  simp only [GroupOutcome.ofGroup, hunit, hcanonical]
  rfl

/-- The text that is generated for a group is laid out as a text that holds the same tokens, and
that is laid out as it is; so nothing but its fields can be a problem of the group. -/
theorem survives {events : Token} (h : g.IsPlain)
    (hkept : Emission.survivors (Emission.derived g) ≠ [])
    {name : String} (hevents : Property.identifier? name = some events) (key : String) :
    ∃ unit text file again, (Emission.ofGroup g key events).unit = some unit ∧
      Output.canonical key unit.body false = .ok text ∧
      Output.readUnit key unit.body = .ok file ∧ Output.readUnit key text = .ok again ∧
      sameTokens again.tokens file.tokens = true ∧ Output.canonical key text false = .ok text ∧
      (GroupOutcome.ofGroup events g key).unit? = some { unit with body := text } ∧
      ∀ d ∈ (GroupOutcome.ofGroup events g key).diagnostics, d.code = .malformedName := by
  obtain ⟨unit, text, file, again, hunit, hcanonical, hread, hreread, hboth, hstable, houtcome⟩ :=
    h.outcome hkept hevents key
  refine ⟨unit, text, file, again, hunit, hcanonical, hread, hreread, hboth, hstable, ?_, ?_⟩
  · rw [houtcome]
    rfl
  · intro d hd
    rw [houtcome] at hd
    rcases Emission.ofGroup_cases g key events with ⟨hnone, -⟩ | ⟨-, ⟨hnone, -⟩ | ⟨-, hproblems⟩⟩
    · exact absurd hnone hkept
    · rw [hunit] at hnone
      cases hnone
    · rw [GroupOutcome.diagnostics, hproblems] at hd
      exact (Emission.code_of_mem_problems hd).1

/-- A field of a reference to an array of generic pointers, in a struct of a nested module. -/
theorem survives_nested :
    let name (text : String) (h : IsPlainName text) : PlainName := ⟨text, h⟩
    let bare (text : String) (h : IsPlainName text) : PlainType := .path (.bare (name text h)) []
    let map : PathPart := .generic (name "Map" (by decide)) [⟨"b", by decide⟩]
      [bare "u8" (by decide), .pointer false (.tuple [bare "id" (by decide)] false)] true
    let τ : PlainType := .reference (some ⟨"a", by decide⟩) true
      (.array (.path (.bare (name "lib" (by decide))) [map]) ⟨"3", by decide⟩)
    let g : Group := ⟨⟨⟨["ui", "panel"]⟩, "Gauge"⟩, [{
      owner := ⟨⟨["ui", "panel"]⟩, "Gauge"⟩, name := "_value", type := τ.tokens
      accessibility := .confined, location := ⟨"ui/panel.rs", .start⟩, argument := none }]⟩
    ∃ events unit text, (Emission.ofGroup g "Gauge_Classes_g" events).unit = some unit ∧
      Output.canonical "Gauge_Classes_g" unit.body false = .ok text ∧
      Output.canonical "Gauge_Classes_g" text false = .ok text := by
  intro name bare map τ g
  have hplain : g.IsPlain := by
    refine ⟨⟨by decide, by decide⟩, fun c hc => ?_⟩
    obtain rfl := List.mem_singleton.mp hc
    obtain ⟨p, hp⟩ : IsPlainName "_value" := by decide
    exact ⟨⟨false, "_value", p, hp, rfl⟩, ⟨τ, rfl⟩⟩
  have hkept : Emission.survivors (Emission.derived g) ≠ [] := by
    have hlength : (Emission.survivors (Emission.derived g)).length = 1 := by decide +kernel
    intro hnil
    rw [hnil] at hlength
    cases hlength
  obtain ⟨p, hevents⟩ : IsPlainName "events" := by decide
  obtain ⟨unit, text, -, -, hunit, hcanonical, -, -, -, hagain, -⟩ :=
    hplain.survives hkept hevents "Gauge_Classes_g"
  exact ⟨_, unit, text, hunit, hcanonical, hagain⟩

end Group.IsPlain

/-- Sources with a type for whose unit one of two fields is left, a type whose only field backs no
property, and a type in a module that no path leads to. -/
def mixedSources : List (String × String) :=
  [("lib.rs", "struct Ok \x7b #[ReactiveProperty] _a: u8, #[ReactiveProperty] b: u8 \x7d
      struct Skip \x7b #[ReactiveProperty] c: u8 \x7d"),
    ("type.rs", "struct Fail \x7b #[ReactiveProperty] _d: u8 \x7d")]

namespace Emission

/-- Whether a group has a unit for so many properties, and problems of these kinds. -/
def gives (e : Emission) (properties : Option Nat) (codes : List DiagnosticCode) : Bool :=
  (if e.unit.isSome then some e.properties else none) = properties
    && e.diagnostics.map (·.code) = codes

end Emission

namespace Compilation

/-- Whether what is read has the types of `mixedSources`, each under its key and with its
problems. -/
def isMixed (c : Compilation) (events : Token) : Bool :=
  match Group.keyed c.scan.candidates with
  | [p, q, r] =>
    p.2 = "Ok_Classes_g" && p.1.owner = ⟨.root, "Ok"⟩
      && p.1.fields.map (fun k => (k.name, unplacedTokens k.type))
        = [("_a", [.ident false "u8" .start]), ("b", [.ident false "u8" .start])]
      && p.1.fields.any (fun k => k.name = "_a" && (Emission.rejection? p.1 k).isNone)
      && (Emission.ofGroup p.1 p.2 events).gives (some 1) [.malformedName]
      && q.2 = "Skip_Classes_g" && (Emission.ofGroup q.1 q.2 events).gives none [.malformedName]
      && r.2 = "Fail_Classes_g" && (Emission.ofGroup r.1 r.2 events).gives none [.resolution]
      && !c.rootBinds Marker.name && c.files.length = 2 && c.scan.diagnostics.isEmpty
      && PassOutput.scannedEvent c = .scanned 4 3
  | _ => false

theorem exists_mixed : ∃ c events, ofSources mixedSources = .ok c ∧
    ({} : GeneratorConfig).eventsName? = some events ∧ c.isMixed events = true := by
  have hmixed : (ofSources mixedSources).toOption.any fun c =>
      ({} : GeneratorConfig).eventsName?.any c.isMixed := by decide +kernel
  obtain ⟨c, hc, hmixed⟩ := exists_of_any hmixed
  obtain ⟨events, hevents, hmixed⟩ := (Option.any_eq_true _ _).mp hmixed
  exact ⟨c, events, hc, hevents, hmixed⟩

end Compilation

theorem GroupOutcome.ofGroup_of_gives_none {e : Token} {g : Group} {key : String}
    {codes : List DiagnosticCode} (h : (Emission.ofGroup g key e).gives none codes = true) :
    ∃ ds, GroupOutcome.ofGroup e g key = .skipped key ds ∧ ds.map (·.code) = codes := by
  simp only [Emission.gives, Bool.and_eq_true, decide_eq_true_eq] at h
  cases hunit : (Emission.ofGroup g key e).unit with
  | some unit => simp [hunit] at h
  | none => exact ⟨_, by rw [GroupOutcome.ofGroup, hunit], h.2⟩

/-- A plain group with a unit is emitted. -/
theorem Group.IsPlain.outcome_of_gives {name : String} {e : Token} {g : Group} {key : String}
    {n : Nat} {codes : List DiagnosticCode} (hplain : g.IsPlain)
    (he : Property.identifier? name = some e)
    (h : (Emission.ofGroup g key e).gives (some n) codes = true) :
    ∃ unit ds, GroupOutcome.ofGroup e g key = .emitted unit n ds ∧ unit.key = key ∧
      ds.map (·.code) = codes := by
  simp only [Emission.gives, Bool.and_eq_true, decide_eq_true_eq] at h
  have hkept : Emission.survivors (Emission.derived g) ≠ [] := by
    intro hnone
    rcases Emission.ofGroup_cases g key e with ⟨-, hunit, -⟩ | ⟨hkept, -⟩
    · simp [hunit] at h
    · exact hkept hnone
  obtain ⟨unit, text, -, -, hunit, -, -, -, -, -, houtcome⟩ := hplain.outcome hkept he key
  rw [hunit, Option.isSome_some, if_pos rfl, Option.some.injEq] at h
  have hkey : unit.key = key := Emission.key_of_unit hunit
  exact ⟨{ unit with body := text }, _, houtcome.trans (by rw [h.1]), hkey, h.2⟩

/-- What a pass makes of such sources: it gives one unit, for one field of a plain group, skips the
two other groups, and tells one problem of each. -/
theorem Compilation.output_of_isMixed {c : Compilation} {name : String} {events : Token}
    (h : c.isMixed events = true) (hevents : Property.identifier? name = some events) :
    ∃ p q r unit d₁ d₂ d₃, Group.keyed c.scan.candidates = [p, q, r] ∧ p.1.IsPlain ∧
      (∃ k ∈ p.1.fields, k.name = "_a" ∧ Emission.rejection? p.1 k = none) ∧
      p.2 = "Ok_Classes_g" ∧ unit.key = "Ok_Classes_g" ∧
      [d₁, d₂, d₃].map (·.code) = [.malformedName, .malformedName, .resolution] ∧
      PassOutput.ofCompilation c events = ⟨[], [.emitted unit 1 [d₁],
        .skipped "Skip_Classes_g" [d₂], .skipped "Fail_Classes_g" [d₃]]⟩ ∧
      c.rootBinds Marker.name = false ∧ c.files.length = 2 ∧
      PassOutput.scannedEvent c = .scanned 4 3 := by
  unfold isMixed at h
  split at h
  · rename_i p q r hkeyed
    simp only [Bool.and_eq_true, decide_eq_true_eq, Bool.not_eq_true', List.isEmpty_iff] at h
    obtain ⟨⟨⟨⟨⟨⟨⟨⟨⟨⟨⟨⟨hp, howner⟩, hfields⟩, hkept⟩, hgives⟩, hq⟩, hqgives⟩, hr⟩, hrgives⟩, hroot⟩,
      hfiles⟩, hfound⟩, hscanned⟩ := h
    have hplain : p.1.IsPlain := by
      refine ⟨howner ▸ ⟨by decide, by decide⟩, fun k hk => ?_⟩
      have hk := List.mem_map_of_mem (f := fun k : Candidate => (k.name, unplacedTokens k.type)) hk
      rw [hfields] at hk
      have hword : IsPlainName "u8" := by decide
      have htype : ∃ τ : PlainType, [Token.ident false "u8" .start] = τ.tokens :=
        ⟨.path (.bare ⟨"u8", hword⟩) [], rfl⟩
      obtain ⟨a, ha⟩ : IsPlainName "_a" := by decide
      obtain ⟨b, hb⟩ : IsPlainName "b" := by decide
      simp only [List.mem_cons, Prod.mk.injEq, List.not_mem_nil, or_false] at hk
      rcases hk with ⟨hname, hk⟩ | ⟨hname, hk⟩
      · exact ⟨⟨false, "_a", a, hname ▸ ha, hname⟩, hk ▸ htype⟩
      · exact ⟨⟨false, "b", b, hname ▸ hb, hname⟩, hk ▸ htype⟩
    obtain ⟨k, hk, hkept⟩ := List.any_eq_true.mp hkept
    rw [Bool.and_eq_true, decide_eq_true_eq, Option.isNone_iff_eq_none] at hkept
    obtain ⟨unit, ds, hemitted, hkey, hcodes⟩ := hplain.outcome_of_gives hevents hgives
    obtain ⟨ds', hskipped, hcodes'⟩ := GroupOutcome.ofGroup_of_gives_none hqgives
    obtain ⟨ds'', hfailed, hcodes''⟩ := GroupOutcome.ofGroup_of_gives_none hrgives
    obtain ⟨d₁, rfl, hd₁⟩ := List.map_eq_singleton_iff.mp hcodes
    obtain ⟨d₂, rfl, hd₂⟩ := List.map_eq_singleton_iff.mp hcodes'
    obtain ⟨d₃, rfl, hd₃⟩ := List.map_eq_singleton_iff.mp hcodes''
    refine ⟨p, q, r, unit, d₁, d₂, d₃, hkeyed, hplain, ⟨k, hk, hkept⟩, hp, hkey.trans hp,
      by simp [hd₁, hd₂, hd₃], ?_, hroot, hfiles, hscanned⟩
    have hzip : PassOutput.ofCompilation c events = ⟨c.scan.diagnostics,
        (Group.keyed c.scan.candidates).map fun p => GroupOutcome.ofGroup events p.1 p.2⟩ := rfl
    rw [hzip, hkeyed, hfound]
    simp only [List.map_cons, List.map_nil, hemitted, hskipped, hfailed]
    rw [hq, hr]
  · cases h

end Observable
