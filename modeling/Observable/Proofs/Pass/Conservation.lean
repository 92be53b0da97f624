import Observable.Proofs.Field.Scan
import Observable.Proofs.Output.Grouping
import Observable.Proofs.Output.Survival
import Observable.Proofs.Pass.Cancellation
/-! No candidate is lost in a pass: it becomes a property, or a problem tells why it does not. -/
namespace Observable

/-- When one member of a list without repetitions is all that gives anything, the list gives what
that member gives. -/
theorem flatMap_eq_of_mem {α β : Type} {l : List α} (hl : l.Nodup) {a : α} (ha : a ∈ l)
    {f : α → List β} (h : ∀ b ∈ l, b ≠ a → f b = []) : l.flatMap f = f a := by
  obtain ⟨before, after, rfl⟩ := List.append_of_mem ha
  have hmiddle := List.nodup_middle.mp hl
  have hnot := (List.nodup_cons.mp hmiddle).1
  have hnone : ∀ part : List α, part ⊆ before ++ after → part.flatMap f = [] := by
    intro part hpart
    refine List.flatMap_eq_nil_iff.mpr fun b hb => h b ?_ fun heq => hnot (heq ▸ hpart hb)
    have := hpart hb
    simp only [List.mem_append, List.mem_cons] at this ⊢
    tauto
  rw [List.flatMap_append, List.flatMap_cons, hnone before (List.subset_append_left _ _),
    hnone after (List.subset_append_right _ _)]
  simp

theorem forall₂_exists_left {α β : Type} {R : α → β → Prop} {l : List α} {l' : List β}
    (h : List.Forall₂ R l l') {b : β} (hb : b ∈ l') : ∃ a ∈ l, R a b := by
  induction h with
  | nil => cases hb
  | cons hab _ ih =>
    rcases List.mem_cons.mp hb with rfl | hb
    · exact ⟨_, List.mem_cons_self, hab⟩
    · obtain ⟨a, ha, hr⟩ := ih hb
      exact ⟨a, List.mem_cons_of_mem _ ha, hr⟩

/-- The problems of a scan are about fields and not about units. -/
theorem FieldDeclaration.unit_of_mem_scan {d : FieldDeclaration} {s : Surroundings}
    {p : Diagnostic} (h : p ∈ (d.scan s).diagnostics) :
    p.unit = none ∧ p.code ≠ .malformedName := by
  have hproblem : ∀ location e, p ∈ (problem location e).diagnostics →
      p.unit = none ∧ p.code ≠ .malformedName := by
    intro location e hp
    obtain rfl := List.mem_singleton.mp hp
    exact ⟨rfl, by simp⟩
  unfold scan at h
  split at h
  · cases h
  · split at h
    · cases h
    · split at h
      · exact hproblem _ _ h
      · split at h
        · exact hproblem _ _ h
        · simp only [repeated] at h
          split at h
          · obtain rfl := List.mem_singleton.mp h
            exact ⟨rfl, by simp⟩
          · cases h

theorem Compilation.unit_of_mem_scan {c : Compilation} {p : Diagnostic}
    (h : p ∈ c.scan.diagnostics) : p.unit = none ∧ p.code ≠ .malformedName := by
  rw [scan_eq_found, PlacedField.found, Findings.diagnostics_join, List.flatMap_map,
    List.mem_flatMap] at h
  obtain ⟨f, -, hf⟩ := h
  exact FieldDeclaration.unit_of_mem_scan hf

/-- In a row of tokens the accessor, the getter and the setter of a property stand in an
implementation for an owner. -/
def Descriptor.ImplementedIn (d : Descriptor) (owner : OwnerNames) (events : Token)
    (ts : List Token) : Prop :=
  ∃ front before after, ts = front ++ [Quote.word "impl"] ++ owner.path ++ [Quote.braces (before
    ++ ((d.accessorMethod events).tokens ++ d.getterMethod.tokens ++ (d.setterMethod events).tokens)
    ++ after)]

theorem Augmentation.implements {owner : OwnerNames} {events : Token} {ds : List Descriptor}
    {d : Descriptor} (hd : d ∈ ds) :
    d.ImplementedIn owner events (Augmentation.ofProperties owner events ds).tokens := by
  obtain ⟨before, after, rfl⟩ := List.append_of_mem hd
  let tokensOf (ds : List Descriptor) := (ds.flatMap (·.methods events)).flatMap (·.tokens)
  refine ⟨(Augmentation.ofProperties owner events (before ++ d :: after)).eventsStruct,
    tokensOf before, tokensOf after, ?_⟩
  simp [Augmentation.tokens, Augmentation.ofProperties, Descriptor.methods, tokensOf]

/-- The text of a unit gives a property of a group to its owner: it is the canonical text of tokens
in which the accessor, the getter and the setter stand in an implementation for the owner. The text
has these tokens, but for places and spacing, when the group is of ordinary code or the tokens are
kept. -/
def SourceUnit.Declares (u : SourceUnit) (g : Group) (events : Token) (d : Descriptor) : Prop :=
  ∃ owner ts, OwnerNames.ofOwner? g.owner = some owner ∧ d.ImplementedIn owner events ts ∧
    Output.canonical u.key (spacedTokens ts) false = .ok u.body ∧
    (g.IsPlain ∨ Output.KeepsTokens ts → ∃ read, Output.sourceTokens u.body = .ok read ∧
      unplacedTokens (unspacedTokens read) = unplacedTokens (unspacedTokens ts))

/-- The unit of a group of ordinary code has the tokens that are generated. -/
theorem Group.IsPlain.sourceTokens_canonical {g : Group} (h : g.IsPlain) {name : String}
    {events : Token} (hevents : Property.identifier? name = some events) {owner : OwnerNames}
    (howner : OwnerNames.ofOwner? g.owner = some owner) {key text : String}
    (htext : Output.canonical key
      (spacedTokens (Emission.augmentation g owner events).tokens) false = .ok text) :
    ∃ read, Output.sourceTokens text = .ok read ∧ unplacedTokens (unspacedTokens read)
      = unplacedTokens (unspacedTokens (Emission.augmentation g owner events).tokens) := by
  obtain ⟨⟨file, hfile, hsame⟩, -, hread⟩ := h.reads_back hevents howner
  obtain ⟨rfl, -⟩ := (Output.canonical_eq_ok (Output.readUnit_of_ok hfile key)).mp htext
  have hlayout : Output.layout file
      = Layout.renderFile (Emission.augmentation g owner events).tokens :=
    Layout.renderFile_congr hsame
  rwa [← hlayout] at hread

theorem SourceUnit.Augments.declares {u : SourceUnit} {g : Group} {events : Token}
    (h : u.Augments g events) {name : String}
    (hevents : Property.identifier? name = some events) {c : Candidate} (hc : c ∈ g.fields)
    (hkept : Emission.rejection? g c = none) :
    ∃ d, Descriptor.ofField c.name c.type = .ok d ∧ u.Declares g events d := by
  obtain ⟨owner, howner, hbody⟩ := h
  have hmem : c ∈ (Emission.survivors (Emission.derived g)).map (·.candidate) := by
    rw [Emission.map_candidate_survivors, List.mem_filter, hkept]
    exact ⟨hc, rfl⟩
  obtain ⟨d, hd, rfl⟩ := List.mem_map.mp hmem
  refine ⟨d.descriptor, (Emission.descriptor_of_mem_derived (List.mem_of_mem_filter hd)).2, owner,
    (Emission.augmentation g owner events).tokens, howner,
    Augmentation.implements (List.mem_map_of_mem hd), hbody, ?_⟩
  rintro (hplain | hkeeps)
  · exact hplain.sourceTokens_canonical hevents howner hbody
  · exact hkeeps.sourceTokens_canonical hbody

namespace PassOutput

/-- The groups that get a unit, with their keys. -/
def emittedGroups (events : Token) (keyed : List (Group × String)) : List (Group × String) :=
  keyed.filter fun p => (GroupOutcome.ofGroup events p.1 p.2).unit?.isSome

theorem units_eq (c : Compilation) (events : Token) :
    List.Forall₂ (fun u p => u.key = p.2 ∧ SourceUnit.Augments u p.1 events)
      (ofCompilation c events).units (emittedGroups events (Group.keyed c.scan.candidates)) := by
  have hall : ∀ keyed : List (Group × String),
      List.Forall₂ (fun u p => u.key = p.2 ∧ SourceUnit.Augments u p.1 events)
        ((keyed.map fun p => GroupOutcome.ofGroup events p.1 p.2).filterMap GroupOutcome.unit?)
        (emittedGroups events keyed) := by
    intro keyed
    induction keyed with
    | nil => exact .nil
    | cons p keyed ih =>
      rw [List.map_cons, emittedGroups, List.filter_cons]
      cases hunit : (GroupOutcome.ofGroup events p.1 p.2).unit? with
      | none =>
        rw [List.filterMap_cons_none hunit]
        exact ih
      | some u =>
        rw [List.filterMap_cons_some hunit]
        exact .cons ⟨GroupOutcome.key_of_unit? hunit, GroupOutcome.augments_of_unit? hunit⟩ ih
  exact hall _

theorem diagnostics_eq (c : Compilation) (events : Token) :
    (ofCompilation c events).diagnostics = c.scan.diagnostics ++
      (Group.keyed c.scan.candidates).flatMap fun p =>
        (GroupOutcome.ofGroup events p.1 p.2).diagnostics := by
  rw [diagnostics, ofCompilation, List.flatMap_map]
  rfl

/-- The problems of a pass that are about names are those of the fields that are left out. -/
theorem malformed_perm (c : Compilation) (events : Token) :
    ((ofCompilation c events).diagnostics.filter (·.code = .malformedName)).Perm
      ((Group.keyed c.scan.candidates).flatMap fun p => Emission.rejections p.2 p.1) := by
  have hscan : c.scan.diagnostics.filter (·.code = .malformedName) = [] :=
    List.filter_eq_nil_iff.mpr fun d hd => by simpa using (Compilation.unit_of_mem_scan hd).2
  rw [diagnostics_eq, List.filter_append, hscan, List.nil_append, List.filter_flatMap]
  exact List.Perm.flatMap_left _ fun p _ => GroupOutcome.malformed_perm events p.1 p.2

/-- What blocks the unit of a group is told with that group. -/
theorem blocks_eq {c : Compilation} {events : Token} {p : Group × String}
    (hp : p ∈ Group.keyed c.scan.candidates) :
    (ofCompilation c events).diagnostics.filter (·.blocks p.2)
      = (GroupOutcome.ofGroup events p.1 p.2).diagnostics.filter (·.blocks p.2) := by
  have hscan : c.scan.diagnostics.filter (·.blocks p.2) = [] :=
    List.filter_eq_nil_iff.mpr fun d hd => by
      simp [Diagnostic.blocks, (Compilation.unit_of_mem_scan hd).1]
  have hkeys := Group.keyed_keys_nodup c.scan.candidates
  rw [diagnostics_eq, List.filter_append, hscan, List.nil_append, List.filter_flatMap]
  refine flatMap_eq_of_mem hkeys.of_map hp fun q hq hne => List.filter_eq_nil_iff.mpr fun d hd => ?_
  have hkey : q.2 ≠ p.2 := fun h => hne (List.inj_on_of_nodup_map hkeys hq hp h)
  simp [Diagnostic.blocks, (GroupOutcome.unit_of_mem_diagnostics hd).1, hkey]

end PassOutput

/-- What a host is told of a group with its key, given the groups that got a unit. A group without a
unit has a problem. A field that is rejected has its problem, and any other field has its methods in
the unit of its group, or one problem blocks that unit. -/
structure Delivery.Settles (host : Delivery) (events : Token) (emitted : List (Group × String))
    (p : Group × String) : Prop where
  explained : p ∉ emitted → ∃ d ∈ host.diagnostics, d.isError = true ∧ d.unit = some p.2
  rejected : ∀ c ∈ p.1.fields, ∀ e, Emission.rejection? p.1 c = some e →
    Emission.malformed p.2 c e ∈ host.diagnostics
  kept : ∀ c ∈ p.1.fields, Emission.rejection? p.1 c = none →
    (p ∈ emitted ∧ host.diagnostics.filter (·.blocks p.2) = [] ∧
      ∃ u ∈ host.units.tail, u.key = p.2 ∧
        ∃ d, Descriptor.ofField c.name c.type = .ok d ∧ u.Declares p.1 events d) ∨
    (p ∉ emitted ∧ ∃ d, host.diagnostics.filter (·.blocks p.2) = [d])

theorem PassOutput.settles {c : Compilation} {name : String} {events : Token}
    (hevents : Property.identifier? name = some events) {p : Group × String}
    (hp : p ∈ Group.keyed c.scan.candidates) (marker : SourceUnit) :
    ((ofCompilation c events).delivery marker).Settles events
      (emittedGroups events (Group.keyed c.scan.candidates)) p := by
  let o := GroupOutcome.ofGroup events p.1 p.2
  have hmem : ∀ d ∈ o.diagnostics, d ∈ (ofCompilation c events).diagnostics := by
    intro d hd
    rw [diagnostics_eq]
    exact List.mem_append_right _ (List.mem_flatMap.mpr ⟨p, hp, hd⟩)
  have hrejected : ∀ k ∈ p.1.fields, ∀ e, Emission.rejection? p.1 k = some e →
      Emission.malformed p.2 k e ∈ o.diagnostics := by
    intro k hk e he
    have hin : Emission.malformed p.2 k e ∈ Emission.rejections p.2 p.1 :=
      List.mem_filterMap.mpr ⟨k, hk, by rw [he]; rfl⟩
    exact List.mem_of_mem_filter ((GroupOutcome.malformed_perm events p.1 p.2).mem_iff.mpr hin)
  have hemitted : p ∈ emittedGroups events (Group.keyed c.scan.candidates) ↔ o.unit?.isSome := by
    rw [emittedGroups, List.mem_filter]
    exact and_iff_right hp
  refine ⟨fun hnot => ?_, fun k hk e he => hmem _ (hrejected k hk e he), fun k hk he => ?_⟩
  · obtain ⟨d, hd⟩ : ∃ d, d ∈ o.diagnostics := by
      rcases GroupOutcome.blocks_ofGroup events p.1 p.2 with ⟨hnone, -⟩ | ⟨hsome, -⟩ | ⟨-, d, hd⟩
      · -- all fields of the group are left out, and there is at least one
        obtain ⟨k, hk⟩ := List.exists_mem_of_ne_nil _ (Group.fields_of_mem_keyed hp).1
        have hkept := Emission.map_candidate_survivors p.1
        rw [hnone, List.map_nil, eq_comm, List.filter_eq_nil_iff] at hkept
        obtain ⟨e, he⟩ := Option.ne_none_iff_exists'.mp (by simpa using hkept k hk)
        exact ⟨_, hrejected k hk e he⟩
      · exact absurd (hemitted.mpr hsome) hnot
      · exact ⟨d, List.mem_of_mem_filter (hd ▸ List.mem_singleton_self d)⟩
    exact ⟨d, hmem d hd, (GroupOutcome.unit_of_mem_diagnostics hd).2,
      (GroupOutcome.unit_of_mem_diagnostics hd).1⟩
  · have hkept : Emission.survivors (Emission.derived p.1) ≠ [] := by
      intro hnone
      have hall := Emission.map_candidate_survivors p.1
      rw [hnone, List.map_nil, eq_comm, List.filter_eq_nil_iff] at hall
      exact hall k hk (by rw [he]; rfl)
    have hblocks := @blocks_eq c events p hp
    rcases GroupOutcome.blocks_ofGroup events p.1 p.2 with ⟨hnone, -⟩ | ⟨hsome, h⟩ | ⟨hnone, d, h⟩
    · exact absurd hnone hkept
    · obtain ⟨u, hu, hkey, haugments⟩ :=
        forall₂_exists_left (units_eq c events) (hemitted.mpr hsome)
      exact .inl ⟨hemitted.mpr hsome, hblocks.trans h, u, hu, hkey,
        haugments.declares hevents hk he⟩
    · refine .inr ⟨fun hin => ?_, d, hblocks.trans h⟩
      have hsome := hemitted.mp hin
      rw [show o.unit? = none from hnone] at hsome
      cases hsome

/-- A pass that comes to its end has delivered what it makes of the crate. -/
theorem Generator.execute_eq_ok {g : Generator} {c : Compilation} {k : Cancellation}
    {report : PassReport} (h : (g.execute c k).result = .ok report) :
    ∃ events marker, g.config.eventsName? = some events ∧
      (g.execute c k).delivery = (PassOutput.ofCompilation c events).delivery marker ∧
      report = (g.execute c k).delivery.report := by
  cases hprepare : g.prepare c with
  | error e =>
    rw [execute, hprepare] at h
    cases h
  | ok prepared =>
    obtain ⟨events, marker⟩ := prepared
    rw [execute_eq hprepare] at h ⊢
    split at h
    · rename_i hdone
      rw [if_pos hdone]
      exact ⟨events, marker, eventsName?_of_prepare hprepare, rfl, (Except.ok.inj h).symm⟩
    · cases h

/-- No candidate is lost in a pass that comes to its end. The groups, which have different owners
and different keys, share the candidates out. The units after the marker's are those of some groups,
one of each, and every group is settled. The problems about names are those of the rejected fields,
one for each. A pass without errors has delivered all methods of all candidates. -/
theorem Generator.execute_conserves (g : Generator) (c : Compilation) (k : Cancellation)
    (report : PassReport) (hdone : (g.execute c k).result = .ok report) :
    let host := (g.execute c k).delivery
    let keyed := Group.keyed c.scan.candidates
    ∃ events emitted, g.config.eventsName? = some events ∧ emitted.Sublist keyed ∧
      (keyed.flatMap (·.1.fields)).Perm c.scan.candidates ∧
      (∀ p ∈ keyed, ∀ k ∈ p.1.fields, k.owner = p.1.owner) ∧
      (keyed.map (·.1.owner)).Nodup ∧ (keyed.map (·.2)).Nodup ∧
      List.Forall₂ (fun u p => u.key = p.2 ∧ SourceUnit.Augments u p.1 events)
        host.units.tail emitted ∧
      (∀ p ∈ keyed, host.Settles events emitted p) ∧
      (host.diagnostics.filter (·.code = .malformedName)).Perm
        (keyed.flatMap fun p => Emission.rejections p.2 p.1) ∧
      (report.errors = 0 → ∀ k ∈ c.scan.candidates, ∃ p ∈ emitted, k ∈ p.1.fields ∧
        ∃ u ∈ host.units, u.key = p.2 ∧ ∃ d,
          Descriptor.ofField k.name k.type = .ok d ∧ u.Declares p.1 events d) := by
  intro host keyed
  obtain ⟨events, marker, hevents, hhost, rfl⟩ := execute_eq_ok hdone
  let emitted := PassOutput.emittedGroups events keyed
  have hunits : host.units.tail = (PassOutput.ofCompilation c events).units :=
    congrArg (·.units.tail) hhost
  have hsettles : ∀ p ∈ keyed, host.Settles events emitted p := by
    intro p hp
    rw [show host = _ from hhost]
    exact PassOutput.settles hevents hp marker
  have hforall := hunits ▸ PassOutput.units_eq c events
  refine ⟨events, emitted, hevents, List.filter_sublist, Group.keyed_fields_perm _,
    fun p hp => (Group.fields_of_mem_keyed hp).2, Group.keyed_owners_nodup _,
    Group.keyed_keys_nodup _, hforall, hsettles, ?_, ?_⟩
  · rw [show host = _ from hhost]
    exact PassOutput.malformed_perm c events
  · intro hnone k hk
    have herrors : ∀ d ∈ host.diagnostics, d.isError ≠ true :=
      List.filter_eq_nil_iff.mp (List.eq_nil_of_length_eq_zero hnone)
    obtain ⟨p, hp, hk⟩ :=
      List.mem_flatMap.mp ((Group.keyed_fields_perm _).mem_iff.mpr hk)
    obtain ⟨hexplained, hrejected, hkept⟩ := hsettles p hp
    have hemitted : p ∈ emitted := by
      by_contra hnot
      obtain ⟨d, hd, herror, -⟩ := hexplained hnot
      exact herrors d hd herror
    have hnone : Emission.rejection? p.1 k = none := by
      by_contra hsome
      obtain ⟨e, he⟩ := Option.ne_none_iff_exists'.mp hsome
      exact herrors _ (hrejected k hk e he) rfl
    rcases hkept k hk hnone with ⟨-, -, u, hu, hkey, hdeclares⟩ | ⟨hnot, -⟩
    · exact ⟨p, hemitted, hk, u, List.mem_of_mem_tail hu, hkey, hdeclares⟩
    · exact absurd hemitted hnot

/-- A pass over the types of `mixedSources`: the first type is delivered, and its unit is read back
with the methods of its field. -/
theorem Generator.execute_conserves_mixed :
    let g : Generator := { config := {}, stage := .registered ⟨Marker.key, none, ""⟩ }
    ∃ c report, Compilation.ofSources mixedSources = .ok c ∧
      (g.execute c {}).result = .ok report ∧ report.errors = 3 ∧
      ∃ events emitted, (∀ p ∈ Group.keyed c.scan.candidates,
          (g.execute c {}).delivery.Settles events emitted p) ∧
        ∃ p ∈ emitted, p.2 = "Ok_Classes_g" ∧ ∃ k ∈ p.1.fields, k.name = "_a" ∧
          ∃ u ∈ (g.execute c {}).delivery.units.tail, u.key = "Ok_Classes_g" ∧
          ∃ d owner ts read, Descriptor.ofField k.name k.type = .ok d ∧
            OwnerNames.ofOwner? p.1.owner = some owner ∧ d.ImplementedIn owner events ts ∧
            Output.sourceTokens u.body = .ok read ∧
            unplacedTokens (unspacedTokens read) = unplacedTokens (unspacedTokens ts) := by
  intro g
  obtain ⟨c, name, hc, hname, hmixed⟩ := Compilation.exists_mixed
  obtain ⟨p, q, r, -, -, -, -, hkeyed, hplain, ⟨k, hk, hfield, hnone⟩, hkeyp, -⟩ :=
    Compilation.output_of_isMixed hmixed hname
  obtain ⟨unit, d₁, d₂, d₃, hkey, -, -, hdelivery, hdone⟩ :=
    execute_of_isMixed hname hmixed ⟨Marker.key, none, ""⟩
  obtain ⟨events, emitted, -, hsublist, -, -, -, hkeys, hunits, hsettles, -⟩ :=
    execute_conserves g c {} _ hdone
  have hp : p ∈ Group.keyed c.scan.candidates := by simp [hkeyed]
  have hemitted : p ∈ emitted := by
    rw [hdelivery] at hunits
    obtain ⟨e, rest, ⟨hsame, -⟩, -, rfl⟩ := List.forall₂_cons_left_iff.mp hunits
    have he : e ∈ Group.keyed c.scan.candidates := hsublist.subset List.mem_cons_self
    rw [List.inj_on_of_nodup_map hkeys hp he (hkeyp.trans (hkey.symm.trans hsame))]
    exact List.mem_cons_self
  rcases (hsettles p hp).kept k hk hnone with
    ⟨-, -, u, hu, hukey, d, hd, owner, ts, howner, himplemented, -, hread⟩ | ⟨hnot, -⟩
  · obtain ⟨read, hread, hsame⟩ := hread (.inl hplain)
    exact ⟨c, _, hc, hdone, rfl, events, emitted, hsettles, p, hemitted, hkeyp, k, hk, hfield,
      u, hu, hukey.trans hkeyp, d, owner, ts, read, hd, howner, himplemented, hread, hsame⟩
  · exact absurd hemitted hnot

end Observable
