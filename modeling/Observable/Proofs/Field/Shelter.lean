import Observable.Proofs.Field.Extraction
import Observable.Proofs.Grammar.Frugal.Item
import Observable.Proofs.Grammar.Shape
/-! What stands in front of the body of a module declares types in blocks only, so that none of
their fields is a candidate. -/
namespace Observable

open Grammar (Tree)
open Weighed

/-- Counts the types that are declared outside of blocks. -/
def Weight.exposed : Weight where
  of _ _ _ _ := 0
  of_unnamed _ := rfl
  declared := 1

theorem Weight.uniform_exposed : Weight.exposed.Uniform := fun _ _ _ _ _ => rfl

namespace Grammar

mutual
/-- Whether a tree is no module, or declares types in front of its body in blocks only, as the
modules in the body do. -/
def Tree.isGuarded : Tree → Bool
  | .node (.item .module) parts => partsGuarded parts
  | _ => true

def partsGuarded : List Tree → Bool
  | [] => true
  | .group _ _ _ items :: parts => itemsGuarded items && partsGuarded parts
  | part :: parts => weigh .exposed part == 0 && partsGuarded parts

def itemsGuarded : List Tree → Bool
  | [] => true
  | item :: items => item.isGuarded && itemsGuarded items
end

theorem itemsGuarded_iff {items : List Tree} :
    itemsGuarded items = true ↔ ∀ item ∈ items, item.isGuarded = true := by
  induction items with
  | nil => simp [itemsGuarded]
  | cons item items ih => simp [itemsGuarded, ih]

/-- A part in front of the body of a module: it is no body, and declares types in blocks only. -/
structure Tree.IsFront (t : Tree) : Prop where
  ungrouped : ∀ d place close parts, t ≠ .group d place close parts
  sheltered : weigh .exposed t = 0

theorem Tree.isFront_token (t : Token) : (Tree.token t).IsFront :=
  ⟨nofun, by simpa using weigh_tokens_eq_zero (w := .exposed) (fun _ _ _ _ => rfl) [t]⟩

theorem Tree.IsNode.isFront {kind : Kind} {t : Tree} (h : t.IsNode kind)
    (hweight : weigh .exposed t = 0) : t.IsFront := by
  obtain ⟨parts, rfl⟩ := h
  exact ⟨nofun, hweight⟩

theorem partsGuarded_append {front : List Tree} (h : ∀ part ∈ front, part.IsFront)
    (rest : List Tree) : partsGuarded (front ++ rest) = partsGuarded rest := by
  induction front with
  | nil => rfl
  | cons part front ih =>
    obtain ⟨hpart, hfront⟩ := List.forall_mem_cons.mp h
    rw [List.cons_append, partsGuarded, ih hfront, hpart.sheltered]
    · rfl
    · exact hpart.ungrouped

theorem Tree.isGuarded_node {kind : Kind} (h : kind ≠ .item .module) (parts : List Tree) :
    (Tree.node kind parts).isGuarded = true := by
  rw [isGuarded]
  exact fun parts' hnode => h (Tree.node.inj hnode).1

/-- What a reader that declares no types gives has none. -/
theorem Frugal.yields {α : Type} [Weighed α] {p : Parser α} (h : Frugal .exposed 0 p) :
    Yields p fun a => weigh .exposed a = 0 := by
  intro s a s' hs
  have hweight := (h s a s' hs).2
  rw [weigh_tokens_eq_zero (fun _ _ _ _ => rfl), weigh_tokens_eq_zero (fun _ _ _ _ => rfl)]
    at hweight
  omega

/-- An item, or none if its source is kept. -/
def GuardsItem (item : Option Tree) : Prop := item.all Tree.isGuarded = true

theorem guards_orSource {p : Parser (Option Tree)} (h : Yields p GuardsItem) :
    Yields (orSource p) fun item => item.isGuarded = true := by
  refine .bind h.withSource fun r hr => .pure ?_
  obtain ⟨found, source⟩ := r
  cases found with
  | none => rfl
  | some item => exact hr

theorem guards_innerAttribute (rules : Rules) :
    Yields (innerAttribute rules) fun attr => attr.isGuarded = true :=
  .after fun _ => .after fun _ => .after fun _ => .pure rfl

theorem guards_memberBody (rules : Rules) {item : Parser Tree}
    (h : Yields item fun item => item.isGuarded = true) :
    Yields (memberBody rules item) fun body => partsGuarded [body] = true := by
  refine (yields_within (P := fun items => itemsGuarded items = true)
    (.bind (yields_whileAhead (guards_innerAttribute rules)) fun attributes hattributes =>
      .bind (yields_allItems h) fun items hitems => .pure ?_)).mono ?_
  · exact itemsGuarded_iff.mpr (List.forall_mem_append.mpr ⟨hattributes, hitems⟩)
  · rintro _ ⟨place, close, items, rfl, hitems⟩
    rw [partsGuarded, hitems]
    rfl

theorem yields_isFront_oneToken (look : List Token → Bool) (c : Complaint) :
    Yields (oneToken look c) Tree.IsFront := by
  intro s t s' hs
  unfold oneToken at hs
  split at hs
  · split at hs
    · cases hs
      exact Tree.isFront_token _
    · cases hs
  · cases hs

theorem yields_isFront_name {p : Parser Tree} (h : Frugal .exposed 0 p) :
    Yields p fun name => (Tree.node .name [name]).IsFront :=
  h.yields.mono fun name hname => Tree.IsNode.isFront ⟨_, rfl⟩ (by simpa using hname)

theorem guards_moduleItem {rules : Rules}
    (hitem : Yields rules.item fun item => item.isGuarded = true) {vis : Tree}
    (hvis : vis.IsFront) : Yields (moduleItem rules vis) fun item => item.isGuarded = true := by
  have hunsafe : Yields (word? "unsafe") Tree.IsFront :=
    .branch (yields_isFront_oneToken _ _) (.pure (Tree.IsNode.isFront ⟨[], rfl⟩ rfl))
  refine .bind hunsafe fun unsafe_ hunsafe => .bind (yields_isFront_oneToken _ _)
    fun keyword hkeyword => .after fun _ => ?_
  have hrest (name : Tree) (hname : (Tree.node .name [name]).IsFront) : Yields (do
      let front := [vis, unsafe_, keyword, .node .name [name]]
      if ← looking (Look.op ";") then return itemOf .module (front ++ [← op ";"])
      else if ← looking Look.brace then
        return itemOf .module (front ++ [← memberBody rules rules.item])
      else expecting [.spelled ";", .curlyBraces]) fun item => item.isGuarded = true := by
    have hfront : ∀ part ∈ [vis, unsafe_, keyword, .node .name [name]], part.IsFront := by
      simp [hvis, hunsafe, hkeyword, hname]
    refine .branch (.bind ((yields_op ";").and (Frugal.op ";").yields) fun semicolon hsemicolon =>
      .pure ?_) (.branch (.bind (guards_memberBody rules hitem) fun body hbody => .pure ?_)
        (.expecting _))
    · have hend : ∀ part ∈ [semicolon], part.IsFront :=
        List.forall_mem_singleton.mpr (hsemicolon.1.isFront hsemicolon.2)
      rw [itemOf, Tree.isGuarded, partsGuarded_append hfront]
      exact partsGuarded_append hend []
    · rw [itemOf, Tree.isGuarded, partsGuarded_append hfront, hbody]
  exact .ite (.bind (yields_isFront_name Frugal.anyWord) hrest)
    (.bind (yields_isFront_name Frugal.ident) hrest)

section

variable (rules : Rules) (vis : Tree)

theorem guards_functionItem : Yields (functionItem rules vis) GuardsItem :=
  .after fun _ => .branch (.after fun _ => .pure rfl) (.after fun _ => .pure rfl)

theorem guards_foreignModule :
    Yields (foreignModule rules vis) fun item => item.isGuarded = true := by
  unfold foreignModule
  split
  · exact .bind (.refuseAt (P := fun _ => True) _ _) fun _ _ =>
      .after fun _ => .after fun _ => .after fun _ => .after fun _ => .pure rfl
  · exact .after fun _ => .after fun _ => .after fun _ => .after fun _ => .pure rfl

theorem guards_externCrate : Yields (externCrate vis) fun item => item.isGuarded = true :=
  .after fun _ => .after fun _ => .after fun _ => .joined fun _ => .branch
    (.after fun _ => .after fun _ => .joined fun _ => .after fun _ => .pure rfl)
    (.after fun _ => .pure rfl)

theorem guards_externItem : Yields (externItem rules vis) fun item => item.isGuarded = true :=
  .after fun _ => .ite (guards_externCrate vis) (.ite (guards_foreignModule rules vis)
    (.ite (.ite (guards_foreignModule rules vis)
      (.after fun _ => .after fun _ => .expecting _)) (.after fun _ => .expecting _)))

theorem guards_useItem : Yields (useItem rules vis) GuardsItem :=
  .after fun _ => .after fun _ => .after fun tree => .after fun _ => .pure (by cases tree <;> rfl)

theorem guards_staticItem : Yields (staticItem rules vis) GuardsItem :=
  .after fun _ => .after fun _ => .after fun _ => .branch
    (.after fun _ => .after fun _ => .after fun _ => .pure rfl)
    (.after fun _ => .after fun _ => .branch (.after fun _ => .pure rfl)
      (.after fun _ => .after fun _ => .after fun _ => .pure rfl))

theorem guards_constItem : Yields (constItem rules vis) GuardsItem :=
  .after fun _ => .branch (.after fun _ => .after fun _ => .ite (.pure rfl) (.pure rfl))
    (.expecting _)

theorem guards_aliasItem : Yields (aliasItem rules vis) GuardsItem :=
  .after fun _ => .ite (.pure rfl) (.pure rfl)

theorem guards_traitRest (front : List Tree) :
    Yields (traitRest rules front) fun item => item.isGuarded = true :=
  .after fun _ => .ite (.after fun _ => .after fun _ => .after fun _ => .after fun _ => .pure rfl)
    (.after fun _ => .after fun _ => .after fun _ => .pure rfl)

theorem guards_markedTrait : Yields (markedTrait rules vis) fun item => item.isGuarded = true :=
  .after fun _ => .after fun _ => .after fun _ => .after fun _ => .after fun _ =>
    guards_traitRest rules _

theorem guards_traitItem : Yields (traitItem rules vis) fun item => item.isGuarded = true :=
  .after fun _ => .after fun _ => .after fun _ => .branch (guards_traitRest rules _) (.branch
    (.after fun _ => .after fun _ => .after fun _ => .after fun _ => .pure rfl) (.expecting _))

theorem guards_implItem : Yields (implItem rules vis) GuardsItem := by
  refine .after fun _ => .after fun _ => .after fun _ => .after fun _ => .joined fun _ =>
    .after fun _ => .ite (.after fun _ => .after fun _ => ?_) ?_ <;>
  exact .after fun _ => .after fun _ => .ite
    (.after fun _ => .after fun _ => .after fun _ => .after fun _ => .after fun _ =>
      .ite (.pure rfl) (.pure rfl))
    (.after fun _ => .after fun _ => .after fun _ => .ite (.pure rfl) (.pure rfl))

theorem guards_structItem : Yields (structItem rules vis) fun item => item.isGuarded = true :=
  .after fun _ => .after fun _ => .after fun _ => .after fun _ => .pure rfl

theorem guards_enumItem : Yields (enumItem rules vis) fun item => item.isGuarded = true :=
  .after fun _ => .after fun _ => .after fun _ => .after fun _ => .after fun _ => .pure rfl

theorem guards_unionItem : Yields (unionItem rules vis) fun item => item.isGuarded = true :=
  .after fun _ => .after fun _ => .after fun _ => .after fun _ => .after fun _ => .pure rfl

end

theorem guards_macroDefinition : Yields macroDefinition GuardsItem := by
  refine .after fun _ => .after fun _ => .after fun _ => .ite (.after fun _ => ?_) ?_ <;>
  exact .branch (.after fun _ => .pure rfl) (.expecting _)

theorem guards_macroItem : Yields macroItem fun item => item.isGuarded = true := by
  refine .after fun _ => .after fun _ => .branch (.after fun _ => .after fun _ => ?_)
    (.after fun _ => ?_) <;>
  exact .after fun _ => .joined fun _ => .pure rfl

section

variable {rules : Rules} (hitem : Yields rules.item fun item => item.isGuarded = true) {vis : Tree}
  (hvis : vis.IsFront)

include hitem hvis

theorem guards_unsafeItem : Yields (unsafeItem rules vis) GuardsItem :=
  .after fun _ => .ite (.bind (guards_markedTrait rules vis) fun _ h => .pure h) (.ite
    (guards_implItem rules vis) (.ite (.bind (guards_foreignModule rules vis) fun _ h => .pure h)
      (.ite (.bind (guards_moduleItem hitem hvis) fun _ h => .pure h)
        (.after fun _ => .expecting _))))

theorem guards_itemRest : Yields (itemRest rules vis) GuardsItem := by
  have hsome {p : Parser Tree} (h : Yields p fun item => item.isGuarded = true) :
      Yields (do return some (← p)) GuardsItem := .bind h fun _ h => .pure h
  refine .branch (guards_functionItem rules vis) (.branch (hsome (guards_externItem rules vis)) ?_)
  refine .branch (guards_useItem rules vis) (.branch (guards_staticItem rules vis) ?_)
  refine .branch (guards_constItem rules vis) (.branch (guards_unsafeItem hitem hvis) ?_)
  refine .branch (hsome (guards_moduleItem hitem hvis)) (.branch (guards_aliasItem rules vis) ?_)
  refine .branch (hsome (guards_structItem rules vis))
    (.branch (hsome (guards_enumItem rules vis)) ?_)
  refine .branch (hsome (guards_unionItem rules vis))
    (.branch (hsome (guards_traitItem rules vis)) ?_)
  refine .branch (hsome (guards_markedTrait rules vis)) (.branch (guards_implItem rules vis) ?_)
  refine .branch guards_macroDefinition (.branch (hsome guards_macroItem) ?_)
  exact fun s => Yields.expecting _ s

end

/-- Attributes that declare types in blocks only keep an item guarded. -/
theorem Tree.isGuarded_withAttributes {attributes : List Tree} {item : Tree}
    (hattributes : ∀ attr ∈ attributes, attr.IsFront) (h : item.isGuarded = true) :
    (item.withAttributes attributes).isGuarded = true := by
  cases item with
  | node kind parts =>
    by_cases hmodule : kind = .item .module
    · subst hmodule
      rw [withAttributes, isGuarded, partsGuarded_append hattributes]
      exact h
    · exact isGuarded_node hmodule _
  | _ => rfl

theorem guards_itemTree {rules : Rules} (h : rules.Frugal)
    (hitem : Yields rules.item fun item => item.isGuarded = true) :
    Yields (itemTree rules) fun item => item.isGuarded = true := by
  have hattributes : Yields (outerAttributes rules) fun attributes =>
      ∀ attr ∈ attributes, attr.IsFront := by
    refine yields_whileAhead (((yields_outerAttribute rules).and
      (Frugal.outerAttribute h).yields).mono ?_)
    rintro _ ⟨⟨mark, place, close, content, -, rfl⟩, hweight⟩
    exact Tree.IsNode.isFront ⟨_, rfl⟩ hweight
  have hvisibility : Yields visibility Tree.IsFront :=
    (yields_visibility.and Frugal.visibility.yields).mono fun vis hvis => hvis.1.isFront hvis.2
  refine guards_orSource (.bind hattributes fun attributes hattributes =>
    .bind hvisibility fun vis hvis => .bind (guards_itemRest hitem hvis) fun item hitem => .pure ?_)
  cases item with
  | none => rfl
  | some item => exact Tree.isGuarded_withAttributes hattributes hitem

theorem guards_rules_item (n : Nat) :
    Yields (Rules.upTo n).item fun item => item.isGuarded = true := by
  induction n with
  | zero => exact .refuse _
  | succ n ih => exact guards_itemTree (Rules.frugal_upTo n) ih

/-- In a source text, what stands in front of the bodies of modules declares types in blocks
only. -/
theorem guarded_of_readSource {text : List Char} {file : File} (h : readSource text = .ok file) :
    itemsGuarded file.items = true := by
  have hfile (n : Nat) : Yields (Grammar.file (Rules.upTo n)) fun file =>
      itemsGuarded file.items = true :=
    .after fun _ => .bind (yields_allItems (guards_rules_item n)) fun items hitems =>
      .pure (itemsGuarded_iff.mpr hitems)
  unfold readSource read tokensOf at h
  split at h
  · exact Yields.of_readAll hfile h
  · cases h

end Grammar

namespace PlacedField

theorem inBlock_inside {p : Standing} (h : p.surroundings.inBlock = true) (t : Tree) :
    (p.inside t).surroundings.inBlock = true := by
  unfold Standing.inside
  split
  · split <;> exact h
  · rfl
  · exact h

/-- What is in a node is in a block, if no type is declared outside of blocks. -/
theorem inBlock_inside_or {p : Standing} {kind : Grammar.Kind} {parts : List Tree}
    (h : p.surroundings.inBlock = true ∨ weigh .exposed (Grammar.Tree.node kind parts) = 0) :
    (p.inside (.node kind parts)).surroundings.inBlock = true ∨ weigh .exposed parts = 0 := by
  rcases h with hblock | hweight
  · exact .inl (inBlock_inside hblock _)
  · rw [Tree.weigh_node, Nat.add_eq_zero_iff] at hweight
    by_cases hkind : kind = .block
    · subst hkind
      exact .inl rfl
    · refine .inr ?_
      have hwithin : kind.within .exposed = .exposed := by
        unfold Grammar.Kind.within
        split
        · contradiction
        · rfl
      rw [hwithin] at hweight
      exact hweight.2

theorem weight_of_mem_ofItem {kind : Grammar.Kind} {parts : List Tree} {d : FieldDeclaration}
    (h : d ∈ FieldDeclaration.ofItem (.node kind parts)) : kind.weight .exposed = 1 := by
  unfold FieldDeclaration.ofItem at h
  split at h
  case h_4 => cases h
  all_goals
    rename_i hnode
    cases hnode
    rfl

mutual
/-- Every field of a tree that declares types in blocks only is in a block. -/
theorem inBlock_of_mem_ofTree {p : Standing} {t : Tree}
    (h : p.surroundings.inBlock = true ∨ weigh .exposed t = 0) :
    ∀ f ∈ ofTree p t, f.2.surroundings.inBlock = true := by
  cases t with
  | token t => exact fun f hf => absurd hf List.not_mem_nil
  | group d place close parts =>
    rw [Tree.weigh_group, Tree.weigh_trees_inside Weight.uniform_exposed] at h
    exact inBlock_of_mem_ofTrees h
  | node kind parts =>
    rw [ofTree, List.forall_mem_append]
    refine ⟨?_, inBlock_of_mem_ofTrees (inBlock_inside_or h)⟩
    rintro _ hf
    obtain ⟨d, hd, rfl⟩ := List.mem_map.mp hf
    rcases h with hblock | hweight
    · exact hblock
    · -- only the declaration of a type has fields, and it counts
      rw [Tree.weigh_node, weight_of_mem_ofItem hd] at hweight
      omega

theorem inBlock_of_mem_ofTrees {p : Standing} {ts : List Tree}
    (h : p.surroundings.inBlock = true ∨ weigh .exposed ts = 0) :
    ∀ f ∈ ofTrees p ts, f.2.surroundings.inBlock = true := by
  cases ts with
  | nil => exact fun f hf => absurd hf List.not_mem_nil
  | cons t ts =>
    rw [weigh_cons, Nat.add_eq_zero_iff] at h
    rw [ofTrees, List.forall_mem_append]
    exact ⟨inBlock_of_mem_ofTree (h.imp_right And.left),
      inBlock_of_mem_ofTrees (h.imp_right And.right)⟩
end

/-- Trees that declare types in blocks only give no candidate. -/
theorem candidates_given {p : Standing} {ts : List Tree} (h : weigh .exposed ts = 0) :
    (given p ts).candidates = [] := by
  rw [given, found, Findings.candidates_join, List.flatMap_map, List.flatMap_eq_nil_iff]
  intro f hf
  have hblock := inBlock_of_mem_ofTrees (p := p) (.inr h) f (List.mem_filter.mp hf).1
  rw [List.eq_nil_iff_forall_not_mem]
  intro c hc
  obtain ⟨-, hopen⟩ := (gives_of_mem hc).2.plain
  rw [hblock] at hopen
  cases hopen

end PlacedField

namespace Extracts

variable {m : ModuleHead} {body items items' : List Tree} {path : List String}

theorem sheltered_of_partsGuarded {front rest : List Tree}
    (hfront : ∀ t ∈ front, t.precedesName = true)
    (h : Grammar.partsGuarded (front ++ rest) = true) :
    weigh .exposed front = 0 ∧ Grammar.partsGuarded rest = true := by
  induction front with
  | nil => exact ⟨rfl, h⟩
  | cons part front ih =>
    obtain ⟨hpart, hfront⟩ := List.forall_mem_cons.mp hfront
    rw [List.cons_append, Grammar.partsGuarded, Bool.and_eq_true, beq_iff_eq] at h
    · obtain ⟨hweight, hrest⟩ := ih hfront h.2
      exact ⟨by rw [weigh_cons, h.1, hweight], hrest⟩
    · rintro d place close items rfl
      cases hpart

theorem guarded_withBody {m : ModuleHead} {q r : Position}
    (h : (m.withBody q r body).isGuarded = true) :
    weigh .exposed m.front = 0 ∧ Grammar.itemsGuarded body = true := by
  obtain ⟨hfront, hrest⟩ := sheltered_of_partsGuarded m.front_precedes h
  refine ⟨hfront, ?_⟩
  rw [Grammar.partsGuarded, Grammar.partsGuarded, Grammar.partsGuarded, Bool.and_true] at hrest
  · exact (Bool.and_eq_true_iff.mp hrest).2
  · nofun

/-- In front of the module that loses its body types are declared in blocks only. -/
theorem sheltered_front (h : Extracts m body path items items')
    (hitems : Grammar.itemsGuarded items = true) : weigh .exposed m.front = 0 := by
  rw [Grammar.itemsGuarded_iff] at hitems
  induction h with
  | here before after q r s =>
    have hmodule := hitems _ (List.mem_append_right _ List.mem_cons_self)
    exact (guarded_withBody hmodule).1
  | within outer before after q r h ih =>
    have houter := hitems _ (List.mem_append_right _ List.mem_cons_self)
    exact ih (Grammar.itemsGuarded_iff.mp (guarded_withBody houter).2)

end Extracts

/-- What stands in front of the body of a module gives no candidate in a source text. -/
theorem Extraction.candidates_passedOver {c c' : Compilation} (e : Extraction c c')
    {text : List Char} (h : Grammar.readSource text = .ok e.outer.syntaxTree) :
    e.passedOver.candidates = [] :=
  PlacedField.candidates_given (e.extracts.sheltered_front (Grammar.guarded_of_readSource h))

end Observable
