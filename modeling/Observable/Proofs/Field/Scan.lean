import Mathlib.Data.List.Flatten
import Observable.Proofs.Field.Declared
/-! The scan of a crate finds what its declared fields give, each on its own. -/
namespace Observable

open Grammar (Tree)

namespace Findings

theorem append_assoc (a b c : Findings) : a ++ b ++ c = a ++ (b ++ c) := by
  change append (append a b) c = append a (append b c)
  simp [append]

theorem append_empty (a : Findings) : a ++ ({} : Findings) = a := by
  change append a {} = a
  simp [append]

theorem empty_append (a : Findings) : ({} : Findings) ++ a = a := by
  change append {} a = a
  simp [append]

theorem join_nil : join [] = {} := rfl

theorem foldl_append (a : Findings) (all : List Findings) :
    all.foldl (· ++ ·) a = a ++ join all := by
  induction all generalizing a with
  | nil => exact (append_empty a).symm
  | cons b all ih =>
    rw [join, List.foldl_cons, List.foldl_cons, ih, ih, empty_append, append_assoc]

theorem join_cons (a : Findings) (all : List Findings) : join (a :: all) = a ++ join all := by
  rw [join, List.foldl_cons, foldl_append, empty_append]

theorem join_append (all more : List Findings) : join (all ++ more) = join all ++ join more := by
  rw [join, List.foldl_append, foldl_append]
  rfl

theorem candidates_join (all : List Findings) :
    (join all).candidates = all.flatMap (·.candidates) := by
  induction all with
  | nil => rfl
  | cons a all ih =>
    rw [join_cons, List.flatMap_cons, ← ih]
    rfl

theorem diagnostics_join (all : List Findings) :
    (join all).diagnostics = all.flatMap (·.diagnostics) := by
  induction all with
  | nil => rfl
  | cons a all ih =>
    rw [join_cons, List.flatMap_cons, ← ih]
    rfl

theorem ext_iff {a b : Findings} :
    a = b ↔ a.candidates = b.candidates ∧ a.diagnostics = b.diagnostics := by
  cases a
  cases b
  simp

end Findings

namespace PlacedField

/-- What a declared field gives on its own. -/
def scan (f : PlacedField) : Findings := f.1.scan f.2.surroundings

/-- The declared fields that the walk comes to. -/
def reached (fs : List PlacedField) : List PlacedField := fs.filter fun f => !f.2.detached

/-- What the declared fields give that the walk comes to. -/
def found (fs : List PlacedField) : Findings := .join ((reached fs).map scan)

theorem found_append (fs gs : List PlacedField) : found (fs ++ gs) = found fs ++ found gs := by
  rw [found, reached, List.filter_append, List.map_append, Findings.join_append]
  rfl

theorem found_of_detached {fs : List PlacedField} (h : ∀ f ∈ fs, f.2.detached = true) :
    found fs = {} := by
  have hnone : reached fs = [] := List.filter_eq_nil_iff.mpr fun f hf => by simp [h f hf]
  rw [found, hnone]
  rfl

theorem found_of_attached {p : Standing} (hp : p.detached = false) (ds : List FieldDeclaration) :
    found (ds.map (·, p)) = .join (ds.map fun d => d.scan p.surroundings) := by
  have hall : reached (ds.map (·, p)) = ds.map (·, p) := by
    refine List.filter_eq_self.mpr fun f hf => ?_
    obtain ⟨d, -, rfl⟩ := List.mem_map.mp hf
    simp [hp]
  rw [found, hall, List.map_map]
  rfl

/-- The parts of a node in the order of the walk. -/
def order (parts : List Tree) : List Tree := (Step.arrange (parts.map (·, ()))).map (·.1)

theorem mem_order {parts : List Tree} {t : Tree} (h : t ∈ order parts) : t ∈ parts := by
  obtain ⟨part, hpart, rfl⟩ := List.mem_map.mp h
  obtain ⟨t, ht, rfl⟩ := List.mem_map.mp ((Step.arrange_perm _).mem_iff.mp hpart)
  exact ht

theorem flatMap_arrange {α : Type} (f : Tree → List α) (parts : List Tree) :
    (Step.arrange (parts.map fun t => (t, f t))).flatMap (·.2) = (order parts).flatMap f := by
  have hpairs : parts.map (fun t => (t, f t))
      = (parts.map (·, ())).map fun p => (p.1, f p.1) := by
    simp
  have harrange := Step.arrange_map (fun p : Tree × Unit => (p.1, f p.1)) (fun _ => rfl)
    (parts.map (·, ()))
  rw [hpairs, harrange, order, List.flatMap_map, List.flatMap_map]

theorem walkedParts_eq (p : Standing) (ts : List Tree) :
    walkedParts p ts = ts.map fun t => (t, walked p t) := by
  induction ts with
  | nil => rfl
  | cons t ts ih => rw [walkedParts, ih, List.map_cons]

end PlacedField

theorem Step.ofParts_eq (ts : List Tree) : ofParts ts = ts.map fun t => (t, ofTree t) := by
  induction ts with
  | nil => rfl
  | cons t ts ih => rw [ofParts, ih, List.map_cons]

namespace Walk

/-- The walk is at a place with some surroundings. -/
structure At (w : Walk) (s : Surroundings) : Prop where
  file : w.file = s.file
  scope : ∃ outer, w.scopes = s.scope :: outer
  depth : decide (0 < w.depth) = s.inBlock

/-- The walk with more findings. -/
def find (w : Walk) (f : Findings) : Walk := { w with findings := w.findings ++ f }

theorem find_find (w : Walk) (f g : Findings) : (w.find f).find g = w.find (f ++ g) := by
  simp only [find, Findings.append_assoc]

theorem find_empty (w : Walk) : w.find {} = w := by
  simp only [find, Findings.append_empty]

theorem At.find {w : Walk} {s : Surroundings} (h : w.At s) (f : Findings) : (w.find f).At s :=
  ⟨h.file, h.scope, h.depth⟩

/-- A walk over some steps finds what some fields give and is back where it was. -/
def Finds (steps : List Step) (s : Surroundings) (f : Findings) : Prop :=
  ∀ w : Walk, w.At s → steps.foldl step w = w.find f

theorem finds_nil (s : Surroundings) : Finds [] s {} := fun w _ => (find_empty w).symm

theorem finds_append {xs ys : List Step} {s : Surroundings} {f g : Findings}
    (hx : Finds xs s f) (hy : Finds ys s g) : Finds (xs ++ ys) s (f ++ g) := by
  intro w hw
  rw [List.foldl_append, hx w hw, hy _ (hw.find f), find_find]

theorem finds_field (d : FieldDeclaration) (s : Surroundings) :
    Finds [.field d] s (d.scan s) := by
  intro w hw
  obtain ⟨outer, houter⟩ := hw.scope
  have hs : (⟨w.file, s.scope, decide (0 < w.depth)⟩ : Surroundings) = s := by
    rw [hw.file, hw.depth]
  simp only [List.foldl_cons, List.foldl_nil, step, houter, hs, find]

theorem finds_fields (ds : List FieldDeclaration) (s : Surroundings) :
    Finds (ds.map .field) s (.join (ds.map fun d => d.scan s)) := by
  induction ds with
  | nil => exact finds_nil s
  | cons d ds ih =>
    rw [List.map_cons, List.map_cons, Findings.join_cons]
    exact finds_append (finds_field d s) ih

/-- A module is entered with a scope of its own, which is left at its end. -/
theorem finds_module {steps : List Step} {s : Surroundings} {f : Findings} (name : String)
    (items : List Tree)
    (h : Finds steps { s with scope := .ofItems (s.scope.module.child name) items } f) :
    Finds (.enterModule name items :: steps ++ [.leaveModule]) s f := by
  intro w hw
  obtain ⟨outer, houter⟩ := hw.scope
  let inner : Walk := { w with scopes := .ofItems (s.scope.module.child name) items :: w.scopes }
  have hinner : inner.At { s with scope := .ofItems (s.scope.module.child name) items } :=
    ⟨hw.file, ⟨w.scopes, rfl⟩, hw.depth⟩
  have henter : step w (.enterModule name items) = inner := by
    simp only [step, houter, inner]
  rw [List.cons_append, List.foldl_cons, henter, List.foldl_append, h inner hinner]
  rfl

/-- What a block declares is local, and what comes after it is as local as what came before. -/
theorem finds_block {steps : List Step} {s : Surroundings} {f : Findings}
    (h : Finds steps { s with inBlock := true } f) :
    Finds (.enterBlock :: steps ++ [.leaveBlock]) s f := by
  intro w hw
  let inner : Walk := { w with depth := w.depth + 1 }
  have hinner : inner.At { s with inBlock := true } :=
    ⟨hw.file, hw.scope, decide_eq_true (Nat.succ_pos _)⟩
  have henter : step w .enterBlock = inner := rfl
  rw [List.cons_append, List.foldl_cons, henter, List.foldl_append, h inner hinner]
  rfl

theorem finds_flatMap {p : Standing} {ts : List Tree}
    (h : ∀ t ∈ ts,
    Finds (Step.ofTree t) p.surroundings (PlacedField.found (PlacedField.walked p t))) :
    Finds (ts.flatMap Step.ofTree) p.surroundings
      (PlacedField.found (ts.flatMap (PlacedField.walked p))) := by
  induction ts with
  | nil => exact finds_nil _
  | cons t ts ih =>
    rw [List.flatMap_cons, List.flatMap_cons, PlacedField.found_append]
    exact finds_append (h t List.mem_cons_self) (ih fun t ht => h t (List.mem_cons_of_mem _ ht))

mutual
/-- The walk over a tree finds what its declared fields give, whatever was entered before. -/
theorem finds_ofTree (t : Tree) (p : Standing) (hp : p.detached = false) :
    Finds (Step.ofTree t) p.surroundings (PlacedField.found (PlacedField.walked p t)) := by
  cases t with
  | token t => exact finds_nil _
  | group d place close parts =>
    have hall := finds_flatMap fun t ht => finds_ofTrees parts t ht p hp
    rw [Step.ofTree, PlacedField.walked, Step.ofParts_eq, PlacedField.walkedParts_eq,
      List.flatMap_map, List.flatMap_map]
    exact hall
  | node kind parts =>
    have hparts : ∀ q : Standing, q.detached = false →
        Finds ((Step.arrange (Step.ofParts parts)).flatMap (·.2)) q.surroundings
          (PlacedField.found ((Step.arrange (PlacedField.walkedParts q parts)).flatMap (·.2))) := by
      intro q hq
      rw [Step.ofParts_eq, PlacedField.walkedParts_eq, PlacedField.flatMap_arrange,
        PlacedField.flatMap_arrange]
      exact finds_flatMap fun t ht => finds_ofTrees parts t (PlacedField.mem_order ht) q hq
    rw [PlacedField.walked, PlacedField.found_append, PlacedField.found_of_attached hp]
    by_cases hmodule : kind = .item .module
    · subst hmodule
      have hnone : FieldDeclaration.ofItem (.node (.item .module) parts) = [] := rfl
      rw [hnone, List.map_nil, Findings.join_nil, Findings.empty_append, Step.ofTree]
      cases hitems : Step.moduleItems? parts with
      | none =>
        -- the walk passes over a module without a body, its attributes included
        have hinside : (p.inside (.node (.item .module) parts)).detached = true := by
          simp [Standing.inside, hitems]
        rw [PlacedField.found_of_detached]
        · exact finds_nil _
        · intro f hf
          obtain ⟨part, hpart, hf⟩ := PlacedField.mem_flatMap_arrange.mp hf
          exact PlacedField.detached_of_mem_walkedParts hinside parts hpart hf
      | some items =>
        have hinside : p.inside (.node (.item .module) parts) = { p with surroundings :=
            { p.surroundings with scope := .ofItems (p.surroundings.scope.module.child
              (Grammar.Tree.node (.item .module) parts).nameText) items } } := by
          simp [Standing.inside, hitems]
        rw [hinside]
        exact finds_module _ items (hparts { p with surroundings := _ } hp)
    · by_cases hblock : kind = .block
      · subst hblock
        have hnone : FieldDeclaration.ofItem (.node .block parts) = [] := rfl
        rw [hnone, List.map_nil, Findings.join_nil, Findings.empty_append, Step.ofTree]
        exact finds_block (hparts { p with surroundings := _ } hp)
      · have hinside : p.inside (.node kind parts) = p := by
          unfold Standing.inside
          split
          · cases kind <;> simp_all
          · simp_all
          · rfl
        have hsteps : Step.ofTree (.node kind parts)
            = (FieldDeclaration.ofItem (.node kind parts)).map .field
              ++ (Step.arrange (Step.ofParts parts)).flatMap (·.2) := by
          rw [Step.ofTree]
          · exact hmodule
          · exact hblock
        rw [hsteps, hinside]
        exact finds_append (finds_fields _ _) (hparts p hp)

theorem finds_ofTrees (ts : List Tree) :
    ∀ t ∈ ts, ∀ p : Standing, p.detached = false →
      Finds (Step.ofTree t) p.surroundings (PlacedField.found (PlacedField.walked p t)) := by
  cases ts with
  | nil => exact fun t ht => absurd ht List.not_mem_nil
  | cons t ts =>
    intro u hu
    rcases List.mem_cons.mp hu with hut | hu
    · rw [hut]
      exact finds_ofTree t
    · exact finds_ofTrees ts u hu
end

end Walk

theorem SourceFile.scan_eq (f : SourceFile) :
    f.scan = PlacedField.found (PlacedField.walkedFile f) := by
  let p : Standing := ⟨⟨f.path, f.scope, false⟩, false⟩
  let w : Walk := { file := f.path, scopes := [f.scope] }
  have hw : w.At p.surroundings := ⟨rfl, ⟨[], rfl⟩, rfl⟩
  have hall := Walk.finds_flatMap
    (fun t ht => Walk.finds_ofTrees (f.syntaxTree.attributes ++ f.syntaxTree.items) t ht p rfl) w hw
  rw [SourceFile.scan, Step.ofFile, Step.ofParts_eq, List.flatMap_map, hall,
    PlacedField.walkedFile, PlacedField.walkedParts_eq, List.flatMap_map]
  exact Findings.empty_append _

namespace FieldDeclaration

/-- The attributes of a field that are the marker. -/
def markers (d : FieldDeclaration) (s : Surroundings) : List Tree :=
  d.field.attributes.filter (Marker.marks s.scope)

/-- A field gives a candidate only if it is marked, has a name, cannot be seen outside its module,
and belongs to a type that is neither local nor generic. The candidate comes with a warning exactly
when the field is marked more than once. -/
theorem scan_cases (d : FieldDeclaration) (s : Surroundings) :
    (d.scan s).candidates = [] ∧ (∀ w ∈ (d.scan s).diagnostics, w.code = .resolution) ∨
    ∃ c raw name place, (d.scan s).candidates = [c] ∧
      (d.scan s).diagnostics = repeated c.name (d.markers s).length c.location ∧
      d.markers s ≠ [] ∧ c.accessibility = .confined ∧ d.accessibility = .confined ∧
      d.generic = false ∧ s.inBlock = false ∧ d.field.name? = some (.ident raw name place) ∧
      c.name = Token.identText raw name ∧ c.owner = ⟨s.scope.module, d.owner⟩ ∧
      c.location = ⟨s.file, d.place⟩ := by
  unfold scan markers
  cases hmarkers : d.field.attributes.filter (Marker.marks s.scope) with
  | nil => exact .inl ⟨rfl, by simp⟩
  | cons first more =>
    by_cases haccess : d.accessibility = .confined
    · cases hresolve : d.resolve s with
      | error e => simp [haccess, problem]
      | ok found =>
        obtain ⟨owner, name⟩ := found
        cases hname : Marker.nameOf first with
        | error e => simp [haccess, hname, problem]
        | ok argument =>
          right
          unfold resolve at hresolve
          split_ifs at hresolve with hblock hgeneric
          split at hresolve
          · rename_i raw word place hfield
            simp only [Except.ok.injEq, Prod.mk.injEq] at hresolve
            obtain ⟨rfl, rfl⟩ := hresolve
            simp [haccess, hname, hblock, hgeneric, hfield]
          · cases hresolve
    · simp [haccess]

end FieldDeclaration

/-- Whether a problem is the warning about a marker that is there more than once. -/
def Diagnostic.isRepetition (d : Diagnostic) : Bool := d.code = .duplicateMarker

namespace PlacedField

/-- A candidate and the field that it comes from: the field has a name and cannot be seen outside
its module, and its type is neither local nor generic. There is a warning, and one, exactly when the
field carries two or more markers. -/
structure Gives (f : PlacedField) (c : Candidate) : Prop where
  confined : c.accessibility = .confined ∧ f.1.accessibility = .confined
  plain : f.1.generic = false ∧ f.2.surroundings.inBlock = false
  named : ∃ name, f.1.field.name? = some name ∧ c.name = name.spelling
  owner : c.owner = ⟨f.2.surroundings.scope.module, f.1.owner⟩
  repetition : if 2 ≤ (f.1.markers f.2.surroundings).length then
      ∃ w, f.scan.diagnostics.filter (·.isRepetition) = [w] ∧ w.location = some c.location
    else f.scan.diagnostics.filter (·.isRepetition) = []

theorem gives_of_mem {f : PlacedField} {c : Candidate} (hc : c ∈ f.scan.candidates) :
    f.scan.candidates = [c] ∧ f.Gives c := by
  rcases f.1.scan_cases f.2.surroundings with
    ⟨hnone, -⟩ | ⟨c', raw, name, place, hc', hwarnings, hrest⟩
  · simp [scan, hnone] at hc
  · obtain ⟨-, haccess, haccess', hgeneric, hblock, hname, hspelling, howner, -⟩ := hrest
    obtain rfl : c = c' := by simpa [scan, hc'] using hc
    refine ⟨hc', ⟨haccess, haccess'⟩, ⟨hgeneric, hblock⟩, ⟨_, hname, hspelling⟩, howner, ?_⟩
    rw [scan, hwarnings, FieldDeclaration.repeated]
    by_cases htwice : 1 < (f.1.markers f.2.surroundings).length
    · rw [if_pos htwice, if_pos (Nat.succ_le_of_lt htwice)]
      exact ⟨_, rfl, rfl⟩
    · have hfewer : ¬ 2 ≤ (f.1.markers f.2.surroundings).length := htwice
      rw [if_neg htwice, if_neg hfewer]
      rfl

end PlacedField

/-- What some members give is what the members give that pass a test exactly when the others give
nothing. -/
theorem flatMap_eq_flatMap_filter_iff {α β : Type} (g : α → List β) (test : α → Bool)
    (l : List α) :
    l.flatMap g = (l.filter test).flatMap g ↔ ∀ a ∈ l, test a = false → g a = [] := by
  induction l with
  | nil => simp
  | cons a l ih =>
    rw [List.flatMap_cons, List.forall_mem_cons, ih.symm]
    cases htest : test a with
    | true =>
      rw [List.filter_cons_of_pos htest, List.flatMap_cons, List.append_cancel_left_eq]
      simp
    | false =>
      rw [List.filter_cons_of_neg (by simp [htest])]
      constructor
      · intro h
        have hlength := congrArg List.length h
        have hrest : ((l.filter test).flatMap g).length ≤ (l.flatMap g).length :=
          (List.filter_sublist.flatMap g).length_le
        rw [List.length_append] at hlength
        have ha : g a = [] := List.eq_nil_of_length_eq_zero (by omega)
        rw [ha, List.nil_append] at h
        exact ⟨fun _ => ha, h⟩
      · rintro ⟨ha, h⟩
        rw [ha rfl, List.nil_append, h]

namespace Compilation

theorem scan_eq_found (c : Compilation) : c.scan = PlacedField.found c.walked := by
  rw [scan, walked]
  induction c.files with
  | nil => rfl
  | cons f files ih =>
    rw [List.map_cons, Findings.join_cons, ih, List.flatMap_cons, PlacedField.found_append,
      SourceFile.scan_eq]

/-- The scan of a crate, told without its walk. It finds what the declared fields give that the
walk comes to, each in its own surroundings and once, in the order of the walk. It finds what all
declared fields give exactly when those give nothing that stand in the attributes of a module
without a body. -/
theorem scan_eq_declared (c : Compilation) :
    c.scan = .join ((PlacedField.reached c.walked).map PlacedField.scan) ∧
    c.walked.Perm c.declared ∧
    (c.scan = .join (c.walked.map PlacedField.scan) ↔
      ∀ f ∈ c.declared, f.2.detached = true → PlacedField.scan f = {}) ∧
    ∀ f : PlacedField, f.scan.candidates = [] ∨ ∃ k, f.scan.candidates = [k] ∧ f.Gives k := by
  refine ⟨c.scan_eq_found, c.walked_perm, ?_, fun f => ?_⟩
  rotate_left
  · cases h : f.scan.candidates with
    | nil => exact .inl rfl
    | cons k more =>
      have hk := PlacedField.gives_of_mem (h ▸ List.mem_cons_self : k ∈ f.scan.candidates)
      exact .inr ⟨k, h ▸ hk⟩
  have hall {β : Type} (part : Findings → List β) :
      c.walked.flatMap (fun f => part f.scan)
          = (PlacedField.reached c.walked).flatMap (fun f => part f.scan) ↔
        ∀ f ∈ c.declared, f.2.detached = true → part (PlacedField.scan f) = [] := by
    rw [PlacedField.reached, flatMap_eq_flatMap_filter_iff]
    simp only [c.walked_perm.mem_iff, Bool.not_eq_false']
  rw [scan_eq_found, PlacedField.found, eq_comm, Findings.ext_iff, Findings.candidates_join,
    Findings.candidates_join, Findings.diagnostics_join, Findings.diagnostics_join,
    List.flatMap_map, List.flatMap_map, List.flatMap_map, List.flatMap_map,
    hall Findings.candidates, hall Findings.diagnostics]
  simp only [Findings.ext_iff, ← forall_and]

/-- A type in the attribute of a module without a body: its marked field is declared inside a block,
which is a problem everywhere else, and the scan passes over it. -/
theorem scan_passes_over_attribute :
    ∃ c, ofSources [("lib.rs",
        "#[a = \x7b struct S \x7b #[ReactiveProperty] _x: u8 \x7d \x7d] mod m;")] = .ok c ∧
      c.scan.diagnostics = [] ∧
      (Findings.join (c.walked.map PlacedField.scan)).diagnostics.map (·.message)
        = ["`S` is declared inside a function body and cannot be augmented"] := by
  have h : (match ofSources [("lib.rs",
        "#[a = \x7b struct S \x7b #[ReactiveProperty] _x: u8 \x7d \x7d] mod m;")] with
      | .ok c => c.scan.diagnostics.isEmpty &&
        (Findings.join (c.walked.map PlacedField.scan)).diagnostics.map (·.message)
          == ["`S` is declared inside a function body and cannot be augmented"]
      | .error _ => false) = true := by decide +kernel
  split at h
  · rename_i c hc
    rw [Bool.and_eq_true, List.isEmpty_iff, beq_iff_eq] at h
    exact ⟨c, hc, h⟩
  · cases h

end Compilation

end Observable
