import Observable.Property.Descriptor
import Observable.Proofs.Text.Words
/-! The three identifiers of a property differ. -/
namespace Observable

open Text (isSolid solidCount)

/-- The number of characters of an identifier that cannot be separators of words. -/
def Token.solids (t : Token) : Nat := t.spelling.toList.countP isSolid

theorem Token.solids_ident (raw : Bool) (name : String) (place : Position) :
    (Token.ident raw name place).solids = (if raw then 2 else 0) + name.toList.countP isSolid := by
  cases raw with
  | false => simp [solids, spelling, identText]
  | true =>
    have hmark : ("r#".toList).countP isSolid = 2 := by decide
    simp only [solids, spelling, identText, if_true, String.toList_append,
      List.countP_append, hmark]

/-- A method is spelled as a name in lower case with underscores. -/
theorem Property.methodName?_eq {name : String} {t : Token} (h : methodName? name = some t) :
    ∃ raw, t = .ident raw (String.ofList (Text.snakeCase name.toList)) .start := by
  simp only [methodName?] at h
  split_ifs at h
  · exact ⟨false, (Option.some.inj h).symm⟩
  · exact ⟨true, (Option.some.inj h).symm⟩

namespace Descriptor

/-- All that a descriptor is, told from the field that it was derived for. -/
theorem ofField_eq_ok {name : String} {type : List Token} {d : Descriptor}
    (h : ofField name type = .ok d) :
    Property.nameOf name = .ok d.property ∧ d.event = Property.eventOf d.property ∧
      Property.identifier? name = some d.field ∧ d.type = type ∧
      Property.methodName? d.property = some d.getter ∧
      Property.methodName? d.event = some d.accessor ∧ d.setter = d.getter.renamed "set_" "" := by
  unfold ofField at h
  cases hname : Property.nameOf name with
  | error e => simp [hname, bind, Except.bind] at h
  | ok property =>
    simp only [hname, bind, Except.bind] at h
    split at h
    · rename_i field getter accessor hfield hgetter haccessor
      obtain rfl : _ = d := Except.ok.inj h
      exact ⟨rfl, rfl, hfield, rfl, hgetter, haccessor, rfl⟩
    · cases h

/-- Fields of one name have the same identifiers, whatever their types are. -/
theorem identifiers_eq_of_name {name : String} {type type' : List Token} {d d' : Descriptor}
    (h : ofField name type = .ok d) (h' : ofField name type' = .ok d') :
    d.getter = d'.getter ∧ d.setter = d'.setter ∧ d.accessor = d'.accessor := by
  obtain ⟨hname, hevent, -, -, hgetter, haccessor, hsetter⟩ := ofField_eq_ok h
  obtain ⟨hname', hevent', -, -, hgetter', haccessor', hsetter'⟩ := ofField_eq_ok h'
  have hproperty : d.property = d'.property := Except.ok.inj (hname.symm.trans hname')
  have hgetters : d.getter = d'.getter := by
    rw [hproperty] at hgetter
    exact Option.some.inj (hgetter.symm.trans hgetter')
  have haccessors : d.accessor = d'.accessor := by
    rw [hevent, hproperty, ← hevent'] at haccessor
    exact Option.some.inj (haccessor.symm.trans haccessor')
  exact ⟨hgetters, by rw [hsetter, hsetter', hgetters], haccessors⟩

/-- The accessor is longer than the setter, and the setter longer than the getter, when only those
characters count that cannot be separators. -/
theorem solids_lt {name : String} {type : List Token} {d : Descriptor}
    (h : ofField name type = .ok d) :
    d.getter.solids < d.setter.solids ∧ d.setter.solids < d.accessor.solids := by
  obtain ⟨-, hevent, -, -, hgetter, haccessor, hsetter⟩ := ofField_eq_ok h
  obtain ⟨raw, hg⟩ := Property.methodName?_eq hgetter
  obtain ⟨raw', ha⟩ := Property.methodName?_eq haccessor
  have hsuffix : solidCount Property.eventSuffix.toList = 7 := by decide
  have hset : ("set_".toList).countP isSolid = 3 := by decide
  have hlong : solidCount d.event.toList = solidCount d.property.toList + 7 := by
    rw [hevent, Property.eventOf, String.toList_append, Text.solidCount_append, hsuffix]
  rw [hsetter, hg, ha, Token.renamed]
  simp only [Token.solids_ident, String.toList_append, String.toList_ofList, List.countP_append,
    Text.countP_snakeCase, hset, hlong]
  cases raw <;> cases raw' <;> simp <;> omega

theorem identifiers_nodup {name : String} {type : List Token} {d : Descriptor}
    (h : ofField name type = .ok d) : d.identifiers.Nodup := by
  obtain ⟨hgs, hsa⟩ := solids_lt h
  have hne : ∀ t u : Token, t.solids < u.solids → t.spelling ≠ u.spelling := by
    intro t u hlt heq
    rw [Token.solids, Token.solids, heq] at hlt
    exact Nat.lt_irrefl _ hlt
  simpa [identifiers] using ⟨⟨hne _ _ hgs, hne _ _ (Nat.lt_trans hgs hsa)⟩, hne _ _ hsa⟩

end Descriptor

end Observable
