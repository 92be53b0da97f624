import Observable.Proofs.Grammar.Types
/-! A plain type is nested no deeper than it has tokens. -/
namespace Observable

open Grammar (separated)

theorem countTokens_append (ts us : List Token) :
    countTokens (ts ++ us) = countTokens ts + countTokens us := by
  induction ts with
  | nil => simp [countTokens]
  | cons t ts ih => simp only [List.cons_append, countTokens, ih, Nat.add_assoc]

theorem countTokens_word (name : String) : countTokens [Quote.word name] = 1 := rfl

/-- A row has no more tokens than the listing that it is in. -/
theorem countTokens_le_separated (separator : List Token) (trailing : Bool)
    {rows : List (List Token)} {row : List Token} (h : row ∈ rows) :
    countTokens row ≤ countTokens (separated separator trailing rows) := by
  induction rows with
  | nil => cases h
  | cons first rest ih =>
    cases rest with
    | nil =>
      obtain rfl : row = first := List.mem_singleton.mp h
      rw [separated, countTokens_append]
      exact Nat.le_add_right _ _
    | cons next rest =>
      rw [separated, countTokens_append, countTokens_append]
      rcases List.mem_cons.mp h with rfl | hrest
      · exact Nat.le_add_right _ _
      · have hnext := ih hrest
        omega

mutual
theorem PlainType.depth_le (τ : PlainType) : τ.depth ≤ countTokens τ.tokens := by
  cases τ with
  | path first rest =>
    let row := separated (Quote.op "::") false (first.tokens :: pathRows rest)
    have hrows : ∀ r ∈ first.tokens :: pathRows rest, countTokens r ≤ countTokens row :=
      fun _ => countTokens_le_separated _ _
    obtain ⟨hfirst, hrest⟩ := List.forall_mem_cons.mp hrows
    have hfirst : first.depth < countTokens row := Nat.lt_of_lt_of_le first.depth_lt hfirst
    have hrest : partsDepth rest < countTokens row :=
      partsDepth_lt rest (Nat.zero_lt_of_lt hfirst) hrest
    rw [PlainType.depth, PlainType.tokens]
    exact Nat.max_lt.mpr ⟨hfirst, hrest⟩
  | reference lifetime mutable target =>
    have htarget := target.depth_le
    have hmark : countTokens (Quote.op "&") = 1 := rfl
    rw [PlainType.depth, PlainType.tokens]
    simp only [countTokens_append, hmark]
    omega
  | pointer mutable target =>
    have htarget := target.depth_le
    have hmark : countTokens (Quote.op "*") = 1 := rfl
    rw [PlainType.depth, PlainType.tokens]
    simp only [countTokens_append, hmark, countTokens_word]
    omega
  | tuple parts trailing =>
    have hparts := typesDepth_le parts fun _ h =>
      countTokens_le_separated (Quote.op ",") (trailing || parts.length = 1) h
    rw [PlainType.depth, PlainType.tokens]
    simp only [countTokens, Quote.parens, Token.count]
    omega
  | slice element =>
    have helement := element.depth_le
    rw [PlainType.depth, PlainType.tokens]
    simp only [countTokens, Quote.brackets, Token.count]
    omega
  | array element length =>
    have helement := element.depth_le
    have hmark : countTokens (Quote.op ";") = 1 := rfl
    rw [PlainType.depth, PlainType.tokens]
    simp only [countTokens, Quote.brackets, Token.count, countTokens_append, hmark]
    omega

theorem PathPart.depth_lt (part : PathPart) : part.depth < countTokens part.tokens := by
  cases part with
  | bare name => exact Nat.zero_lt_one
  | generic name lifetimes types trailing =>
    have htypes := typesDepth_le types fun _ h =>
      countTokens_le_separated (Quote.op ",") trailing
        (List.mem_append_right (lifetimes.map LifetimeName.tokens) h)
    have hname : countTokens [name.token] = 1 := rfl
    rw [PathPart.depth, PathPart.tokens]
    simp only [countTokens_append, hname]
    omega

theorem partsDepth_lt (parts : List PathPart) {n : Nat} (hn : 0 < n)
    (h : ∀ row ∈ pathRows parts, countTokens row ≤ n) : partsDepth parts < n := by
  cases parts with
  | nil => exact hn
  | cons part parts =>
    obtain ⟨hpart, hparts⟩ := List.forall_mem_cons.mp h
    have hfirst := Nat.lt_of_lt_of_le part.depth_lt hpart
    exact Nat.max_lt.mpr ⟨hfirst, partsDepth_lt parts hn hparts⟩

theorem typesDepth_le (types : List PlainType) {n : Nat}
    (h : ∀ row ∈ typeRows types, countTokens row ≤ n) : typesDepth types ≤ n := by
  cases types with
  | nil => exact Nat.zero_le n
  | cons type types =>
    obtain ⟨htype, htypes⟩ := List.forall_mem_cons.mp h
    have hfirst := Nat.le_trans type.depth_le htype
    exact Nat.max_le.mpr ⟨hfirst, typesDepth_le types htypes⟩
end

end Observable
