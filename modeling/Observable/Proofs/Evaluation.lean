import Observable.Token.Basic
/-! Facts that are settled by evaluation. -/
namespace Observable

/-- A fact about each member of a list, by evaluation. -/
theorem forall_mem_of_all {α : Type} {p : α → Prop} [DecidablePred p] {l : List α}
    (h : l.all (fun a => decide (p a)) = true) : ∀ a ∈ l, p a := fun a ha =>
  of_decide_eq_true (List.all_eq_true.mp h a ha)

/-- A result that passes a test, by evaluation. -/
theorem exists_of_any {ε α : Type} {result : Except ε α} {test : α → Bool}
    (h : result.toOption.any test = true) : ∃ a, result = .ok a ∧ test a = true := by
  cases result with
  | error e => cases h
  | ok a => exact ⟨a, rfl, h⟩

instance decidableEqExcept {ε α : Type} [DecidableEq ε] [DecidableEq α] :
    DecidableEq (Except ε α)
  | .ok a, .ok b => decidable_of_iff (a = b) ⟨congrArg _, Except.ok.inj⟩
  | .error a, .error b => decidable_of_iff (a = b) ⟨congrArg _, Except.error.inj⟩
  | .ok _, .error _ => isFalse (by simp)
  | .error _, .ok _ => isFalse (by simp)

mutual
def Token.decEq : (t u : Token) → Decidable (t = u)
  | .ident raw name p, u =>
    match u with
    | .ident raw' name' p' => decidable_of_iff (raw = raw' ∧ name = name' ∧ p = p') (by simp)
    | .punct .. | .literal .. | .group .. => isFalse nofun
  | .punct c s p, u =>
    match u with
    | .punct c' s' p' => decidable_of_iff (c = c' ∧ s = s' ∧ p = p') (by simp)
    | .ident .. | .literal .. | .group .. => isFalse nofun
  | .literal text p, u =>
    match u with
    | .literal text' p' => decidable_of_iff (text = text' ∧ p = p') (by simp)
    | .ident .. | .punct .. | .group .. => isFalse nofun
  | .group d body p q, u =>
    match u with
    | .group d' body' p' q' =>
      have := decEqTokens body body'
      decidable_of_iff (d = d' ∧ body = body' ∧ p = p' ∧ q = q') (by simp)
    | .ident .. | .punct .. | .literal .. => isFalse nofun

def decEqTokens : (ts us : List Token) → Decidable (ts = us)
  | [], [] => isTrue rfl
  | [], _ :: _ | _ :: _, [] => isFalse nofun
  | t :: ts, u :: us =>
    have := t.decEq u
    have := decEqTokens ts us
    decidable_of_iff (t = u ∧ ts = us) (by simp)
end

instance : DecidableEq Token := Token.decEq

end Observable
