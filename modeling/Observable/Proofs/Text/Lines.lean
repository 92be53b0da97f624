import Observable.Text.Position
/-! Places in a text: what stands at them, and which of them comes first. -/
namespace Observable

namespace Text

/-- What stands in a text from a place up to the end of the line; lines end at line feeds. -/
def lineFrom (text : List Char) : Position → Option (List Char)
  | ⟨line + 1, column + 1⟩ => (text.splitOn '\n')[line]?.map (·.drop column)
  | _ => none

theorem getElem?_zero_splitOn (text : List Char) :
    (text.splitOn '\n')[0]? = some (text.takeWhile (· ≠ '\n')) := by
  induction text with
  | nil => rfl
  | cons c text ih =>
    rw [List.splitOn, List.splitOnP_cons_eq_if_modifyHead]
    by_cases hc : c = '\n'
    · simp [hc]
    · obtain ⟨first, rest, hsplit⟩ := List.exists_cons_of_ne_nil
        (List.splitOnP_ne_nil (· == '\n') text)
      rw [List.splitOn, hsplit] at ih
      simp only [List.getElem?_cons_zero, Option.some.injEq] at ih
      simp [hc, hsplit, ih]

/-- On a line on which some characters were read, a place and what stands there. -/
theorem exists_lineFrom {before : List Char} (hbefore : '\n' ∉ before) (line : Nat)
    (front rest : List Char) :
    ∃ more column, (⟨line, before.length + 1⟩ : Position).after front = ⟨line + more, column + 1⟩ ∧
      ((before ++ (front ++ rest)).splitOn '\n')[more]?.map (·.drop column)
        = some (rest.takeWhile (· ≠ '\n')) := by
  induction front generalizing before line with
  | nil =>
    refine ⟨0, before.length, rfl, ?_⟩
    have hplain : ∀ c ∈ before, decide (c ≠ '\n') = true := fun c hc =>
      decide_eq_true fun heq => hbefore (heq ▸ hc)
    rw [getElem?_zero_splitOn, List.nil_append, List.takeWhile_append_of_pos hplain]
    simp
  | cons c front ih =>
    by_cases hc : c = '\n'
    · subst hc
      obtain ⟨more, column, hplace, hline⟩ :=
        ih (List.not_mem_nil : '\n' ∉ ([] : List Char)) (line + 1)
      have hsplit : (before ++ ('\n' :: front ++ rest)).splitOn '\n'
          = before :: (front ++ rest).splitOn '\n' := by
        have hone : before.splitOn '\n' = [before] := List.splitOnP_eq_singleton fun c hc => by
          rw [beq_eq_false_iff_ne]
          rintro rfl
          exact hbefore hc
        have happend : (before ++ '\n' :: (front ++ rest)).splitOn '\n'
            = before.splitOn '\n' ++ (front ++ rest).splitOn '\n' :=
          List.splitOnP_append_cons before (front ++ rest) (by simp)
        rw [List.cons_append, happend, hone]
        rfl
      refine ⟨more + 1, column, ?_, ?_⟩
      · rw [show line + (more + 1) = line + 1 + more by omega]
        exact hplace
      · rw [hsplit, List.getElem?_cons_succ]
        exact hline
    · have hmem : '\n' ∉ before ++ [c] := by
        simpa [hbefore] using Ne.symm hc
      obtain ⟨more, column, hplace, hline⟩ := ih hmem line
      refine ⟨more, column, ?_, ?_⟩
      · rw [← hplace, List.length_append]
        simp [Position.after, Position.step, hc]
      · simpa using hline

/-- At the place after some part of a text stands what comes next. -/
theorem lineFrom_after (front rest : List Char) :
    lineFrom (front ++ rest) (Position.start.after front) = some (rest.takeWhile (· ≠ '\n')) := by
  obtain ⟨more, column, hplace, hline⟩ :=
    exists_lineFrom (List.not_mem_nil : '\n' ∉ ([] : List Char)) 1 front rest
  have hstart : Position.start.after front = ⟨more + 1, column + 1⟩ := by
    rw [Nat.add_comm]
    exact hplace
  rw [hstart]
  exact hline

end Text

namespace Position

/-- A place comes before another one in a text. -/
def Before (p q : Position) : Prop := p.line < q.line ∨ p.line = q.line ∧ p.column < q.column

instance (p q : Position) : Decidable (p.Before q) := inferInstanceAs (Decidable (_ ∨ _))

theorem Before.trans {p q r : Position} (h : p.Before q) (h' : q.Before r) : p.Before r := by
  unfold Before at *
  omega

theorem Before.irrefl (p : Position) : ¬ p.Before p := by
  unfold Before
  omega

theorem before_step (p : Position) (c : Char) : p.Before (p.step c) := by
  unfold step Before
  split <;> simp

/-- A place is behind every place from which something was read up to it. -/
theorem before_after (p : Position) {text : List Char} (h : text ≠ []) :
    p.Before (p.after text) := by
  induction text generalizing p with
  | nil => exact absurd rfl h
  | cons c text ih =>
    by_cases hnil : text = []
    · subst hnil
      exact p.before_step c
    · exact (p.before_step c).trans (ih (p.step c) hnil)

end Position

end Observable
