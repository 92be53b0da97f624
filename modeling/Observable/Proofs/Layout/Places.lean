import Observable.Layout.Printer
import Observable.Proofs.Token.Settled
/-! A layout depends on how tokens are spelled and on the spacing that matters, and not on where
they stand. -/
namespace Observable

theorem unplacedTokens_append (ts us : List Token) :
    unplacedTokens (ts ++ us) = unplacedTokens ts ++ unplacedTokens us := by
  induction ts with
  | nil => rfl
  | cons t ts ih => rw [List.cons_append, unplacedTokens, unplacedTokens, ih, List.cons_append]

mutual
theorem Token.unplaced_unplaced (t : Token) : t.unplaced.unplaced = t.unplaced := by
  cases t with
  | group d body p q => simp only [Token.unplaced, unplacedTokens_unplacedTokens body]
  | _ => rfl

theorem unplacedTokens_unplacedTokens (ts : List Token) :
    unplacedTokens (unplacedTokens ts) = unplacedTokens ts := by
  cases ts with
  | nil => rfl
  | cons t ts =>
    simp only [unplacedTokens, Token.unplaced_unplaced t, unplacedTokens_unplacedTokens ts]
end

mutual
/-- Two tokens are spelled alike exactly when they differ in nothing but their places. -/
theorem Token.sameAs_iff (t u : Token) : t.sameAs u = true ↔ t.unplaced = u.unplaced := by
  cases t with
  | ident raw name p => cases u <;> simp [Token.sameAs, Token.unplaced]
  | punct c s p => cases u <;> simp [Token.sameAs, Token.unplaced]
  | literal text p => cases u <;> simp [Token.sameAs, Token.unplaced]
  | group d body p q =>
    cases u with
    | group d' body' p' q' => simp [Token.sameAs, Token.unplaced, sameTokens_iff body body']
    | _ => simp [Token.sameAs, Token.unplaced]

/-- Two rows of tokens are spelled alike exactly when they differ in nothing but their places. -/
theorem sameTokens_iff (ts us : List Token) :
    sameTokens ts us = true ↔ unplacedTokens ts = unplacedTokens us := by
  cases ts with
  | nil => cases us <;> simp [sameTokens, unplacedTokens]
  | cons t ts =>
    cases us with
    | nil => simp [sameTokens, unplacedTokens]
    | cons u us =>
      simp [sameTokens, unplacedTokens, Token.sameAs_iff t u, sameTokens_iff ts us]
end

namespace Layout

theorem joins_of_beginsOperator {chars : List Char} {c d : Char}
    (h : beginsOperator (chars ++ [c, d]) = true) : joins c d = true := by
  obtain ⟨o, ho, hprefix⟩ := List.any_eq_true.mp h
  obtain ⟨rest, hrest⟩ := List.isPrefixOf_iff_prefix.mp hprefix
  refine List.any_eq_true.mpr ⟨o, ho, ?_⟩
  rw [← hrest, List.contains_iff_mem]
  clear hrest hprefix h
  induction chars with
  | nil => simp
  | cons e chars ih =>
    cases chars with
    | nil => simp
    | cons f chars => exact List.mem_cons_of_mem _ ih

/-- An operator does not go on where it is not joined. -/
theorem gather_of_loose {chars : List Char} {c : Char} {ts : List Token}
    (h : bindsTo c ts.head? = false) : gather (chars ++ [c]) ts = chars ++ [c] := by
  rcases ts with _ | ⟨_ | ⟨d, s, p⟩ | _ | _, ts⟩
  case cons.punct =>
    have hbegins : beginsOperator (chars ++ [c] ++ [d]) = false := by
      refine Bool.eq_false_iff.mpr fun hbegins => ?_
      rw [List.append_assoc, List.singleton_append] at hbegins
      simp [bindsTo, Token.joinsAfter, joins_of_beginsOperator hbegins] at h
    have hne : (chars ++ [c]).isEmpty = false := by cases chars <;> rfl
    simp only [gather, hne, hbegins]
    rfl
  all_goals rfl

theorem gather_settled (chars : List Char) (ts : List Token) :
    gather chars (settledTokens ts) = gather chars ts := by
  induction ts generalizing chars with
  | nil => rfl
  | cons t ts ih =>
    cases t with
    | punct c s p =>
      simp only [settledTokens, Token.settled, gather, ih]
      cases hbinds : bindsTo c ts.head? with
      | true => rfl
      | false => simp [gather_of_loose hbinds]
    | _ => rfl

theorem operatorAt_settled (p : Printer) (frame : Frame) (ts : List Token) :
    operatorAt p frame (settledTokens ts) = operatorAt p frame ts := by
  rw [operatorAt, operatorAt, gather_settled]

theorem attributeAt_settled (ts : List Token) :
    attributeAt (settledTokens ts)
      = (attributeAt ts).map fun (inner, body) => (inner, settledTokens body) := by
  rcases ts with _ | ⟨_ | ⟨c, s, p⟩ | _ | _, _ | ⟨u, us⟩⟩
  case cons.punct.cons =>
    cases u with
    | group d body q r =>
      cases d <;> by_cases hc : c = '#' <;>
        simp [settledTokens, Token.settled, attributeAt, hc]
    | punct d s' q =>
      rcases us with _ | ⟨_ | _ | _ | ⟨e, body, r, r'⟩, us⟩
      case cons.group =>
        cases e <;> by_cases hc : c = '#' ∧ d = '!' <;>
          simp [settledTokens, Token.settled, attributeAt, hc]
      all_goals rfl
    | _ => rfl
  all_goals rfl

theorem docLine_settled (inner : Bool) (body : List Token) :
    docLine inner (settledTokens body) = docLine inner body := by
  rcases body with _ | ⟨⟨_ | _, name, p⟩ | _ | _ | _, rest⟩
  case cons.ident.false =>
    rcases rest with _ | ⟨_ | ⟨c, s, q⟩ | _ | _, _ | ⟨_ | _ | _ | _, _ | _⟩⟩
    all_goals rfl
  all_goals rfl

theorem startAttribute_settled (p : Printer) (frame : Frame) (inner : Bool) (body : List Token) :
    p.startAttribute frame inner (settledTokens body) = p.startAttribute frame inner body := by
  rw [Printer.startAttribute, Printer.startAttribute, docLine_settled]

theorem afterBlock_settled (p : Printer) (frame : Frame) (ts : List Token) :
    p.afterBlock frame (settledTokens ts).head? = p.afterBlock frame ts.head? := by
  rcases ts with _ | ⟨_ | _ | _ | _, ts⟩ <;> rfl

theorem braceStyle_settled (p : Printer) (frame : Frame) (body : List Token) :
    braceStyle p frame (settledTokens body) = braceStyle p frame body := by
  cases body <;> rfl

mutual
/-- Neither its place nor a spacing that does not matter shows in what is written for a token. -/
theorem writeToken_settled (p : Printer) (frame : Frame) (plan : Plan) (rest : List Token)
    (t : Token) :
    writeToken p frame plan (settledTokens rest) (t.settled rest.head?)
      = writeToken p frame plan rest t := by
  cases t with
  | ident raw name place => rfl
  | literal text place => rfl
  | punct c s place =>
    have hattribute := attributeAt_settled (.punct c s place :: rest)
    have hoperator := operatorAt_settled p frame (.punct c s place :: rest)
    simp only [settledTokens, Token.settled] at hattribute hoperator
    simp only [Token.settled, writeToken, hattribute, hoperator]
    cases attributeAt (.punct c s place :: rest) with
    | none => rfl
    | some found => simp only [Option.map_some, startAttribute_settled]
  | group d body place close =>
    simp only [Token.settled, writeToken, writeTokens_settled _ _ _ body, afterBlock_settled,
      braceStyle_settled]

theorem writeTokens_settled (p : Printer) (frame : Frame) (plan : Plan) (ts : List Token) :
    writeTokens p frame plan (settledTokens ts) = writeTokens p frame plan ts := by
  cases ts with
  | nil => rfl
  | cons t rest =>
    simp only [settledTokens, writeTokens, writeToken_settled p frame plan rest t,
      fun p frame plan => writeTokens_settled p frame plan rest]
end

/-- Tokens that differ only in their places and in spacing that does not matter have one layout. -/
theorem renderFile_of_settled {ts us : List Token} (h : settledTokens ts = settledTokens us) :
    renderFile ts = renderFile us := by
  have hatoms : fileAtoms ts = fileAtoms us := by
    rw [fileAtoms, fileAtoms, ← writeTokens_settled, h, writeTokens_settled]
  rw [renderFile, renderFile, hatoms]

/-- Rows of tokens that are spelled alike have one layout. -/
theorem renderFile_congr {ts us : List Token} (h : sameTokens ts us = true) :
    renderFile ts = renderFile us := by
  refine renderFile_of_settled ?_
  rw [← settledTokens_unplaced, (sameTokens_iff ts us).mp h, settledTokens_unplaced]

end Layout

end Observable
