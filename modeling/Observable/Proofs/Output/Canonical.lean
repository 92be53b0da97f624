import Observable.Output.Canonical
import Observable.Proofs.Layout.Places
/-! How a unit gets its canonical text: it is read, laid out and read again. -/
namespace Observable

namespace Output

/-- Nothing but a syntax error keeps a unit from having a canonical text. -/
theorem canonical_live (key text : String) :
    canonical key text false = (do
      let file ← readUnit key text
      let _ ← readUnit key (layout file)
      return layout file) := by
  unfold canonical canonicalUnless
  cases hread : readUnit key text with
  | error e => rfl
  | ok file =>
    cases hagain : readUnit key (layout file) with
    | error e => simp [hagain, bind, Except.bind]
    | ok again => simp [hagain, bind, Except.bind]; rfl

theorem readUnit_of_ok {text : String} {file : Grammar.File}
    (h : Grammar.readSource text.toList = .ok file) (key : String) :
    readUnit key text = .ok file := by
  rw [readUnit, h]
  rfl

theorem readUnit_of_error {text : String} {s : Grammar.SyntaxError}
    (h : Grammar.readSource text.toList = .error s) (key : String) :
    readUnit key text = .error (.syntaxError key s) := by
  rw [readUnit, h]
  rfl

theorem readUnit_error {key text : String} {e : CanonicalError}
    (h : readUnit key text = .error e) : ∃ s, e = .syntaxError key s := by
  cases hread : Grammar.readSource text.toList with
  | error s =>
    rw [readUnit_of_error hread] at h
    exact ⟨s, (Except.error.inj h).symm⟩
  | ok file =>
    rw [readUnit_of_ok hread] at h
    cases h

theorem canonical_live_error {key text : String} {e : CanonicalError}
    (h : canonical key text false = .error e) : ∃ s, e = .syntaxError key s := by
  rw [canonical_live] at h
  cases hread : readUnit key text with
  | error d =>
    rw [hread] at h
    obtain rfl : d = e := by simpa [bind, Except.bind] using h
    exact readUnit_error hread
  | ok file =>
    cases hagain : readUnit key (layout file) with
    | error d =>
      obtain rfl : d = e := by simpa [hread, hagain, bind, Except.bind] using h
      exact readUnit_error hagain
    | ok again => simp [hread, hagain, bind, Except.bind, pure, Except.pure] at h

theorem canonical_cancelled (key text : String) :
    canonical key text true = .error .cancelled := rfl

theorem readUnit_eq_ok {key text : String} {file : Grammar.File} :
    readUnit key text = .ok file ↔ Grammar.readSource text.toList = .ok file := by
  constructor
  · intro h
    cases hread : Grammar.readSource text.toList with
    | error s =>
      rw [readUnit_of_error hread] at h
      cases h
    | ok file' => rw [Except.ok.inj ((readUnit_of_ok hread key).symm.trans h)]
  · exact fun h => readUnit_of_ok h key

/-- A unit has a canonical text exactly when its layout can be read. -/
theorem canonical_eq_ok {key raw text : String} {file : Grammar.File}
    (h : readUnit key raw = .ok file) :
    canonical key raw false = .ok text ↔
      text = layout file ∧ ∃ again, readUnit key (layout file) = .ok again := by
  rw [canonical_live, h]
  cases hagain : readUnit key (layout file) with
  | error e => simp [hagain, bind, Except.bind]
  | ok again => simp [hagain, bind, Except.bind, pure, Except.pure, eq_comm]

/-- A text that is read, and whose layout is read as the same tokens, but for their places and for
spacing that does not matter, has this layout as its canonical text, and so has the layout. -/
theorem canonical_of_settled {key raw : String} {file again : Grammar.File}
    (h : readUnit key raw = .ok file) (hagain : readUnit key (layout file) = .ok again)
    (hsame : settledTokens again.tokens = settledTokens file.tokens) :
    canonical key raw false = .ok (layout file) ∧
      canonical key (layout file) false = .ok (layout file) := by
  have hlayout : layout again = layout file := Layout.renderFile_of_settled hsame
  refine ⟨(canonical_eq_ok h).mpr ⟨rfl, again, hagain⟩,
    (canonical_eq_ok hagain).mpr ⟨hlayout.symm, again, ?_⟩⟩
  rw [hlayout]
  exact hagain

end Output

end Observable
