import Observable.Grammar.Source
import Observable.Proofs.Grammar.Blurred.Expression
/-! The readers of items do not see places, nor the spacing that no operator needs; and so a whole
text without these is read as the text itself, without these. -/
namespace Observable.Grammar

open Blurs

variable {b : Blur} {rules : Rules}

instance : Blurs Argument where
  blur b
    | .receiver tree self => .receiver (blur b tree) (blur b self)
    | .typed tree => .typed (blur b tree)
    | .variadic tree => .variadic (blur b tree)

instance : Blurs Alias where
  blur b a :=
    { front := blur b a.front, colon := blur b a.colon, bounds := blur b a.bounds
      early := blur b a.early, definition := blur b a.definition, late := blur b a.late
      semicolon := blur b a.semicolon }

instance : Blurs File := ⟨fun b f => { attributes := blur b f.attributes, items := blur b f.items }⟩

namespace Follows

@[simp] theorem blur_receiver (tree : Tree) (self : Position) :
    blur b (Argument.receiver tree self) = .receiver (blur b tree) (blur b self) := rfl

@[simp] theorem blur_typed (tree : Tree) :
    blur b (Argument.typed tree) = .typed (blur b tree) := rfl

@[simp] theorem blur_variadic (tree : Tree) :
    blur b (Argument.variadic tree) = .variadic (blur b tree) := rfl

theorem blur_alias (a : Alias) :
    blur b a =
      { front := blur b a.front, colon := blur b a.colon, bounds := blur b a.bounds
        early := blur b a.early, definition := blur b a.definition, late := blur b a.late
        semicolon := blur b a.semicolon } := rfl

theorem lastArgument (front : List Tree) :
    Follows b (Grammar.lastArgument front) (Grammar.lastArgument (blur b front)) :=
  bind (op rfl) fun _ => choice (fun _ _ => Look.atEnd_blur) (pure rfl) (op rfl) fun _ =>
    pure (by simp)

theorem selfPlace_blur (tree : Tree) : selfPlace (blur b tree) = blur b (selfPlace tree) := by
  rw [selfPlace, selfPlace, Tree.tokens_blur]
  induction tree.tokens with
  | nil => simp
  | cons t ts ih =>
    rcases t with ⟨_ | _, name, p⟩ | _ | _ | _
    case ident.false =>
      by_cases hself : name = "self"
      · subst hself
        rfl
      · simpa [List.find?_cons, hself] using ih
    all_goals simpa [List.find?_cons, blur_punct] using ih

section

variable (h : rules.Follows b)

include h

theorem receiver : Follows b (Grammar.receiver rules) (Grammar.receiver rules) := by
  refine clause (fun _ hs => Look.op_blur hs rfl) (op rfl)
    (optionally (fun _ hs => Look.lifetime_blur hs) lifetime) fun reference => ?_
  refine bind (word? _) fun mut_ => bind (word _) fun self => ?_
  refine clause (fun ts hs => ?_) (op rfl) (h.type _) fun type => pure (by simp)
  rw [isEmpty_blur, Look.op_blur hs rfl]

theorem argument : Follows b (Grammar.argument rules) (Grammar.argument rules) := by
  refine bind (outerAttributes h) fun attributes => ?_
  refine branch (fun _ hs => Look.op_blur hs rfl) (lastArgument _) ?_
  refine bind (attempt (receiver h)) fun found => ?_
  cases found with
  | some tree => exact pure (by simp [selfPlace_blur])
  | none =>
    refine branch (fun ts hs => ?_) ?_ ?_
    · rw [Look.ident_blur, second hs fun _ hs => Look.op_blur hs rfl]
    · exact bind nextPlace fun place => bind (h.type _) fun type => pure (by simp)
    · refine bind h.pattern fun pattern => bind (op rfl) fun colon => ?_
      refine branch (fun _ hs => Look.op_blur hs rfl) ?_ (bind (h.type _) fun _ => pure (by simp))
      simpa using lastArgument (attributes ++ [pattern, colon])

theorem functionInputs :
    Follows b (Grammar.functionInputs rules) (Grammar.functionInputs rules) := by
  refine bind (iterate (fun found => ?_) rfl) fun found => pure (by simp)
  refine branch (fun _ _ => Look.atEnd_blur) (pure (by simp)) (bind (argument h) fun input => ?_)
  have hnext (tree : Tree) (received : Bool) :
      Follows b (Grammar.functionInputs.next found.1 tree received)
        (Grammar.functionInputs.next (blur b found.1) (blur b tree) received) :=
    branch (fun _ _ => Look.atEnd_blur) (pure (by simp)) (bind (op rfl) fun _ => pure (by simp))
  cases input with
  | variadic tree => exact pure (by simp)
  | receiver tree self =>
    refine ite (refuseAt _ _ _) ?_
    rw [isEmpty_blur]
    exact ite (refuseAt _ _ _) (hnext _ _)
  | typed tree => exact hnext _ _

end

theorem blur_dropWord (name : String) (ts : List Token) :
    dropWord name (blur b ts) = blur b (dropWord name ts) := by
  rw [dropWord, dropWord, Look.word_blur]
  split
  · rw [blur_drop]
  · rfl

theorem blur_dropConvention (ts : List Token) :
    dropConvention (blur b ts) = blur b (dropConvention ts) := by
  simp only [dropConvention, Look.word_blur, ← blur_drop, Look.string_blur]
  split
  · split <;> rfl
  · rfl

theorem signatureAhead_blur (safe : Bool) (ts : List Token) :
    signatureAhead safe (blur b ts) = signatureAhead safe ts := by
  simp only [signatureAhead, blur_dropWord, Look.word_blur]
  split
  · rw [← blur_drop, blur_dropConvention, Look.word_blur]
  · rw [blur_dropConvention, Look.word_blur]

section

variable (h : rules.Follows b)

include h

theorem signatureWith (safe : Bool) :
    Follows b (Grammar.signatureWith rules safe) (Grammar.signatureWith rules safe) := by
  refine bind (word? _) fun const => bind (word? _) fun async => bind (word? _) fun unsafe_ => ?_
  refine bind (looking fun ts _ => ?_) fun marked => joined anyWord (pure rfl) fun mark => ?_
  · rw [Tree.isPresent_blur, Look.word_blur]
  · exact bind convention fun _ => bind (word _) fun _ => bind ident fun _ =>
      bind (generics h) fun _ => bind (parens (functionInputs h)) fun _ =>
      bind (returnType h _) fun _ => bind (whereClause h) fun _ => pure (by simp)

theorem signature : Follows b (Grammar.signature rules) (Grammar.signature rules) :=
  bind (signatureWith h _) fun _ => pure rfl

end

theorem anonymousFieldsAhead_blur {ts : List Token} (hs : b.Spares ts) :
    anonymousFieldsAhead (blur b ts) = anonymousFieldsAhead ts := by
  rw [anonymousFieldsAhead, Look.word_blur, Look.word_blur, second hs fun _ _ => Look.brace_blur,
    anonymousFieldsAhead]

section

variable (h : rules.Follows b)

include h

theorem fieldType (anonymous : Bool) :
    Follows b (Grammar.fieldType rules anonymous) (Grammar.fieldType rules anonymous) := by
  refine branch (fun ts hs => ?_) ?_ (h.type _)
  · rw [anonymousFieldsAhead_blur hs]
  · refine bind (withSource (bind anyWord fun _ =>
      braces (terminated rfl h.namedField))) fun _ => ?_
    exact pure (by simp [sourceType, plainType])

theorem namedField : Follows b (Grammar.namedField rules) (Grammar.namedField rules) :=
  bind (outerAttributes h) fun _ => bind visibility fun _ =>
    bind (looking fun _ _ => Look.word_blur _) fun _ => joined anyWord ident fun _ =>
    bind (op rfl) fun _ => bind (fieldType h _) fun _ => pure (by simp)

theorem tupleField : Follows b (Grammar.tupleField rules) (Grammar.tupleField rules) :=
  bind (outerAttributes h) fun _ => bind visibility fun _ => bind (h.type _) fun _ =>
    pure (by simp)

theorem namedFields : Follows b (Grammar.namedFields rules) (Grammar.namedFields rules) :=
  bind (braces (terminated rfl (namedField h))) fun _ => pure (by simp)

theorem tupleFields : Follows b (Grammar.tupleFields rules) (Grammar.tupleFields rules) :=
  bind (parens (terminated rfl (tupleField h))) fun _ => pure (by simp)

theorem variant : Follows b (Grammar.variant rules) (Grammar.variant rules) := by
  refine bind (outerAttributes h) fun attributes => bind visibility fun _ =>
    bind ident fun name => ?_
  refine bind (looking fun _ _ => Look.brace_blur) fun _ =>
    bind (looking fun _ _ => Look.paren_blur)
    fun _ => ite (bind (namedFields h) fun _ => ?_)
      (joined (tupleFields h) (pure (by simp)) fun _ => ?_)
  all_goals
    exact clause (fun _ hs => Look.op_blur hs rfl) (op rfl) (h.expression _) fun _ => pure (by simp)

theorem structBody : Follows b (Grammar.structBody rules) (Grammar.structBody rules) := by
  refine branch (fun _ _ => Look.word_blur _) (bind (whereClause h) fun _ => ?_) ?_
  · refine branch (fun _ _ => Look.brace_blur) (bind (namedFields h) fun _ => pure (by simp)) ?_
    refine branch (fun _ hs => Look.op_blur hs rfl) ?_ (expecting _)
    exact bind (op rfl) fun _ => pure (by simp)
  refine branch (fun _ _ => Look.paren_blur) (bind (tupleFields h) fun _ => ?_) ?_
  · refine branch (fun _ _ => Look.word_blur _) (bind (whereClause h) fun _ => ?_) ?_
    all_goals
      refine branch (fun _ hs => Look.op_blur hs rfl) ?_ (expecting _)
      exact bind (op rfl) fun _ => pure (by simp)
  refine branch (fun _ _ => Look.brace_blur) (bind (namedFields h) fun _ => pure (by simp)) ?_
  refine branch (fun _ hs => Look.op_blur hs rfl) ?_ (expecting _)
  exact bind (op rfl) fun _ => pure (by simp)

theorem structItem (vis : Tree) :
    Follows b (Grammar.structItem rules vis) (Grammar.structItem rules (blur b vis)) :=
  bind (word _) fun _ => bind ident fun _ => bind (generics h) fun _ =>
    bind (structBody h) fun _ => pure (by simp)

theorem enumItem (vis : Tree) :
    Follows b (Grammar.enumItem rules vis) (Grammar.enumItem rules (blur b vis)) :=
  bind (word _) fun _ => bind ident fun _ => bind (generics h) fun _ =>
    bind (whereClause h) fun _ => bind (braces (terminated rfl (variant h))) fun _ =>
    pure (by simp)

theorem unionItem (vis : Tree) :
    Follows b (Grammar.unionItem rules vis) (Grammar.unionItem rules (blur b vis)) :=
  bind (word _) fun _ => bind ident fun _ => bind (generics h) fun _ =>
    bind (whereClause h) fun _ => bind (namedFields h) fun _ => pure (by simp)

end

@[simp] theorem blur_sourceItem (source : List Token) :
    blur b (sourceItem source) = sourceItem (blur b source) := by
  simp [sourceItem]

@[simp] theorem blur_memberOf (parts : List Tree) :
    blur b (memberOf parts) = memberOf (blur b parts) :=
  Tree.blur_node _ _

theorem orSource {p q : Parser (Option Tree)} (h : Follows b p q) :
    Follows b (Grammar.orSource p) (Grammar.orSource q) := by
  refine bind (withSource h) fun found => pure ?_
  obtain ⟨_ | tree, source⟩ := found <;> simp

theorem macroMember : Follows b Grammar.macroMember Grammar.macroMember := by
  refine bind plainPath fun _ => bind (op rfl) fun _ => bind anyGroup fun body => ?_
  rw [endsInBraces_blur]
  exact joined (pure rfl) (op rfl) fun _ => pure (by simp)

theorem macroPathAhead_blur {ts : List Token} (hs : b.Spares ts) :
    macroPathAhead (blur b ts) = macroPathAhead ts := by
  rw [macroPathAhead, Look.ident_blur, Look.anyOf_blur, Look.op_blur hs rfl, macroPathAhead]

section

variable (h : rules.Follows b)

include h

theorem typeAlias (vis : Tree) (defaultable : Bool) (where_ : ConditionsPlace) :
    Follows b (Grammar.typeAlias rules vis defaultable where_)
      (Grammar.typeAlias rules (blur b vis) defaultable where_) := by
  refine joined (word? _) (pure rfl) fun _ => bind (word _) fun _ => bind ident fun _ =>
    bind (generics h) fun _ => bind (op? rfl) fun colon => ?_
  have hstop (ts : List Token) (hs : b.Spares ts) :
      (Look.word "where" (blur b ts) || Look.op "=" (blur b ts) || Look.op ";" (blur b ts))
        = (Look.word "where" ts || Look.op "=" ts || Look.op ";" ts) := by
    simp (disch := decide) only [Look.word_blur, Look.op_blur hs]
  rw [Tree.isPresent_blur]
  refine ite (bind (listed hstop (fun ts hs => congrArg not (hstop ts hs)) (op rfl) (bound h _ _))
    fun bounds => given ?_) (given ?_)
  all_goals
    refine bind (looking fun ts _ => by rw [Look.word_blur]) fun early => ?_
    refine joined (whereClause h) (pure rfl) fun _ => ?_
    refine clause (fun _ hs => Look.op_blur hs rfl) (op rfl) (h.type _) fun _ => ?_
    exact joined (whereClause h) (pure rfl) fun _ => bind (op rfl) fun _ =>
      pure (by simp [blur_alias])

theorem constRest : Follows b (Grammar.constRest rules) (Grammar.constRest rules) := by
  refine bind (looking fun _ hs => Look.op_blur hs rfl) fun _ => bind (generics h) fun _ =>
    bind (op rfl) fun _ => bind (h.type _) fun _ => ?_
  refine clause (fun _ hs => Look.op_blur hs rfl) (op rfl) (h.expression _) fun _ => ?_
  exact bind (looking fun _ _ => Look.word_blur _) fun _ => bind (whereClause h) fun _ =>
    bind (op rfl) fun _ => pure (by simp)

theorem functionBody : Follows b (Grammar.functionBody rules) (Grammar.functionBody rules) :=
  bodyWithAttributes h

theorem traitFunction : Follows b (Grammar.traitFunction rules) (Grammar.traitFunction rules) := by
  refine bind (signature h) fun _ => ?_
  refine branch (fun _ _ => Look.brace_blur) (bind (functionBody h) fun _ => pure (by simp)) ?_
  refine branch (fun _ hs => Look.op_blur hs rfl) ?_ (expecting _)
  exact bind (op rfl) fun _ => pure (by simp)

theorem traitConst : Follows b (Grammar.traitConst rules) (Grammar.traitConst rules) := by
  refine branch (fun ts hs => second hs fun ts _ => ?_) ?_ ?_
  · rw [Look.ident_blur, Look.word_blur]
  · refine bind (word _) fun _ => bind anyWord fun _ => bind (constRest h) fun _ => ?_
    exact ite (pure rfl) (pure (by simp))
  refine branch (fun ts hs => second hs fun ts _ => Look.anyOf_blur _) ?_ ?_
  · exact bind (traitFunction h) fun _ => pure (by simp)
  · exact bind (word _) fun _ => expecting _

theorem traitType : Follows b (Grammar.traitType rules) (Grammar.traitType rules) :=
  bind (typeAlias h .absent _ _) fun a => pure (by simp [blur_alias])

theorem traitMember : Follows b (Grammar.traitMember rules) (Grammar.traitMember rules) := by
  refine orSource (bind (outerAttributes h) fun attributes => bind visibility fun vis =>
    bind (word? _) fun default => ?_)
  simp only [isInherited_blur, Tree.isPresent_blur]
  have hlast (parts : Option (List Tree)) :
      Follows b
        (Pure.pure (if vis.isInherited && !default.isPresent then
          parts.map fun parts => memberOf (attributes ++ parts) else none) : Parser _)
        (Pure.pure (if vis.isInherited && !default.isPresent then
          (blur b parts).map fun parts => memberOf (blur b attributes ++ parts) else none)) := by
    refine pure ?_
    split
    · cases parts <;> simp
    · rfl
  refine bind (looking fun ts _ => signatureAhead_blur _ ts) fun _ =>
    bind (looking fun _ _ => Look.word_blur _) fun _ =>
    bind (looking fun _ _ => Look.word_blur _) fun _ =>
    bind (looking fun ts hs => by rw [macroPathAhead_blur hs]) fun _ => ?_
  refine ite (bind (traitFunction h) fun found => given (hlast (some found))) ?_
  refine ite (bind (traitConst h) hlast) (ite (bind (traitType h) hlast) ?_)
  exact ite (bind macroMember fun found => given (hlast (some found))) (bind (expecting _) hlast)

end

/-- A reader that tells what it leaves. -/
def Leaves {α : Type} (left : α → List Token) (p : Parser α) : Prop :=
  ∀ s a s', p s = .ok (a, s') → left a = s'.rest

theorem leaves_bind {α β : Type} {left : α → List Token} {p : Parser β} {q : β → Parser α}
    (h : ∀ x, Leaves left (q x)) : Leaves left (p >>= q) := by
  intro s a s' hs
  change (p s).bind (fun r => q r.1 r.2) = _ at hs
  cases hp : p s with
  | error e =>
    rw [hp] at hs
    cases hs
  | ok r =>
    rw [hp] at hs
    exact h r.1 r.2 a s' hs

theorem leaves_ite {α : Type} {left : α → List Token} {c : Prop} [Decidable c] {p q : Parser α}
    (h : Leaves left p) (h' : Leaves left q) : Leaves left (if c then p else q) := by
  split
  · exact h
  · exact h'

theorem leaves_rest {α : Type} {left : α → List Token} {a : List Token → α}
    (h : ∀ ts, left (a ts) = ts) : Leaves left fun s => .ok (a s.rest, s) := by
  intro s x s' hs
  cases hs
  exact h s.rest

/-- What a reader leaves is known after going back to where it began. -/
theorem aheadLeaving {α β : Type} [Blurs α] [Blurs β] {p q : Parser α} {f g : α → Parser β}
    (left : α → List Token) (h : Follows b p q) (hleft : Leaves left p)
    (hf : ∀ a, b.Spares (left a) → Follows b (f a) (g (blur b a))) :
    Follows b (Grammar.ahead p >>= f) (Grammar.ahead q >>= g) := by
  intro s hs
  have hahead := ahead h s hs
  have hp := h s hs
  rw [show (Grammar.ahead p >>= f) s = (Grammar.ahead p s).bind fun r => f r.1 r.2 from rfl,
    show (Grammar.ahead q >>= g) (s.blurred b)
      = (Grammar.ahead q (s.blurred b)).bind fun r => g r.1 r.2 from rfl]
  cases hps : p s with
  | error e =>
    rw [Grammar.ahead, hps] at hahead ⊢
    obtain ⟨e', he'⟩ := hahead
    exact ⟨e', by rw [he']; rfl⟩
  | ok r =>
    rw [hps] at hp
    rw [Grammar.ahead, hps] at hahead ⊢
    rw [hahead.1]
    exact hf r.1 (hleft s r.1 r.2 hps ▸ hp.2) s hs

theorem defaultAhead_blur {ts : List Token} (hs : b.Spares ts) :
    defaultAhead (blur b ts) = defaultAhead ts := by
  rw [defaultAhead, Look.word_blur, second hs fun _ hs => Look.op_blur hs rfl, defaultAhead]

section

variable (h : rules.Follows b)

include h

theorem implFunction : Follows b (Grammar.implFunction rules) (Grammar.implFunction rules) := by
  refine bind visibility fun _ => bind (word? _) fun _ => bind (signature h) fun _ => ?_
  refine branch (fun _ hs => Look.op_blur hs rfl) (bind (op rfl) fun _ => pure rfl) ?_
  exact bind (functionBody h) fun _ => pure (by simp)

theorem implConst : Follows b (Grammar.implConst rules) (Grammar.implConst rules) := by
  refine bind visibility fun _ => bind (word? _) fun _ => bind (word _) fun _ => ?_
  refine branch (fun ts _ => nameAhead_blur ts) ?_ (expecting _)
  exact bind anyWord fun _ => bind (constRest h) fun _ => ite (pure rfl) (pure (by simp))

theorem implAlias : Follows b (Grammar.implAlias rules) (Grammar.implAlias rules) := by
  refine bind visibility fun vis => bind (typeAlias h vis _ _) fun a => ?_
  simp only [blur_alias, isEmpty_blur, Tree.isPresent_blur]
  exact ite (pure rfl) (pure (by simp))

theorem implMember : Follows b (Grammar.implMember rules) (Grammar.implMember rules) := by
  refine orSource (bind (outerAttributes h) fun attributes => ?_)
  have hlast (parts : Option (List Tree)) :
      Follows b
        (Pure.pure (parts.map fun parts => memberOf (attributes ++ parts)) : Parser _)
        (Pure.pure ((blur b parts).map fun parts => memberOf (blur b attributes ++ parts))) :=
    pure (by cases parts <;> simp)
  refine aheadLeaving (fun seen => seen.2.2) ?_ ?_ fun seen hseen => ?_
  · refine bind visibility fun vis =>
      bind (looking fun _ hs => defaultAhead_blur hs) fun marked => ?_
    refine ite (bind (pass 1) fun _ => ?_) ?_
    all_goals exact fun _ hs => ⟨rfl, hs⟩
  · refine leaves_bind fun vis => leaves_bind fun marked => leaves_ite (leaves_bind fun _ => ?_) ?_
    all_goals exact leaves_rest (a := fun rest => (vis, marked, rest)) fun _ => rfl
  · obtain ⟨vis, marked, rest⟩ := seen
    simp only [blur_pair, blur_bool, isInherited_blur, signatureAhead_blur, Look.word_blur,
      macroPathAhead_blur hseen]
    refine ite (bind (implFunction h) hlast) (ite (bind (implConst h) hlast) ?_)
    refine ite (bind (implAlias h) hlast)
      (ite (bind macroMember fun found => given (hlast (some found))) ?_)
    refine bind visibility fun _ => ite (bind (pass 1) fun _ => ?_) ?_
    all_goals exact bind (expecting _) hlast

theorem foreignFunction :
    Follows b (Grammar.foreignFunction rules) (Grammar.foreignFunction rules) := by
  refine bind visibility fun _ => bind (signatureWith h _) fun _ => ?_
  refine branch (fun _ _ => Look.brace_blur) (bind (functionBody h) fun _ => pure rfl) ?_
  refine bind (op rfl) fun _ => pure ?_
  simp only [blur_bool]
  split <;> simp

omit h in
theorem foreignStaticAhead_blur {ts : List Token} (hs : b.Spares ts) :
    foreignStaticAhead (blur b ts) = foreignStaticAhead ts := by
  rw [foreignStaticAhead, Look.word_blur, Look.anyOf_blur, second hs fun _ _ => Look.word_blur _,
    foreignStaticAhead]

theorem foreignStatic : Follows b (Grammar.foreignStatic rules) (Grammar.foreignStatic rules) := by
  refine bind visibility fun _ => bind (looking fun _ _ => Look.anyOf_blur _) fun marked => ?_
  refine ite (bind (pass 1) fun _ => ?_) ?_
  all_goals
    refine bind (word _) fun _ => bind (word? _) fun _ => bind ident fun _ => bind (op rfl) fun _ =>
      bind (h.type _) fun _ => bind (looking fun _ hs => Look.op_blur hs rfl) fun defined =>
      ite (bind (op rfl) fun _ => bind (h.expression _) fun _ => ?_) ?_
    all_goals
      refine bind (op rfl) fun _ => pure ?_
      simp only [blur_bool]
      split <;> simp

theorem foreignType : Follows b (Grammar.foreignType rules) (Grammar.foreignType rules) := by
  refine bind visibility fun vis => bind (typeAlias h vis _ _) fun a => ?_
  simp only [blur_alias, isEmpty_blur, Tree.isPresent_blur]
  exact ite (pure rfl) (pure (by simp))

theorem foreignMember : Follows b (Grammar.foreignMember rules) (Grammar.foreignMember rules) := by
  refine orSource (bind (outerAttributes h) fun attributes => ?_)
  have hlast (parts : Option (List Tree)) :
      Follows b
        (Pure.pure (parts.map fun parts => memberOf (attributes ++ parts)) : Parser _)
        (Pure.pure ((blur b parts).map fun parts => memberOf (blur b attributes ++ parts))) :=
    pure (by cases parts <;> simp)
  refine aheadLeaving (fun seen => seen.2) ?_ ?_ fun seen hseen => ?_
  · exact bind visibility fun vis => fun _ hs => ⟨rfl, hs⟩
  · exact leaves_bind fun vis => leaves_rest (a := fun rest => (vis, rest)) fun _ => rfl
  · obtain ⟨vis, rest⟩ := seen
    simp only [blur_pair, isInherited_blur, signatureAhead_blur, Look.word_blur,
      macroPathAhead_blur hseen, foreignStaticAhead_blur hseen]
    refine ite (bind (foreignFunction h) hlast) (ite (bind (foreignStatic h) hlast) ?_)
    refine ite (bind (foreignType h) hlast)
      (ite (bind macroMember fun found => given (hlast (some found))) ?_)
    exact bind visibility fun _ => bind (expecting _) hlast

theorem memberBody {item item' : Parser Tree} (hitem : Follows b item item') :
    Follows b (Grammar.memberBody rules item) (Grammar.memberBody rules item') :=
  braces (bind (innerAttributes h) fun _ => bind (allItems hitem) fun _ => pure (by simp))

end

@[simp] theorem blur_itemOf (form : ItemForm) (parts : List Tree) :
    blur b (itemOf form parts) = itemOf form (blur b parts) :=
  Tree.blur_node _ _

theorem externCrate (vis : Tree) :
    Follows b (Grammar.externCrate vis) (Grammar.externCrate (blur b vis)) := by
  refine bind (word _) fun _ => bind (word _) fun _ => bind (looking fun _ _ => Look.word_blur _)
    fun _ => joined anyWord ident fun _ => branch (fun _ _ => Look.word_blur _)
    (bind (word _) fun _ => bind (looking fun _ _ => Look.word_blur _) fun _ =>
      joined anyWord ident fun _ => ?_) ?_
  all_goals exact bind (op rfl) fun _ => pure (by simp)

section

variable (h : rules.Follows b)

include h

theorem functionItem (vis : Tree) :
    Follows b (Grammar.functionItem rules vis) (Grammar.functionItem rules (blur b vis)) := by
  refine bind (signature h) fun _ => ?_
  refine branch (fun _ hs => Look.op_blur hs rfl) (bind (op rfl) fun _ => pure rfl) ?_
  exact bind (functionBody h) fun _ => pure (by simp)

theorem foreignModule (vis : Tree) :
    Follows b (Grammar.foreignModule rules vis) (Grammar.foreignModule rules (blur b vis)) := by
  simp only [Grammar.foreignModule, Tree.tokens_blur]
  cases vis.tokens with
  | cons pub ts => exact fun _ _ => ⟨_, rfl⟩
  | nil =>
    exact bind (word? _) fun _ => bind (word _) fun _ =>
      bind (optionally (fun _ _ => Look.string_blur) string) fun _ =>
      bind (memberBody h (foreignMember h)) fun _ => pure (by simp)

theorem externItem (vis : Tree) :
    Follows b (Grammar.externItem rules vis) (Grammar.externItem rules (blur b vis)) := by
  refine bind (ahead (bind (word _) fun _ => fun _ hs => ⟨rfl, hs⟩)) fun next => ?_
  simp only [Look.word_blur, Look.brace_blur, Look.string_blur, ← blur_drop]
  refine ite (externCrate _) (ite (foreignModule h _) (ite ?_ ?_))
  · refine ite (foreignModule h _) ?_
    exact bind (word _) fun _ => bind string fun _ => expecting _
  · exact bind (word _) fun _ => expecting _

theorem useTree (rooted : Bool) :
    Follows b (Grammar.useTree rules rooted) (Grammar.useTree rules rooted) := by
  refine branch (fun ts _ => ?_) (bind anyWord fun name => ?_) ?_
  · rw [Look.ident_blur, Look.anyOf_blur]
  · refine branch (fun _ hs => Look.op_blur hs rfl) ?_ ?_
    · refine bind (op rfl) fun colons => bind (h.useTree _) fun tree => pure ?_
      cases tree <;> simp
    refine branch (fun _ _ => Look.word_blur _) ?_ (pure (by simp))
    refine bind (word _) fun _ => branch (fun ts _ => nameAhead_blur ts) ?_ (refuse _)
    exact bind anyWord fun _ => pure (by simp)
  refine branch (fun _ hs => Look.op_blur hs rfl) (bind (op rfl) fun _ => pure (by simp)) ?_
  refine branch (fun _ _ => Look.brace_blur) ?_ (expecting _)
  refine inside (iterate (fun found => ?_) rfl) fun found _ _ => pure ?_
  · refine branch (fun _ _ => Look.atEnd_blur) (pure (by simp)) ?_
    refine bind (looking fun ts hs => by rw [Look.op_blur hs rfl]) fun root => ?_
    refine ite (bind (pass 2) fun _ => ?_) ?_
    all_goals
      refine bind (h.useTree _) fun tree => bind (looking fun _ _ => Look.atEnd_blur) fun _ =>
        joined (pure rfl) (op rfl) fun comma => pure ?_
      rw [Tree.isPresent_blur]
      cases found <;> cases tree <;> simp
      try split <;> simp
  · cases found <;> simp

theorem useItem (vis : Tree) :
    Follows b (Grammar.useItem rules vis) (Grammar.useItem rules (blur b vis)) := by
  refine bind (word _) fun _ => bind (op? rfl) fun leading => ?_
  rw [Tree.isPresent_blur]
  refine bind (h.useTree _) fun tree => bind (op rfl) fun _ => pure ?_
  cases tree <;> simp

theorem staticItem (vis : Tree) :
    Follows b (Grammar.staticItem rules vis) (Grammar.staticItem rules (blur b vis)) := by
  refine bind (word _) fun _ => bind (word? _) fun _ => bind ident fun _ => ?_
  refine branch (fun _ hs => Look.op_blur hs rfl) ?_ ?_
  · exact bind (op rfl) fun _ => bind (h.expression _) fun _ => bind (op rfl) fun _ => pure rfl
  · refine bind (op rfl) fun _ => bind (h.type _) fun _ => ?_
    refine branch (fun _ hs => Look.op_blur hs rfl) (bind (op rfl) fun _ => pure rfl) ?_
    exact bind (op rfl) fun _ => bind (h.expression _) fun _ => bind (op rfl) fun _ =>
      pure (by simp)

theorem constItem (vis : Tree) :
    Follows b (Grammar.constItem rules vis) (Grammar.constItem rules (blur b vis)) := by
  refine bind (word _) fun _ => branch (fun ts _ => nameAhead_blur ts) ?_ (expecting _)
  exact bind anyWord fun _ => bind (constRest h) fun _ => ite (pure rfl) (pure (by simp))

theorem moduleItem (vis : Tree) :
    Follows b (Grammar.moduleItem rules vis) (Grammar.moduleItem rules (blur b vis)) := by
  refine bind (word? _) fun _ => bind (word _) fun _ => bind (looking fun _ _ => Look.word_blur _)
    fun _ => joined anyWord ident fun _ => ?_
  refine branch (fun _ hs => Look.op_blur hs rfl) (bind (op rfl) fun _ => pure (by simp)) ?_
  refine branch (fun _ _ => Look.brace_blur) ?_ (expecting _)
  exact bind (memberBody h h.item) fun _ => pure (by simp)

theorem aliasItem (vis : Tree) :
    Follows b (Grammar.aliasItem rules vis) (Grammar.aliasItem rules (blur b vis)) := by
  refine bind (typeAlias h vis _ _) fun a => ?_
  simp only [blur_alias, isEmpty_blur, Tree.isPresent_blur]
  exact ite (pure rfl) (pure (by simp))

theorem traitRest (front : List Tree) :
    Follows b (Grammar.traitRest rules front) (Grammar.traitRest rules (blur b front)) := by
  have hstop (ts : List Token) (_ : b.Spares ts) :
      (Look.word "where" (blur b ts) || Look.brace (blur b ts))
        = (Look.word "where" ts || Look.brace ts) := by
    rw [Look.word_blur, Look.brace_blur]
  refine bind (op? rfl) fun colon => ?_
  rw [Tree.isPresent_blur]
  refine ite (bind (listed hstop (fun ts hs => congrArg not (hstop ts hs)) (op rfl) (bound h _ _))
    fun _ => given ?_) (given ?_)
  all_goals
    exact bind (whereClause h) fun _ => bind (memberBody h (traitMember h)) fun _ => pure (by simp)

theorem markedTrait (vis : Tree) :
    Follows b (Grammar.markedTrait rules vis) (Grammar.markedTrait rules (blur b vis)) := by
  refine bind (word? _) fun unsafe_ => bind (word? _) fun auto => bind (word _) fun keyword =>
    bind ident fun name => bind (generics h) fun parameters => ?_
  simpa using traitRest h [vis, unsafe_, auto, keyword, .node .name [name], parameters]

theorem traitItem (vis : Tree) :
    Follows b (Grammar.traitItem rules vis) (Grammar.traitItem rules (blur b vis)) := by
  refine bind (word _) fun keyword => bind ident fun name => bind (generics h) fun parameters => ?_
  refine branch (fun ts hs => ?_) ?_ ?_
  · rw [Look.brace_blur, Look.op_blur hs rfl, Look.word_blur]
  · simpa using traitRest h [vis, keyword, .node .name [name], parameters]
  have hstop (ts : List Token) (hs : b.Spares ts) :
      (Look.word "where" (blur b ts) || Look.op ";" (blur b ts))
        = (Look.word "where" ts || Look.op ";" ts) := by
    rw [Look.word_blur, Look.op_blur hs rfl]
  refine branch (fun _ hs => Look.op_blur hs rfl) (bind (op rfl) fun _ => ?_) (expecting _)
  refine bind (listed hstop (fun ts hs => congrArg not (hstop ts hs)) (op rfl) (bound h _ _))
    fun _ => bind (whereClause h) fun _ => bind (op rfl) fun _ => pure (by simp)

theorem implItem (vis : Tree) :
    Follows b (Grammar.implItem rules vis) (Grammar.implItem rules (blur b vis)) := by
  refine bind (word? _) fun _ => bind (word? _) fun _ => bind (word _) fun _ =>
    bind (looking fun _ hs => parametersAhead_blur hs) fun _ =>
    joined (generics h) (pure (by simp)) fun _ => bind (looking fun ts hs => ?_) fun constant =>
    ite (bind (op? rfl) fun _ => bind (word _) fun _ => ?_) ?_
  · rw [Look.word_blur, Look.op_blur hs rfl, second hs fun _ _ => Look.word_blur _]
  all_goals
    refine bind (withSource (bind (looking fun ts hs => ?_) fun _ => joined (op rfl) (pure rfl)
      fun _ => bind (h.type _) fun _ => pure rfl)) fun found =>
      bind (looking fun _ _ => Look.word_blur _) fun isTrait => ite ?_ (given ?_)
    · rw [Look.op_blur hs rfl, second hs fun _ _ => Look.brace_blur]
    · refine bind (word _) fun _ => bind (h.type _) fun _ => given (bind (whereClause h) fun _ =>
        bind (memberBody h (implMember h)) fun _ => ?_)
      simp only [isInherited_blur, Tree.typeForm_blur]
      exact ite (pure rfl) (pure (by simp))
    · refine bind (whereClause h) fun _ => bind (memberBody h (implMember h)) fun _ => ?_
      simp only [isInherited_blur, Tree.typeForm_blur, Tree.isPresent_blur]
      refine ite (pure rfl) (pure ?_)
      split <;> simp [sourceType, plainType]

end

theorem macroDefinition : Follows b Grammar.macroDefinition Grammar.macroDefinition := by
  refine bind (word _) fun _ => bind ident fun _ => bind (looking fun _ _ => Look.paren_blur)
    fun _ => ite (bind (parens everything) fun _ => ?_) ?_
  all_goals
    exact branch (fun _ _ => Look.brace_blur) (bind (braces everything) fun _ => pure rfl)
      (expecting _)

theorem macroItem : Follows b Grammar.macroItem Grammar.macroItem := by
  refine bind plainPath fun _ => bind (op rfl) fun _ => branch (fun ts _ => ?_)
    (bind anyWord fun _ => given ?_) (given ?_)
  · rw [Look.word_blur, Look.ident_blur]
  all_goals
    refine bind anyGroup fun body => ?_
    rw [endsInBraces_blur]
    exact joined (pure rfl) (op rfl) fun _ => pure (by simp)

section

variable (h : rules.Follows b)

include h

theorem unsafeItem (vis : Tree) :
    Follows b (Grammar.unsafeItem rules vis) (Grammar.unsafeItem rules (blur b vis)) := by
  refine aheadLeaving id (bind (word _) fun _ => fun _ hs => ⟨rfl, hs⟩)
    (leaves_bind fun _ => leaves_rest (a := id) fun _ => rfl) fun next hnext => ?_
  change b.Spares next at hnext
  simp only [Look.word_blur, second hnext fun _ _ => Look.word_blur _]
  refine ite (bind (markedTrait h vis) fun _ => pure rfl)
    (ite (implItem h vis) (ite ?_ (ite ?_ ?_)))
  · exact bind (foreignModule h vis) fun _ => pure rfl
  · exact bind (moduleItem h vis) fun _ => pure rfl
  · exact bind (word _) fun _ => expecting _

theorem itemRest (vis : Tree) :
    Follows b (Grammar.itemRest rules vis) (Grammar.itemRest rules (blur b vis)) := by
  have hsome {p q : Parser Tree} (hp : Follows b p q) :
      Follows b (do return some (← p)) (do return some (← q)) :=
    bind hp fun _ => pure rfl
  refine branch (fun ts _ => signatureAhead_blur _ ts) (functionItem h vis) ?_
  refine branch (fun _ _ => Look.word_blur _) (hsome (externItem h vis)) ?_
  refine branch (fun _ _ => Look.word_blur _) (useItem h vis) ?_
  refine branch (fun _ _ => Look.word_blur _) (staticItem h vis) ?_
  refine branch (fun _ _ => Look.word_blur _) (constItem h vis) ?_
  refine branch (fun _ _ => Look.word_blur _) (unsafeItem h vis) ?_
  refine branch (fun _ _ => Look.word_blur _) (hsome (moduleItem h vis)) ?_
  refine branch (fun _ _ => Look.word_blur _) (aliasItem h vis) ?_
  refine branch (fun _ _ => Look.word_blur _) (hsome (structItem h vis)) ?_
  refine branch (fun _ _ => Look.word_blur _) (hsome (enumItem h vis)) ?_
  refine branch (fun ts hs => ?_) (hsome (unionItem h vis)) ?_
  · rw [Look.word_blur, second hs fun _ _ => Look.ident_blur]
  refine branch (fun _ _ => Look.word_blur _) (hsome (traitItem h vis)) ?_
  refine branch (fun ts hs => ?_) (hsome (markedTrait h vis)) ?_
  · rw [Look.word_blur, second hs fun _ _ => Look.word_blur _]
  refine branch (fun ts hs => ?_) (implItem h vis) ?_
  · rw [Look.word_blur, defaultAhead_blur hs]
  refine branch (fun _ _ => Look.word_blur _) macroDefinition ?_
  refine branch (fun ts hs => ?_) (hsome macroItem) ?_
  · rw [isInherited_blur, macroPathAhead_blur hs]
  · exact fun s _ => ⟨_, rfl⟩

theorem itemTree : Follows b (Grammar.itemTree rules) (Grammar.itemTree rules) := by
  refine orSource (bind (outerAttributes h) fun attributes => bind visibility fun vis =>
    bind (itemRest h vis) fun item => pure ?_)
  cases item <;> simp

theorem file : Follows b (Grammar.file rules) (Grammar.file rules) :=
  bind (innerAttributes h) fun _ => bind (allItems h.item) fun _ => pure rfl

end

end Follows

/-- The rules follow themselves for texts of every depth. -/
theorem Rules.follows_upTo (b : Blur) (depth : Nat) : (Rules.upTo depth).Follows b := by
  induction depth with
  | zero =>
    exact
      { type := fun _ => .refuse _, expression := fun _ => .refuse _, unary := fun _ => .refuse _
        climb := fun _ _ _ => .refuse _, early := .refuse _, pattern := .refuse _
        statements := .refuse _, item := .refuse _, bound := fun _ _ => .refuse _
        namedField := .refuse _, useTree := fun _ => .refuse _ }
  | succ depth h =>
    exact
      { type := Grammar.Follows.typeTree h
        expression := Grammar.Follows.expressionTree h
        unary := Grammar.Follows.unaryTree h
        climb := Grammar.Follows.climb h
        early := Grammar.Follows.earlyExpression h
        pattern := Grammar.Follows.patternTree h
        statements := Grammar.Follows.statements h
        item := Grammar.Follows.itemTree h
        bound := Grammar.Follows.bound h
        namedField := Grammar.Follows.namedField h
        useTree := Grammar.Follows.useTree h }

mutual
theorem count_blur (t : Token) : (blur b t).count = t.count := by
  cases t with
  | group d body p q => rw [blur_group, Token.count, Token.count, countTokens_blur body]
  | _ => rfl

theorem countTokens_blur (ts : List Token) : countTokens (blur b ts) = countTokens ts := by
  cases ts with
  | nil => rfl
  | cons t ts => rw [blur_cons, countTokens, countTokens, count_blur t, countTokens_blur ts]
end

section

variable {α : Type} [Blurs α] {tokens : List Token} {p : Rules → Parser α}
  (hp : ∀ rules : Rules, rules.Follows b → Follows b (p rules) (p rules)) (hs : b.Spares tokens)

include hp hs

/-- Tokens without what is not seen of them are read as the tokens themselves, but for what is not
seen, or refused with these. -/
theorem readAll_follows :
    match readAll tokens p with
    | .ok a => readAll (blur b tokens) p = .ok (blur b a)
    | .error _ => ∃ e, readAll (blur b tokens) p = .error e := by
  have hfollows := hp _ (Rules.follows_upTo b (16 * (countTokens tokens + 1)))
    ⟨tokens, .start, .invisible, none⟩ hs
  simp only [Input.blurred, blur_start, Option.map_none] at hfollows
  simp only [readAll, readUpTo, Rules.enough, countTokens_blur]
  cases hread : p (Rules.upTo (16 * (countTokens tokens + 1)))
      ⟨tokens, .start, .invisible, none⟩ with
  | error e =>
    rw [hread] at hfollows
    obtain ⟨e', he'⟩ := hfollows
    exact ⟨e', by rw [he']⟩
  | ok found =>
    rw [hread] at hfollows
    have hsettled := Input.settled_blurred (b := b) found.2
    simp only [Input.blurred] at hsettled
    simp only [hfollows.1, hsettled]
    cases found.2.settled with
    | some left => exact ⟨_, rfl⟩
    | none => rfl

theorem readAll_blur {a : α} (h : readAll tokens p = .ok a) :
    readAll (blur b tokens) p = .ok (blur b a) := by
  have hfollows := readAll_follows hp hs
  rwa [h] at hfollows

/-- What is read of tokens without what is not seen is read of the tokens themselves. -/
theorem readAll_of_blur {a : α} (h : readAll (blur b tokens) p = .ok a) :
    ∃ a', readAll tokens p = .ok a' ∧ a = blur b a' := by
  have hfollows := readAll_follows hp hs
  cases hread : readAll tokens p with
  | error e =>
    rw [hread, h] at hfollows
    obtain ⟨_, herror⟩ := hfollows
    cases herror
  | ok a' =>
    rw [hread, h] at hfollows
    exact ⟨a', rfl, Except.ok.inj hfollows⟩

end

end Observable.Grammar
