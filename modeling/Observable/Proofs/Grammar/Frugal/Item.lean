import Observable.Grammar.Source
import Observable.Proofs.Grammar.Frugal.Expression
/-! The readers of items are frugal, and with them the rules for texts of every depth: an identifier
stands in the syntax tree of a text no more often than in the text. -/
namespace Observable.Grammar

open Weighed

variable {w : Weight} {rules : Rules}

/-- The tree of an input of a function. -/
def Argument.tree : Argument → Tree
  | receiver tree _ => tree
  | typed tree => tree
  | variadic tree => tree

instance : Weighed Argument := ⟨fun w a => weigh w a.tree⟩

/-- The parts of a type alias in their order. -/
def Alias.parts (a : Alias) : List Tree :=
  a.front ++ a.colon :: a.bounds ++ a.early :: a.definition ++ [a.late, a.semicolon]

instance : Weighed Alias := ⟨fun w a => weigh w a.parts⟩

instance : Weighed File := ⟨fun w f => weigh w f.attributes + weigh w f.items⟩

namespace Frugal

@[simp] theorem weigh_receiver (tree : Tree) (self : Position) :
    weigh w (Argument.receiver tree self) = weigh w tree := rfl

@[simp] theorem weigh_typed (tree : Tree) : weigh w (Argument.typed tree) = weigh w tree := rfl

@[simp] theorem weigh_variadic (tree : Tree) :
    weigh w (Argument.variadic tree) = weigh w tree := rfl

@[simp] theorem weigh_alias (a : Alias) :
    weigh w a = weigh w a.front + weigh w a.colon + weigh w a.bounds + weigh w a.early
      + weigh w a.definition + weigh w a.late + weigh w a.semicolon := by
  change weigh w a.parts = _
  simp [Alias.parts]
  omega

@[simp] theorem weigh_file (f : File) : weigh w f = weigh w f.attributes + weigh w f.items := rfl

theorem lastArgument (front : List Tree) :
    Frugal w (weigh w front) (Grammar.lastArgument front) :=
  bind (op _) fun _ => looks fun _ => joined (given (pure (by simp))) (op _) fun _ =>
    pure (by simp +arith)

section

variable (h : rules.Frugal)

include h

theorem receiver : Frugal w 0 (Grammar.receiver rules) :=
  clause (op _) (optionally lifetime) fun _ => bind (word? _) fun _ => bind (word _) fun _ =>
    clause (op _) (h.type _) fun _ => pure (by simp +arith)

theorem argument : Frugal (w.inside .parenthesis) 0 (Grammar.argument rules) := by
  refine bind (outerAttributes h) fun attributes => branch ((lastArgument _).mono (by simp)) ?_
  refine bind (attempt (receiver h)) fun found => ?_
  split
  · exact pure (by simp)
  · refine branch (places fun place => bind (h.type _) fun type => pure ?_) ?_
    · have hunnamed : (w.inside .parenthesis).of (w.inside .parenthesis).around false "_" place
        = 0 :=
        w.of_unnamed place
      simp [hunnamed]
    · refine bind h.pattern fun pattern => bind (op _) fun colon => branch ?_ ?_
      · exact (lastArgument _).mono (by simp +arith)
      · exact bind (h.type _) fun _ => pure (by simp +arith)

theorem functionInputs : Frugal (w.inside .parenthesis) 0 (Grammar.functionInputs rules) := by
  refine bind (iterate (fun found => branch (pure (by simp))
    (bind (argument h) fun input => ?_)) _) fun _ => pure (by simp)
  have hnext (tree : Tree) (received : Bool) :
      Frugal (w.inside .parenthesis) (weigh (w.inside .parenthesis) found
          + weigh (w.inside .parenthesis) tree)
        (Grammar.functionInputs.next found.1 tree received) :=
    branch (pure (by simp +arith)) (bind (op _) fun _ => pure (by simp +arith))
  split
  · exact pure (by simp +arith)
  · exact ite (refuseAt _ _) (ite (refuseAt _ _) (hnext _ _))
  · exact hnext _ _

theorem signatureWith (safe : Bool) : Frugal w 0 (Grammar.signatureWith rules safe) :=
  bind (word? _) fun _ => bind (word? _) fun _ => bind (word? _) fun _ => looks fun _ =>
    joined anyWord (given (pure (by simp))) fun _ => bind convention fun _ => bind (word _) fun _ =>
    bind ident fun _ => bind (generics h) fun _ => bind (parens (functionInputs h)) fun _ =>
    bind (returnType h _) fun _ => bind (whereClause h) fun _ => pure (by simp +arith)

theorem signature : Frugal w 0 (Grammar.signature rules) :=
  bind (signatureWith h _) fun _ => pure (by simp)

theorem fieldType (anonymous : Bool) : Frugal w 0 (Grammar.fieldType rules anonymous) := by
  refine branch (withSource ?_ fun _ source n _ hsource => pure (by simpa using hsource)) (h.type _)
  exact bind anyWord fun _ => (braces (terminated h.namedField)).mono (Nat.zero_le _)

theorem namedField : Frugal w 0 (Grammar.namedField rules) :=
  bind (outerAttributes h) fun _ => bind visibility fun _ => looks fun _ =>
    joined anyWord ident fun _ => bind (op _) fun _ => bind (fieldType h _) fun _ =>
    pure (by simp +arith)

theorem tupleField : Frugal w 0 (Grammar.tupleField rules) :=
  bind (outerAttributes h) fun _ => bind visibility fun _ => bind (h.type _) fun _ =>
    pure (by simp +arith)

theorem namedFields : Frugal w 0 (Grammar.namedFields rules) :=
  bind (braces (terminated (namedField h))) fun _ => pure (by simp)

theorem tupleFields : Frugal w 0 (Grammar.tupleFields rules) :=
  bind (parens (terminated (tupleField h))) fun _ => pure (by simp)

theorem variant : Frugal w 0 (Grammar.variant rules) := by
  refine bind (outerAttributes h) fun _ => bind visibility fun _ => bind ident fun _ => ?_
  refine looks fun _ => looks fun _ => ite (bind (namedFields h) fun _ => ?_)
    (joined (tupleFields h) (pure (by simp)) fun _ => ?_)
  all_goals exact clause (op _) (h.expression _) fun _ => pure (by simp +arith)

theorem structBody : Frugal w 0 (Grammar.structBody rules) := by
  refine branch (bind (whereClause h) fun _ => ?_) (branch (bind (tupleFields h) fun _ => ?_) ?_)
  · refine branch (bind (namedFields h) fun _ => pure (by simp)) (branch ?_ (expecting _))
    exact bind (op _) fun _ => pure (by simp)
  · refine branch (bind (whereClause h) fun _ => branch ?_ (expecting _)) (branch ?_ (expecting _))
    all_goals exact bind (op _) fun _ => pure (by simp +arith)
  · refine branch (bind (namedFields h) fun _ => pure (by simp)) (branch ?_ (expecting _))
    exact bind (op _) fun _ => pure (by simp)

theorem structItem (hw : w.declared = 0) (vis : Tree) :
    Frugal w (weigh w vis) (Grammar.structItem rules vis) :=
  bind (word _) fun _ => bind ident fun _ => bind (generics h) fun _ => bind (structBody h) fun _ =>
    (pure (by simp +arith [hw]))

theorem enumItem (hw : w.declared = 0) (vis : Tree) :
    Frugal w (weigh w vis) (Grammar.enumItem rules vis) :=
  bind (word _) fun _ => bind ident fun _ => bind (generics h) fun _ =>
    bind (whereClause h) fun _ =>
    bind (braces (terminated (variant h))) fun _ => pure (by simp +arith [hw])

theorem unionItem (hw : w.declared = 0) (vis : Tree) :
    Frugal w (weigh w vis) (Grammar.unionItem rules vis) :=
  bind (word _) fun _ => bind ident fun _ => bind (generics h) fun _ =>
    bind (whereClause h) fun _ =>
    bind (namedFields h) fun _ => pure (by simp +arith [hw])

end

@[simp] theorem weigh_sourceItem (source : List Token) :
    weigh w (sourceItem source) = weigh w source := by
  simp [sourceItem]

@[simp] theorem weigh_memberOf (parts : List Tree) : weigh w (memberOf parts) = weigh w parts := by
  simp [memberOf]

/-- The attributes of a member that is kept go with it. -/
theorem weigh_map_memberOf (attributes : List Tree) (parts : Option (List Tree)) :
    weigh w (parts.map fun parts => memberOf (attributes ++ parts))
      ≤ weigh w attributes + weigh w parts := by
  cases parts <;> simp

theorem orSource {p : Parser (Option Tree)} (h : Frugal w 0 p) :
    Frugal w 0 (Grammar.orSource p) := by
  refine withSource h fun found source n hfound hsource => pure ?_
  cases found with
  | none => simpa using hsource
  | some tree => simpa using hfound

theorem macroMember : Frugal w 0 Grammar.macroMember :=
  bind plainPath fun _ => bind (op _) fun _ => bind anyGroup fun _ =>
    joined (pure (by simp)) (op _) fun _ => pure (by simp +arith)

section

variable (h : rules.Frugal)

include h

theorem typeAlias (vis : Tree) (defaultable : Bool) (where_ : ConditionsPlace) :
    Frugal w (weigh w vis) (Grammar.typeAlias rules vis defaultable where_) := by
  refine joined (word? _) (pure (by simp)) fun _ => bind (word _) fun _ => bind ident fun _ =>
    bind (generics h) fun _ => bind (op? _) fun colon =>
    ite (bind (listed (op _) (bound h _ _)) fun bounds => given ?_) (given ?_)
  all_goals
    refine looks fun early => joined (whereClause h) (pure (by simp)) fun _ =>
      clause (op _) (h.type _) fun _ =>
      joined (whereClause h) (pure (by simp)) fun _ => bind (op _) fun _ => pure ?_
    simp +arith

theorem constRest : Frugal w 0 (Grammar.constRest rules) := by
  refine looks fun _ => bind (generics h) fun _ => bind (op _) fun _ => bind (h.type _) fun _ =>
    clause (op _) (h.expression _) fun _ => looks fun _ => bind (whereClause h) fun _ =>
    bind (op _) fun _ => pure (by simp +arith)

theorem functionBody : Frugal w 0 (Grammar.functionBody rules) := bodyWithAttributes h

theorem traitFunction : Frugal w 0 (Grammar.traitFunction rules) := by
  refine bind (signature h) fun _ => branch (bind (functionBody h) fun _ => pure (by simp)) ?_
  exact branch (bind (op _) fun _ => pure (by simp)) (expecting _)

theorem traitConst : Frugal w 0 (Grammar.traitConst rules) := by
  refine branch ?_ (branch (bind (traitFunction h) fun _ => pure (by simp)) ?_)
  · exact bind (word _) fun _ => bind anyWord fun _ => bind (constRest h) fun _ =>
      ite (pure (by simp)) (pure (by simp +arith))
  · exact bind (word _) fun _ => expecting _

theorem traitType : Frugal w 0 (Grammar.traitType rules) := by
  refine bind ((typeAlias h _ _ _).mono (by simp)) fun a => pure ?_
  have hbounds := weigh_colonAndBounds (w := w) a.colon a.bounds
  simp
  omega

theorem traitMember : Frugal w 0 (Grammar.traitMember rules) := by
  refine orSource (bind (outerAttributes h) fun attributes => bind visibility fun vis =>
    bind (word? _) fun default => looks fun _ => looks fun _ => looks fun _ => looks fun _ => ?_)
  have hlast (parts : Option (List Tree)) :
      Frugal w (0 + weigh w attributes + weigh w vis + weigh w default + weigh w parts)
        (Pure.pure (if vis.isInherited && !default.isPresent then
          parts.map fun parts => memberOf (attributes ++ parts) else none) : Parser _) := by
    have hparts := weigh_map_memberOf (w := w) attributes parts
    refine pure ?_
    split
    · simp
      omega
    · simp
  refine ite (bind (traitFunction h) fun found => given (hlast (some found))) ?_
  refine ite (bind (traitConst h) hlast) (ite (bind (traitType h) hlast) ?_)
  exact ite (bind macroMember fun found => given (hlast (some found))) (bind (expecting _) hlast)

theorem implFunction : Frugal w 0 (Grammar.implFunction rules) := by
  refine bind visibility fun _ => bind (word? _) fun _ => bind (signature h) fun _ => branch ?_ ?_
  · exact bind (op _) fun _ => pure (by simp)
  · exact bind (functionBody h) fun _ => pure (by simp +arith)

theorem implConst : Frugal w 0 (Grammar.implConst rules) := by
  refine bind visibility fun _ => bind (word? _) fun _ => bind (word _) fun _ =>
    branch ?_ (expecting _)
  exact bind anyWord fun _ => bind (constRest h) fun _ =>
    ite (pure (by simp)) (pure (by simp +arith))

theorem implAlias : Frugal w 0 (Grammar.implAlias rules) :=
  bind visibility fun vis => bindUsing (typeAlias h vis _ _)
    (fun _ => ite (pure (by simp)) (pure (by simp +arith))) (by simp)

theorem implMember : Frugal w 0 (Grammar.implMember rules) := by
  refine orSource (bind (outerAttributes h) fun attributes => ahead fun seen => ?_)
  have hlast (parts : Option (List Tree)) : Frugal w (0 + weigh w attributes + weigh w parts)
      (Pure.pure (parts.map fun parts => memberOf (attributes ++ parts)) : Parser _) := by
    have hparts := weigh_map_memberOf (w := w) attributes parts
    exact pure (by omega)
  refine ite (bind (implFunction h) hlast) (ite (bind (implConst h) hlast) ?_)
  refine ite (bind (implAlias h) hlast)
    (ite (bind macroMember fun found => given (hlast (some found))) ?_)
  refine bind visibility fun _ => ite (bind (pass 1) fun _ => ?_) ?_
  all_goals exact bind (expecting _) fun parts => (hlast parts).mono (by simp +arith)

theorem foreignFunction : Frugal w 0 (Grammar.foreignFunction rules) := by
  refine bind visibility fun _ => bind (signatureWith h _) fun _ => branch ?_ ?_
  · exact bind (functionBody h) fun _ => pure (by simp)
  · refine bind (op _) fun _ => pure ?_
    split <;> simp +arith

theorem foreignStatic : Frugal w 0 (Grammar.foreignStatic rules) := by
  refine bind visibility fun _ => looks fun marked => ite (bind (pass 1) fun _ => ?_) ?_
  all_goals
    refine bind (word _) fun _ => bind (word? _) fun _ => bind ident fun _ => bind (op _) fun _ =>
      bind (h.type _) fun _ => looks fun defined =>
      ite (bind (op _) fun _ => bind (h.expression _) fun _ => ?_) ?_
    all_goals
      refine bind (op _) fun _ => pure ?_
      split <;> simp +arith

theorem foreignType : Frugal w 0 (Grammar.foreignType rules) :=
  bind visibility fun vis => bindUsing (typeAlias h vis _ _)
    (fun _ => ite (pure (by simp)) (pure (by simp +arith))) (by simp)

theorem foreignMember : Frugal w 0 (Grammar.foreignMember rules) := by
  refine orSource (bind (outerAttributes h) fun attributes => ahead fun seen => ?_)
  have hlast (parts : Option (List Tree)) : Frugal w (0 + weigh w attributes + weigh w parts)
      (Pure.pure (parts.map fun parts => memberOf (attributes ++ parts)) : Parser _) := by
    have hparts := weigh_map_memberOf (w := w) attributes parts
    exact pure (by omega)
  refine ite (bind (foreignFunction h) hlast) (ite (bind (foreignStatic h) hlast) ?_)
  refine ite (bind (foreignType h) hlast)
    (ite (bind macroMember fun found => given (hlast (some found))) ?_)
  exact bind visibility fun _ => bind (expecting _) fun parts => (hlast parts).mono (by simp +arith)

theorem memberBody {item : Parser Tree} (hitem : Frugal (w.inside .brace) 0 item) :
    Frugal w 0 (Grammar.memberBody rules item) :=
  braces (bind (innerAttributes h) fun _ => bind (allItems hitem) fun _ => pure (by simp))

end

@[simp] theorem weigh_itemOf (form : ItemForm) (parts : List Tree) :
    weigh w (itemOf form parts) = Kind.weight w (.item form) + weigh w parts :=
  Tree.weigh_node _ _

theorem externCrate (vis : Tree) : Frugal w (weigh w vis) (Grammar.externCrate vis) := by
  refine bind (word _) fun _ => bind (word _) fun _ => looks fun _ => joined anyWord ident fun _ =>
    branch (bind (word _) fun _ => looks fun _ => joined anyWord ident fun _ => ?_) ?_
  all_goals exact bind (op _) fun _ => pure (by simp +arith)

section

variable (h : rules.Frugal)

include h

theorem functionItem (vis : Tree) : Frugal w (weigh w vis) (Grammar.functionItem rules vis) := by
  refine bind (signature h) fun _ => branch (bind (op _) fun _ => pure (by simp)) ?_
  exact bind (functionBody h) fun _ => pure (by simp +arith)

theorem foreignModule (vis : Tree) : Frugal w (weigh w vis) (Grammar.foreignModule rules vis) := by
  have hrest : Frugal w (weigh w vis) (do
      let unsafe_ ← Grammar.word? "unsafe"
      let extern_ ← Grammar.word "extern"
      let abi ← Grammar.optionally Look.string Grammar.string
      return Grammar.itemOf .foreignMod
        [unsafe_, extern_, abi, ← Grammar.memberBody rules (Grammar.foreignMember rules)]) :=
    bind (word? _) fun _ => bind (word _) fun _ => bind (optionally string) fun _ =>
      bind (memberBody h (foreignMember h)) fun _ => pure (by simp +arith)
  unfold Grammar.foreignModule
  split
  · exact bind (refuseAt _ _) fun _ => hrest.mono (by simp)
  · exact hrest

theorem externItem (vis : Tree) : Frugal w (weigh w vis) (Grammar.externItem rules vis) := by
  refine ahead fun next => ite (externCrate _) (ite (foreignModule h _) (ite ?_ ?_))
  · refine ite (foreignModule h _) ?_
    exact bind (word _) fun _ => bind string fun _ => expecting _
  · exact bind (word _) fun _ => expecting _

theorem useTree (rooted : Bool) : Frugal w 0 (Grammar.useTree rules rooted) := by
  refine branch (bind anyWord fun name => branch ?_ (branch ?_ (pure (by simp)))) ?_
  · refine bind (op _) fun colons => bind (h.useTree _) fun tree => pure ?_
    cases tree <;> simp +arith
  · exact bind (word _) fun _ => branch (bind anyWord fun _ => pure (by simp +arith)) (refuse _)
  refine branch (bind (op _) fun _ => pure (by simp)) (branch ?_ (expecting _))
  refine inside (iterate (fun found => branch (pure (by simp)) (looks fun root => ?_)) (some []))
    fun found _ _ => ?_
  · refine ite (bind (pass 2) fun _ => ?_) ?_
    all_goals
      refine bind (h.useTree _) fun tree => looks fun _ =>
        joined (pure (by simp)) (op _) fun comma => pure ?_
      simp only [weigh_pair, weigh_bool, weigh_unit]
      split
      · split <;> simp +arith
      · simp
  · refine pure ?_
    cases found <;> simp

theorem useItem (vis : Tree) : Frugal w (weigh w vis) (Grammar.useItem rules vis) := by
  refine bind (word _) fun _ => bind (op? _) fun _ => bind (h.useTree _) fun tree =>
    bind (op _) fun _ => pure ?_
  cases tree <;> simp +arith

theorem staticItem (vis : Tree) : Frugal w (weigh w vis) (Grammar.staticItem rules vis) := by
  refine bind (word _) fun _ => bind (word? _) fun _ => bind ident fun _ => branch ?_ ?_
  · exact bind (op _) fun _ => bind (h.expression _) fun _ => bind (op _) fun _ => pure (by simp)
  · refine bind (op _) fun _ => bind (h.type _) fun _ =>
      branch (bind (op _) fun _ => pure (by simp)) ?_
    exact bind (op _) fun _ => bind (h.expression _) fun _ => bind (op _) fun _ =>
      pure (by simp +arith)

theorem constItem (vis : Tree) : Frugal w (weigh w vis) (Grammar.constItem rules vis) := by
  refine bind (word _) fun _ => branch ?_ (expecting _)
  exact bind anyWord fun _ => bind (constRest h) fun _ =>
    ite (pure (by simp)) (pure (by simp +arith))

theorem moduleItem (hw : w.declared = 0) (vis : Tree) :
    Frugal w (weigh w vis) (Grammar.moduleItem rules vis) := by
  refine bind (word? _) fun _ => bind (word _) fun _ => looks fun _ => joined anyWord ident fun _ =>
    branch (bind (op _) fun _ => pure (by simp +arith)) (branch ?_ (expecting _))
  exact bind (memberBody h (h.item hw)) fun _ => pure (by simp +arith)

theorem aliasItem (vis : Tree) : Frugal w (weigh w vis) (Grammar.aliasItem rules vis) :=
  bindUsing (typeAlias h vis _ _) (fun _ => ite (pure (by simp)) (pure (by simp +arith)))
    (Nat.le_refl _)

theorem traitRest (front : List Tree) :
    Frugal w (weigh w front) (Grammar.traitRest rules front) := by
  refine bind (op? _) fun colon => ite (bind (listed (op _) (bound h _ _)) fun _ =>
    given ?_) (given ?_)
  · rename_i bounds
    have hbounds := weigh_colonAndBounds (w := w) colon (flat bounds)
    refine bind (whereClause h) fun _ => bind (memberBody h (traitMember h)) fun _ => pure ?_
    simp at hbounds ⊢
    omega
  · have hbounds := weigh_colonAndBounds (w := w) colon []
    refine bind (whereClause h) fun _ => bind (memberBody h (traitMember h)) fun _ => pure ?_
    simp at hbounds ⊢
    omega

theorem markedTrait (vis : Tree) : Frugal w (weigh w vis) (Grammar.markedTrait rules vis) :=
  bind (word? _) fun _ => bind (word? _) fun _ => bind (word _) fun _ => bind ident fun _ =>
    bind (generics h) fun _ => (traitRest h _).mono (by simp +arith)

theorem traitItem (vis : Tree) : Frugal w (weigh w vis) (Grammar.traitItem rules vis) := by
  refine bind (word _) fun _ => bind ident fun _ => bind (generics h) fun _ =>
    branch ((traitRest h _).mono (by simp +arith)) (branch ?_ (expecting _))
  exact bind (op _) fun _ => bind (listed (op _) (bound h _ _)) fun _ =>
    bind (whereClause h) fun _ =>
    bind (op _) fun _ => pure (by simp +arith)

theorem implItem (vis : Tree) : Frugal w (weigh w vis) (Grammar.implItem rules vis) := by
  refine bind (word? _) fun _ => bind (word? _) fun _ => bind (word _) fun _ => looks fun _ =>
    joined (generics h) (pure (by simp)) fun _ => looks fun constant =>
    ite (bind (op? _) fun _ => bind (word _) fun _ => ?_) ?_
  all_goals
    refine withSource (looks fun _ => joined (op _) (pure (by simp)) fun _ =>
      bind (h.type _) fun _ => pure (by simp))
      fun found source n hfound hsource => looks fun isTrait => ite ?_ (given ?_)
    · refine bind (word _) fun _ => bind (h.type _) fun _ => given (bind (whereClause h) fun _ =>
        bind (memberBody h (implMember h)) fun _ => ite (pure (by simp)) (pure ?_))
      simp at hfound ⊢
      omega
    · have hself : weigh w (if found.1.isPresent then sourceType source else found.2) ≤ n := by
        split
        · simpa using hsource
        · simp at hfound
          omega
      refine bind (whereClause h) fun _ => bind (memberBody h (implMember h)) fun _ =>
        ite (pure (by simp)) (pure ?_)
      simp at hself ⊢
      omega

end

theorem macroDefinition : Frugal w 0 Grammar.macroDefinition := by
  refine bind (word _) fun _ => bind ident fun _ => looks fun _ =>
    ite (bind (parens everything) fun _ => ?_) ?_
  all_goals exact branch (bind (braces everything) fun _ => pure (by simp)) (expecting _)

theorem macroItem : Frugal w 0 Grammar.macroItem := by
  refine bind plainPath fun _ => bind (op _) fun _ => branch (bind anyWord fun _ =>
    given ?_) (given ?_)
  all_goals
    exact bind anyGroup fun body => joined (pure (by simp)) (op _) fun _ => pure (by simp +arith)

section

variable (h : rules.Frugal)

include h

theorem unsafeItem (hw : w.declared = 0) (vis : Tree) :
    Frugal w (weigh w vis) (Grammar.unsafeItem rules vis) := by
  refine ahead fun next => ite (bindUsing (markedTrait h vis) (fun _ => pure (by simp))
    (Nat.le_refl _)) ?_
  refine ite (implItem h vis) (ite ?_ (ite ?_ ?_))
  · exact bindUsing (foreignModule h vis) (fun _ => pure (by simp)) (Nat.le_refl _)
  · exact bindUsing (moduleItem h hw vis) (fun _ => pure (by simp)) (Nat.le_refl _)
  · exact bind (word _) fun _ => expecting _

theorem itemRest (hw : w.declared = 0) (vis : Tree) :
    Frugal w (weigh w vis) (Grammar.itemRest rules vis) := by
  have hsome {p : Parser Tree} (hp : Frugal w (weigh w vis) p) :
      Frugal w (weigh w vis) (do return some (← p)) :=
    bindUsing hp (fun _ => pure (by simp)) (Nat.le_refl _)
  refine branch (functionItem h vis) (branch (hsome (externItem h vis)) (branch (useItem h vis) ?_))
  refine branch (staticItem h vis) (branch (constItem h vis) (branch (unsafeItem h hw vis) ?_))
  refine branch (hsome (moduleItem h hw vis)) (branch (aliasItem h vis) ?_)
  refine branch (hsome (structItem h hw vis)) (branch (hsome (enumItem h hw vis)) ?_)
  refine branch (hsome (unionItem h hw vis)) (branch (hsome (traitItem h vis)) ?_)
  refine branch (hsome (markedTrait h vis)) (branch (implItem h vis) (branch ?_ (branch ?_ ?_)))
  · exact macroDefinition.mono (Nat.zero_le _)
  · exact hsome (macroItem.mono (Nat.zero_le _))
  · exact fun s => expecting _ s

theorem itemTree (hw : w.declared = 0) : Frugal w 0 (Grammar.itemTree rules) := by
  refine orSource (bind (outerAttributes h) fun attributes => bind visibility fun vis =>
    bindUsing (itemRest h hw vis) (fun item => pure ?_) (by simp))
  cases item with
  | none => simp
  | some item =>
    have hweight := Tree.weigh_withAttributes (w := w) attributes item
    simp
    omega

theorem file (hw : w.declared = 0) : Frugal w 0 (Grammar.file rules) :=
  bind (innerAttributes h) fun _ => bind (allItems (h.item hw)) fun _ => pure (by simp)

end

end Frugal

/-- The rules are frugal for texts of every depth. -/
theorem Rules.frugal_upTo (depth : Nat) : (Rules.upTo depth).Frugal := by
  induction depth with
  | zero =>
    exact
      { type := fun _ => .refuse _, expression := fun _ => .refuse _, unary := fun _ => .refuse _
        climb := fun _ _ _ => .refuse _, early := .refuse _, pattern := .refuse _
        statements := fun _ => .refuse _, item := fun _ => .refuse _, bound := fun _ _ => .refuse _
        namedField := .refuse _, useTree := fun _ => .refuse _ }
  | succ depth h =>
    exact
      { type := Grammar.Frugal.typeTree h
        expression := Grammar.Frugal.expressionTree h
        unary := Grammar.Frugal.unaryTree h
        climb := Grammar.Frugal.climb h
        early := Grammar.Frugal.earlyExpression h
        pattern := Grammar.Frugal.patternTree h
        statements := Grammar.Frugal.statements h
        item := Grammar.Frugal.itemTree h
        bound := Grammar.Frugal.bound h
        namedField := Grammar.Frugal.namedField h
        useTree := Grammar.Frugal.useTree h }

/-- An identifier stands in what is read no more often than in the tokens that it is read from. -/
theorem weigh_le_of_readAll {α : Type} [Weighed α] {tokens : List Token}
    {p : Rules → Parser α} {a : α}
    (hp : ∀ rules : Rules, rules.Frugal → Frugal w 0 (p rules)) (h : readAll tokens p = .ok a) :
    weigh w a ≤ weigh w tokens := by
  rw [readAll, readUpTo] at h
  split at h
  · rename_i a' s ha
    split at h
    · cases h
    · cases h
      have hweight := (hp _ (Rules.frugal_upTo _) _ a s ha).2
      simp only at hweight
      omega
  · cases h

end Observable.Grammar
