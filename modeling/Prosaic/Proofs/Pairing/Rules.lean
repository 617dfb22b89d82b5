import Prosaic.Grammar.Expression
import Prosaic.Proofs.Grammar.Loops
import Prosaic.Proofs.Pairing.Basic

/-!
The rules of the grammar keep two readings paired. There is one lemma for each rung of the ladder of
expressions; those of the rungs with operands assume of the operands what they claim of the whole.
Between the opening of a construct and its closer nothing fails, so no construct stays open behind a
failure in a statement, a block or a declaration.
-/

namespace Prosaic.Parser.Pairing

variable {α β : Type} {c : Pairing} {H : Prop}

/-! ### Operators -/

theorem keeps_binary (op : BinaryOp) (left right : Expr) (start : Token) :
    c.Keeps H (binary op left right start) fun _ => True :=
  keeps_finish start _

section

variable {operand : Parser Expr} (hoperand : c.Keeps H operand fun _ => True)

include hoperand

theorem keeps_chainRest (operator : Token → Option BinaryOp) (start : Token) (fuel : Nat)
    (left : Expr) : c.Keeps H (chainRest operator operand start fuel left) fun _ => True := by
  induction fuel generalizing left with
  | zero => exact .pure fun _ => trivial
  | succ fuel ih =>
      refine keeps_current.step fun t => ?_
      cases operator t with
      | none => exact .pure fun _ => trivial
      | some op =>
          refine keeps_advance.step fun _ => .nested ?_ t
          exact hoperand.step fun right => (keeps_binary op left right start).step ih

theorem keeps_chain (operator : Token → Option BinaryOp) :
    c.Keeps H (chain operator operand) fun _ => True := by
  refine keeps_current.step fun start => hoperand.step fun left => ?_
  exact keeps_remaining.step fun fuel => keeps_chainRest hoperand operator start fuel left

theorem keeps_prefixed (fuel : Nat) : c.Keeps H (prefixed operand fuel) fun _ => True := by
  induction fuel with
  | zero => exact hoperand
  | succ fuel ih =>
      refine keeps_current.step fun t => ?_
      cases prefixOp? t with
      | none => exact hoperand
      | some op => exact keeps_advance.step fun _ => (ih.nested t).step fun e => keeps_finish t _

end

/-! ### The rungs -/

section

variable {inner : Parser Expr} (hinner : c.Keeps H inner fun _ => True)

theorem keeps_leaf (t : Token) (node : ExprNote → Expr) :
    c.Keeps H (leaf t node) fun _ => True :=
  keeps_advance.step fun _ => (keeps_countNode t).step fun _ => .pure fun _ => trivial

theorem keeps_noExpression : c.Keeps H noExpression fun _ => True :=
  keeps_current.bind fun _ => keeps_fail fun h => places_problem h.2 _ _

include hinner

theorem keeps_argumentsRest (fuel : Nat) :
    c.Keeps H (argumentsRest inner fuel) fun _ => True := by
  induction fuel with
  | zero => exact .pure fun _ => trivial
  | succ fuel ih =>
      refine (keeps_acceptSign .comma).step fun more => .ite ?_ (.pure fun _ => trivial)
      exact hinner.step fun arg => ih.step fun args => .pure fun _ => trivial

theorem keeps_arguments : c.Keeps H (arguments inner) fun _ => True := by
  refine hinner.step fun arg => keeps_remaining.step fun fuel => ?_
  exact (keeps_argumentsRest hinner fuel).step fun args => .pure fun _ => trivial

theorem keeps_callWith : c.Keeps H (callWith inner) fun _ => True := by
  refine keeps_advance.step fun start => (keeps_expectIdentifier _ _).step fun callee => ?_
  refine (keeps_acceptKeyword .with_).step fun passes => ?_
  extract_lets rest
  have hrest : ∀ {H : Prop} args, c.Keeps H (rest args) fun _ => True :=
    fun args => keeps_finish start _
  refine .ite ((keeps_arguments hinner).step fun args => hrest args) ?_
  refine keeps_current.bind fun t => .ite ?_ ?_
  · exact Keeps.step (keeps_fail (Q := fun _ => True) fun h => places_problem h.2 _ _) fun args =>
      hrest args
  · exact Keeps.step (Keeps.pure (Q := fun _ => True) fun _ => trivial) fun args => hrest args

theorem keeps_primary : c.Keeps H (primary inner) fun _ => True := by
  refine keeps_current.step fun t => ?_
  split
  · exact keeps_leaf t _
  · exact keeps_leaf t _
  · exact keeps_leaf t _
  · exact keeps_leaf t _
  · exact keeps_leaf t _
  · refine keeps_advance.step fun _ => hinner.step fun e => ?_
    exact (keeps_expectSign _ _ _).step fun _ => .pure fun _ => trivial
  · refine keeps_advance.step fun _ => keeps_current.step fun next => ?_
    extract_lets rest
    have hrest : ∀ elements, c.Keeps H (rest elements) fun _ => True :=
      fun elements => (keeps_expectSign _ _ _).step fun _ => keeps_finish t _
    refine .ite ?_ ((keeps_arguments hinner).step hrest)
    exact Keeps.step (Keeps.pure (Q := fun _ => True) fun _ => trivial) hrest
  · exact keeps_noExpression

omit hinner in
theorem keeps_selectionRest (start : Token) (fuel : Nat) (base : Expr) :
    c.Keeps H (selectionRest start fuel base) fun _ => True := by
  induction fuel generalizing base with
  | zero => exact .pure fun _ => trivial
  | succ fuel ih =>
      refine keeps_current.step fun t => .ite ?_ (.pure fun _ => trivial)
      refine keeps_advance.step fun _ => .nested ?_ t
      refine (keeps_expectIdentifier _ _).step fun name => (keeps_spanFrom start).step fun _ => ?_
      exact (keeps_countNode start).step fun _ => ih _

theorem keeps_selection : c.Keeps H (selection inner) fun _ => True := by
  refine keeps_current.step fun start => (keeps_primary hinner).step fun base => ?_
  exact keeps_remaining.step fun fuel => keeps_selectionRest start fuel base

theorem keeps_application : c.Keeps H (application inner) fun _ => True := by
  refine keeps_current.step fun t => keeps_second.step fun next => ?_
  split
  · exact (keeps_callWith hinner).step fun _ => .pure fun _ => trivial
  · refine keeps_advance.step fun _ => keeps_advance.step fun _ => ?_
    exact (keeps_arguments hinner).step fun args => keeps_finish t _
  · exact keeps_selection hinner

theorem keeps_unaryRung : c.Keeps H (unaryRung inner) fun _ => True :=
  keeps_remaining.step fun fuel => keeps_prefixed (keeps_application hinner) fuel

theorem keeps_additiveRung : c.Keeps H (additiveRung inner) fun _ => True :=
  keeps_chain (keeps_chain (keeps_unaryRung hinner) _) _

omit hinner in
theorem keeps_acceptComparison : c.Keeps H acceptComparison fun _ => True := by
  refine (keeps_acceptKeyword .is).step fun _ => .ite ?_ ?_
  · refine (keeps_acceptKeyword .not).step fun _ => .ite ?_ ?_
    · exact .pure fun _ => trivial
    · exact .pure fun _ => trivial
  · refine keeps_current.step fun t => ?_
    cases orderOp? t with
    | none => exact .pure fun _ => trivial
    | some op => exact keeps_advance.step fun _ => .pure fun _ => trivial

theorem keeps_comparisonRung : c.Keeps H (comparisonRung inner) fun _ => True := by
  refine keeps_current.step fun start => (keeps_additiveRung hinner).step fun left => ?_
  refine keeps_acceptComparison.step fun op? => ?_
  cases op? with
  | none => exact .pure fun _ => trivial
  | some op =>
      refine (keeps_additiveRung hinner).step fun right => ?_
      refine (keeps_binary op left right start).step fun node => keeps_current.bind fun t => ?_
      exact .ite (keeps_fail fun h => places_problem h.2 _ _) (.pure fun _ => trivial)

theorem keeps_expressionWith : c.Keeps H (expressionWith inner) fun _ => True :=
  keeps_current.step fun start =>
    (keeps_chain (keeps_chain (keeps_comparisonRung hinner) _) _).nested start

end

theorem keeps_expressionUpTo (fuel : Nat) : c.Keeps H (expressionUpTo fuel) fun _ => True := by
  induction fuel with
  | zero => exact keeps_expressionWith keeps_noExpression
  | succ fuel ih => exact keeps_expressionWith ih

theorem keeps_expression : c.Keeps H expression fun _ => True :=
  keeps_remaining.step keeps_expressionUpTo

theorem keeps_call : c.Keeps H call fun _ => True :=
  keeps_remaining.step fun fuel => keeps_callWith (keeps_expressionUpTo fuel)

/-! ### Recovery -/

theorem keeps_skipToBoundary (colonToo : Bool) (fuel : Nat) :
    c.Keeps H (skipToBoundary colonToo fuel) fun _ => True := by
  induction fuel with
  | zero => exact .pure fun _ => trivial
  | succ fuel ih =>
      refine keeps_current.step fun t => ?_
      split
      · exact .pure fun _ => trivial
      · exact keeps_advance.step fun _ => .pure fun _ => trivial
      · exact keeps_advance.step fun _ => .ite (.pure fun _ => trivial) ih
      · exact .ite (.pure fun _ => trivial) (keeps_advance.step fun _ => ih)
      · exact keeps_advance.step fun _ => ih

theorem keeps_synchronize (start : Nat) (colonToo : Bool) :
    c.Keeps H (synchronize start colonToo) fun _ => True := by
  refine keeps_remaining.step fun here => ?_
  extract_lets rest
  have hrest : ∀ u, c.Keeps H (rest u) fun _ => True :=
    fun _ => keeps_remaining.step fun fuel => keeps_skipToBoundary colonToo fuel
  exact .ite (keeps_advance.step fun _ => hrest ()) (hrest ())

theorem keeps_recoverHeader (start : Nat) {failure : Option Diagnostic}
    (h : H → ∀ d ∈ failure, c.Places d) :
    c.Keeps H (recoverHeader start failure) fun _ => True := by
  cases failure with
  | none => exact .pure fun _ => trivial
  | some d =>
      have hd : H → c.Places d := fun hH => h hH d rfl
      exact (keeps_synchronize start true).step fun _ => .ite (keeps_report hd) (keeps_fail hd)

/-! ### Open constructs -/

/-- A parser that closes the innermost construct, and never fails. -/
structure Closes (c : Pairing) (H : Prop) (p : Parser α) (Q : α → Prop) : Prop where
  moves : Moves p
  follows : H → ∀ ⦃l b s s'⦄, c.Twin (l.inside b) s s' → c.behind <:+ (p s).state.rest →
    c.Follows l Q (p s) (p s')

section

variable {p : Parser α} {f : α → Parser β} {Q : α → Prop} {R : β → Prop}

theorem Twin.open {l : Level} {s s' : State} (h : c.Twin (l.deeper 1) s s') (b : Block) :
    c.Twin (l.inside b) { s with blocks := b :: s.blocks } { s' with blocks := b :: s'.blocks } :=
  { h with
    blocks := congrArg (b :: ·) h.blocks
    blocks' := congrArg (b :: ·) h.blocks' }

theorem Twin.pop {l : Level} {b : Block} {s s' : State} (h : c.Twin (l.inside b) s s') :
    c.Twin l { s.exit with blocks := s.blocks.tail } { s'.exit with blocks := s'.blocks.tail } := by
  have hexit : c.Twin { l with blocks := b :: l.blocks } s.exit s'.exit := Twin.exit h
  exact { hexit with
    blocks := congrArg List.tail hexit.blocks
    blocks' := congrArg List.tail hexit.blocks' }

theorem Closes.step (hp : c.Keeps H p Q) (hrecovers : Recovers p)
    (hf : ∀ a, c.Closes H (f a) R) : c.Closes H (p >>= f) R where
  moves := hp.moves.bind fun a => (hf a).moves
  follows hH l b s s' htwin hbehind := by
    have hmoves := fun a => (hf a).moves
    have hlater := ((p s).reaches_bind hmoves).rest
    refine (hp.follows hH htwin (hbehind.trans hlater)).bind ?_ hmoves ?_ hbehind
    · exact fun d t hfailed => (hrecovers s d t hfailed).elim
    · exact fun a t t' _ ht => (hf a).follows hH ht

/-- What is opened is closed. -/
theorem keeps_openBlock {q : PUnit → Parser β} (b : Block) (opener : Token)
    (hq : ∀ u, c.Closes H (q u) R) : c.Keeps H (openBlock b opener >>= q) R where
  moves := (reads_openBlock b opener).moves.bind fun u => (hq u).moves
  follows hH l s s' htwin hbehind := by
    have henter := htwin.spend (Budget.use_enter opener.span.start.location)
    let push : PUnit → Parser β := fun _ s => q ⟨⟩ { s with blocks := b :: s.blocks }
    have hpush : ∀ u, Moves (push u) := fun u s =>
      have hs := (hq ⟨⟩).moves { s with blocks := b :: s.blocks }
      ⟨hs.rest, hs.stop, hs.found⟩
    have heq : ∀ s, (openBlock b opener >>= q) s = (enter opener s).bind push := by
      intro s
      simp only [openBlock, Bind.bind]
      cases enter opener s <;> rfl
    rw [heq, heq]
    rw [heq] at hbehind
    refine henter.bind ?_ hpush ?_ hbehind
    · exact fun d t hfailed => (recovers_spend _ _ _ _ hfailed).elim
    · exact fun _ t t' _ ht => (hq ⟨⟩).follows hH (ht.open b)

end

theorem keeps_skipStrayCloser {endToken : Token} (hend : H → c.Here endToken) (word : Token) :
    c.Keeps H (skipStrayCloser endToken word) fun _ => True := by
  refine keeps_openBlocks.step fun blocks => ?_
  refine (keeps_report fun hH => places_problem (hend hH) _ _).step fun _ => ?_
  refine keeps_advance.step fun _ => keeps_advance.step fun _ => ?_
  exact keeps_acceptTerminator.step fun _ => .pure fun _ => trivial

theorem keeps_closer (b : Block) : c.Keeps H (closer b) fun _ => True := by
  refine keeps_lookahead fun t word => ?_
  split
  · next hkind =>
      have hdefine : t.isKeyword .define = false := by simp [Token.isKeyword, hkind]
      split
      · refine .ite ?_ ?_
        · refine keeps_advance.step fun _ => keeps_advance.step fun _ => ?_
          refine keeps_acceptTerminator.step fun closed => .ite (.pure fun _ => trivial) ?_
          refine keeps_current.bind fun next => ?_
          refine (keeps_report fun h => places_problem h.2 _ _).step fun _ => ?_
          exact .pure fun _ => trivial
        · refine (keeps_report fun h => places_problem h.2.1 _ _).step fun _ => ?_
          exact .pure fun _ => trivial
      · refine (keeps_report fun h => places_expectation ?_ _ _ _).step fun _ => ?_
        · split
          · exact h.2.1
          · exact h.2.2 hdefine
        · refine keeps_advance.step fun _ => keeps_acceptTerminator.step fun _ => ?_
          exact .pure fun _ => trivial
  · refine (keeps_report fun h => places_problem h.2.1 _ _).step fun _ => .pure fun _ => trivial

/-- Behind the closer, the reading goes on outside. -/
theorem closes_closeBlock (b : Block) {f : Option Span → Parser β} {R : β → Prop}
    (hf : ∀ span, c.Keeps H (f span) R) : c.Closes H (closeBlock b >>= f) R := by
  have hpop : ∀ span, c.Closes H (popBlock >>= fun _ => f span) R := fun span =>
    { moves := reads_popBlock.moves.bind fun _ => (hf span).moves
      follows := fun hH _ _ _ _ htwin hbehind => (hf span).follows hH htwin.pop hbehind }
  have heq : closeBlock b >>= f = closer b >>= fun span => popBlock >>= fun _ => f span := by
    simp only [closeBlock, bind_assoc, pure_bind]
  rw [heq]
  exact .step (keeps_closer b) (recovers_closer b) hpop

/-! ### Simple statements -/

theorem keeps_letStatement : c.Keeps H letStatement fun _ => True := by
  refine keeps_advance.step fun start => (keeps_expectIdentifier _ _).step fun name => ?_
  refine (keeps_expectKeyword _ _ _).step fun _ => keeps_expression.step fun init => ?_
  exact (keeps_expectTerminator _).step fun _ => keeps_finish start _

theorem keeps_returnStatement : c.Keeps H returnStatement fun _ => True := by
  refine keeps_advance.step fun start => keeps_current.step fun t => ?_
  extract_lets rest
  have hrest : ∀ value, c.Keeps H (rest value) fun _ => True :=
    fun value => (keeps_expectTerminator _).step fun _ => keeps_finish start _
  refine .ite (Keeps.step (.pure (Q := fun _ => True) fun _ => trivial) hrest) ?_
  exact (Keeps.map (R := fun _ => True) keeps_expression).step hrest

theorem keeps_callStatement : c.Keeps H callStatement fun _ => True := by
  refine keeps_current.step fun start => keeps_call.step fun callee => ?_
  exact (keeps_expectTerminator _).step fun _ => keeps_finish start _

theorem keeps_rejectMisspelt : c.Keeps H rejectMisspelt fun _ => True := by
  refine keeps_lookahead fun t next => ?_
  split
  · exact keeps_fail fun h => places_problem h.2.1 _ _
  · exact .pure fun _ => trivial

theorem keeps_expressionStatement : c.Keeps H expressionStatement fun _ => True := by
  refine keeps_rejectMisspelt.step fun _ => keeps_current.step fun start => ?_
  refine keeps_expression.step fun value => (keeps_expectTerminator _).step fun _ => ?_
  exact keeps_finish start _

/-! ### Statements with blocks -/

theorem keeps_ifHeader : c.Keeps H ifHeader fun h => ∀ d ∈ h.2, c.Places d := by
  refine (keeps_expression (H := H)).attempt.bind fun r => ?_
  cases r with
  | error d => exact .pure fun h e he => Option.some.inj he ▸ h.2.2 d rfl
  | ok condition =>
      refine Keeps.bind (.attempt ((keeps_expectKeyword _ _ _).step fun _ =>
        keeps_expectSign _ _ _)) fun rest => ?_
      cases rest with
      | error d => exact .pure fun h e he => Option.some.inj he ▸ h.2.2 d rfl
      | ok t => exact .pure fun _ => nofun

theorem keeps_forHeader : c.Keeps H forHeader fun h => ∀ d ∈ h.2, c.Places d := by
  refine Keeps.bind (.attempt ((keeps_expectKeyword _ _ _).step fun _ =>
    keeps_expectIdentifier _ _)) fun item => ?_
  cases item with
  | error d => exact .pure fun h e he => Option.some.inj he ▸ h.2.2 d rfl
  | ok item =>
      refine Keeps.bind (.attempt ((keeps_expectKeyword _ _ _).step fun _ => keeps_expression))
        fun iterable => ?_
      cases iterable with
      | error d => exact .pure fun h e he => Option.some.inj he ▸ h.2.2 d rfl
      | ok iterable =>
          refine (keeps_expectSign _ _ _).attempt.bind fun colon => ?_
          cases colon with
          | error d => exact .pure fun h e he => Option.some.inj he ▸ h.2.2 d rfl
          | ok t => exact .pure fun _ => nofun

section

variable {block : Parser (List Stmt)} (hblock : c.Keeps H block fun _ => True)

include hblock

theorem keeps_repeatedOtherwise (ifLine otherwiseLine fuel : Nat) :
    c.Keeps H (repeatedOtherwise block ifLine otherwiseLine fuel) fun _ => True := by
  induction fuel with
  | zero => exact .pure fun _ => trivial
  | succ fuel ih =>
      refine (keeps_atKeyword _).step fun _ => .ite ?_ (.pure fun _ => trivial)
      have hrest : c.Keeps H
          (do
            let _ ← advance
            let _ ← acceptSign .colon
            let statements ← block
            let more ← repeatedOtherwise block ifLine otherwiseLine fuel
            return statements ++ more) fun _ => True := by
        refine keeps_advance.step fun _ => (keeps_acceptSign _).step fun _ => ?_
        exact hblock.step fun statements => ih.step fun more => .pure fun _ => trivial
      refine keeps_current.bind fun t => ?_
      exact (keeps_report fun h => places_problem h.2 _ _).step fun _ => hrest.mono And.left

theorem keeps_otherwiseBranch (ifLine : Nat) :
    c.Keeps H (otherwiseBranch block ifLine) fun _ => True := by
  refine (keeps_atKeyword _).step fun _ => .ite ?_ (.pure fun _ => trivial)
  refine keeps_advance.step fun start => (keeps_acceptSign _).step fun _ => ?_
  extract_lets rest
  have hrest : ∀ u, c.Keeps H (rest u) fun _ => True := by
    refine fun _ => hblock.step fun statements => keeps_remaining.step fun fuel => ?_
    exact (keeps_repeatedOtherwise hblock _ _ fuel).step fun more => .pure fun _ => trivial
  refine .ite (hrest ()) (keeps_current.bind fun t => ?_)
  refine (keeps_report fun h => places_expectation h.2 _ _ _).step fun u => ?_
  exact (hrest u).mono And.left

variable (hrecovers : Recovers block)

include hrecovers

theorem keeps_ifStatement : c.Keeps H (ifStatement block) fun _ => True := by
  refine keeps_advance.step fun start => keeps_remaining.step fun headerStart => ?_
  refine keeps_ifHeader.bind fun header => ?_
  refine (keeps_recoverHeader headerStart And.right).step fun _ => ?_
  refine Keeps.mono (keeps_openBlock _ _ fun _ => ?_) And.left
  refine .step hblock hrecovers fun thenBlock => ?_
  refine .step (keeps_otherwiseBranch hblock _) (recovers_otherwiseBranch hrecovers _) fun _ => ?_
  refine closes_closeBlock _ fun closer => ?_
  split
  · exact .pure fun _ => trivial
  · exact keeps_finish start _

theorem keeps_forStatement : c.Keeps H (forStatement block) fun _ => True := by
  refine keeps_advance.step fun start => keeps_remaining.step fun headerStart => ?_
  refine keeps_forHeader.bind fun header => ?_
  refine (keeps_recoverHeader headerStart And.right).step fun _ => ?_
  refine Keeps.mono (keeps_openBlock _ _ fun _ => ?_) And.left
  refine .step hblock hrecovers fun body => closes_closeBlock _ fun closer => ?_
  split
  · exact keeps_finish start _
  · exact .pure fun _ => trivial

theorem keeps_statement : c.Keeps H (statement block) fun _ => True := by
  refine keeps_current.bind fun t => ?_
  split
  · exact .map keeps_letStatement
  · exact (keeps_ifStatement hblock hrecovers).mono And.left
  · exact (keeps_forStatement hblock hrecovers).mono And.left
  · exact .map keeps_callStatement
  · exact .map keeps_returnStatement
  · exact keeps_fail fun h => places_problem h.2 _ _
  · exact .map keeps_expressionStatement

theorem keeps_recoveringStatement : c.Keeps H (recoveringStatement block) fun _ => True := by
  refine keeps_remaining.step fun start => ?_
  refine (keeps_statement hblock hrecovers).attempt.bind fun r => ?_
  cases r with
  | ok s => exact .pure fun _ => trivial
  | error d =>
      refine (keeps_report fun h => h.2.2 d rfl).step fun _ => ?_
      exact (keeps_synchronize _ _).step fun _ => .pure fun _ => trivial

omit hblock hrecovers in
theorem keeps_blockStep : c.Keeps H blockStep fun _ => True := by
  refine keeps_current.step fun t => keeps_second.step fun word => ?_
  refine keeps_openBlocks.step fun blocks => ?_
  split
  · exact .pure fun _ => trivial
  · exact .pure fun _ => trivial
  · exact .pure fun _ => trivial
  · split
    · exact .pure fun _ => trivial
    · exact .pure fun _ => trivial
  · exact .pure fun _ => trivial

theorem keeps_statements (fuel : Nat) : c.Keeps H (statements block fuel) fun _ => True := by
  induction fuel with
  | zero => exact .pure fun _ => trivial
  | succ fuel ih =>
      refine keeps_current.bind fun t => keeps_blockStep.step fun step => ?_
      have ih : c.Keeps (H ∧ c.Here t) (statements block fuel) fun _ => True := ih.mono And.left
      cases step with
      | leave => exact .pure fun _ => trivial
      | stray word => exact (keeps_skipStrayCloser And.right word).step fun _ => ih
      | statement =>
          refine (keeps_checkTime t).step fun _ => ?_
          refine ((keeps_recoveringStatement hblock hrecovers).mono And.left).step fun s => ?_
          exact ih.step fun rest => .pure fun _ => trivial

end

/-! ### Blocks -/

theorem keeps_blockUpTo (depth : Nat) : c.Keeps H (blockUpTo depth) fun _ => True := by
  induction depth with
  | zero => exact .pure fun _ => trivial
  | succ depth ih =>
      exact keeps_remaining.step fun fuel => keeps_statements ih (recovers_blockUpTo depth) fuel

theorem keeps_block : c.Keeps H block fun _ => True :=
  keeps_remaining.step keeps_blockUpTo

/-! ### Types -/

theorem keeps_typeRefUpTo (fuel : Nat) : c.Keeps H (typeRefUpTo fuel) fun _ => True := by
  induction fuel with
  | zero => exact (keeps_expectIdentifier _ _).step fun t => .pure fun _ => trivial
  | succ fuel ih =>
      refine (keeps_expectIdentifier _ _).step fun t => ?_
      refine .ite ?_ (.pure fun _ => trivial)
      refine (keeps_acceptKeyword _).step fun _ => .ite ?_ (.pure fun _ => trivial)
      exact (ih.nested t).step fun _ => (keeps_spanFrom t).step fun _ => .pure fun _ => trivial

theorem keeps_typeRef : c.Keeps H typeRef fun _ => True :=
  keeps_remaining.step keeps_typeRefUpTo

/-! ### Functions -/

theorem keeps_parameter : c.Keeps H parameter fun _ => True := by
  refine (keeps_expectIdentifier _ _).step fun name => (keeps_expectKeyword _ _ _).step fun _ => ?_
  exact keeps_typeRef.step fun _ => (keeps_spanFrom name).step fun _ => .pure fun _ => trivial

theorem keeps_parameters (fuel : Nat) :
    c.Keeps H (parameters fuel) fun ps => ∀ d ∈ ps.2, c.Places d := by
  induction fuel with
  | zero => exact .pure fun _ => nofun
  | succ fuel ih =>
      refine keeps_parameter.attempt.bind fun r => ?_
      cases r with
      | error d => exact .pure fun h e he => Option.some.inj he ▸ h.2.2 d rfl
      | ok p =>
          refine (keeps_acceptSign _).step fun _ => .ite ?_ (.pure fun _ => nofun)
          exact (ih.mono And.left).bind fun ps => .pure And.right

theorem keeps_returnClause : c.Keeps H returnClause fun _ => True := by
  refine (keeps_acceptKeyword _).step fun _ => .ite ?_ (.pure fun _ => trivial)
  exact .map keeps_typeRef

theorem keeps_headerEnd (name : String) : c.Keeps H (headerEnd name) fun _ => True := by
  refine keeps_current.bind fun t => .ite (keeps_fail fun h => places_problem h.2 _ _) ?_
  exact (keeps_expectSign _ _ _).step fun _ => .pure fun _ => trivial

theorem keeps_functionHeader : c.Keeps H functionHeader fun h => ∀ d ∈ h.2, c.Places d := by
  refine (keeps_expectIdentifier _ _).attempt.bind fun r => ?_
  cases r with
  | error d => exact .pure fun h e he => Option.some.inj he ▸ h.2.2 d rfl
  | ok name =>
      refine keeps_remaining.step fun fuel => (keeps_acceptKeyword _).step fun _ => ?_
      extract_lets rest
      have hrest : ∀ {H : Prop} (ps : List Typed × Option Diagnostic),
          c.Keeps (H ∧ ∀ d ∈ ps.2, c.Places d) (rest ps) fun h => ∀ d ∈ h.2, c.Places d := by
        rintro H ⟨ps, failure⟩
        cases failure with
        | some d => exact .pure And.right
        | none =>
            refine keeps_returnClause.attempt.bind fun returns => ?_
            cases returns with
            | error d => exact .pure fun h e he => Option.some.inj he ▸ h.2.2 d rfl
            | ok returns =>
                refine (keeps_headerEnd _).attempt.bind fun done => ?_
                cases done with
                | error d => exact .pure fun h e he => Option.some.inj he ▸ h.2.2 d rfl
                | ok u => exact .pure fun _ => nofun
      refine .ite ((keeps_parameters _).bind hrest) ?_
      exact Keeps.bind (.pure (Q := fun ps => ∀ d ∈ ps.2, c.Places d) fun _ => nofun) hrest

theorem keeps_functionDecl (define : Token) (purity : Purity) :
    c.Keeps H (functionDecl define purity) fun _ => True := by
  refine (keeps_expectKeyword _ _ _).step fun _ => keeps_current.step fun nameToken => ?_
  refine keeps_remaining.step fun headerStart => keeps_functionHeader.bind fun header => ?_
  refine (keeps_recoverHeader headerStart And.right).step fun _ => ?_
  refine keeps_openBlock _ _ fun _ => .step keeps_block recovers_block fun body => ?_
  exact closes_closeBlock _ fun closer => keeps_finish define _

/-! ### Types and records -/

theorem keeps_literalsRest (name : String) (fuel : Nat) :
    c.Keeps H (literalsRest name fuel) fun _ => True := by
  induction fuel with
  | zero => exact .pure fun _ => trivial
  | succ fuel ih =>
      refine (keeps_acceptKeyword _).step fun _ => .ite ?_ (.pure fun _ => trivial)
      refine keeps_current.bind fun t => ?_
      split
      · refine keeps_advance.step fun _ => (ih.mono And.left).step fun _ => ?_
        exact .pure fun _ => trivial
      · exact keeps_fail fun h => places_expectation h.2 _ _ _

theorem keeps_typeDecl {define : Token} (hdefine : H → c.Here define) :
    c.Keeps H (typeDecl define) fun _ => True := by
  refine (keeps_expectKeyword _ _ _).step fun _ => (keeps_expectIdentifier _ _).step fun name => ?_
  extract_lets text context rest
  refine (keeps_expectKeyword _ _ _).step fun _ => keeps_current.step fun t => ?_
  have hrest : ∀ body, c.Keeps H (rest body) fun _ => True :=
    fun body => (keeps_expectTerminator _).step fun _ => keeps_finish define _
  split
  · refine keeps_advance.step fun _ => keeps_remaining.step fun fuel => ?_
    refine (keeps_literalsRest _ fuel).step fun values => ?_
    extract_lets values twice body
    have hbody : ∀ u, c.Keeps H (body u) fun _ => True := fun _ =>
      (Keeps.pure (Q := fun _ => True) fun _ => trivial).step hrest
    refine .ite (hbody ()) ?_
    exact (keeps_report fun hH => places_problem (hdefine hH) _ _).step hbody
  · exact (Keeps.map (R := fun _ => True) keeps_typeRef).step hrest

theorem keeps_recordField (record : String) :
    c.Keeps H (recordField record) fun _ => True := by
  refine (keeps_expectIdentifier _ _).step fun field => (keeps_expectKeyword _ _ _).step fun _ => ?_
  refine keeps_typeRef.step fun _ => (keeps_expectTerminator _).step fun _ => ?_
  exact (keeps_spanFrom field).step fun _ => .pure fun _ => trivial

theorem keeps_recordFields (record : String) (fuel : Nat) :
    c.Keeps H (recordFields record fuel) fun _ => True := by
  induction fuel with
  | zero => exact .pure fun _ => trivial
  | succ fuel ih =>
      refine keeps_current.step fun t => ?_
      split
      · exact .pure fun _ => trivial
      · exact .pure fun _ => trivial
      · exact .pure fun _ => trivial
      · refine keeps_remaining.step fun start => (keeps_recordField record).attempt.bind fun r => ?_
        cases r with
        | ok f => exact (ih.mono And.left).step fun fs => .pure fun _ => trivial
        | error d =>
            refine (keeps_report fun h => h.2.2 d rfl).step fun _ => ?_
            exact (keeps_synchronize _ _).step fun _ => ih.mono And.left

theorem keeps_recordDecl (define : Token) : c.Keeps H (recordDecl define) fun _ => True := by
  refine (keeps_expectKeyword _ _ _).step fun _ => (keeps_expectIdentifier _ _).step fun name => ?_
  refine (keeps_expectSign _ _ _).step fun _ => ?_
  have hfields : ∀ context : Block, c.Closes H
      (do
        let fuel ← remaining
        let fields ← recordFields name.lexeme fuel
        let _ ← closeBlock context
        let span ← spanFrom define
        countNode define
        return (⟨name.lexeme, fields, span⟩ : RecordDecl)) fun _ => True := by
    refine fun context => .step keeps_remaining recovers_remaining fun fuel => ?_
    refine .step (keeps_recordFields _ fuel) (recovers_recordFields _ fuel) fun fields => ?_
    exact closes_closeBlock _ fun closer => keeps_finish define _
  exact keeps_openBlock _ _ fun _ => hfields _

/-! ### Declarations -/

theorem keeps_declaration : c.Keeps H declaration fun _ => True := by
  refine (keeps_expectKeyword _ _ _).bind fun define => ?_
  refine (keeps_acceptKeyword _).step fun effectful => keeps_current.bind fun t => ?_
  split
  · exact .map (keeps_functionDecl _ _)
  · refine .ite (keeps_fail fun h => places_expectation h.2 _ _ _) ?_
    split
    · exact .map (keeps_typeDecl fun h => h.1.2)
    · exact .map (keeps_recordDecl _)
    · exact keeps_fail fun h => places_expectation h.2 _ _ _

theorem keeps_skipToDefine (fuel : Nat) : c.Keeps H (skipToDefine fuel) fun _ => True := by
  induction fuel with
  | zero => exact .pure fun _ => trivial
  | succ fuel ih =>
      refine keeps_current.step fun t => .ite (.pure fun _ => trivial) ?_
      exact keeps_advance.step fun _ => ih

theorem keeps_skipping :
    c.Keeps H (do skipToDefine (← remaining); return (none : Option Decl)) fun _ => True :=
  keeps_remaining.step fun fuel => (keeps_skipToDefine fuel).step fun _ => .pure fun _ => trivial

theorem keeps_recoveringDeclaration : c.Keeps H recoveringDeclaration fun _ => True := by
  refine keeps_remaining.step fun start => keeps_declaration.attempt.bind fun r => ?_
  cases r with
  | ok d => exact .pure fun _ => trivial
  | error d =>
      refine (keeps_report fun h => h.2.2 d rfl).step fun _ => ?_
      exact (keeps_synchronize _ _).step fun _ => keeps_skipping

theorem keeps_topLevel : c.Keeps H topLevel fun _ => True := by
  refine keeps_current.bind fun t => .ite keeps_recoveringDeclaration ?_
  refine (keeps_report fun h => places_problem h.2 _ _).step fun _ => ?_
  exact keeps_advance.step fun _ => keeps_skipping

end Prosaic.Parser.Pairing
