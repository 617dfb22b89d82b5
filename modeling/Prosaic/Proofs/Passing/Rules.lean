import Prosaic.Proofs.Passing.Basic

/-!
The rules of the grammar take no `Define`, except behind a word that opens a header; and a turn of
the top level, as its first token.
-/

namespace Prosaic.Parser

variable {α β : Type} {b : Bool} {t : Token} {P : List Token → Prop}

/-! ### Operators -/

/-- No operator is a `Define`. -/
structure Operator {ω : Type} (operator : Token → Option ω) : Prop where
  not_define : ∀ t op, operator t = some op → t.isKeyword .define = false

theorem operator_or : Operator orOp? where
  not_define t op h := by
    unfold orOp? at h
    split at h <;> simp_all [Token.isKeyword]

theorem operator_and : Operator andOp? where
  not_define t op h := by
    unfold andOp? at h
    split at h <;> simp_all [Token.isKeyword]

theorem operator_order : Operator orderOp? where
  not_define t op h := by
    unfold orderOp? at h
    split at h <;> simp_all [Token.isKeyword]

theorem operator_additive : Operator additiveOp? where
  not_define t op h := by
    unfold additiveOp? at h
    split at h <;> simp_all [Token.isKeyword]

theorem operator_multiplicative : Operator multiplicativeOp? where
  not_define t op h := by
    unfold multiplicativeOp? at h
    split at h <;> simp_all [Token.isKeyword]

theorem operator_unary : Operator prefixOp? where
  not_define t op h := by
    unfold prefixOp? at h
    split at h <;> simp_all [Token.isKeyword]

section

variable {operand : Parser Expr} (hoperand : Spares operand)
  {operator : Token → Option BinaryOp} (hoperator : Operator operator)

theorem spares_binary (op : BinaryOp) (left right : Expr) (start : Token) :
    Spares (binary op left right start) := spares_finish start _

include hoperand

theorem spares_prefixed (fuel : Nat) : Spares (prefixed operand fuel) := by
  induction fuel with
  | zero => exact hoperand
  | succ fuel ih =>
      refine .current fun t => ?_
      cases hop : prefixOp? t with
      | none => exact .of hoperand
      | some op =>
          refine .take (operator_unary.not_define t op hop) fun _ => ?_
          exact (ih.nested t).bind fun e => spares_finish t _

include hoperator

theorem spares_chainRest (start : Token) (fuel : Nat) (left : Expr) :
    Spares (chainRest operator operand start fuel left) := by
  induction fuel generalizing left with
  | zero => exact .pure
  | succ fuel ih =>
      refine .current fun t => ?_
      cases hop : operator t with
      | none => exact .pure
      | some op =>
          refine .take (hoperator.not_define t op hop) fun _ => Spares.nested ?_ t
          exact hoperand.bind fun right => (spares_binary op left right start).bind ih

theorem spares_chain : Spares (chain operator operand) :=
  .look fun start => hoperand.bind fun left => .look fun fuel =>
    spares_chainRest hoperand hoperator start fuel left

end

/-! ### Expressions -/

section

variable {inner : Parser Expr} (hinner : Spares inner)

theorem passes_leaf (ht : t.isKeyword .define = false) (node : ExprNote → Expr) :
    Passes b (At t) (leaf t node) :=
  .take ht fun _ => (spares_spend _).bind fun _ => .pure

theorem spares_noExpression : Spares noExpression := .look fun _ => passes_fail _

include hinner

theorem spares_argumentsRest (fuel : Nat) : Spares (argumentsRest inner fuel) := by
  induction fuel with
  | zero => exact .pure
  | succ fuel ih =>
      refine (spares_acceptSign .comma).bind fun more => .ite (fun _ => ?_) fun _ => .pure
      exact hinner.bind fun _ => ih.bind fun _ => .pure

theorem spares_arguments : Spares (arguments inner) :=
  hinner.bind fun _ => .look fun fuel => (spares_argumentsRest hinner fuel).bind fun _ => .pure

theorem passes_callWith (ht : t.isKeyword .define = false) :
    Passes b (At t) (callWith inner) := by
  refine .take ht fun start => (spares_expectIdentifier _ _).bind fun callee => ?_
  refine (spares_acceptKeyword (by decide)).bind fun passes => ?_
  extract_lets rest
  have hrest : ∀ args, Spares (rest args) := fun args => spares_finish start _
  refine .ite (fun _ => (spares_arguments hinner).bind hrest) fun _ => .look fun t => ?_
  refine .ite (fun _ => (passes_fail _).bind hrest) fun _ => ?_
  exact Passes.bind .pure hrest

theorem spares_primary : Spares (primary inner) := by
  refine .current fun t => ?_
  split
  iterate 5
    · next hkind => exact passes_leaf (by simp [Token.isKeyword, hkind]) _
  · next hkind =>
      refine .take (by simp [Token.isKeyword, hkind]) fun _ => hinner.bind fun e => ?_
      exact (spares_expectSign _ _ _).bind fun _ => .pure
  · next hkind =>
      refine .take (by simp [Token.isKeyword, hkind]) fun _ => .look fun next => ?_
      extract_lets rest
      have hrest : ∀ elements, Spares (rest elements) :=
        fun elements => (spares_expectSign _ _ _).bind fun _ => spares_finish t _
      refine .ite (fun _ => Passes.bind .pure hrest) fun _ => ?_
      exact (spares_arguments hinner).bind hrest
  · exact .of spares_noExpression

omit hinner in
theorem spares_selectionRest (start : Token) (fuel : Nat) (base : Expr) :
    Spares (selectionRest start fuel base) := by
  induction fuel generalizing base with
  | zero => exact .pure
  | succ fuel ih =>
      refine .current fun t => .ite (fun hdot => ?_) fun _ => .pure
      refine .take (not_define_of_isSign hdot) fun _ => Spares.nested ?_ t
      refine (spares_expectIdentifier _ _).bind fun name => .look fun span => ?_
      exact (spares_spend _).bind fun _ => ih _

theorem spares_selection : Spares (selection inner) :=
  .look fun start => (spares_primary hinner).bind fun base => .look fun fuel =>
    spares_selectionRest start fuel base

theorem spares_application : Spares (application inner) := by
  refine .current fun t => ?_
  by_cases hdefine : t.isKeyword .define = true
  · -- a declaration starts here, and there is nothing to read
    have hkind : t.kind = .keyword .define := by simpa [Token.isKeyword] using hdefine
    refine .look fun next => ?_
    simp only [hkind]
    exact .of (spares_selection hinner)
  · have hdefine := Bool.eq_false_iff.mpr hdefine
    refine .second hdefine fun next => ?_
    split
    · exact ((passes_callWith hinner hdefine).weaken fun _ => AtTwo.at).bind fun _ => .pure
    · next hnext =>
        refine .advanceTwo hdefine fun _ => .take (by simp [Token.isKeyword, hnext]) fun _ => ?_
        exact (spares_arguments hinner).bind fun args => spares_finish t _
    · exact .of (spares_selection hinner)

theorem spares_unaryRung : Spares (unaryRung inner) :=
  .look fun fuel => spares_prefixed (spares_application hinner) fuel

theorem spares_additiveRung : Spares (additiveRung inner) :=
  spares_chain (spares_chain (spares_unaryRung hinner) operator_multiplicative) operator_additive

omit hinner in
theorem spares_acceptComparison : Spares acceptComparison := by
  refine (spares_acceptKeyword (by decide)).bind fun _ => .ite (fun _ => ?_) fun _ => ?_
  · refine (spares_acceptKeyword (by decide)).bind fun _ => .ite (fun _ => .pure) fun _ => .pure
  · refine .current fun t => ?_
    cases hop : orderOp? t with
    | none => exact .pure
    | some op => exact .take (operator_order.not_define t op hop) fun _ => .pure

theorem spares_comparisonRung : Spares (comparisonRung inner) := by
  refine .look fun start => (spares_additiveRung hinner).bind fun left => ?_
  refine spares_acceptComparison.bind fun op? => ?_
  cases op? with
  | none => exact .pure
  | some op =>
      refine (spares_additiveRung hinner).bind fun right => ?_
      refine (spares_binary op left right start).bind fun node => .look fun t => ?_
      exact .ite (fun _ => passes_fail _) fun _ => .pure

theorem spares_expressionWith : Spares (expressionWith inner) := by
  have hand : Spares (andRung inner) := spares_chain (spares_comparisonRung hinner) operator_and
  exact .look fun start => (spares_chain hand operator_or).nested start

end

theorem spares_expressionUpTo (fuel : Nat) : Spares (expressionUpTo fuel) := by
  induction fuel with
  | zero => exact spares_expressionWith spares_noExpression
  | succ fuel ih => exact spares_expressionWith ih

theorem spares_expression : Spares expression := .look spares_expressionUpTo

theorem passes_call (ht : t.isKeyword .define = false) : Passes b (At t) call :=
  .look fun fuel => passes_callWith (spares_expressionUpTo fuel) ht

/-! ### Closers -/

theorem passes_skipStrayCloser {endToken word : Token}
    (hend : endToken.isKeyword .define = false) (hword : word.isKeyword .define = false) :
    Passes b (AtTwo endToken word) (skipStrayCloser endToken word) := by
  refine .look fun blocks => .stay (stays_report _) fun _ => ?_
  refine .advanceTwo hend fun _ => .take hword fun _ => ?_
  exact spares_acceptTerminator.bind fun _ => .pure

/-- No word that closes a construct is a `Define`. -/
theorem not_define_of_closes? {word : Token} {kind : BlockKind} (h : closes? word = some kind) :
    word.isKeyword .define = false := by
  unfold closes? Token.keyword? at h
  split at h
  · next w hkind =>
      simp only [Token.isKeyword, hkind, decide_eq_false_iff_not]
      rintro hdefine
      cases hdefine
      cases h
  · cases h

theorem spares_closer (b : Block) : Spares (closer b) := by
  refine .current fun t => ?_
  by_cases hend : t.kind = .keyword .end_
  · have hdefine : t.isKeyword .define = false := by simp [Token.isKeyword, hend]
    refine .second hdefine fun word => ?_
    simp only [hend]
    split
    · next kind hcloses =>
        refine .ite (fun _ => ?_) fun _ => .stay (stays_report _) fun _ => .pure
        refine .advanceTwo hdefine fun _ => .take (not_define_of_closes? hcloses) fun _ => ?_
        refine spares_acceptTerminator.bind fun closed => .ite (fun _ => .pure) fun _ => ?_
        exact .look fun _ => .stay (stays_report _) fun _ => .pure
    · refine .stay (stays_report _) fun _ => .weaken (.take hdefine fun _ => ?_) fun _ => AtTwo.at
      exact spares_acceptTerminator.bind fun _ => .pure
  · refine .look fun word => ?_
    split
    · exact absurd ‹_› hend
    · exact .stay (stays_report _) fun _ => .pure

theorem spares_closeBlock (b : Block) : Spares (closeBlock b) :=
  (spares_closer b).bind fun _ => Passes.stay ⟨reads_popBlock.moves, fun _ => rfl⟩ fun _ => .pure

theorem spares_openBlock (b : Block) (opener : Token) : Spares (openBlock b opener) :=
  (spares_spend _).bind fun _ =>
    Stays.spares ⟨fun _ => ⟨List.suffix_rfl, rfl, List.suffix_rfl⟩, fun _ => rfl⟩

/-! ### Simple statements -/

theorem passes_letStatement (ht : t.isKeyword .define = false) : Passes b (At t) letStatement := by
  refine .take ht fun start => (spares_expectIdentifier _ _).bind fun name => ?_
  refine (spares_expectKeyword (by decide) _ _).bind fun _ => spares_expression.bind fun init => ?_
  exact (spares_expectTerminator _).bind fun _ => spares_finish start _

theorem passes_returnStatement (ht : t.isKeyword .define = false) :
    Passes b (At t) returnStatement := by
  refine .take ht fun start => .look fun t => ?_
  extract_lets rest
  have hrest : ∀ value, Spares (rest value) :=
    fun value => (spares_expectTerminator _).bind fun _ => spares_finish start _
  exact .ite (fun _ => Passes.bind .pure hrest) fun _ => spares_expression.map.bind hrest

theorem passes_callStatement (ht : t.isKeyword .define = false) :
    Passes b (At t) callStatement := by
  refine .look fun start => (passes_call ht).bind fun callee => ?_
  exact (spares_expectTerminator _).bind fun _ => spares_finish start _

theorem spares_expressionStatement : Spares expressionStatement := by
  have hmisspelt : Spares rejectMisspelt := by
    refine .look fun t => .look fun next => ?_
    split
    · exact passes_fail _
    · exact .pure
  refine hmisspelt.bind fun _ => .look fun start => spares_expression.bind fun value => ?_
  exact (spares_expectTerminator _).bind fun _ => spares_finish start _

/-! ### Statements with blocks -/

theorem spares_ifHeader : Spares ifHeader := by
  refine spares_expression.attempt.bind fun r => ?_
  cases r with
  | error d => exact .pure
  | ok condition =>
      refine Passes.bind (.attempt ((spares_expectKeyword (by decide) _ _).bind fun _ =>
        spares_expectSign _ _ _)) fun rest => ?_
      cases rest with
      | error d => exact .pure
      | ok t => exact .pure

theorem spares_forHeader : Spares forHeader := by
  refine Passes.bind (.attempt ((spares_expectKeyword (by decide) _ _).bind fun _ =>
    spares_expectIdentifier _ _)) fun item => ?_
  cases item with
  | error d => exact .pure
  | ok item =>
      refine Passes.bind (.attempt ((spares_expectKeyword (by decide) _ _).bind fun _ =>
        spares_expression)) fun iterable => ?_
      cases iterable with
      | error d => exact .pure
      | ok iterable =>
          refine (spares_expectSign _ _ _).attempt.bind fun colon => ?_
          cases colon with
          | error d => exact .pure
          | ok t => exact .pure

section

variable {block : Parser (List Stmt)} (hblock : Spares block)

include hblock

theorem spares_repeatedOtherwise (ifLine otherwiseLine fuel : Nat) :
    Spares (repeatedOtherwise block ifLine otherwiseLine fuel) := by
  induction fuel with
  | zero => exact .pure
  | succ fuel ih =>
      refine .current (f := fun t => if t.isKeyword .otherwise then _ else _) fun t => ?_
      refine .ite (fun hword => ?_) fun _ => .pure
      have ht := not_define_of_isKeyword hword (by decide)
      refine .look fun _ => .stay (stays_report _) fun _ => .take ht fun _ => ?_
      refine (spares_acceptSign _).bind fun _ => hblock.bind fun statements => ?_
      exact ih.bind fun more => .pure

theorem spares_otherwiseBranch (ifLine : Nat) : Spares (otherwiseBranch block ifLine) := by
  refine .current (f := fun t => if t.isKeyword .otherwise then _ else _) fun t => ?_
  refine .ite (fun hword => ?_) fun _ => .pure
  refine .take (not_define_of_isKeyword hword (by decide)) fun start => ?_
  refine (spares_acceptSign _).bind fun _ => ?_
  extract_lets rest
  have hrest : ∀ u, Spares (rest u) := by
    refine fun _ => hblock.bind fun statements => .look fun fuel => ?_
    exact (spares_repeatedOtherwise hblock _ _ fuel).bind fun more => .pure
  exact .ite (fun _ => hrest ()) fun _ => .look fun _ => .stay (stays_report _) hrest

theorem passes_ifStatement (ht : t.isKeyword .if_ = true) :
    Passes b (At t) (ifStatement block) := by
  refine .advance (not_define_imp (not_define_of_isKeyword ht (by decide))) fun start => ?_
  rw [Token.opens_of_if ht]
  refine passes_header spares_ifHeader Prod.snd fun header _ => ?_
  refine (spares_openBlock _ _).bind fun _ => hblock.bind fun thenBlock => ?_
  refine (spares_otherwiseBranch hblock _).bind fun otherwise => ?_
  refine (spares_closeBlock _).bind fun _ => ?_
  split
  · exact .pure
  · exact spares_finish start _

theorem passes_forStatement (ht : t.isKeyword .for_ = true) :
    Passes b (At t) (forStatement block) := by
  refine .advance (not_define_imp (not_define_of_isKeyword ht (by decide))) fun start => ?_
  rw [Token.opens_of_for ht]
  refine passes_header spares_forHeader Prod.snd fun header _ => ?_
  refine (spares_openBlock _ _).bind fun _ => hblock.bind fun body => ?_
  refine (spares_closeBlock _).bind fun _ => ?_
  split
  · exact spares_finish start _
  · exact .pure

theorem spares_statement : Spares (statement block) := by
  refine .current fun t => ?_
  have hword : ∀ {word : Keyword}, t.kind = .keyword word → t.isKeyword word = true := by
    intro word hkind
    simp [Token.isKeyword, hkind]
  split
  · next hkind =>
      exact (passes_letStatement (not_define_of_isKeyword (hword hkind) (by decide))).map
  · next hkind => exact passes_ifStatement hblock (hword hkind)
  · next hkind => exact passes_forStatement hblock (hword hkind)
  · next hkind =>
      exact (passes_callStatement (not_define_of_isKeyword (hword hkind) (by decide))).map
  · next hkind =>
      exact (passes_returnStatement (not_define_of_isKeyword (hword hkind) (by decide))).map
  · exact passes_fail _
  · exact .of spares_expressionStatement.map

theorem passes_recoveringStatement (ht : t.isKeyword .define = false) :
    Passes b (At t) (recoveringStatement block) :=
  passes_recovering (not_define_imp ht) (.of (spares_statement hblock)) (fun _ _ => .pure) .pure
    fun _ _ => rfl

theorem moves_recoveringStatement : Moves (recoveringStatement block) := by
  refine moves_remaining.bind fun start => (spares_statement hblock).moves.attempt.bind fun r => ?_
  cases r with
  | ok s => exact .pure _
  | error d =>
      exact (moves_report d).bind fun _ => (moves_synchronize _ _).bind fun _ => .pure _

omit hblock in
/-- A block reads a statement only before a token that is no `Define`, and skips a closer only if it
is one. -/
theorem tells_blockStep (s : State) : Tells s blockStep fun step =>
    step = .leave ∨ s.current.isKeyword .define = false ∧
      (step = .statement ∨ step = .stray s.second ∧ s.second.isKeyword .define = false) := by
  refine .look (.look (.look ?_))
  split
  · exact .pure (.inl rfl)
  · exact .pure (.inl rfl)
  · next hkind =>
      refine .pure ?_
      split
      · exact .inl rfl
      · exact .inr ⟨by simp [Token.isKeyword, hkind], .inl rfl⟩
  · next hkind =>
      split
      · next kind hcloses =>
          refine .pure ?_
          split
          · exact .inl rfl
          · refine .inr ⟨?_, .inr ⟨rfl, not_define_of_closes? hcloses⟩⟩
            simp [Token.isKeyword, hkind]
      · exact .pure (.inl rfl)
  · next hkind _ _ =>
      refine .pure (.inr ⟨?_, .inl rfl⟩)
      simp only [Token.isKeyword, decide_eq_false_iff_not]
      exact hkind

omit hblock in
/-- A block behind the token that it stands at. -/
theorem passes_blockStep {f : BlockStep → Parser β} (hmoves : ∀ step, Moves (f step))
    (hleave : Passes b (At t) (f .leave))
    (hstray : ∀ word, t.isKeyword .define = false → word.isKeyword .define = false →
      Passes b (AtTwo t word) (f (.stray word)))
    (hstatement : t.isKeyword .define = false → Passes b (At t) (f .statement)) :
    Passes b (At t) (blockStep >>= f) where
  moves := reads_blockStep.moves.bind hmoves
  passed s hs := by
    obtain ⟨step, hstep, hcases⟩ := tells_blockStep s
    simp only [Bind.bind, hstep]
    obtain rfl | ⟨ht, rfl | ⟨rfl, hword⟩⟩ := hcases
    · exact hleave.passed s hs
    · exact (hstatement (hs.current ▸ ht)).passed s hs
    · have ht := hs.current ▸ ht
      obtain ⟨rest, hrest⟩ := List.head?_eq_some_iff.mp hs
      cases rest with
      | nil => exact (hmoves _ s).passed_single hrest ht
      | cons u rest =>
          have hsecond : s.second = u := by rw [State.second, hrest]; rfl
          rw [hsecond] at hword ⊢
          exact (hstray u ht hword).passed s ⟨rest, hrest⟩

theorem spares_statements (fuel : Nat) : Spares (statements block fuel) := by
  induction fuel with
  | zero => exact .pure
  | succ fuel ih =>
      refine .current fun t => passes_blockStep (fun step => ?_) .pure (fun word ht hword => ?_) ?_
      · cases step with
        | leave => exact .pure _
        | stray word => exact (takes_skipStrayCloser t word).moves.bind fun _ => ih.moves
        | statement =>
            refine (stays_checkTime t).moves.bind fun _ => ?_
            exact (moves_recoveringStatement hblock).bind fun s => ih.moves.bind fun _ => .pure _
      · exact (passes_skipStrayCloser ht hword).bind fun _ => ih
      · intro ht
        refine .stay (stays_checkTime t) fun _ => (passes_recoveringStatement hblock ht).bind ?_
        exact fun s => ih.bind fun rest => .pure

end

theorem spares_block : Spares block := by
  have hupTo : ∀ depth, Spares (blockUpTo depth) := by
    intro depth
    induction depth with
    | zero => exact .pure
    | succ depth ih => exact .look fun fuel => spares_statements ih fuel
  exact .look hupTo

/-! ### Types -/

theorem spares_typeRefUpTo (fuel : Nat) : Spares (typeRefUpTo fuel) := by
  induction fuel with
  | zero => exact (spares_expectIdentifier _ _).bind fun t => .pure
  | succ fuel ih =>
      refine (spares_expectIdentifier _ _).bind fun t => .ite (fun _ => ?_) fun _ => .pure
      refine (spares_acceptKeyword (by decide)).bind fun _ => .ite (fun _ => ?_) fun _ => .pure
      exact (ih.nested t).bind fun _ => .look fun _ => .pure

theorem spares_typeRef : Spares typeRef := .look spares_typeRefUpTo

/-! ### Functions -/

theorem spares_parameter : Spares parameter := by
  refine (spares_expectIdentifier _ _).bind fun name => ?_
  refine (spares_expectKeyword (by decide) _ _).bind fun _ => spares_typeRef.bind fun _ => ?_
  exact .look fun _ => .pure

theorem spares_parameters (fuel : Nat) : Spares (parameters fuel) := by
  induction fuel with
  | zero => exact .pure
  | succ fuel ih =>
      refine spares_parameter.attempt.bind fun r => ?_
      cases r with
      | error d => exact .pure
      | ok p =>
          refine (spares_acceptSign _).bind fun _ => .ite (fun _ => ?_) fun _ => .pure
          exact ih.bind fun ps => .pure

theorem spares_returnClause : Spares returnClause :=
  (spares_acceptKeyword (by decide)).bind fun _ => .ite (fun _ => spares_typeRef.map) fun _ => .pure

theorem spares_headerEnd (name : String) : Spares (headerEnd name) :=
  .look fun _ => .ite (fun _ => passes_fail _) fun _ =>
    (spares_expectSign _ _ _).bind fun _ => .pure

theorem spares_functionHeader : Spares functionHeader := by
  refine (spares_expectIdentifier _ _).attempt.bind fun r => ?_
  cases r with
  | error d => exact .pure
  | ok name =>
      refine .look fun fuel => (spares_acceptKeyword (by decide)).bind fun _ => ?_
      extract_lets rest
      have hrest : ∀ ps, Spares (rest ps) := by
        rintro ⟨ps, failure⟩
        cases failure with
        | some d => exact .pure
        | none =>
            refine spares_returnClause.attempt.bind fun returns => ?_
            cases returns with
            | error d => exact .pure
            | ok returns =>
                refine (spares_headerEnd _).attempt.bind fun done => ?_
                cases done with
                | error d => exact .pure
                | ok u => exact .pure
      exact .ite (fun _ => (spares_parameters _).bind hrest) fun _ => Passes.bind .pure hrest

/-- The word `function` opens the header behind it. -/
theorem passes_functionDecl (ht : t.isKeyword .function = true) (define : Token) (purity : Purity) :
    Passes b (At t) (functionDecl define purity) := by
  refine .expect ht (not_define_imp (not_define_of_isKeyword ht (by decide))) _ _ fun _ => ?_
  rw [Token.opens_of_function ht]
  refine .look fun nameToken => passes_header spares_functionHeader Prod.snd fun header _ => ?_
  refine (spares_openBlock _ _).bind fun _ => spares_block.bind fun body => ?_
  exact (spares_closeBlock _).bind fun closer => spares_finish define _

/-! ### Types and records -/

theorem spares_literalsRest (name : String) (fuel : Nat) : Spares (literalsRest name fuel) := by
  induction fuel with
  | zero => exact .pure
  | succ fuel ih =>
      refine (spares_acceptKeyword (by decide)).bind fun _ => .ite (fun _ => ?_) fun _ => .pure
      refine .current fun t => ?_
      split
      · next hkind =>
          exact .take (by simp [Token.isKeyword, hkind]) fun _ => ih.bind fun _ => .pure
      · exact passes_fail _

theorem spares_typeDecl (define : Token) : Spares (typeDecl define) := by
  refine (spares_expectKeyword (by decide) _ _).bind fun _ => ?_
  refine (spares_expectIdentifier _ _).bind fun name => ?_
  extract_lets text context rest
  have hrest : ∀ body, Spares (rest body) :=
    fun body => (spares_expectTerminator _).bind fun _ => spares_finish define _
  refine (spares_expectKeyword (by decide) _ _).bind fun _ => .current fun t => ?_
  split
  · next hkind =>
      refine .take (by simp [Token.isKeyword, hkind]) fun _ => .look fun fuel => ?_
      refine (spares_literalsRest _ fuel).bind fun values => ?_
      extract_lets values twice body
      have hbody : ∀ u, Spares (body u) := fun _ => Passes.bind .pure hrest
      exact .ite (fun _ => hbody ()) fun _ => .stay (stays_report _) hbody
  · exact .of (spares_typeRef.map.bind hrest)

theorem spares_recordField (record : String) : Spares (recordField record) := by
  refine (spares_expectIdentifier _ _).bind fun field => ?_
  refine (spares_expectKeyword (by decide) _ _).bind fun _ => spares_typeRef.bind fun _ => ?_
  exact (spares_expectTerminator _).bind fun _ => .look fun _ => .pure

theorem spares_recordFields (record : String) (fuel : Nat) :
    Spares (recordFields record fuel) := by
  induction fuel with
  | zero => exact .pure
  | succ fuel ih =>
      refine .current fun t => ?_
      split
      · exact .pure
      · exact .pure
      · exact .pure
      · next hkind =>
          have ht : t.isKeyword .define = false := by
            simp only [Token.isKeyword, decide_eq_false_iff_not]
            exact hkind
          exact passes_recovering (not_define_imp ht) (.of (spares_recordField record))
            (fun _ _ => ih.bind fun _ => .pure) ih fun _ _ => rfl

theorem spares_recordDecl (define : Token) : Spares (recordDecl define) := by
  refine (spares_expectKeyword (by decide) _ _).bind fun _ => ?_
  refine (spares_expectIdentifier _ _).bind fun name => (spares_expectSign _ _ _).bind fun _ => ?_
  refine (spares_openBlock _ _).bind fun _ => .look fun fuel => ?_
  refine (spares_recordFields _ fuel).bind fun fields => (spares_closeBlock _).bind fun _ => ?_
  exact spares_finish define _

/-! ### Declarations -/

/-- A declaration starts with `Define`. -/
theorem passes_declaration (ht : t.isKeyword .define = true) : Passes true (At t) declaration := by
  refine .expect ht (fun _ => rfl) _ _ fun define => .of ?_
  refine (spares_acceptKeyword (by decide)).bind fun effectful => .current fun t => ?_
  split
  · next hkind => exact (passes_functionDecl (by simp [Token.isKeyword, hkind]) _ _).map
  · refine .ite (fun _ => passes_fail _) fun _ => ?_
    split
    · exact .of (spares_typeDecl _).map
    · exact .of (spares_recordDecl _).map
    · exact passes_fail _

theorem spares_skipToDefine (fuel : Nat) : Spares (skipToDefine fuel) := by
  induction fuel with
  | zero => exact .pure
  | succ fuel ih =>
      refine .current fun t => .ite (fun _ => .pure) fun h => .take ?_ fun _ => ih
      rw [Bool.or_eq_true, not_or] at h
      exact Bool.eq_false_iff.mpr h.2

theorem spares_skipping :
    Spares (do skipToDefine (← remaining); return (none : Option Decl)) :=
  .look fun fuel => (spares_skipToDefine fuel).bind fun _ => .pure

theorem passes_topLevel : Passes true P topLevel := by
  refine .current fun t => .ite (fun ht => ?_) fun ht => ?_
  · exact passes_recovering (fun _ => rfl) (passes_declaration ht)
      (fun _ _ => .pure) spares_skipping
      fun _ _ => rfl
  · exact .stay (stays_report _) fun _ => .take (Bool.eq_false_iff.mpr ht) fun _ => spares_skipping

end Prosaic.Parser
