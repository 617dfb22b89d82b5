import Prosaic.Proofs.Counting.Basic
import Prosaic.Proofs.Limits

/-!
The syntax nodes of a program. A reading that reports nothing counts every expression, every
statement and every declaration of its program once, and nothing else: what is in parentheses,
types, parameters and fields are no nodes. There is one lemma for each rule of the grammar.

So the same tokens are rejected under a limit that the number of nodes exceeds, and read in the same
way under any other one. The program without declarations is read under every limit, even one below
zero.
-/

namespace Prosaic

namespace Parser

variable {α β : Type}

/-! ### Expressions -/

/-- A parser that counts the nodes of the expression that it reads. -/
abbrev Sized (p : Parser Expr) : Prop := Meters p fun e n => n = e.size

theorem meters_binary (op : BinaryOp) (left right : Expr) (start : Token) :
    Meters (binary op left right start) fun e n => e.size = left.size + right.size + n := by
  refine (meters_finish start fun span => Expr.binary op left right ⟨span, none⟩).mono ?_
  rintro e n ⟨rfl, span, rfl⟩
  rw [Expr.size_binary]

section

variable {operand : Parser Expr} (hoperand : Sized operand)

include hoperand

/-- Behind the first operands of a chain, the nodes that come to these are counted. -/
theorem meters_chainRest (operator : Token → Option BinaryOp) (start : Token) (fuel : Nat)
    (left : Expr) : Meters (chainRest operator operand start fuel left)
      fun e n => e.size = left.size + n := by
  induction fuel generalizing left with
  | zero => exact .pure rfl
  | succ fuel ih =>
      refine free_current.step fun t => ?_
      cases operator t with
      | none => exact .pure rfl
      | some op =>
          refine free_advance.step fun _ => .nested ?_ t
          refine hoperand.bind fun right m =>
            (meters_binary op left right start).bind fun node k => ?_
          refine (ih node).mono fun e n he hnode hright => ?_
          rw [he, hnode, hright]
          omega

theorem meters_chain (operator : Token → Option BinaryOp) : Sized (chain operator operand) := by
  refine free_current.step fun start => hoperand.bind fun left m =>
    free_remaining.step fun fuel => ?_
  refine (meters_chainRest hoperand operator start fuel left).mono fun e n he hleft => ?_
  rw [he, hleft]

theorem meters_prefixed (fuel : Nat) : Sized (prefixed operand fuel) := by
  induction fuel with
  | zero => exact hoperand
  | succ fuel ih =>
      refine free_current.step fun t => ?_
      cases prefixOp? t with
      | none => exact hoperand
      | some op =>
          refine free_advance.step fun _ => (ih.nested t).bind fun e m => ?_
          refine (meters_finish t fun span => Expr.unary op e ⟨span, none⟩).mono ?_
          rintro node n ⟨rfl, span, rfl⟩ he
          rw [he, Expr.size_unary]

end

section

variable {inner : Parser Expr} (hinner : Sized inner)

theorem meters_leaf (t : Token) {node : ExprNote → Expr} (hnode : ∀ note, (node note).size = 1) :
    Sized (leaf t node) :=
  free_advance.step fun _ => (meters_countNode t).bind fun _ n => .pure fun hn => by rw [hnode, hn]

theorem meters_noExpression : Sized noExpression := free_current.step fun _ => free_fail _

include hinner

theorem meters_argumentsRest (fuel : Nat) :
    Meters (argumentsRest inner fuel) fun args n => n = Expr.sizeAll args := by
  induction fuel with
  | zero => exact .pure rfl
  | succ fuel ih =>
      refine (free_acceptSign .comma).step fun more => .ite ?_ (.pure rfl)
      refine hinner.bind fun arg m => ih.bind fun args n => .pure fun hargs harg => ?_
      rw [hargs, harg, Expr.sizeAll_cons, Nat.add_zero]

theorem meters_arguments :
    Meters (arguments inner) fun args n => n = Expr.sizeAll args := by
  refine hinner.bind fun arg m => free_remaining.step fun fuel => ?_
  refine (meters_argumentsRest hinner fuel).bind fun args n => .pure fun hargs harg => ?_
  rw [hargs, harg, Expr.sizeAll_cons, Nat.add_zero]

theorem meters_callWith :
    Meters (callWith inner) fun c n => n = (Expr.call c.1 c.2.1 c.2.2).size := by
  refine free_advance.step fun start => (free_expectIdentifier _ _).step fun callee => ?_
  refine (free_acceptKeyword .with_).step fun passes => ?_
  extract_lets rest
  have hrest : ∀ args m, Meters (rest args) fun c n =>
      m = Expr.sizeAll args → m + n = (Expr.call c.1 c.2.1 c.2.2).size := by
    intro args m
    refine (meters_finish start fun span =>
      (nameOf callee, args, CallNote.mk span none none none)).mono ?_
    rintro c n ⟨rfl, span, rfl⟩ hargs
    rw [hargs, Expr.size_call]
  refine .ite ((meters_arguments hinner).bind hrest) (free_current.step fun t => .ite ?_ ?_)
  · exact Meters.bind (free_fail _) hrest
  · exact Meters.bind (.pure rfl) hrest

theorem meters_primary : Sized (primary inner) := by
  refine free_current.step fun t => ?_
  split
  · exact meters_leaf t fun _ => rfl
  · exact meters_leaf t fun _ => rfl
  · exact meters_leaf t fun _ => rfl
  · exact meters_leaf t fun _ => rfl
  · exact meters_leaf t fun _ => rfl
  · refine free_advance.step fun _ => hinner.bind fun e m => ?_
    -- parentheses are no node
    exact (free_expectSign _ _ _).step fun _ => .pure id
  · refine free_advance.step fun _ => free_current.step fun next => ?_
    extract_lets rest
    have hrest : ∀ elements m, Meters (rest elements) fun e n =>
        m = Expr.sizeAll elements → m + n = e.size := by
      refine fun elements m => (free_expectSign _ _ _).step fun _ => ?_
      refine (meters_finish t fun span => Expr.list elements ⟨span, none⟩).mono ?_
      rintro e n ⟨rfl, span, rfl⟩ helements
      rw [helements, Expr.size_list]
    refine .ite ?_ ((meters_arguments hinner).bind hrest)
    exact Meters.bind (.pure rfl) hrest
  · exact meters_noExpression

omit hinner in
theorem meters_selectionRest (start : Token) (fuel : Nat) (base : Expr) :
    Meters (selectionRest start fuel base) fun e n => e.size = base.size + n := by
  induction fuel generalizing base with
  | zero => exact .pure rfl
  | succ fuel ih =>
      refine free_current.step fun t => .ite ?_ (.pure rfl)
      refine free_advance.step fun _ => .nested ?_ t
      refine (free_expectIdentifier _ _).step fun name => (free_spanFrom start).step fun span => ?_
      refine (meters_countNode start).bind fun _ m => (ih _).mono fun e n he hm => ?_
      rw [he, hm, Expr.size_field, Nat.add_assoc]

theorem meters_selection : Sized (selection inner) := by
  refine free_current.step fun start => (meters_primary hinner).bind fun base m => ?_
  refine free_remaining.step fun fuel => (meters_selectionRest start fuel base).mono ?_
  intro e n he hbase
  rw [he, hbase]

theorem meters_application : Sized (application inner) := by
  refine free_current.step fun t => free_second.step fun next => ?_
  split
  · exact (meters_callWith hinner).bind fun c m => .pure id
  · refine free_advance.step fun _ => free_advance.step fun _ => ?_
    refine (meters_arguments hinner).bind fun args m => ?_
    refine (meters_finish t fun span => Expr.call (nameOf t) args ⟨span, none, none, none⟩).mono ?_
    rintro e n ⟨rfl, span, rfl⟩ hargs
    rw [hargs, Expr.size_call]
  · exact meters_selection hinner

theorem meters_unaryRung : Sized (unaryRung inner) :=
  free_remaining.step fun fuel => meters_prefixed (meters_application hinner) fuel

theorem meters_additiveRung : Sized (additiveRung inner) :=
  meters_chain (meters_chain (meters_unaryRung hinner) _) _

omit hinner in
theorem free_acceptComparison : Free acceptComparison := by
  refine (free_acceptKeyword .is).step fun _ => .ite ?_ ?_
  · refine (free_acceptKeyword .not).step fun _ => .ite ?_ ?_
    · exact .pure rfl
    · exact .pure rfl
  · refine free_current.step fun t => ?_
    cases orderOp? t with
    | none => exact .pure rfl
    | some op => exact free_advance.step fun _ => .pure rfl

theorem meters_comparisonRung : Sized (comparisonRung inner) := by
  refine free_current.step fun start => (meters_additiveRung hinner).bind fun left m => ?_
  refine free_acceptComparison.step fun op? => ?_
  cases op? with
  | none => exact .pure id
  | some op =>
      refine (meters_additiveRung hinner).bind fun right k => ?_
      refine (meters_binary op left right start).bind fun node n => free_current.step fun t => ?_
      refine .ite (free_fail _) (.pure fun hnode hright hleft => ?_)
      rw [hnode, hright, hleft]
      omega

theorem meters_expressionWith : Sized (expressionWith inner) :=
  free_current.step fun start =>
    (meters_chain (meters_chain (meters_comparisonRung hinner) _) _).nested start

end

theorem meters_expressionUpTo (fuel : Nat) : Sized (expressionUpTo fuel) := by
  induction fuel with
  | zero => exact meters_expressionWith meters_noExpression
  | succ fuel ih => exact meters_expressionWith ih

theorem meters_expression : Sized expression := free_remaining.step meters_expressionUpTo

theorem meters_call : Meters call fun c n => n = (Expr.call c.1 c.2.1 c.2.2).size :=
  free_remaining.step fun fuel => meters_callWith (meters_expressionUpTo fuel)

/-! ### Recovery -/

theorem free_skipToBoundary (colonToo : Bool) (fuel : Nat) :
    Free (skipToBoundary colonToo fuel) := by
  induction fuel with
  | zero => exact .pure rfl
  | succ fuel ih =>
      refine free_current.step fun t => ?_
      split
      · exact .pure rfl
      · exact free_advance.step fun _ => .pure rfl
      · exact free_advance.step fun _ => .ite (.pure rfl) ih
      · exact .ite (.pure rfl) (free_advance.step fun _ => ih)
      · exact free_advance.step fun _ => ih

theorem free_synchronize (start : Nat) (colonToo : Bool) : Free (synchronize start colonToo) := by
  refine free_remaining.step fun here => ?_
  extract_lets rest
  have hrest : ∀ u, Free (rest u) :=
    fun _ => free_remaining.step fun fuel => free_skipToBoundary colonToo fuel
  exact .ite (free_advance.step fun _ => hrest ()) (hrest ())

/-- A header without a failure leaves nothing to recover from, and a failure is reported or
stands. -/
theorem meters_recoverHeader (start : Nat) (failure : Option Diagnostic) :
    Meters (recoverHeader start failure) fun _ n => failure = none ∧ n = 0 := by
  cases failure with
  | none => exact .pure ⟨rfl, rfl⟩
  | some d => exact (free_synchronize start true).step fun _ => .ite (meters_report d) (free_fail d)

theorem free_closer (b : Block) : Free (closer b) := by
  refine free_current.step fun t => free_second.step fun word => ?_
  split
  · split
    · refine .ite ?_ (.reported fun _ => .pure _)
      refine free_advance.step fun _ => free_advance.step fun _ => ?_
      refine free_acceptTerminator.step fun closed => .ite (.pure rfl) ?_
      exact free_current.step fun next => .reported fun _ => .pure _
    · refine .reported fun _ => moves_advance.bind fun _ => ?_
      exact reads_acceptTerminator.moves.bind fun _ => .pure _
  · exact .reported fun _ => .pure _

theorem free_closeBlock (b : Block) : Free (closeBlock b) :=
  (free_closer b).step fun _ => free_popBlock.step fun _ => .pure rfl

/-! ### Statements -/

theorem meters_letStatement : Meters letStatement fun s n => n = s.size := by
  refine free_advance.step fun start => (free_expectIdentifier _ _).step fun name => ?_
  refine (free_expectKeyword _ _ _).step fun _ => meters_expression.bind fun init m => ?_
  refine (free_expectTerminator _).step fun _ => ?_
  refine (meters_finish start fun span => Stmt.bind (nameOf name) init span).mono ?_
  rintro s n ⟨rfl, span, rfl⟩ hinit
  rw [hinit, Stmt.size_bind]

theorem meters_returnStatement : Meters returnStatement fun s n => n = s.size := by
  refine free_advance.step fun start => free_current.step fun t => ?_
  extract_lets rest
  have hrest : ∀ value m, Meters (rest value) fun s n =>
      m = Expr.sizeAll value.toList → m + n = s.size := by
    refine fun value m => (free_expectTerminator _).step fun _ => ?_
    refine (meters_finish start fun span => Stmt.return value span).mono ?_
    rintro s n ⟨rfl, span, rfl⟩ hvalue
    rw [hvalue, Stmt.size_return]
  refine .ite (Meters.bind (.pure rfl) hrest) ?_
  exact Meters.bind (.map (meters_expression.mono fun e n he => he)) hrest

theorem meters_callStatement : Meters callStatement fun s n => n = s.size := by
  refine free_current.step fun start => meters_call.bind fun c m => ?_
  refine (free_expectTerminator _).step fun _ => ?_
  refine (meters_finish start fun span => Stmt.call c.1 c.2.1 c.2.2 span).mono ?_
  rintro s n ⟨rfl, span, rfl⟩ hcall
  rw [hcall, Stmt.size_call]

theorem free_rejectMisspelt : Free rejectMisspelt := by
  refine free_current.step fun t => free_second.step fun next => ?_
  split
  · exact free_fail _
  · exact .pure rfl

theorem meters_expressionStatement : Meters expressionStatement fun s n => n = s.size := by
  refine free_rejectMisspelt.step fun _ => free_current.step fun start => ?_
  refine meters_expression.bind fun value m => (free_expectTerminator _).step fun _ => ?_
  refine (meters_finish start fun span => Stmt.expression value span).mono ?_
  rintro s n ⟨rfl, span, rfl⟩ hvalue
  rw [hvalue, Stmt.size_expression]

theorem meters_ifHeader :
    Meters ifHeader fun h n => h.2 = none → ∃ condition, h.1 = some condition ∧
      n = condition.size := by
  refine meters_expression.attempt.bind fun r m => ?_
  cases r with
  | error d => exact .pure fun _ => nofun
  | ok condition =>
      refine Meters.bind (.attempt ((free_expectKeyword _ _ _).step fun _ =>
        free_expectSign _ _ _)) fun rest k => ?_
      cases rest with
      | error d => exact .pure fun _ _ => nofun
      | ok t =>
          refine .pure fun hk hcondition _ => ⟨condition, rfl, ?_⟩
          rw [hcondition condition rfl, hk t rfl, Nat.add_zero]

theorem meters_forHeader : Meters forHeader fun h n =>
    h.2 = none → ∃ item iterable, h.1 = some (item, some iterable) ∧ n = iterable.size := by
  refine Meters.bind (.attempt ((free_expectKeyword _ _ _).step fun _ =>
    free_expectIdentifier _ _)) fun item m => ?_
  cases item with
  | error d => exact .pure fun _ => nofun
  | ok item =>
      refine Meters.bind (.attempt ((free_expectKeyword _ _ _).step fun _ => meters_expression))
        fun iterable k => ?_
      cases iterable with
      | error d => exact .pure fun _ _ => nofun
      | ok iterable =>
          refine (free_expectSign _ _ _).attempt.bind fun colon l => ?_
          cases colon with
          | error d => exact .pure fun _ _ _ => nofun
          | ok t =>
              refine .pure fun hl hk hm _ => ⟨item, iterable, rfl, ?_⟩
              rw [hm item rfl, hk iterable rfl, hl t rfl, Nat.zero_add, Nat.add_zero]

section

variable {block : Parser (List Stmt)} (hblock : Meters block fun ss n => n = Stmt.sizeAll ss)

include hblock

theorem meters_repeatedOtherwise (ifLine otherwiseLine fuel : Nat) :
    Meters (repeatedOtherwise block ifLine otherwiseLine fuel)
      fun ss n => n = Stmt.sizeAll ss := by
  induction fuel with
  | zero => exact .pure rfl
  | succ fuel ih =>
      refine (free_atKeyword _).step fun more => .ite ?_ (.pure rfl)
      refine free_current.step fun t => .reported fun _ => ?_
      refine moves_advance.bind fun _ => (reads_acceptSign _).moves.bind fun _ => ?_
      exact hblock.moves.bind fun _ => ih.moves.bind fun _ => .pure _

theorem meters_otherwiseBranch (ifLine : Nat) : Meters (otherwiseBranch block ifLine)
    fun o n => n = o.elim 0 Stmt.sizeAll := by
  refine (free_atKeyword _).step fun more => .ite ?_ (.pure rfl)
  refine free_advance.step fun start => (free_acceptSign _).step fun colon => ?_
  extract_lets rest
  have hrest : ∀ u, Meters (rest u) fun o n => n = o.elim 0 Stmt.sizeAll := by
    refine fun _ => hblock.bind fun statements m => free_remaining.step fun fuel => ?_
    refine (meters_repeatedOtherwise hblock _ _ fuel).bind fun more k => .pure fun hk hm => ?_
    rw [hk, hm, Option.elim_some, Stmt.sizeAll_append, Nat.add_zero]
  exact .ite (hrest ()) (free_current.step fun t => .reported fun u => (hrest u).moves)

theorem meters_ifStatement :
    Meters (ifStatement block) fun o n => n = Stmt.sizeAll o.toList := by
  refine free_advance.step fun start => free_remaining.step fun headerStart => ?_
  refine meters_ifHeader.bind ?_
  rintro ⟨condition, failure⟩ m
  refine (meters_recoverHeader headerStart failure).bind fun _ k => ?_
  refine (free_openBlock _ _).step fun _ => hblock.bind fun thenBlock i => ?_
  refine (meters_otherwiseBranch hblock _).bind fun otherwise j => ?_
  refine (free_closeBlock _).step fun closer => ?_
  cases condition with
  | none =>
      refine .pure fun hj hi hfailure hheader => ?_
      obtain ⟨condition, heq, -⟩ := hheader hfailure.1
      cases heq
  | some condition =>
      refine Meters.mono (meters_finish start fun span =>
        some (Stmt.branch condition thenBlock otherwise span)) ?_
      rintro o n ⟨rfl, span, rfl⟩ hj hi ⟨hnone, hk⟩ hheader
      obtain ⟨condition, heq, hm⟩ := hheader hnone
      cases heq
      rw [Option.toList_some, Stmt.sizeAll_singleton, Stmt.size_branch, hm, hk, hi, hj]
      omega

theorem meters_forStatement :
    Meters (forStatement block) fun o n => n = Stmt.sizeAll o.toList := by
  refine free_advance.step fun start => free_remaining.step fun headerStart => ?_
  refine meters_forHeader.bind ?_
  rintro ⟨header, failure⟩ m
  refine (meters_recoverHeader headerStart failure).bind fun _ k => ?_
  refine (free_openBlock _ _).step fun _ => hblock.bind fun body i => ?_
  refine (free_closeBlock _).step fun closer => ?_
  dsimp only
  split
  · next item iterable =>
      refine Meters.mono (meters_finish start fun span =>
        some (Stmt.forEach (nameOf item) iterable body span)) ?_
      rintro o n ⟨rfl, span, rfl⟩ hi ⟨hnone, hk⟩ hheader
      obtain ⟨item, iterable, heq, hm⟩ := hheader hnone
      cases heq
      rw [Option.toList_some, Stmt.sizeAll_singleton, Stmt.size_forEach, hm, hk, hi]
      omega
  · next hother =>
      refine .pure fun hi hfailure hheader => ?_
      obtain ⟨item, iterable, heq, -⟩ := hheader hfailure.1
      exact absurd heq (hother item iterable)

theorem meters_statement :
    Meters (statement block) fun o n => n = Stmt.sizeAll o.toList := by
  have hsome : ∀ {p : Parser Stmt}, (Meters p fun s n => n = s.size) →
      Meters (some <$> p) fun o n => n = Stmt.sizeAll o.toList := fun h =>
    .map (h.mono fun s n hs => hs)
  refine free_current.step fun t => ?_
  split
  · exact hsome meters_letStatement
  · exact meters_ifStatement hblock
  · exact meters_forStatement hblock
  · exact hsome meters_callStatement
  · exact hsome meters_returnStatement
  · exact free_fail _
  · exact hsome meters_expressionStatement

theorem meters_recoveringStatement :
    Meters (recoveringStatement block) fun o n => n = Stmt.sizeAll o.toList := by
  refine free_remaining.step fun start => (meters_statement hblock).attempt.bind fun r m => ?_
  cases r with
  | ok s => exact .pure fun hs => hs s rfl
  | error d => exact .reported fun _ => (moves_synchronize _ _).bind fun _ => .pure _

omit hblock in
theorem free_blockStep : Free blockStep := by
  refine free_current.step fun t => free_second.step fun word =>
    free_openBlocks.step fun blocks => ?_
  split
  · exact .pure rfl
  · exact .pure rfl
  · exact .pure rfl
  · split
    · exact .pure rfl
    · exact .pure rfl
  · exact .pure rfl

theorem meters_statements (fuel : Nat) :
    Meters (statements block fuel) fun ss n => n = Stmt.sizeAll ss := by
  induction fuel with
  | zero => exact .pure rfl
  | succ fuel ih =>
      refine free_current.step fun t => free_blockStep.step fun step => ?_
      cases step with
      | leave => exact .pure rfl
      | stray word =>
          have hloud : Meters (skipStrayCloser t word) fun _ _ => False := by
            refine free_openBlocks.step fun blocks => .reported fun _ => ?_
            refine moves_advance.bind fun _ => moves_advance.bind fun _ => ?_
            exact reads_acceptTerminator.moves.bind fun _ => .pure _
          exact hloud.bind fun _ m => ih.mono fun ss n _ => False.elim
      | statement =>
          refine (free_checkTime t).step fun _ => ?_
          refine (meters_recoveringStatement hblock).bind fun s m => ih.bind fun rest n => ?_
          refine .pure fun hrest hs => ?_
          rw [hs, hrest, Stmt.sizeAll_append, Nat.add_zero]

end

theorem meters_blockUpTo (depth : Nat) :
    Meters (blockUpTo depth) fun ss n => n = Stmt.sizeAll ss := by
  induction depth with
  | zero => exact .pure rfl
  | succ depth ih => exact free_remaining.step fun fuel => meters_statements ih fuel

theorem meters_block : Meters block fun ss n => n = Stmt.sizeAll ss :=
  free_remaining.step meters_blockUpTo

/-! ### Declarations -/

theorem free_typeRefUpTo (fuel : Nat) : Free (typeRefUpTo fuel) := by
  induction fuel with
  | zero => exact (free_expectIdentifier _ _).step fun t => .pure rfl
  | succ fuel ih =>
      refine (free_expectIdentifier _ _).step fun t => .ite ?_ (.pure rfl)
      refine (free_acceptKeyword _).step fun _ => .ite ?_ (.pure rfl)
      exact (Meters.nested ih t).step fun _ => (free_spanFrom t).step fun _ => .pure rfl

theorem free_typeRef : Free typeRef := free_remaining.step free_typeRefUpTo

theorem free_parameter : Free parameter := by
  refine (free_expectIdentifier _ _).step fun name => (free_expectKeyword _ _ _).step fun _ => ?_
  exact free_typeRef.step fun _ => (free_spanFrom name).step fun _ => .pure rfl

/-- Parameters are no nodes. -/
theorem meters_parameters (fuel : Nat) :
    Meters (parameters fuel) fun ps n => ps.2 = none → n = 0 := by
  induction fuel with
  | zero => exact .pure fun _ => rfl
  | succ fuel ih =>
      refine free_parameter.attempt.bind fun r m => ?_
      cases r with
      | error d => exact .pure fun _ => nofun
      | ok p =>
          refine (free_acceptSign _).step fun _ => .ite ?_ (.pure fun hp _ => hp p rfl)
          refine ih.bind fun ps n => .pure fun hps hp hnone => ?_
          rw [hp p rfl, hps hnone]

theorem free_returnClause : Free returnClause := by
  refine (free_acceptKeyword _).step fun _ => .ite ?_ (.pure rfl)
  exact .map free_typeRef

theorem free_headerEnd (name : String) : Free (headerEnd name) :=
  free_current.step fun _ => .ite (free_fail _) ((free_expectSign _ _ _).step fun _ => .pure rfl)

theorem meters_functionHeader : Meters functionHeader fun h n => h.2 = none → n = 0 := by
  refine (free_expectIdentifier _ _).attempt.bind fun r m => ?_
  cases r with
  | error d => exact .pure fun _ => nofun
  | ok name =>
      refine free_remaining.step fun fuel => (free_acceptKeyword _).step fun _ => ?_
      extract_lets rest
      have hrest : ∀ ps k, Meters (rest ps) fun h n => (ps.2 = none → k = 0) →
          (∀ t, Except.ok (ε := Diagnostic) name = .ok t → m = 0) → h.2 = none →
            m + (k + n) = 0 := by
        rintro ⟨ps, failure⟩ k
        cases failure with
        | some d => exact .pure fun _ _ => nofun
        | none =>
            refine free_returnClause.attempt.bind fun returns i => ?_
            cases returns with
            | error d => exact .pure fun _ _ _ => nofun
            | ok returns =>
                refine (free_headerEnd _).attempt.bind fun done j => ?_
                cases done with
                | error d => exact .pure fun _ _ _ _ => nofun
                | ok u =>
                    refine .pure fun hj hi hk hm _ => ?_
                    rw [hm name rfl, hk rfl, hi returns rfl, hj u rfl]
      refine .ite ?_ ?_
      · exact (meters_parameters _).bind hrest
      · exact Meters.bind (.pure fun _ => rfl) hrest

theorem meters_functionDecl (define : Token) (purity : Purity) :
    Meters (functionDecl define purity) fun f n => n = (Decl.function f).size := by
  refine (free_expectKeyword _ _ _).step fun _ => free_current.step fun nameToken => ?_
  refine free_remaining.step fun headerStart => meters_functionHeader.bind ?_
  rintro ⟨header, failure⟩ m
  refine (meters_recoverHeader headerStart failure).bind fun _ k => ?_
  refine (free_openBlock _ _).step fun _ => meters_block.bind fun body i => ?_
  refine (free_closeBlock _).step fun closer => ?_
  refine (meters_finish define fun span => FunctionDecl.mk ⟨header.name, nameToken.span⟩
    header.parameters header.returns purity body closer span none).mono ?_
  rintro f n ⟨rfl, span, rfl⟩ hbody ⟨hnone, hk⟩ hheader
  rw [hheader hnone, hk, hbody, Nat.zero_add, Nat.zero_add]
  rfl

theorem free_literalsRest (name : String) (fuel : Nat) : Free (literalsRest name fuel) := by
  induction fuel with
  | zero => exact .pure rfl
  | succ fuel ih =>
      refine (free_acceptKeyword _).step fun _ => .ite ?_ (.pure rfl)
      refine free_current.step fun t => ?_
      split
      · exact free_advance.step fun _ => Meters.step ih fun _ => .pure rfl
      · exact free_fail _

theorem meters_typeDecl (define : Token) : Meters (typeDecl define) fun _ n => n = 1 := by
  refine (free_expectKeyword _ _ _).step fun _ => (free_expectIdentifier _ _).step fun name => ?_
  extract_lets text context rest
  refine (free_expectKeyword _ _ _).step fun _ => free_current.step fun t => ?_
  have hrest : ∀ body, Meters (rest body) fun _ n => n = 1 := fun body =>
    (free_expectTerminator _).step fun _ =>
      (meters_finish define fun span => TypeDecl.mk text body span).mono fun _ _ h => h.1
  split
  · refine free_advance.step fun _ => free_remaining.step fun fuel => ?_
    refine (free_literalsRest _ fuel).step fun values => ?_
    extract_lets values twice body
    have hbody : ∀ u, Meters (body u) fun _ n => n = 1 := fun _ => Meters.step (.pure rfl) hrest
    exact .ite (hbody ()) (.reported fun u => (hbody u).moves)
  · exact Meters.step (.map free_typeRef) hrest

theorem free_recordField (record : String) : Free (recordField record) := by
  refine (free_expectIdentifier _ _).step fun field => (free_expectKeyword _ _ _).step fun _ => ?_
  refine free_typeRef.step fun _ => (free_expectTerminator _).step fun _ => ?_
  exact (free_spanFrom field).step fun _ => .pure rfl

theorem free_recordFields (record : String) (fuel : Nat) : Free (recordFields record fuel) := by
  induction fuel with
  | zero => exact .pure rfl
  | succ fuel ih =>
      refine free_current.step fun t => ?_
      split
      · exact .pure rfl
      · exact .pure rfl
      · exact .pure rfl
      · refine free_remaining.step fun start => (free_recordField record).attempt.bind fun r m => ?_
        cases r with
        | ok f =>
            refine Meters.bind ih fun fs n => .pure fun hfs hf => ?_
            rw [hf f rfl, hfs]
        | error d => exact .reported fun _ => (moves_synchronize _ _).bind fun _ => ih.moves

theorem meters_recordDecl (define : Token) : Meters (recordDecl define) fun _ n => n = 1 := by
  refine (free_expectKeyword _ _ _).step fun _ => (free_expectIdentifier _ _).step fun name => ?_
  refine (free_expectSign _ _ _).step fun _ => (free_openBlock _ _).step fun _ => ?_
  refine free_remaining.step fun fuel => (free_recordFields _ fuel).step fun fields => ?_
  refine (free_closeBlock _).step fun closer => ?_
  exact (meters_finish define fun span => RecordDecl.mk name.lexeme fields span).mono
    fun _ _ h => h.1

theorem meters_declaration : Meters declaration fun d n => n = d.size := by
  refine (free_expectKeyword _ _ _).step fun define => ?_
  refine (free_acceptKeyword _).step fun effectful => free_current.step fun t => ?_
  split
  · exact .map (meters_functionDecl _ _)
  · refine .ite (free_fail _) ?_
    split
    · exact .map (meters_typeDecl _)
    · exact .map (meters_recordDecl _)
    · exact free_fail _

theorem meters_topLevel : Meters topLevel fun o n => n = Decl.sizeAll o.toList := by
  refine free_current.step fun t => .ite ?_ ?_
  · refine free_remaining.step fun start => meters_declaration.attempt.bind fun r m => ?_
    cases r with
    | ok d => exact .pure fun hd => hd d rfl
    | error d => exact .reported fun _ => (moves_synchronize _ _).bind fun _ => moves_skipToDefine
  · exact .reported fun _ => moves_advance.bind fun _ => moves_skipToDefine

/-! ### Programs -/

/-- Reads declarations to the end of the text. -/
def allDeclarations : Nat → Parser (List Decl)
  | 0 => pure []
  | fuel + 1 => do
    let t ← current
    if t.isEof then return []
    else
      let d ← topLevel
      let ds ← allDeclarations fuel
      return d.toList ++ ds

theorem meters_allDeclarations (fuel : Nat) :
    Meters (allDeclarations fuel) fun ds n => n = Decl.sizeAll ds := by
  induction fuel with
  | zero => exact .pure rfl
  | succ fuel ih =>
      refine free_current.step fun t => .ite (.pure rfl) ?_
      refine meters_topLevel.bind fun d m => ih.bind fun ds n => .pure fun hds hd => ?_
      rw [hd, hds, Decl.sizeAll_append, Nat.add_zero]

/-- What the end of a reading says about a run of the top level. -/
def Outcome.Tells (o : Outcome (List Decl)) (run : List Decl × State) : Prop :=
  match o with
  | .done ds t => run = (ds, t)
  | .failed _ _ => False
  | .stopped e t => run.2.found = e.diagnostic .parse :: t.found

/-- The loop over the declarations is a parser but for what it does when a limit is exceeded. -/
theorem allDeclarations_tells (fuel : Nat) (s : State) :
    (allDeclarations fuel s).Tells (declarations fuel s) := by
  induction fuel generalizing s with
  | zero => exact rfl
  | succ fuel ih =>
      by_cases heof : s.current.isEof = true
      · have hall : allDeclarations (fuel + 1) s = .done [] s := congrFun (if_pos heof) s
        rw [hall, declarations, if_pos heof]
        exact rfl
      · have hall : allDeclarations (fuel + 1) s = (do
            let d ← topLevel
            let ds ← allDeclarations fuel
            return d.toList ++ ds) s := congrFun (if_neg heof) s
        have hrecovers := recovers_topLevel s
        rw [hall, declarations, if_neg heof]
        simp only [Bind.bind]
        cases hturn : topLevel s with
        | failed d t => exact absurd hturn (hrecovers d t)
        | stopped e t => exact rfl
        | done d t =>
            have hrest := ih t
            dsimp only
            cases hds : allDeclarations fuel t with
            | done ds u =>
                rw [hds] at hrest
                rw [show declarations fuel t = (ds, u) from hrest]
                exact rfl
            | failed e u | stopped e u =>
                rw [hds] at hrest
                exact hrest

/-- A run of the top level that finds nothing is one of the parser, and counts its declarations. -/
theorem declarations_spends {fuel : Nat} {s : State}
    (hquiet : (declarations fuel s).2.found = s.found) :
    ∃ ds t, declarations fuel s = (ds, t) ∧
      Spends s (Decl.sizeAll ds) (.done ds t) fun most =>
        allDeclarations fuel (s.allowing most) := by
  have htells := allDeclarations_tells fuel s
  have hmore := (meters_allDeclarations fuel).moves s
  have hspends := (meters_allDeclarations fuel).spends s
  cases hrun : allDeclarations fuel s with
  | failed d t =>
      rw [hrun] at htells
      exact htells.elim
  | stopped e t =>
      -- that a limit is exceeded is a finding
      rw [hrun] at htells hmore
      have hlonger : t.found.length + 1 = s.found.length :=
        congrArg List.length (htells.symm.trans hquiet)
      have hgrown : s.found.length ≤ t.found.length := hmore.found.length_le
      omega
  | done ds t =>
      rw [hrun] at htells hspends
      have heq : declarations fuel s = (ds, t) := htells
      rw [heq] at hquiet
      obtain ⟨n, hn, hsize⟩ := hspends hquiet (by rintro _ _ ⟨⟩)
      obtain rfl := hsize ds t rfl
      exact ⟨ds, t, heq, hn⟩

section

variable {fuel n : Nat} {s t : State} {ds : List Decl} {most : Int}

theorem Spends.declarations_within
    (h : Spends s n (.done ds t) fun most => allDeclarations fuel (s.allowing most))
    (hroom : n = 0 ∨ (s.budget.nodes + n : Int) ≤ most) :
    declarations fuel (s.allowing most) = (ds, t.allowing most) := by
  have htells := allDeclarations_tells fuel (s.allowing most)
  have hsame : allDeclarations fuel (s.allowing most) = .done ds (t.allowing most) :=
    h.within most hroom
  rw [hsame] at htells
  exact htells

theorem Spends.declarations_beyond
    (h : Spends s n (.done ds t) fun most => allDeclarations fuel (s.allowing most))
    (hsome : n ≠ 0) (hfull : most < (s.budget.nodes + n : Int)) :
    ∃ l, (declarations fuel (s.allowing most)).2.found =
      (Exceeded.mk (.nodes most) l).diagnostic .parse :: s.found := by
  have htells := allDeclarations_tells fuel (s.allowing most)
  obtain ⟨l, u, hu, hsame⟩ := h.beyond most hsome hfull
  rw [hu] at htells
  rw [← hsame]
  exact ⟨l, htells⟩

end

end Parser

/-- A reading that comes to nothing but the finding that there are more nodes than a limit. -/
def Reading.RejectedBeyond (r : Reading) (most : Int) : Prop :=
  ∃ l, r.found = [(Exceeded.mk (.nodes most) l).diagnostic .parse]

/-- A reading without findings counts every node of its program once. Under another limit on nodes
the same tokens are rejected if there are nodes, and more of them than the limit; and else the
reading is the same. -/
theorem Program.read_counts {tokens : List Token} {b : Budget} {r : Reading}
    (h : Program.read tokens b = some r) (hclean : r.found = []) :
    r.budget.nodes = b.nodes + r.program.size ∧
      ∀ most : Int, ∃ r', Program.read tokens (b.allowing most) = some r' ∧
        (r'.RejectedBeyond most ↔ r.program.size ≠ 0 ∧ most < b.nodes + r.program.size) ∧
        (¬r'.RejectedBeyond most → r' = { r with budget := r.budget.allowing most }) := by
  rcases Program.read_eq tokens with hnone | ⟨init, stop, hsome⟩
  · rw [hnone] at h
    cases h
  rw [hsome] at h
  obtain rfl := Option.some.inj h
  let start := Parser.State.start init stop b
  obtain ⟨ds, t, heq, hspends⟩ :=
    Parser.declarations_spends (s := start) (List.reverse_eq_nil_iff.mp hclean)
  rw [heq] at hclean ⊢
  refine ⟨hspends.nodes, fun most => ⟨_, hsome _, ?_⟩⟩
  by_cases hroom : Decl.sizeAll ds = 0 ∨ (b.nodes + Decl.sizeAll ds : Int) ≤ most
  · have hread : Reading.of (start.allowing most)
        (Parser.declarations start.left (start.allowing most)) =
          { Reading.of start (ds, t) with budget := t.budget.allowing most } := by
      rw [hspends.declarations_within hroom]
      rfl
    refine ⟨⟨?_, fun ⟨hsome, hfull⟩ => ?_⟩, fun _ => hread⟩
    · rintro ⟨l, hl⟩
      have hfound := (congrArg Reading.found hread).trans hclean
      exact nomatch hfound.symm.trans hl
    · exact absurd hroom (not_or.mpr ⟨hsome, Int.not_le.mpr hfull⟩)
  · obtain ⟨hsome, hfull⟩ := not_or.mp hroom
    obtain ⟨l, hl⟩ := hspends.declarations_beyond hsome (Int.not_le.mp hfull)
    have hrejected : (Reading.of (start.allowing most)
        (Parser.declarations start.left (start.allowing most))).RejectedBeyond most := by
      refine ⟨l, ?_⟩
      rw [Reading.of, hl]
      rfl
    exact ⟨⟨fun _ => ⟨hsome, Int.not_le.mp hfull⟩, fun _ => hrejected⟩, fun h => absurd hrejected h⟩

/-- A program of nine nodes: parentheses are none, and a call that is a statement is two. -/
theorem Program.read_counts_calls : ∃ tokens r,
    Token.scan "Define function f: Let x be -(1 + 2). Call g with x. End function." = .ok tokens ∧
      Program.read tokens (.start .standard .still) = some r ∧ r.found = [] ∧ r.program.size = 9 ∧
      r.budget.nodes = 9 ∧ ∀ most : Int, ∃ r',
        Program.read tokens ((Budget.start .standard .still).allowing most) = some r' ∧
          (r'.RejectedBeyond most ↔ most < 9) := by
  have hrun : ((Token.scan
      "Define function f: Let x be -(1 + 2). Call g with x. End function.").toOption.any
      fun tokens =>
        (Program.read tokens (.start .standard .still)).any fun r =>
          r.found.isEmpty && r.program.size == 9) = true := by
    rw [show "Define function f: Let x be -(1 + 2). Call g with x. End function." =
      .ofList _ from rfl, Token.scan_ofList]
    decide +kernel
  obtain ⟨tokens, hscan, hread⟩ := any_toOption.mp hrun
  obtain ⟨r, hr, hboth⟩ := Option.any_eq_true _ _ |>.mp hread
  obtain ⟨hempty, hsize⟩ := Bool.and_eq_true_iff.mp hboth
  have hclean := List.isEmpty_iff.mp hempty
  have hnine : r.program.size = 9 := beq_iff_eq.mp hsize
  obtain ⟨hnodes, hlimits⟩ := Program.read_counts hr hclean
  refine ⟨tokens, r, hscan, hr, hclean, hnine, hnodes.trans ?_, fun most => ?_⟩
  · rw [hnine]
    rfl
  · obtain ⟨r', hr', hiff, -⟩ := hlimits most
    refine ⟨r', hr', hiff.trans ?_⟩
    rw [hnine]
    exact ⟨fun
      h => by simpa [Budget.start] using h.2, fun h => ⟨by decide, by simpa [Budget.start] using h⟩⟩

/-- The text without declarations has no nodes. It is read under a limit below zero, although that
is exceeded. -/
theorem Program.read_negative_limit : ¬∀ (tokens : List Token) (b : Budget) (r : Reading),
    Program.read tokens b = some r → r.found = [] → ∀ (most : Int) (r' : Reading),
      Program.read tokens (b.allowing most) = some r' →
        (r'.RejectedBeyond most ↔ most < b.nodes + r.program.size) := by
  intro hall
  have hiff := hall [⟨.eof, "", default⟩] (.start .standard .still) _ rfl rfl (-1) _ rfl
  obtain ⟨l, hl⟩ := hiff.mpr (by decide)
  exact nomatch hl

end Prosaic
