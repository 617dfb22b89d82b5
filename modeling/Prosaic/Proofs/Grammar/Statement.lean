import Prosaic.Grammar.Expression
import Prosaic.Grammar.Statement
import Prosaic.Proofs.Grammar.Parser
import Prosaic.Proofs.Program.WellFormed

/-!
The expressions that are read hold names and literals of the language, and nothing is known of them
yet. There is one lemma for each rung of the ladder; those of the rungs with operands assume of the
operands what they claim of the whole.

The statements and blocks that are read are well formed. A failure that is recovered from is
reported, so a quiet reading has none.
-/

namespace Prosaic

namespace Parser

variable {quiet : Prop}

/-! ### Operators -/

theorem reads_binary (op : BinaryOp) (left right : Expr) (start : Token) :
    Reads quiet (binary op left right start) fun e => left.AllFresh → right.AllFresh → e.AllFresh :=
  (reads_spanFrom start).step fun _ => (reads_countNode start).step fun _ =>
    .pure fun hl hr => ⟨⟨rfl, trivial⟩, hl, hr⟩

section

variable {operand : Parser Expr} (hoperand : Reads quiet operand Expr.AllFresh)

include hoperand

theorem reads_chainRest (operator : Token → Option BinaryOp) (start : Token) (fuel : Nat)
    (left : Expr) :
    Reads quiet (chainRest operator operand start fuel left)
      fun e => left.AllFresh → e.AllFresh := by
  induction fuel generalizing left with
  | zero => exact .pure id
  | succ fuel ih =>
      refine reads_current.step fun t => ?_
      cases operator t with
      | none => exact .pure id
      | some op =>
          refine reads_advance.step fun _ => .nested ?_ t
          refine hoperand.bind fun right => (reads_binary op left right start).bind fun node => ?_
          -- `left` is fresh only if nothing was reported before, so that stays an assumption
          exact (ih node).mono fun e he hnode hright hleft => he (hnode hleft hright)

theorem reads_chain (operator : Token → Option BinaryOp) :
    Reads quiet (chain operator operand) Expr.AllFresh := by
  refine reads_current.step fun start => hoperand.bind fun left => ?_
  exact reads_remaining.step fun fuel => reads_chainRest hoperand operator start fuel left

theorem reads_prefixed (fuel : Nat) : Reads quiet (prefixed operand fuel) Expr.AllFresh := by
  induction fuel with
  | zero => exact hoperand
  | succ fuel ih =>
      refine reads_current.step fun t => ?_
      cases prefixOp? t with
      | none => exact hoperand
      | some op =>
          refine reads_advance.step fun _ => (ih.nested t).bind fun e => ?_
          refine (reads_spanFrom t).step fun _ => (reads_countNode t).step fun _ => ?_
          exact .pure fun he => ⟨⟨rfl, trivial⟩, he⟩

end

/-! ### The rungs -/

section

variable {inner : Parser Expr} (hinner : Reads quiet inner Expr.AllFresh)

theorem reads_leaf (t : Token) (node : ExprNote → Expr) :
    Reads quiet (leaf t node) fun e => ∃ note, note.ty = none ∧ e = node note :=
  reads_advance.step fun _ => (reads_countNode t).step fun _ => .pure ⟨_, rfl, rfl⟩

theorem reads_noExpression : Reads quiet noExpression Expr.AllFresh :=
  reads_current.step fun _ => reads_fail _

include hinner

theorem reads_argumentsRest (fuel : Nat) :
    Reads quiet (argumentsRest inner fuel) fun args => ∀ e ∈ args, e.AllFresh := by
  induction fuel with
  | zero => exact .pure (by simp)
  | succ fuel ih =>
      refine (reads_acceptSign .comma).step fun more => .ite (fun _ => ?_) fun _ => .pure (by simp)
      refine hinner.bind fun arg => ih.bind fun args => ?_
      exact .pure fun hargs harg => List.forall_mem_cons.mpr ⟨harg, hargs⟩

theorem reads_arguments :
    Reads quiet (arguments inner) fun args => ∀ e ∈ args, e.AllFresh := by
  refine hinner.bind fun arg => reads_remaining.step fun fuel => ?_
  refine (reads_argumentsRest hinner fuel).bind fun args => ?_
  exact .pure fun hargs harg => List.forall_mem_cons.mpr ⟨harg, hargs⟩

theorem reads_callWith :
    Reads quiet (callWith inner) fun c => (Expr.call c.1 c.2.1 c.2.2).AllFresh := by
  refine reads_advance.step fun start => (reads_expectIdentifier _ _).bind fun callee => ?_
  refine (reads_acceptKeyword .with_).step fun passes => ?_
  extract_lets rest
  have hrest : ∀ args, Reads quiet (rest args) fun c =>
      (∀ e ∈ args, e.AllFresh) → IsName callee.lexeme →
        (Expr.call c.1 c.2.1 c.2.2).AllFresh := fun args =>
    (reads_spanFrom start).step fun _ => (reads_countNode start).step fun _ =>
      .pure fun hargs hname => ⟨⟨⟨rfl, rfl, rfl⟩, hname⟩, Expr.everywhereIn_iff.mpr hargs⟩
  refine .ite (fun _ => (reads_arguments hinner).bind hrest) fun _ => ?_
  refine reads_current.step fun t => .ite (fun _ => ?_) fun _ => ?_
  · exact (reads_fail _).bind hrest
  · exact Reads.bind (.pure (by simp)) hrest

theorem reads_primary : Reads quiet (primary inner) Expr.AllFresh := by
  refine reads_current.bind fun t => ?_
  split
  · next n hkind =>
      refine (reads_leaf t _).mono fun e ⟨note, hty, he⟩ hproper => he ▸ ⟨hty, ?_⟩
      exact hproper.number n hkind
  · exact (reads_leaf t _).mono fun e ⟨note, hty, he⟩ _ => he ▸ ⟨hty, trivial⟩
  · exact (reads_leaf t _).mono fun e ⟨note, hty, he⟩ _ => he ▸ ⟨hty, trivial⟩
  · exact (reads_leaf t _).mono fun e ⟨note, hty, he⟩ _ => he ▸ ⟨hty, trivial⟩
  · next name hkind =>
      refine (reads_leaf t _).mono fun e ⟨note, hty, he⟩ hproper => he ▸ ⟨hty, ?_⟩
      exact hproper.name hkind
  · refine reads_advance.step fun _ => hinner.bind fun e => ?_
    exact (reads_expectSign _ _ _).step fun _ => .pure fun he _ => he
  · refine reads_advance.step fun _ => reads_current.step fun next => ?_
    extract_lets rest
    have hrest : ∀ elements, Reads quiet (rest elements) fun e =>
        (∀ e ∈ elements, e.AllFresh) → t.Proper → e.AllFresh := fun elements =>
      (reads_expectSign _ _ _).step fun _ => (reads_spanFrom t).step fun _ =>
        (reads_countNode t).step fun _ =>
          .pure fun helements _ => ⟨⟨rfl, trivial⟩, Expr.everywhereIn_iff.mpr helements⟩
    refine .ite (fun _ => ?_) fun _ => (reads_arguments hinner).bind hrest
    exact Reads.bind (.pure (by simp)) hrest
  · exact reads_noExpression.mono fun e he _ => he

omit hinner in
theorem reads_selectionRest (start : Token) (fuel : Nat) (base : Expr) :
    Reads quiet (selectionRest start fuel base) fun e => base.AllFresh → e.AllFresh := by
  induction fuel generalizing base with
  | zero => exact .pure id
  | succ fuel ih =>
      refine reads_current.step fun t => .ite (fun _ => ?_) fun _ => .pure id
      refine reads_advance.step fun _ => .nested ?_ t
      refine (reads_expectIdentifier _ _).bind fun name => (reads_spanFrom start).step fun _ => ?_
      refine (reads_countNode start).step fun _ => ?_
      exact (ih _).mono fun e he hname hbase => he ⟨⟨rfl, hname⟩, hbase⟩

theorem reads_selection : Reads quiet (selection inner) Expr.AllFresh := by
  refine reads_current.step fun start => (reads_primary hinner).bind fun base => ?_
  exact reads_remaining.step fun fuel => reads_selectionRest start fuel base

theorem reads_application : Reads quiet (application inner) Expr.AllFresh := by
  refine reads_current.bind fun t => reads_second.step fun next => ?_
  split
  · exact (reads_callWith hinner).bind fun c => .pure fun hc _ => hc
  · next name hkind _ =>
      refine reads_advance.step fun _ => reads_advance.step fun _ => ?_
      refine (reads_arguments hinner).bind fun args => (reads_spanFrom t).step fun _ => ?_
      refine (reads_countNode t).step fun _ => .pure fun hargs hproper => ?_
      exact ⟨⟨⟨rfl, rfl, rfl⟩, hproper.name hkind⟩, Expr.everywhereIn_iff.mpr hargs⟩
  · exact (reads_selection hinner).mono fun e he _ => he

theorem reads_unaryRung : Reads quiet (unaryRung inner) Expr.AllFresh :=
  reads_remaining.step fun fuel => reads_prefixed (reads_application hinner) fuel

theorem reads_additiveRung : Reads quiet (additiveRung inner) Expr.AllFresh :=
  reads_chain (reads_chain (reads_unaryRung hinner) _) _

omit hinner in
theorem reads_acceptComparison : Reads quiet acceptComparison fun _ => True := by
  refine (reads_acceptKeyword .is).step fun _ => .ite (fun _ => ?_) fun _ => ?_
  · refine (reads_acceptKeyword .not).step fun _ => .ite (fun _ => ?_) fun _ => ?_
    · exact .pure trivial
    · exact .pure trivial
  · refine reads_current.step fun t => ?_
    cases orderOp? t with
    | none => exact .pure trivial
    | some op => exact reads_advance.step fun _ => .pure trivial

theorem reads_comparisonRung : Reads quiet (comparisonRung inner) Expr.AllFresh := by
  refine reads_current.step fun start => (reads_additiveRung hinner).bind fun left => ?_
  refine reads_acceptComparison.step fun op? => ?_
  cases op? with
  | none => exact .pure id
  | some op =>
      refine (reads_additiveRung hinner).bind fun right => ?_
      refine (reads_binary op left right start).bind fun node => reads_current.step fun t => ?_
      refine .ite (fun _ => reads_fail _) fun _ => ?_
      exact .pure fun hnode hright hleft => hnode hleft hright

theorem reads_expressionWith : Reads quiet (expressionWith inner) Expr.AllFresh :=
  reads_current.step fun start =>
    (reads_chain (reads_chain (reads_comparisonRung hinner) _) _).nested start

end

theorem reads_expressionUpTo (fuel : Nat) : Reads quiet (expressionUpTo fuel) Expr.AllFresh := by
  induction fuel with
  | zero => exact reads_expressionWith reads_noExpression
  | succ fuel ih => exact reads_expressionWith ih

theorem reads_expression : Reads quiet expression Expr.AllFresh :=
  reads_remaining.step reads_expressionUpTo

theorem reads_call : Reads quiet call fun c => (Expr.call c.1 c.2.1 c.2.2).AllFresh :=
  reads_remaining.step fun fuel => reads_callWith (reads_expressionUpTo fuel)

/-! ### Recovery -/

theorem reads_skipToBoundary (colonToo : Bool) (fuel : Nat) :
    Reads quiet (skipToBoundary colonToo fuel) fun _ => True := by
  induction fuel with
  | zero => exact .pure trivial
  | succ fuel ih =>
      refine reads_current.step fun t => ?_
      split
      · exact .pure trivial
      · exact reads_advance.step fun _ => .pure trivial
      · exact reads_advance.step fun _ => .ite (fun _ => .pure trivial) fun _ => ih
      · exact .ite (fun _ => .pure trivial) fun _ => reads_advance.step fun _ => ih
      · exact reads_advance.step fun _ => ih

theorem reads_synchronize (start : Nat) (colonToo : Bool) :
    Reads quiet (synchronize start colonToo) fun _ => True := by
  refine reads_remaining.step fun here => ?_
  extract_lets rest
  have hrest : ∀ u, Reads quiet (rest u) fun _ => True :=
    fun _ => reads_remaining.step fun fuel => reads_skipToBoundary colonToo fuel
  refine .ite (fun _ => ?_) fun _ => hrest ()
  exact reads_advance.step fun _ => hrest ()

/-- Only a header without a failure leaves nothing to report. -/
theorem reads_recoverHeader (start : Nat) (failure : Option Diagnostic) :
    Reads quiet (recoverHeader start failure) fun _ => quiet → failure = none := by
  cases failure with
  | none => exact .pure fun _ => rfl
  | some d =>
      refine (reads_synchronize start true).step fun _ => .ite (fun _ => ?_) fun _ => reads_fail _
      -- behind a failure that was reported nothing is quiet
      exact (reads_report d).mono fun _ h hquiet => absurd hquiet h

/-! ### Open constructs -/

theorem reads_openBlock (b : Block) (opener : Token) :
    Reads quiet (openBlock b opener) fun _ => True :=
  (reads_enter opener).step fun _ _ =>
    ⟨⟨List.suffix_rfl, rfl, List.suffix_rfl⟩, fun _ _ => trivial⟩

theorem reads_popBlock : Reads quiet popBlock fun _ => True :=
  fun _ => ⟨⟨List.suffix_rfl, rfl, List.suffix_rfl⟩, fun _ _ => trivial⟩

theorem reads_openBlocks : Reads quiet openBlocks fun _ => True :=
  fun s => ⟨.refl s, fun _ _ => trivial⟩

theorem reads_skipStrayCloser (endToken word : Token) :
    Reads quiet (skipStrayCloser endToken word) fun _ => True := by
  refine reads_openBlocks.step fun blocks => (reads_report _).step fun _ => ?_
  refine reads_advance.step fun _ => reads_advance.step fun _ => ?_
  exact reads_acceptTerminator.step fun _ => .pure trivial

theorem reads_closer (b : Block) : Reads quiet (closer b) fun _ => True := by
  refine reads_current.step fun t => reads_second.step fun word => ?_
  split
  · split
    · refine .ite (fun _ => ?_) fun _ => (reads_report _).step fun _ => .pure trivial
      refine reads_advance.step fun _ => reads_advance.step fun _ => ?_
      refine reads_acceptTerminator.step fun closed => .ite (fun _ => .pure trivial) fun _ => ?_
      exact reads_current.step fun _ => (reads_report _).step fun _ => .pure trivial
    · refine (reads_report _).step fun _ => reads_advance.step fun _ => ?_
      exact reads_acceptTerminator.step fun _ => .pure trivial
  · exact (reads_report _).step fun _ => .pure trivial

theorem reads_closeBlock (b : Block) : Reads quiet (closeBlock b) fun _ => True :=
  (reads_closer b).step fun _ => reads_popBlock.step fun _ => .pure trivial

/-! ### Simple statements -/

theorem reads_letStatement : Reads quiet letStatement Stmt.WellFormed := by
  refine reads_advance.step fun start => (reads_expectIdentifier _ _).bind fun name => ?_
  refine (reads_expectKeyword _ _ _).step fun _ => reads_expression.bind fun init => ?_
  refine (reads_expectTerminator _).step fun _ => (reads_spanFrom start).step fun _ => ?_
  exact (reads_countNode start).step fun _ => .pure fun hinit hname => ⟨hname, hinit⟩

theorem reads_returnStatement : Reads quiet returnStatement Stmt.WellFormed := by
  refine reads_advance.step fun start => reads_current.step fun t => ?_
  extract_lets rest
  have hrest : ∀ value,
      Reads quiet (rest value) fun s => (∀ e ∈ value, e.AllFresh) → s.WellFormed := by
    intro value
    refine (reads_expectTerminator _).step fun _ => (reads_spanFrom start).step fun _ => ?_
    refine (reads_countNode start).step fun _ => .pure fun hvalue => ?_
    cases value with
    | none => trivial
    | some e => exact hvalue e rfl
  refine .ite (fun _ => Reads.bind (.pure (by simp)) hrest) fun _ => ?_
  exact (Reads.map (reads_expression.mono fun e he => by simpa using he)).bind hrest

theorem reads_callStatement : Reads quiet callStatement Stmt.WellFormed := by
  refine reads_current.step fun start => reads_call.bind fun c => ?_
  refine (reads_expectTerminator _).step fun _ => (reads_spanFrom start).step fun _ => ?_
  exact (reads_countNode start).step fun _ => .pure id

theorem reads_rejectMisspelt : Reads quiet rejectMisspelt fun _ => True := by
  refine reads_current.step fun t => reads_second.step fun next => ?_
  split
  · exact reads_fail _
  · exact .pure trivial

theorem reads_expressionStatement : Reads quiet expressionStatement Stmt.WellFormed := by
  refine reads_rejectMisspelt.step fun _ => reads_current.step fun start => ?_
  refine reads_expression.bind fun value => (reads_expectTerminator _).step fun _ => ?_
  exact (reads_spanFrom start).step fun _ => (reads_countNode start).step fun _ => .pure id

/-! ### Statements with blocks -/

theorem reads_atKeyword (word : Keyword) : Reads quiet (atKeyword word) fun _ => True :=
  fun s => ⟨.refl s, fun _ _ => trivial⟩

theorem reads_ifHeader :
    Reads quiet ifHeader fun h => ∀ e, h.1 = some e → e.AllFresh := by
  refine reads_expression.attempt.bind fun r => ?_
  cases r with
  | error d => exact .pure (by simp)
  | ok condition =>
      refine Reads.step (.attempt ((reads_expectKeyword _ _ _).step fun _ =>
        reads_expectSign _ _ _)) fun rest => ?_
      cases rest with
      | error d => exact .pure fun hcondition e he => Option.some.inj he ▸ hcondition _ rfl
      | ok t => exact .pure fun hcondition e he => Option.some.inj he ▸ hcondition _ rfl

theorem reads_forHeader :
    Reads quiet forHeader fun h =>
      ∀ item e, h.1 = some (item, some e) → IsName item.lexeme ∧ e.AllFresh := by
  refine Reads.bind (.attempt ((reads_expectKeyword _ _ _).step fun _ =>
    reads_expectIdentifier _ _)) fun item => ?_
  cases item with
  | error d => exact .pure (by simp)
  | ok item =>
      refine Reads.bind (.attempt ((reads_expectKeyword _ _ _).step fun _ => reads_expression))
        fun iterable => ?_
      cases iterable with
      | error d => exact .pure (by simp)
      | ok iterable =>
          refine (reads_expectSign _ _ _).attempt.step fun colon => ?_
          have hheader : (∀ a, Except.ok (ε := Diagnostic) iterable = .ok a → a.AllFresh) →
              (∀ a, Except.ok (ε := Diagnostic) item = .ok a → IsName a.lexeme) →
              ∀ i e, some (item, some iterable) = some (i, some e) →
                IsName i.lexeme ∧ e.AllFresh := by
            intro hiterable hitem i e he
            obtain ⟨hi, he⟩ := Prod.mk.inj (Option.some.inj he)
            exact ⟨hi ▸ hitem _ rfl, Option.some.inj he ▸ hiterable _ rfl⟩
          cases colon with
          | error d => exact .pure hheader
          | ok t => exact .pure hheader

theorem reads_blockStep : Reads quiet blockStep fun _ => True := by
  refine reads_current.step fun t => reads_second.step fun word => ?_
  refine reads_openBlocks.step fun blocks => ?_
  split
  · exact .pure trivial
  · exact .pure trivial
  · exact .pure trivial
  · split
    · exact .pure trivial
    · exact .pure trivial
  · exact .pure trivial

section

variable {block : Parser (List Stmt)} (hblock : Reads quiet block fun ss => ∀ s ∈ ss, s.WellFormed)

include hblock

theorem reads_repeatedOtherwise (ifLine otherwiseLine fuel : Nat) :
    Reads quiet (repeatedOtherwise block ifLine otherwiseLine fuel)
      fun ss => ∀ s ∈ ss, s.WellFormed := by
  induction fuel with
  | zero => exact .pure (by simp)
  | succ fuel ih =>
      refine (reads_atKeyword _).step fun _ => .ite (fun _ => ?_) fun _ => .pure (by simp)
      refine reads_current.step fun _ => (reads_report _).step fun _ => ?_
      refine reads_advance.step fun _ => (reads_acceptSign _).step fun _ => ?_
      refine hblock.bind fun statements => ih.bind fun more => ?_
      exact .pure fun hmore hstatements => List.forall_mem_append.mpr ⟨hstatements, hmore⟩

theorem reads_otherwiseBranch (ifLine : Nat) :
    Reads quiet (otherwiseBranch block ifLine)
      fun o => ∀ ss, o = some ss → ∀ s ∈ ss, s.WellFormed := by
  refine (reads_atKeyword _).step fun _ => .ite (fun _ => ?_) fun _ => .pure (by simp)
  refine reads_advance.step fun start => (reads_acceptSign _).step fun _ => ?_
  extract_lets rest
  have hrest : ∀ u, Reads quiet (rest u) fun o => ∀ ss, o = some ss → ∀ s ∈ ss, s.WellFormed := by
    refine fun _ => hblock.bind fun statements => reads_remaining.step fun fuel => ?_
    refine (reads_repeatedOtherwise hblock _ _ fuel).bind fun more => ?_
    refine .pure fun hmore hstatements ss hss => ?_
    exact Option.some.inj hss ▸ List.forall_mem_append.mpr ⟨hstatements, hmore⟩
  refine .ite (fun _ => hrest ()) fun _ => ?_
  exact reads_current.step fun _ => (reads_report _).step hrest

theorem reads_ifStatement :
    Reads quiet (ifStatement block) fun o => ∀ s ∈ o, s.WellFormed := by
  refine reads_advance.step fun start => reads_remaining.step fun headerStart => ?_
  refine reads_ifHeader.bind fun header => (reads_recoverHeader _ _).step fun _ => ?_
  refine (reads_openBlock _ _).step fun _ => hblock.bind fun thenBlock => ?_
  refine (reads_otherwiseBranch hblock _).bind fun otherwise => ?_
  refine (reads_closeBlock _).step fun _ => ?_
  split
  · exact .pure (by simp)
  · next condition hcondition =>
      refine (reads_spanFrom start).step fun _ => (reads_countNode start).step fun _ => ?_
      refine .pure fun ho ht hc s hs => ?_
      obtain rfl := Option.some.inj hs
      have ht := Stmt.allWellFormed_iff.mpr ht
      cases otherwise with
      | none => exact ⟨hc _ hcondition, ht⟩
      | some o => exact ⟨hc _ hcondition, ht, Stmt.allWellFormed_iff.mpr (ho o rfl)⟩

theorem reads_forStatement :
    Reads quiet (forStatement block) fun o => ∀ s ∈ o, s.WellFormed := by
  refine reads_advance.step fun start => reads_remaining.step fun headerStart => ?_
  refine reads_forHeader.bind fun header => (reads_recoverHeader _ _).step fun _ => ?_
  refine (reads_openBlock _ _).step fun _ => hblock.bind fun body => ?_
  refine (reads_closeBlock _).step fun _ => ?_
  split
  · next item iterable hheader =>
      refine (reads_spanFrom start).step fun _ => (reads_countNode start).step fun _ => ?_
      refine .pure fun hbody he s hs => ?_
      obtain rfl := Option.some.inj hs
      obtain ⟨hitem, he⟩ := he _ _ hheader
      exact ⟨hitem, he, Stmt.allWellFormed_iff.mpr hbody⟩
  · exact .pure (by simp)

theorem reads_statement :
    Reads quiet (statement block) fun o => ∀ s ∈ o, s.WellFormed := by
  have hsome : ∀ {p : Parser Stmt}, Reads quiet p Stmt.WellFormed →
      Reads quiet (some <$> p) fun o => ∀ s ∈ o, s.WellFormed :=
    fun hp => .map (hp.mono fun s hs => by simpa using hs)
  refine reads_current.step fun t => ?_
  split
  · exact hsome reads_letStatement
  · exact reads_ifStatement hblock
  · exact reads_forStatement hblock
  · exact hsome reads_callStatement
  · exact hsome reads_returnStatement
  · exact reads_fail _
  · exact hsome reads_expressionStatement

theorem reads_recoveringStatement :
    Reads quiet (recoveringStatement block) fun o => ∀ s ∈ o, s.WellFormed := by
  refine reads_remaining.step fun start => (reads_statement hblock).attempt.bind fun r => ?_
  cases r with
  | ok s => exact .pure fun hs => hs s rfl
  | error d =>
      refine (reads_report d).step fun _ => (reads_synchronize _ _).step fun _ => ?_
      exact .pure (by simp)

theorem reads_statements (fuel : Nat) :
    Reads quiet (statements block fuel) fun ss => ∀ s ∈ ss, s.WellFormed := by
  induction fuel with
  | zero => exact .pure (by simp)
  | succ fuel ih =>
      refine reads_current.step fun t => reads_blockStep.step fun step => ?_
      cases step with
      | leave => exact .pure (by simp)
      | stray word => exact (reads_skipStrayCloser t word).step fun _ => ih
      | statement =>
          refine (reads_checkTime t).step fun _ => ?_
          refine (reads_recoveringStatement hblock).bind fun s => ih.bind fun rest => ?_
          refine .pure fun hrest hs => List.forall_mem_append.mpr ⟨fun u hu => ?_, hrest⟩
          exact hs u (Option.mem_toList.mp hu)

end

theorem reads_blockUpTo (depth : Nat) :
    Reads quiet (blockUpTo depth) fun ss => ∀ s ∈ ss, s.WellFormed := by
  induction depth with
  | zero => exact .pure (by simp)
  | succ depth ih => exact reads_remaining.step fun fuel => reads_statements ih fuel

theorem reads_block : Reads quiet block fun ss => ∀ s ∈ ss, s.WellFormed :=
  reads_remaining.step reads_blockUpTo

end Parser

end Prosaic
