import Prosaic.Grammar.Declaration
import Prosaic.Grammar.Statement
import Prosaic.Proofs.Selecting.Expression

/-!
Statements and declarations complain about no field access: what they report themselves starts with
other words, and their expressions report nothing of the kind. So no reading of the tokens of a text
complains about one.
-/

namespace Prosaic

namespace Parser

/-! ### Recovery -/

theorem avoids_skipToBoundary (colonToo : Bool) (fuel : Nat) :
    Avoids (skipToBoundary colonToo fuel) fun _ => True := by
  induction fuel with
  | zero => exact .pure trivial
  | succ fuel ih =>
      refine avoids_current.step fun t => ?_
      split
      · exact .pure trivial
      · exact avoids_advance.step fun _ => .pure trivial
      · exact avoids_advance.step fun _ => .ite (.pure trivial) ih
      · exact .ite (.pure trivial) (avoids_advance.step fun _ => ih)
      · exact avoids_advance.step fun _ => ih

theorem avoids_synchronize (start : Nat) (colonToo : Bool) :
    Avoids (synchronize start colonToo) fun _ => True := by
  refine avoids_remaining.step fun here => ?_
  extract_lets rest
  have hrest : ∀ u, Avoids (rest u) fun _ => True :=
    fun _ => avoids_remaining.step fun fuel => avoids_skipToBoundary colonToo fuel
  exact .ite (avoids_advance.step fun _ => hrest ()) (hrest ())

theorem avoids_recoverHeader (start : Nat) {failure : Option Diagnostic}
    (h : ∀ d ∈ failure, d.Avoids) : Avoids (recoverHeader start failure) fun _ => True := by
  cases failure with
  | none => exact .pure trivial
  | some d =>
      have hd : d.Avoids := h d rfl
      exact (avoids_synchronize start true).step fun _ => .ite (avoids_report hd) (avoids_fail hd)

/-! ### Open constructs -/

theorem avoids_openBlock (b : Block) (opener : Token) :
    Avoids (openBlock b opener) fun _ => True :=
  (avoids_enter opener).step fun _ _ hs => .done trivial { hs with }

theorem avoids_popBlock : Avoids popBlock fun _ => True := fun _ hs => .done trivial { hs with }

theorem avoids_skipStrayCloser (endToken word : Token) :
    Avoids (skipStrayCloser endToken word) fun _ => True := by
  have hwords : Diverges "'End " := by decide
  refine avoids_openBlocks.step fun blocks => ?_
  refine (avoids_report (((hwords.append _).append _).problem _ _)).step fun _ => ?_
  refine avoids_advance.step fun _ => avoids_advance.step fun _ => ?_
  exact avoids_acceptTerminator.step fun _ => .pure trivial

theorem avoids_closer (b : Block) : Avoids (closer b) fun _ => True := by
  have hmissing : Diverges "Missing '.' after 'End " := by decide
  have hmismatched : Diverges "Mismatched block closer 'End " := by decide
  have hincomplete : Diverges "Incomplete block closer for " := by decide
  have hreached : Diverges "Reached end of input while " := by decide
  have hstarts : Diverges "New declaration starts while " := by decide
  have hunexpected : Diverges "Unexpected " := by decide
  refine avoids_current.step fun t => avoids_second.step fun word => ?_
  split
  · split
    · refine .ite ?_ ?_
      · refine avoids_advance.step fun _ => avoids_advance.step fun _ => ?_
        refine avoids_acceptTerminator.step fun closed => .ite (.pure trivial) ?_
        refine avoids_current.step fun next => ?_
        exact (avoids_report (((hmissing.append _).append _).problem _ _)).step fun _ =>
          .pure trivial
      · exact (avoids_report
          (((((hmismatched.append _).append _).append _).append _).problem _ _)).step
          fun _ => .pure trivial
    · refine (avoids_report ((hincomplete.append _).expectation _ _ _)).step fun _ => ?_
      refine avoids_advance.step fun _ => ?_
      exact avoids_acceptTerminator.step fun _ => .pure trivial
  · extract_lets message
    have hmessage : Diverges message := by
      unfold message
      split
      · exact (hreached.append _).append _
      · exact (hstarts.append _).append _
      · exact (((hunexpected.append _).append _).append _).append _
    exact (avoids_report (hmessage.problem _ _)).step fun _ => .pure trivial

theorem avoids_closeBlock (b : Block) : Avoids (closeBlock b) fun _ => True :=
  (avoids_closer b).step fun _ => avoids_popBlock.step fun _ => .pure trivial

/-! ### Simple statements -/

theorem avoids_letStatement : Avoids letStatement fun _ => True := by
  have hlet : DivergesWithin "'Let' binding" := by decide
  have hnamed : DivergesWithin "'Let " := by decide
  refine avoids_advance.step fun start => (avoids_expectIdentifier hlet _).step fun name => ?_
  refine (avoids_expectKeyword ((hnamed.append _).append _) _ _).step fun _ => ?_
  refine avoids_expression.step fun init => (avoids_expectTerminator _).step fun _ => ?_
  exact avoids_finish start _

theorem avoids_returnStatement : Avoids returnStatement fun _ => True := by
  refine avoids_advance.step fun start => avoids_current.step fun t => ?_
  extract_lets rest
  have hrest : ∀ value, Avoids (rest value) fun _ => True :=
    fun value => (avoids_expectTerminator _).step fun _ => avoids_finish start _
  refine .ite (Avoids.step (Q := fun _ => True) (.pure trivial) hrest) ?_
  exact Avoids.step (Q := fun _ => True) (.map avoids_expression fun _ => trivial) hrest

theorem avoids_callStatement : Avoids callStatement fun _ => True := by
  refine avoids_current.step fun start => avoids_call.step fun v => ?_
  exact (avoids_expectTerminator _).step fun _ => avoids_finish start _

theorem avoids_rejectMisspelt : Avoids rejectMisspelt fun _ => True := by
  have hwords : Diverges "Unknown statement starting with '" := by decide
  refine avoids_current.step fun t => avoids_second.step fun next => ?_
  split
  · exact avoids_fail (((hwords.append _).append _).problem _ _)
  · exact .pure trivial

theorem avoids_expressionStatement : Avoids expressionStatement fun _ => True := by
  refine avoids_rejectMisspelt.step fun _ => avoids_current.step fun start => ?_
  refine avoids_expression.step fun value => (avoids_expectTerminator _).step fun _ => ?_
  exact avoids_finish start _

/-! ### Statements with blocks -/

theorem avoids_ifHeader : Avoids ifHeader fun h => ∀ d ∈ h.2, d.Avoids := by
  have hheader : DivergesWithin "'If' header" := by decide
  refine avoids_expression.attempt.bind fun r hr => ?_
  cases r with
  | error d => exact .pure fun _ h => Option.some.inj h ▸ hr d rfl
  | ok condition =>
      refine Avoids.bind (.attempt ((avoids_expectKeyword hheader _ _).step fun _ =>
        avoids_expectSign hheader _ _)) fun rest hrest => ?_
      cases rest with
      | error d => exact .pure fun _ h => Option.some.inj h ▸ hrest d rfl
      | ok t => exact .pure nofun

theorem avoids_forHeader : Avoids forHeader fun h => ∀ d ∈ h.2, d.Avoids := by
  have hfor : DivergesWithin "'For' header" := by decide
  have heach : DivergesWithin "'For each' header" := by decide
  refine Avoids.bind (.attempt ((avoids_expectKeyword hfor _ _).step fun _ =>
    avoids_expectIdentifier heach _)) fun item hitem => ?_
  cases item with
  | error d => exact .pure fun _ h => Option.some.inj h ▸ hitem d rfl
  | ok item =>
      refine Avoids.bind (.attempt ((avoids_expectKeyword heach _ _).step fun _ =>
        avoids_expression)) fun iterable hiterable => ?_
      cases iterable with
      | error d => exact .pure fun _ h => Option.some.inj h ▸ hiterable d rfl
      | ok iterable =>
          refine (avoids_expectSign heach _ _).attempt.bind fun colon hcolon => ?_
          cases colon with
          | error d => exact .pure fun _ h => Option.some.inj h ▸ hcolon d rfl
          | ok t => exact .pure nofun

section

variable {block : Parser (List Stmt)} (hblock : Avoids block fun _ => True)

include hblock

theorem avoids_repeatedOtherwise (ifLine otherwiseLine fuel : Nat) :
    Avoids (repeatedOtherwise block ifLine otherwiseLine fuel) fun _ => True := by
  have hwords : Diverges "Second 'Otherwise' in the same 'If'" := by decide
  induction fuel with
  | zero => exact .pure trivial
  | succ fuel ih =>
      refine (avoids_atKeyword _).step fun _ => .ite ?_ (.pure trivial)
      refine avoids_current.step fun t => (avoids_report (hwords.problem _ _)).step fun _ => ?_
      refine avoids_advance.step fun _ => (avoids_acceptSign _).step fun _ => ?_
      exact hblock.step fun statements => ih.step fun more => .pure trivial

theorem avoids_otherwiseBranch (ifLine : Nat) :
    Avoids (otherwiseBranch block ifLine) fun _ => True := by
  have hwords : Diverges "Malformed 'Otherwise' branch" := by decide
  refine (avoids_atKeyword _).step fun _ => .ite ?_ (.pure trivial)
  refine avoids_advance.step fun start => (avoids_acceptSign _).step fun _ => ?_
  extract_lets rest
  have hrest : ∀ u, Avoids (rest u) fun _ => True := by
    refine fun _ => hblock.step fun statements => avoids_remaining.step fun fuel => ?_
    exact (avoids_repeatedOtherwise hblock _ _ fuel).step fun more => .pure trivial
  refine .ite (hrest ()) (avoids_current.step fun t => ?_)
  exact (avoids_report (hwords.expectation _ _ _)).step hrest

theorem avoids_ifStatement : Avoids (ifStatement block) fun _ => True := by
  refine avoids_advance.step fun start => avoids_remaining.step fun headerStart => ?_
  refine avoids_ifHeader.bind fun header hheader => ?_
  refine (avoids_recoverHeader headerStart hheader).step fun _ => ?_
  refine (avoids_openBlock _ start).step fun _ => hblock.step fun thenBlock => ?_
  refine (avoids_otherwiseBranch hblock _).step fun otherwise => ?_
  refine (avoids_closeBlock _).step fun _ => ?_
  split
  · exact .pure trivial
  · exact avoids_finish start _

theorem avoids_forStatement : Avoids (forStatement block) fun _ => True := by
  refine avoids_advance.step fun start => avoids_remaining.step fun headerStart => ?_
  refine avoids_forHeader.bind fun header hheader => ?_
  refine (avoids_recoverHeader headerStart hheader).step fun _ => ?_
  refine (avoids_openBlock _ start).step fun _ => hblock.step fun body => ?_
  refine (avoids_closeBlock _).step fun _ => ?_
  split
  · exact avoids_finish start _
  · exact .pure trivial

theorem avoids_statement : Avoids (statement block) fun _ => True := by
  have hwords : Diverges "'Otherwise' without a matching 'If'" := by decide
  refine avoids_current.step fun t => ?_
  split
  · exact .map avoids_letStatement fun _ => trivial
  · exact avoids_ifStatement hblock
  · exact avoids_forStatement hblock
  · exact .map avoids_callStatement fun _ => trivial
  · exact .map avoids_returnStatement fun _ => trivial
  · exact avoids_fail (hwords.problem _ _)
  · exact .map avoids_expressionStatement fun _ => trivial

theorem avoids_recoveringStatement : Avoids (recoveringStatement block) fun _ => True := by
  refine avoids_remaining.step fun start => (avoids_statement hblock).attempt.bind fun r hr => ?_
  cases r with
  | ok s => exact .pure trivial
  | error d =>
      refine (avoids_report (hr d rfl)).step fun _ => ?_
      exact (avoids_synchronize _ _).step fun _ => .pure trivial

omit hblock in
theorem avoids_blockStep : Avoids blockStep fun _ => True := by
  refine avoids_current.step fun t => avoids_second.step fun word => ?_
  refine avoids_openBlocks.step fun blocks => ?_
  split
  · exact .pure trivial
  · exact .pure trivial
  · exact .pure trivial
  · split
    · exact .pure trivial
    · exact .pure trivial
  · exact .pure trivial

theorem avoids_statements (fuel : Nat) : Avoids (statements block fuel) fun _ => True := by
  induction fuel with
  | zero => exact .pure trivial
  | succ fuel ih =>
      refine avoids_current.step fun t => avoids_blockStep.step fun step => ?_
      cases step with
      | leave => exact .pure trivial
      | stray word => exact (avoids_skipStrayCloser t word).step fun _ => ih
      | statement =>
          refine (avoids_checkTime t).step fun _ => ?_
          exact (avoids_recoveringStatement hblock).step fun s => ih.step fun rest => .pure trivial

end

theorem avoids_blockUpTo (depth : Nat) : Avoids (blockUpTo depth) fun _ => True := by
  induction depth with
  | zero => exact .pure trivial
  | succ depth ih => exact avoids_remaining.step fun fuel => avoids_statements ih fuel

theorem avoids_block : Avoids block fun _ => True :=
  avoids_remaining.step fun depth => avoids_blockUpTo depth

/-! ### Types -/

theorem avoids_typeRefUpTo (fuel : Nat) : Avoids (typeRefUpTo fuel) fun _ => True := by
  have htype : DivergesWithin "type" := by decide
  induction fuel with
  | zero => exact (avoids_expectIdentifier htype _).step fun t => .pure trivial
  | succ fuel ih =>
      refine (avoids_expectIdentifier htype _).step fun t => .ite ?_ (.pure trivial)
      refine (avoids_acceptKeyword .of).step fun _ => .ite ?_ (.pure trivial)
      exact (ih.nested t).step fun element => (avoids_spanFrom t).step fun _ => .pure trivial

theorem avoids_typeRef : Avoids typeRef fun _ => True := avoids_remaining.step avoids_typeRefUpTo

/-! ### Functions -/

theorem avoids_parameter : Avoids parameter fun _ => True := by
  have hlist : DivergesWithin "parameter list" := by decide
  have hnamed : DivergesWithin "parameter '" := by decide
  refine (avoids_expectIdentifier hlist _).step fun name => ?_
  refine (avoids_expectKeyword ((hnamed.append _).append _) _ _).step fun _ => ?_
  exact avoids_typeRef.step fun ty => (avoids_spanFrom name).step fun _ => .pure trivial

theorem avoids_parameters (fuel : Nat) :
    Avoids (parameters fuel) fun ps => ∀ d ∈ ps.2, d.Avoids := by
  induction fuel with
  | zero => exact .pure nofun
  | succ fuel ih =>
      refine avoids_parameter.attempt.bind fun r hr => ?_
      cases r with
      | error d => exact .pure fun _ h => Option.some.inj h ▸ hr d rfl
      | ok p =>
          refine (avoids_acceptSign .comma).step fun _ => .ite ?_ (.pure nofun)
          exact ih.bind fun ps hps => .pure hps

theorem avoids_returnClause : Avoids returnClause fun _ => True :=
  (avoids_acceptKeyword .returning).step fun _ =>
    .ite (.map avoids_typeRef fun _ => trivial) (.pure trivial)

theorem avoids_headerEnd (name : String) : Avoids (headerEnd name) fun _ => True := by
  have hwords : Diverges "Malformed function declaration" := by decide
  have hheader : DivergesWithin "header of function '" := by decide
  refine avoids_current.step fun t => .ite (avoids_fail (hwords.problem _ _)) ?_
  exact (avoids_expectSign ((hheader.append _).append _) _ _).step fun _ => .pure trivial

theorem avoids_functionHeader : Avoids functionHeader fun h => ∀ d ∈ h.2, d.Avoids := by
  have hfunction : DivergesWithin "function declaration" := by decide
  refine (avoids_expectIdentifier hfunction _).attempt.bind fun r hr => ?_
  cases r with
  | error d => exact .pure fun _ h => Option.some.inj h ▸ hr d rfl
  | ok name =>
      refine avoids_remaining.step fun fuel => (avoids_acceptKeyword .taking).step fun _ => ?_
      extract_lets rest
      have hrest : ∀ x : List Typed × Option Diagnostic, (∀ d ∈ x.2, d.Avoids) →
          Avoids (rest x) fun h => ∀ d ∈ h.2, d.Avoids := by
        rintro ⟨ps, failure⟩ hx
        cases failure with
        | some d => exact .pure fun _ h => Option.some.inj h ▸ hx d rfl
        | none =>
            refine avoids_returnClause.attempt.bind fun returns hreturns => ?_
            cases returns with
            | error d => exact .pure fun _ h => Option.some.inj h ▸ hreturns d rfl
            | ok returns =>
                refine (avoids_headerEnd _).attempt.bind fun done hdone => ?_
                cases done with
                | error d => exact .pure fun _ h => Option.some.inj h ▸ hdone d rfl
                | ok u => exact .pure nofun
      refine .ite ((avoids_parameters _).bind hrest) ?_
      exact Avoids.bind (Q := fun x => ∀ d ∈ x.2, d.Avoids) (.pure nofun) hrest

theorem avoids_functionDecl (define : Token) (purity : Purity) :
    Avoids (functionDecl define purity) fun _ => True := by
  have hfunction : DivergesWithin "function declaration" := by decide
  refine (avoids_expectKeyword hfunction _ _).step fun _ => avoids_current.step fun nameToken => ?_
  refine avoids_remaining.step fun headerStart =>
    avoids_functionHeader.bind fun header hheader => ?_
  refine (avoids_recoverHeader headerStart hheader).step fun _ => ?_
  refine (avoids_openBlock _ define).step fun _ => avoids_block.step fun body => ?_
  exact (avoids_closeBlock _).step fun closer => avoids_finish define _

/-! ### Types and records -/

theorem avoids_literalsRest (name : String) (fuel : Nat) :
    Avoids (literalsRest name fuel) fun _ => True := by
  have hwords : Diverges "Malformed type declaration '" := by decide
  induction fuel with
  | zero => exact .pure trivial
  | succ fuel ih =>
      refine (avoids_acceptKeyword .or).step fun _ => .ite ?_ (.pure trivial)
      refine avoids_current.step fun t => ?_
      split
      · exact avoids_advance.step fun _ => ih.step fun values => .pure trivial
      · exact avoids_fail (((hwords.append _).append _).expectation _ _ _)

theorem avoids_typeDecl (define : Token) : Avoids (typeDecl define) fun _ => True := by
  have htype : DivergesWithin "type declaration" := by decide
  have hnamed : DivergesWithin "type declaration '" := by decide
  have htwice : Diverges "Type '" := by decide
  refine (avoids_expectKeyword htype _ _).step fun _ => ?_
  refine (avoids_expectIdentifier htype _).step fun name => ?_
  refine (avoids_expectKeyword ((hnamed.append _).append _) _ _).step fun _ => ?_
  refine avoids_current.step fun t => ?_
  extract_lets rest
  have hrest : ∀ body, Avoids (rest body) fun _ => True :=
    fun body => (avoids_expectTerminator _).step fun _ => avoids_finish define _
  split
  · refine avoids_advance.step fun _ => avoids_remaining.step fun fuel => ?_
    refine (avoids_literalsRest _ fuel).step fun values => ?_
    extract_lets values twice body
    have hbody : ∀ u, Avoids (body u) fun _ => True :=
      fun _ => Avoids.step (Q := fun _ => True) (.pure trivial) hrest
    refine .ite (hbody ()) (Avoids.step (avoids_report ?_) hbody)
    exact ((((htwice.append _).append _).append _).append _).problem _ _
  · exact Avoids.step (Q := fun _ => True) (.map avoids_typeRef fun _ => trivial) hrest

theorem avoids_recordField (record : String) : Avoids (recordField record) fun _ => True := by
  have hrecord : DivergesWithin "record '" := by decide
  have hfield : DivergesWithin "field '" := by decide
  refine (avoids_expectIdentifier ((hrecord.append _).append _) _).step fun field => ?_
  refine (avoids_expectKeyword ((hfield.append _).append _) _ _).step fun _ => ?_
  refine avoids_typeRef.step fun ty => (avoids_expectTerminator _).step fun _ => ?_
  exact (avoids_spanFrom field).step fun _ => .pure trivial

theorem avoids_recordFields (record : String) (fuel : Nat) :
    Avoids (recordFields record fuel) fun _ => True := by
  induction fuel with
  | zero => exact .pure trivial
  | succ fuel ih =>
      refine avoids_current.step fun t => ?_
      split
      · exact .pure trivial
      · exact .pure trivial
      · exact .pure trivial
      · refine avoids_remaining.step fun start =>
          (avoids_recordField record).attempt.bind fun r hr => ?_
        cases r with
        | ok f => exact ih.step fun fs => .pure trivial
        | error d =>
            refine (avoids_report (hr d rfl)).step fun _ => ?_
            exact (avoids_synchronize _ _).step fun _ => ih

theorem avoids_recordDecl (define : Token) : Avoids (recordDecl define) fun _ => True := by
  have hrecord : DivergesWithin "record declaration" := by decide
  have hnamed : DivergesWithin "record declaration '" := by decide
  refine (avoids_expectKeyword hrecord _ _).step fun _ => ?_
  refine (avoids_expectIdentifier hrecord _).step fun name => ?_
  refine (avoids_expectSign ((hnamed.append _).append _) _ _).step fun _ => ?_
  refine (avoids_openBlock _ define).step fun _ => avoids_remaining.step fun fuel => ?_
  refine (avoids_recordFields _ fuel).step fun fields => ?_
  exact (avoids_closeBlock _).step fun _ => avoids_finish define _

/-! ### Declarations -/

theorem avoids_declaration : Avoids declaration fun _ => True := by
  have hdeclaration : DivergesWithin "declaration" := by decide
  have heffectful : Diverges "Malformed effectful declaration" := by decide
  refine (avoids_expectKeyword hdeclaration _ _).step fun define => ?_
  refine (avoids_acceptKeyword .effectful).step fun effectful => avoids_current.step fun t => ?_
  split
  · exact .map (avoids_functionDecl define _) fun _ => trivial
  · refine .ite (avoids_fail (heffectful.expectation _ _ _)) ?_
    split
    · exact .map (avoids_typeDecl define) fun _ => trivial
    · exact .map (avoids_recordDecl define) fun _ => trivial
    · exact avoids_fail (Diverges.expectation hdeclaration _ _ _)

theorem avoids_skipToDefine (fuel : Nat) : Avoids (skipToDefine fuel) fun _ => True := by
  induction fuel with
  | zero => exact .pure trivial
  | succ fuel ih =>
      refine avoids_current.step fun t => .ite (.pure trivial) ?_
      exact avoids_advance.step fun _ => ih

theorem avoids_skipping :
    Avoids (do skipToDefine (← remaining); return (none : Option Decl)) fun _ => True :=
  avoids_remaining.step fun fuel => (avoids_skipToDefine fuel).step fun _ => .pure trivial

theorem avoids_recoveringDeclaration : Avoids recoveringDeclaration fun _ => True := by
  refine avoids_remaining.step fun start => avoids_declaration.attempt.bind fun r hr => ?_
  cases r with
  | ok d => exact .pure trivial
  | error d =>
      refine (avoids_report (hr d rfl)).step fun _ => ?_
      exact (avoids_synchronize _ _).step fun _ => avoids_skipping

theorem avoids_topLevel : Avoids topLevel fun _ => True := by
  have hwords : Diverges "Unexpected " := by decide
  refine avoids_current.step fun t => .ite avoids_recoveringDeclaration ?_
  refine (avoids_report (((hwords.append _).append _).problem _ _)).step fun _ => ?_
  exact avoids_advance.step fun _ => avoids_skipping

/-- Whatever is found in a run of the top level is about something else. -/
theorem avoids_declarations (fuel : Nat) {s : State} (hs : s.Avoiding) :
    ∀ d ∈ (declarations fuel s).2.found, d.Avoids := by
  induction fuel generalizing s with
  | zero => exact hs.found
  | succ fuel ih =>
      have hturn := avoids_topLevel hs
      unfold declarations
      split
      · exact hs.found
      · generalize topLevel s = o at hturn ⊢
        cases hturn with
        | done _ hs => exact ih hs
        | failed hd hs => exact ih { hs with found := List.forall_mem_cons.mpr ⟨hd, hs.found⟩ }
        | stopped hfound => exact List.forall_mem_cons.mpr ⟨Exceeded.avoids _ _, hfound⟩

end Parser

/-! ### Programs -/

theorem Parser.followed_of_name {stop : Token} (hstop : stop.kind.isName = false)
    {ts : List Token} (h : ∀ front dot back, ts ++ [stop] = front ++ dot :: back →
      dot.kind = .sign .dot → ∃ t ∈ back.head?, t.kind.isName = true) : Followed ts := by
  induction ts with
  | nil => trivial
  | cons t ts ih =>
      refine ⟨fun hdot => ?_, ih fun front dot back hsplit => ?_⟩
      · obtain ⟨u, hu, hname⟩ := h [] t (ts ++ [stop]) rfl hdot
        cases ts with
        | nil =>
            obtain rfl := Option.some.inj hu
            rw [hstop] at hname
            cases hname
        | cons v ts => exact ⟨u, hu, hname⟩
      · exact h (t :: front) dot back (by rw [List.cons_append, hsplit, List.cons_append])

/-- A dot that selects a field stands right behind a word, a number or a closing bracket and right
before a name; and so no reading of the tokens of a text reports a malformed field access. -/
theorem Program.read_selects {source : String} {tokens : List Token}
    (h : Token.scan source = .ok tokens) :
    (∀ front dot back, tokens = front ++ dot :: back → dot.kind = .sign .dot →
      Token.Selects front dot back) ∧
    ∀ budget, ∃ r, Program.read tokens budget = some r ∧
      ∀ d ∈ r.found, ¬"Malformed field access".toList <+: d.message.toList := by
  have hselects := Token.scan_selects h
  refine ⟨hselects, fun budget => ?_⟩
  obtain ⟨init, stop, rfl, hstop, -, hinit⟩ := Token.scan_spec h
  have hfollowed : Parser.Followed init := by
    refine Parser.followed_of_name (by rw [hstop]; rfl) fun front dot back hsplit hdot => ?_
    obtain ⟨t, ht, hname, -⟩ := (hselects front dot back hsplit hdot).name
    exact ⟨t, ht, hname⟩
  have hlast : stop.isEof = true := by simp [Token.isEof, hstop]
  have hother : ∀ t ∈ init, t.isEof = false := by
    intro t ht
    simpa [Token.isEof] using (hinit t ht).1
  have hstart : (Parser.State.start init stop budget).Avoiding :=
    ⟨hfollowed, hlast, List.forall_mem_nil _⟩
  refine ⟨_, Program.read_append hother hlast budget, fun d hd => ?_⟩
  exact Parser.avoids_declarations _ hstart d (List.mem_reverse.mp hd)

/-- Two dots that select a field, behind a reserved word and behind a bracket, and others that do
not: before a reserved word, before a digit and behind a string. -/
theorem Program.read_selects_bracket : ∃ tokens,
    Token.scan "Return.x (1).y .z a.if 2.5. \"s\".t" = .ok tokens ∧
      (tokens.filter fun t => t.kind = .sign .dot).map (·.span.start.column) = [7, 13] ∧
      (∀ front dot back, tokens = front ++ dot :: back → dot.kind = .sign .dot →
        Token.Selects front dot back) ∧
      ∀ budget, ∃ r, Program.read tokens budget = some r ∧
        ∀ d ∈ r.found, ¬"Malformed field access".toList <+: d.message.toList := by
  have hrun : ((Token.scan "Return.x (1).y .z a.if 2.5. \"s\".t").toOption.any fun tokens =>
      (tokens.filter fun t => t.kind = .sign .dot).map (·.span.start.column) == [7, 13]) =
        true := by
    decide +kernel
  obtain ⟨tokens, hscan, hdots⟩ := any_toOption.mp hrun
  exact ⟨tokens, hscan, beq_iff_eq.mp hdots, Program.read_selects hscan⟩

end Prosaic
