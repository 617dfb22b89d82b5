import Prosaic.Proofs.Blocks.Balance
import Prosaic.Proofs.Blocks.Discipline
import Prosaic.Proofs.Located.Expression

/-!
Where statements and declarations start, and what a whole reading keeps to. Every statement is
inside a function, so it has one level less than the limit; a call that stands as a statement takes
no level itself, so it may be one higher than what else stands there. A function takes one level of
nesting, and so does a record; between declarations no level is taken.
-/

namespace Prosaic.Parser.Frame

variable {α β : Type} {c : Frame} {k : Int}

/-! ### Recovery -/

theorem stays_skipToBoundary (colonToo : Bool) (fuel : Nat) :
    c.Stays k k (skipToBoundary colonToo fuel) fun _ => True := by
  induction fuel with
  | zero => exact .pure trivial
  | succ fuel ih =>
      refine stays_current.step fun t => ?_
      split
      · exact .pure trivial
      · exact stays_advance.step fun _ => .pure trivial
      · exact stays_advance.step fun _ => .ite (.pure trivial) ih
      · exact .ite (.pure trivial) (stays_advance.step fun _ => ih)
      · exact stays_advance.step fun _ => ih

theorem stays_synchronize (start : Nat) (colonToo : Bool) :
    c.Stays k k (synchronize start colonToo) fun _ => True := by
  refine stays_remaining.step fun here => ?_
  extract_lets rest
  have hrest : ∀ u, c.Stays k k (rest u) fun _ => True :=
    fun _ => stays_remaining.step fun fuel => stays_skipToBoundary colonToo fuel
  exact .ite (stays_advance.step fun _ => hrest ()) (hrest ())

theorem stays_recoverHeader (start : Nat) {failure : Option Diagnostic}
    (h : ∀ d ∈ failure, c.mark d.location) :
    c.Stays k k (recoverHeader start failure) fun _ => True := by
  cases failure with
  | none => exact .pure trivial
  | some d =>
      have hd : c.mark d.location := h d rfl
      exact (stays_synchronize start true).step fun _ => .ite (stays_report hd) (stays_fail hd)

/-! ### Open constructs -/

theorem stays_openBlock (b : Block) {opener : Token} (h : c.At opener) :
    c.Stays k (k + 1) (openBlock b opener) fun _ => True := by
  refine Stays.step (stays_enter h) fun _ s hs => ?_
  exact .done trivial { hs with }

theorem stays_popBlock : c.Stays (k + 1) k popBlock fun _ => True :=
  fun _ hs => .done trivial { hs.exit with }

theorem stays_skipStrayCloser {endToken : Token} (hend : c.At endToken) (word : Token) :
    c.Stays k k (skipStrayCloser endToken word) fun _ => True := by
  refine stays_openBlocks.step fun blocks => (stays_report hend).step fun _ => ?_
  refine stays_advance.step fun _ => stays_advance.step fun _ => ?_
  exact stays_acceptTerminator.step fun _ => .pure trivial

theorem stays_closer (b : Block) : c.Stays k k (closer b) fun _ => True := by
  refine stays_current.bind fun t ht => stays_second.bind fun word hword => ?_
  split
  · split
    · refine .ite ?_ ((stays_report ht).step fun _ => .pure trivial)
      refine stays_advance.step fun _ => stays_advance.step fun _ => ?_
      refine stays_acceptTerminator.step fun closed => .ite (.pure trivial) ?_
      exact stays_current.bind fun next hnext => (stays_report hnext).step fun _ => .pure trivial
    · have hplace : c.At (if word.isEof then t else word) := by
        split
        · exact ht
        · exact hword
      refine (stays_report hplace).step fun _ => stays_advance.step fun _ => ?_
      exact stays_acceptTerminator.step fun _ => .pure trivial
  · exact (stays_report ht).step fun _ => .pure trivial

theorem stays_closeBlock (b : Block) : c.Stays (k + 1) k (closeBlock b) fun _ => True :=
  (stays_closer b).through (.inr (recovers_closer b)) fun _ _ =>
    stays_popBlock.step fun _ => .pure trivial

/-! ### What statements hold -/

/-- The greatest height of an expression in a function. -/
def top (c : Frame) : Nat := tallest (c.room 1) + 1

/-- A statement that starts at the places of a frame, with expressions that are not too high. -/
def Holds (c : Frame) (s : Stmt) : Prop := s.Placed c.mark (c.Fits c.top)

theorem allPlaced_of_holds {ss : List Stmt} (h : ∀ s ∈ ss, c.Holds s) :
    Stmt.AllPlaced c.mark (c.Fits c.top) ss := Stmt.allPlaced_iff.mpr h

section

variable (hk : 1 ≤ k)

include hk

theorem stays_innerExpression : c.Stays k k expression (c.Fits c.top) :=
  stays_expression.mono fun _ he => he.mono ((tallest_mono (room_le hk)).trans (Nat.le_succ _))

theorem stays_innerCall : c.Stays k k call fun v => c.Fits c.top (.call v.1 v.2.1 v.2.2) :=
  stays_call.mono fun _ he => he.mono (Nat.succ_le_succ (tallest_mono (room_le hk)))

/-! ### Simple statements -/

theorem stays_letStatement : c.Stays k k letStatement c.Holds := by
  refine stays_advance.bind fun start hstart => ?_
  refine (stays_expectIdentifier _ _).bind fun name hname => ?_
  refine (stays_expectKeyword _ _ _).step fun _ => ?_
  refine (stays_innerExpression hk).bind fun init hinit => ?_
  refine (stays_expectTerminator _).step fun _ => ?_
  exact stays_finish hstart fun span hspan => ⟨hspan, hname, hinit⟩

theorem stays_returnStatement : c.Stays k k returnStatement c.Holds := by
  refine stays_advance.bind fun start hstart => stays_current.step fun t => ?_
  extract_lets rest
  have hrest : ∀ value, (∀ e ∈ value, c.Fits c.top e) → c.Stays k k (rest value) c.Holds := by
    intro value hvalue
    refine (stays_expectTerminator _).step fun _ => stays_finish hstart fun span hspan => ?_
    cases value with
    | none => exact hspan
    | some e => exact ⟨hspan, hvalue e rfl⟩
  refine .ite (Stays.bind (.pure nofun) hrest) ?_
  refine Stays.bind (.map ((stays_innerExpression hk).mono fun e he => ?_)) hrest
  exact fun e' he' => Option.some.inj he' ▸ he

theorem stays_callStatement : c.Stays k k callStatement c.Holds := by
  refine stays_current.bind fun start hstart => (stays_innerCall hk).bind fun v hv => ?_
  refine (stays_expectTerminator _).step fun _ => ?_
  exact stays_finish hstart fun span hspan => ⟨hspan, hv⟩

omit hk in
theorem stays_rejectMisspelt : c.Stays k k rejectMisspelt fun _ => True := by
  refine stays_current.bind fun t ht => stays_second.step fun next => ?_
  split
  · exact stays_fail ht
  · exact .pure trivial

theorem stays_expressionStatement : c.Stays k k expressionStatement c.Holds := by
  refine stays_rejectMisspelt.step fun _ => stays_current.bind fun start hstart => ?_
  refine (stays_innerExpression hk).bind fun value hvalue => ?_
  refine (stays_expectTerminator _).step fun _ => ?_
  exact stays_finish hstart fun span hspan => ⟨hspan, hvalue⟩

/-! ### Statements with blocks -/

/-- What is known of a header: its expression, if it could be read, and the failure, if any. -/
theorem stays_ifHeader : c.Stays k k ifHeader fun h =>
    (∀ e ∈ h.1, c.Fits c.top e) ∧ ∀ d ∈ h.2, c.mark d.location := by
  refine (stays_innerExpression hk).attempt.bind fun r hr => ?_
  cases r with
  | error d => exact .pure ⟨nofun, fun _ h => Option.some.inj h ▸ hr.2 d rfl⟩
  | ok condition =>
      have hcondition : ∀ e ∈ some condition, c.Fits c.top e :=
        fun _ h => Option.some.inj h ▸ hr.1 condition rfl
      refine Stays.bind (.attempt ((stays_expectKeyword _ _ _).step fun _ =>
        stays_expectSign _ _ _)) fun rest hrest => ?_
      cases rest with
      | error d => exact .pure ⟨hcondition, fun _ h => Option.some.inj h ▸ hrest.2 d rfl⟩
      | ok t => exact .pure ⟨hcondition, nofun⟩

theorem stays_forHeader : c.Stays k k forHeader fun h =>
    (∀ p ∈ h.1, c.At p.1 ∧ ∀ e ∈ p.2, c.Fits c.top e) ∧ ∀ d ∈ h.2, c.mark d.location := by
  refine Stays.bind (.attempt ((stays_expectKeyword _ _ _).step fun _ =>
    stays_expectIdentifier _ _)) fun item hitem => ?_
  cases item with
  | error d => exact .pure ⟨nofun, fun _ h => Option.some.inj h ▸ hitem.2 d rfl⟩
  | ok item =>
      have hitem : c.At item := hitem.1 item rfl
      refine Stays.bind (.attempt ((stays_expectKeyword _ _ _).step fun _ =>
        stays_innerExpression hk)) fun iterable hiterable => ?_
      cases iterable with
      | error d =>
          refine .pure ⟨fun _ h => ?_, fun _ h => Option.some.inj h ▸ hiterable.2 d rfl⟩
          exact Option.some.inj h ▸ ⟨hitem, nofun⟩
      | ok iterable =>
          have hboth : ∀ p ∈ some (item, some iterable),
              c.At p.1 ∧ ∀ e ∈ p.2, c.Fits c.top e := by
            rintro _ ⟨⟩
            exact ⟨hitem, fun _ h => Option.some.inj h ▸ hiterable.1 iterable rfl⟩
          refine (stays_expectSign _ _ _).attempt.bind fun colon hcolon => ?_
          cases colon with
          | error d => exact .pure ⟨hboth, fun _ h => Option.some.inj h ▸ hcolon.2 d rfl⟩
          | ok t => exact .pure ⟨hboth, nofun⟩

end

section

variable {block : Parser (List Stmt)}
  (hblock : ∀ k, 1 ≤ k → c.Stays k k block fun ss => ∀ s ∈ ss, c.Holds s)
  (hrecovers : Recovers block)

include hblock

theorem stays_repeatedOtherwise (hk : 1 ≤ k) (ifLine otherwiseLine fuel : Nat) :
    c.Stays k k (repeatedOtherwise block ifLine otherwiseLine fuel)
      fun ss => ∀ s ∈ ss, c.Holds s := by
  induction fuel with
  | zero => exact .pure (List.forall_mem_nil _)
  | succ fuel ih =>
      refine (stays_atKeyword _).step fun _ => .ite ?_ (.pure (List.forall_mem_nil _))
      refine stays_current.bind fun t ht => (stays_report ht).step fun _ => ?_
      refine stays_advance.step fun _ => (stays_acceptSign _).step fun _ => ?_
      refine (hblock k hk).bind fun statements hstatements => ih.bind fun more hmore => ?_
      exact .pure (List.forall_mem_append.mpr ⟨hstatements, hmore⟩)

theorem stays_otherwiseBranch (hk : 1 ≤ k) (ifLine : Nat) :
    c.Stays k k (otherwiseBranch block ifLine) fun o => ∀ ss ∈ o, ∀ s ∈ ss, c.Holds s := by
  refine (stays_atKeyword _).step fun _ => .ite ?_ (.pure nofun)
  refine stays_advance.step fun start => (stays_acceptSign _).step fun _ => ?_
  extract_lets rest
  have hrest : ∀ u, c.Stays k k (rest u) fun o => ∀ ss ∈ o, ∀ s ∈ ss, c.Holds s := by
    refine fun _ => (hblock k hk).bind fun statements hstatements => ?_
    refine stays_remaining.step fun fuel => ?_
    refine (stays_repeatedOtherwise hblock hk _ _ fuel).bind fun more hmore => .pure ?_
    exact fun _ h => Option.some.inj h ▸ List.forall_mem_append.mpr ⟨hstatements, hmore⟩
  refine .ite (hrest ()) (stays_current.bind fun t ht => ?_)
  exact Stays.step (stays_report ht) hrest

include hrecovers

theorem stays_ifStatement (hk : 1 ≤ k) :
    c.Stays k k (ifStatement block) fun s => ∀ s' ∈ s, c.Holds s' := by
  have hinside : 1 ≤ k + 1 := by omega
  refine stays_advance.bind fun start hstart => stays_remaining.step fun headerStart => ?_
  refine (stays_ifHeader hk).bind fun header hheader => ?_
  refine (stays_recoverHeader headerStart hheader.2).step fun _ => ?_
  refine (stays_openBlock _ hstart).through (.inr (recovers_openBlock _ _)) fun _ _ => ?_
  refine (hblock _ hinside).through (.inr hrecovers) fun thenBlock hthen => ?_
  refine (stays_otherwiseBranch hblock hinside _).through
    (.inr (recovers_otherwiseBranch hrecovers _)) fun otherwise hotherwise => ?_
  refine (stays_closeBlock _).step fun _ => ?_
  split
  · exact .pure nofun
  · next condition hcondition =>
      refine stays_finish hstart fun span hspan _ h => Option.some.inj h ▸ ?_
      have hcondition := hheader.1 condition hcondition
      cases otherwise with
      | none => exact ⟨hspan, hcondition, allPlaced_of_holds hthen⟩
      | some ss =>
          exact ⟨hspan, hcondition, allPlaced_of_holds hthen,
            allPlaced_of_holds (hotherwise ss rfl)⟩

theorem stays_forStatement (hk : 1 ≤ k) :
    c.Stays k k (forStatement block) fun s => ∀ s' ∈ s, c.Holds s' := by
  refine stays_advance.bind fun start hstart => stays_remaining.step fun headerStart => ?_
  refine (stays_forHeader hk).bind fun header hheader => ?_
  refine (stays_recoverHeader headerStart hheader.2).step fun _ => ?_
  refine (stays_openBlock _ hstart).through (.inr (recovers_openBlock _ _)) fun _ _ => ?_
  refine (hblock _ (by omega)).through (.inr hrecovers) fun body hbody => ?_
  refine (stays_closeBlock _).step fun _ => ?_
  split
  · next item iterable hread =>
      obtain ⟨hitem, hiterable⟩ := hheader.1 _ hread
      refine stays_finish hstart fun span hspan _ h => Option.some.inj h ▸ ?_
      exact ⟨hspan, hitem, hiterable iterable rfl, allPlaced_of_holds hbody⟩
  · exact .pure nofun

theorem stays_statement (hk : 1 ≤ k) :
    c.Stays k k (statement block) fun s => ∀ s' ∈ s, c.Holds s' := by
  have hsome : ∀ {p : Parser Stmt}, c.Stays k k p c.Holds →
      c.Stays k k (some <$> p) fun s => ∀ s' ∈ s, c.Holds s' := fun hp =>
    .map (hp.mono fun _ hs _ h => Option.some.inj h ▸ hs)
  refine stays_current.bind fun t ht => ?_
  split
  · exact hsome (stays_letStatement hk)
  · exact stays_ifStatement hblock hrecovers hk
  · exact stays_forStatement hblock hrecovers hk
  · exact hsome (stays_callStatement hk)
  · exact hsome (stays_returnStatement hk)
  · exact stays_fail ht
  · exact hsome (stays_expressionStatement hk)

theorem stays_recoveringStatement (hk : 1 ≤ k) :
    c.Stays k k (recoveringStatement block) fun s => ∀ s' ∈ s, c.Holds s' := by
  refine stays_remaining.step fun start => ?_
  refine (stays_statement hblock hrecovers hk).attempt.bind fun r hr => ?_
  cases r with
  | ok s => exact .pure (hr.1 s rfl)
  | error d =>
      refine (stays_report (hr.2 d rfl)).step fun _ => ?_
      exact (stays_synchronize _ _).step fun _ => .pure nofun

omit hblock hrecovers in
theorem stays_blockStep : c.Stays k k blockStep fun _ => True := by
  refine stays_current.step fun t => stays_second.step fun word => ?_
  refine stays_openBlocks.step fun blocks => ?_
  split
  · exact .pure trivial
  · exact .pure trivial
  · exact .pure trivial
  · split
    · exact .pure trivial
    · exact .pure trivial
  · exact .pure trivial

theorem stays_statements (hk : 1 ≤ k) (fuel : Nat) :
    c.Stays k k (statements block fuel) fun ss => ∀ s ∈ ss, c.Holds s := by
  induction fuel with
  | zero => exact .pure (List.forall_mem_nil _)
  | succ fuel ih =>
      refine stays_current.bind fun t ht => stays_blockStep.step fun step => ?_
      cases step with
      | leave => exact .pure (List.forall_mem_nil _)
      | stray word => exact (stays_skipStrayCloser ht word).step fun _ => ih
      | statement =>
          refine (stays_checkTime ht).step fun _ => ?_
          refine (stays_recoveringStatement hblock hrecovers hk).bind fun s hs => ?_
          refine ih.bind fun rest hrest => .pure (List.forall_mem_append.mpr ⟨?_, hrest⟩)
          exact fun s' hs' => hs s' (Option.mem_toList.mp hs')

end

/-! ### Blocks -/

theorem stays_blockUpTo (depth : Nat) (hk : 1 ≤ k) :
    c.Stays k k (blockUpTo depth) fun ss => ∀ s ∈ ss, c.Holds s := by
  induction depth generalizing k with
  | zero => exact .pure (List.forall_mem_nil _)
  | succ depth ih =>
      refine stays_remaining.step fun fuel => ?_
      exact stays_statements (fun _ => ih) (recovers_blockUpTo depth) hk fuel

theorem stays_block (hk : 1 ≤ k) : c.Stays k k block fun ss => ∀ s ∈ ss, c.Holds s :=
  stays_remaining.step fun depth => stays_blockUpTo depth hk

/-! ### Types -/

theorem stays_typeRefUpTo (fuel : Nat) :
    c.Stays k k (typeRefUpTo fuel) fun r => r.Placed c.mark := by
  induction fuel generalizing k with
  | zero => exact (stays_expectIdentifier _ _).bind fun t ht => .pure ht
  | succ fuel ih =>
      refine (stays_expectIdentifier _ _).bind fun t ht => .ite ?_ (.pure ht)
      refine (stays_acceptKeyword _).step fun _ => .ite ?_ (.pure ht)
      refine (Stays.nested ht fun _ => ih).bind fun element helement => ?_
      exact (stays_spanFrom ht).bind fun span hspan => .pure ⟨hspan, helement⟩

theorem stays_typeRef : c.Stays k k typeRef fun r => r.Placed c.mark :=
  stays_remaining.step stays_typeRefUpTo

/-! ### Functions -/

theorem stays_parameter : c.Stays k k parameter fun p => p.Placed c.mark := by
  refine (stays_expectIdentifier _ _).bind fun name hname => ?_
  refine (stays_expectKeyword _ _ _).step fun _ => stays_typeRef.bind fun ty hty => ?_
  exact (stays_spanFrom hname).bind fun span hspan => .pure ⟨hspan, hty⟩

theorem stays_parameters (fuel : Nat) : c.Stays k k (parameters fuel) fun ps =>
    (∀ p ∈ ps.1, p.Placed c.mark) ∧ ∀ d ∈ ps.2, c.mark d.location := by
  induction fuel with
  | zero => exact .pure ⟨nofun, nofun⟩
  | succ fuel ih =>
      refine stays_parameter.attempt.bind fun r hr => ?_
      cases r with
      | error d => exact .pure ⟨nofun, fun _ h => Option.some.inj h ▸ hr.2 d rfl⟩
      | ok p =>
          have hp : p.Placed c.mark := hr.1 p rfl
          refine (stays_acceptSign _).step fun _ => .ite ?_ ?_
          · exact ih.bind fun ps hps => .pure ⟨List.forall_mem_cons.mpr ⟨hp, hps.1⟩, hps.2⟩
          · exact .pure ⟨List.forall_mem_singleton.mpr hp, nofun⟩

theorem stays_returnClause :
    c.Stays k k returnClause fun r => ∀ r' ∈ r, r'.Placed c.mark := by
  refine (stays_acceptKeyword _).step fun _ => .ite ?_ (.pure nofun)
  exact .map (stays_typeRef.mono fun _ hr _ h => Option.some.inj h ▸ hr)

theorem stays_headerEnd (name : String) : c.Stays k k (headerEnd name) fun _ => True := by
  refine stays_current.bind fun t ht => .ite (stays_fail ht) ?_
  exact (stays_expectSign _ _ _).step fun _ => .pure trivial

/-- The references to types in a header start at the places of a frame. -/
structure Heads (c : Frame) (h : Header) : Prop where
  parameters : ∀ p ∈ h.parameters, p.Placed c.mark
  returns : ∀ r ∈ h.returns, r.Placed c.mark

theorem stays_functionHeader : c.Stays k k functionHeader fun h =>
    c.Heads h.1 ∧ ∀ d ∈ h.2, c.mark d.location := by
  refine (stays_expectIdentifier _ _).attempt.bind fun r hr => ?_
  cases r with
  | error d => exact .pure ⟨⟨nofun, nofun⟩, fun _ h => Option.some.inj h ▸ hr.2 d rfl⟩
  | ok name =>
      refine stays_remaining.step fun fuel => (stays_acceptKeyword _).step fun _ => ?_
      extract_lets rest
      have hrest : ∀ ps : List Typed × Option Diagnostic,
          (∀ p ∈ ps.1, p.Placed c.mark) ∧ (∀ d ∈ ps.2, c.mark d.location) →
          c.Stays k k (rest ps) fun h => c.Heads h.1 ∧ ∀ d ∈ h.2, c.mark d.location := by
        rintro ⟨ps, failure⟩ ⟨hps, hfailure⟩
        cases failure with
        | some d => exact .pure ⟨⟨hps, nofun⟩, hfailure⟩
        | none =>
            refine stays_returnClause.attempt.bind fun returns hreturns => ?_
            cases returns with
            | error d =>
                exact .pure ⟨⟨hps, nofun⟩, fun _ h => Option.some.inj h ▸ hreturns.2 d rfl⟩
            | ok returns =>
                have hheads :=
                  Heads.mk (h := ⟨name.lexeme, ps, returns⟩) hps (hreturns.1 returns rfl)
                refine (stays_headerEnd _).attempt.bind fun done hdone => ?_
                cases done with
                | error d => exact .pure ⟨hheads, fun _ h => Option.some.inj h ▸ hdone.2 d rfl⟩
                | ok u => exact .pure ⟨hheads, nofun⟩
      refine .ite ((stays_parameters _).bind hrest) (Stays.bind (.pure ⟨nofun, nofun⟩) hrest)

theorem stays_functionDecl {define : Token} (hdefine : c.At define) (purity : Purity) :
    c.Stays 0 0 (functionDecl define purity) fun f => f.Placed c.mark (c.Fits c.top) := by
  refine (stays_expectKeyword _ _ _).step fun _ => stays_current.bind fun nameToken hname => ?_
  refine stays_remaining.step fun headerStart => ?_
  refine stays_functionHeader.bind fun header hheader => ?_
  refine (stays_recoverHeader headerStart hheader.2).step fun _ => ?_
  refine (stays_openBlock _ hdefine).through (.inr (recovers_openBlock _ _)) fun _ _ => ?_
  refine (stays_block (k := 0 + 1) le_rfl).through (.inr recovers_block) fun body hbody => ?_
  refine (stays_closeBlock _).step fun closer => stays_finish hdefine fun span hspan => ?_
  exact ⟨hspan, hname, hheader.1.parameters, hheader.1.returns, allPlaced_of_holds hbody⟩

/-! ### Types and records -/

theorem stays_literalsRest (name : String) (fuel : Nat) :
    c.Stays k k (literalsRest name fuel) fun _ => True := by
  induction fuel with
  | zero => exact .pure trivial
  | succ fuel ih =>
      refine (stays_acceptKeyword _).step fun _ => .ite ?_ (.pure trivial)
      refine stays_current.bind fun t ht => ?_
      split
      · exact stays_advance.step fun _ => ih.step fun _ => .pure trivial
      · exact stays_fail ht

theorem stays_typeDecl {define : Token} (hdefine : c.At define) : c.Stays k k (typeDecl define)
    fun t => c.mark t.span.start.location ∧ ∀ r ∈ t.body.reference?, r.Placed c.mark := by
  refine (stays_expectKeyword _ _ _).step fun _ => (stays_expectIdentifier _ _).step fun name => ?_
  extract_lets text context rest
  refine (stays_expectKeyword _ _ _).step fun _ => stays_current.step fun t => ?_
  have hrest : ∀ body : TypeBody, (∀ r ∈ body.reference?, r.Placed c.mark) →
      c.Stays k k (rest body)
        fun t => c.mark t.span.start.location ∧ ∀ r ∈ t.body.reference?, r.Placed c.mark :=
    fun body hbody => (stays_expectTerminator _).step fun _ =>
      stays_finish hdefine fun span hspan => ⟨hspan, hbody⟩
  split
  · refine stays_advance.step fun _ => stays_remaining.step fun fuel => ?_
    refine (stays_literalsRest _ fuel).step fun values => ?_
    extract_lets values twice body
    have hbody : ∀ u, c.Stays k k (body u) _ := fun _ => Stays.bind (.pure nofun) hrest
    exact .ite (hbody ()) (Stays.step (stays_report hdefine) hbody)
  · refine Stays.bind (.map (stays_typeRef.mono fun r hr => ?_)) hrest
    exact fun _ h => Option.some.inj h ▸ hr

theorem stays_recordField (record : String) :
    c.Stays k k (recordField record) fun f => f.Placed c.mark := by
  refine (stays_expectIdentifier _ _).bind fun field hfield => ?_
  refine (stays_expectKeyword _ _ _).step fun _ => stays_typeRef.bind fun ty hty => ?_
  refine (stays_expectTerminator _).step fun _ => ?_
  exact (stays_spanFrom hfield).bind fun span hspan => .pure ⟨hspan, hty⟩

theorem stays_recordFields (record : String) (fuel : Nat) :
    c.Stays k k (recordFields record fuel) fun fs => ∀ f ∈ fs, f.Placed c.mark := by
  induction fuel with
  | zero => exact .pure nofun
  | succ fuel ih =>
      refine stays_current.step fun t => ?_
      split
      · exact .pure nofun
      · exact .pure nofun
      · exact .pure nofun
      · refine stays_remaining.step fun start =>
          (stays_recordField record).attempt.bind fun r hr => ?_
        cases r with
        | ok f =>
            exact ih.bind fun fs hfs => .pure (List.forall_mem_cons.mpr ⟨hr.1 f rfl, hfs⟩)
        | error d =>
            refine (stays_report (hr.2 d rfl)).step fun _ => ?_
            exact (stays_synchronize _ _).step fun _ => ih

theorem stays_recordDecl {define : Token} (hdefine : c.At define) : c.Stays k k (recordDecl define)
    fun r => c.mark r.span.start.location ∧ ∀ f ∈ r.fields, f.Placed c.mark := by
  refine (stays_expectKeyword _ _ _).step fun _ => (stays_expectIdentifier _ _).step fun name => ?_
  refine (stays_expectSign _ _ _).step fun _ => ?_
  refine (stays_openBlock _ hdefine).through (.inr (recovers_openBlock _ _)) fun _ _ => ?_
  refine stays_remaining.through (.inr recovers_remaining) fun fuel _ => ?_
  refine (stays_recordFields _ fuel).through (.inr (recovers_recordFields _ fuel))
    fun fields hfields => ?_
  refine (stays_closeBlock _).step fun _ => ?_
  exact stays_finish hdefine fun span hspan => ⟨hspan, hfields⟩

/-! ### Declarations -/

theorem stays_declaration :
    c.Stays 0 0 declaration fun d => d.Placed c.mark (c.Fits c.top) := by
  refine (stays_expectKeyword _ _ _).bind fun define hdefine => ?_
  refine (stays_acceptKeyword _).step fun effectful => stays_current.bind fun t ht => ?_
  split
  · exact .map (stays_functionDecl hdefine _)
  · refine .ite (stays_fail ht) ?_
    split
    · exact .map (stays_typeDecl hdefine)
    · exact .map (stays_recordDecl hdefine)
    · exact stays_fail ht

theorem stays_skipToDefine (fuel : Nat) : c.Stays k k (skipToDefine fuel) fun _ => True := by
  induction fuel with
  | zero => exact .pure trivial
  | succ fuel ih =>
      refine stays_current.step fun t => .ite (.pure trivial) ?_
      exact stays_advance.step fun _ => ih

theorem stays_skipping {Q : Option Decl → Prop} (h : Q none) :
    c.Stays k k (do skipToDefine (← remaining); return none) Q :=
  stays_remaining.step fun fuel => (stays_skipToDefine fuel).step fun _ => .pure h

theorem stays_recoveringDeclaration :
    c.Stays 0 0 recoveringDeclaration fun d => ∀ d' ∈ d, d'.Placed c.mark (c.Fits c.top) := by
  refine stays_remaining.step fun start => stays_declaration.attempt.bind fun r hr => ?_
  cases r with
  | ok d => exact .pure fun _ h => Option.some.inj h ▸ hr.1 d rfl
  | error d =>
      refine (stays_report (hr.2 d rfl)).step fun _ => ?_
      exact (stays_synchronize _ _).step fun _ => stays_skipping nofun

theorem stays_topLevel :
    c.Stays 0 0 topLevel fun d => ∀ d' ∈ d, d'.Placed c.mark (c.Fits c.top) := by
  refine stays_current.bind fun t ht => .ite stays_recoveringDeclaration ?_
  refine (stays_report ht).step fun _ => ?_
  exact stays_advance.step fun _ => stays_skipping nofun

/-! ### Programs -/

/-- A run of the top level yields declarations that keep to a frame, and so do its findings, a limit
that is exceeded at its end included. -/
theorem stays_declarations (fuel : Nat) {s : State} (hs : c.Inside 0 s) :
    (∀ d ∈ (declarations fuel s).1, d.Placed c.mark (c.Fits c.top)) ∧
      ∀ d ∈ (declarations fuel s).2.found, c.mark d.location := by
  induction fuel generalizing s with
  | zero => exact ⟨List.forall_mem_nil _, hs.found⟩
  | succ fuel ih =>
      have hturn := stays_topLevel hs
      unfold declarations
      split
      · exact ⟨List.forall_mem_nil _, hs.found⟩
      · generalize topLevel s = o at hturn ⊢
        cases hturn with
        | done hd hs =>
            obtain ⟨hds, hfound⟩ := ih hs
            refine ⟨List.forall_mem_append.mpr ⟨fun d hmem => ?_, hds⟩, hfound⟩
            exact hd d (Option.mem_toList.mp hmem)
        | failed hd hs => exact ih { hs with found := List.forall_mem_cons.mpr ⟨hd, hs.found⟩ }
        | stopped he hfound =>
            exact ⟨List.forall_mem_nil _, List.forall_mem_cons.mpr ⟨c.reported _ he, hfound⟩⟩

/-- What is read from tokens that start at the places of a frame keeps to it. -/
theorem read {tokens : List Token} {budget : Budget} {r : Reading}
    (htokens : ∀ t ∈ tokens, c.At t) (hlimit : budget.limits.nestingDepth = c.most)
    (hdepth : budget.depth = 0) (h : Program.read tokens budget = some r) :
    r.program.Placed c.mark (c.Fits c.top) ∧ ∀ d ∈ r.found, c.mark d.location := by
  obtain ⟨stop, hstop, -, rfl⟩ := Program.read_run h
  have hstart : c.Inside 0 (.start (tokens.takeWhile fun t => !t.isEof) stop budget) :=
    { rest := fun t ht => htokens t (List.takeWhile_subset _ ht)
      stop := htokens stop hstop
      found := nofun
      limit := hlimit
      depth := hdepth }
  obtain ⟨hplaced, hfound⟩ := stays_declarations _ hstart
  exact ⟨hplaced, fun d hd => hfound d (List.mem_reverse.mp hd)⟩

end Prosaic.Parser.Frame
