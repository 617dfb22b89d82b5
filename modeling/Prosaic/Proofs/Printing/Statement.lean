import Prosaic.Proofs.Printing.Expression
import Prosaic.Proofs.Program.WellFormed

/-!
Printed statements and blocks are read back. A block ends where its construct is closed, or at
`Otherwise` inside an `If`; every statement starts with a token that does neither.
-/

namespace Prosaic

open Token (Kind)

/-- Two statements that differ in nothing but where they stand. -/
def Stmt.Like (s s' : Stmt) : Prop := s'.spanless = s.spanless

namespace Parser

variable {c c₁ c₂ : Nat} {ks follow : List Kind} {bs : List Block}

/-! ### Simple statements -/

section

variable {name : Name} {e : Expr} {span : Span}

theorem goes_letStatement (he : e.AllFresh) :
    ∃ c, ∀ follow bs, Goes c letStatement ((Stmt.bind name e span).kinds ++ follow) bs
      (Stmt.bind name e span).Like follow bs := by
  obtain ⟨c, he⟩ := exists_accepts_expression he
  refine ⟨c + 1, fun follow bs => ?_⟩
  have hks : (Stmt.bind name e span).kinds ++ follow = .keyword .let_ :: .identifier name.text ::
      .keyword .be :: (e.kinds ++ (.terminator :: follow)) := by simp [Stmt.kinds]
  rw [hks]
  refine goes_advance.step fun start _ => ?_
  refine (goes_expectIdentifier name.text _ _).step fun t ht => ?_
  refine (goes_expectKeyword .be _ _).step fun _ _ => ?_
  refine (he (.terminator :: follow) bs Nat.zero_lt_one).bind fun e' he' => ?_
  refine (goes_expectTerminator _).step fun _ _ => goes_finish start fun span => ?_
  unfold Stmt.Like Expr.Like at *
  simp [Stmt.spanless, Name.spanless, nameOf, ht, he']

theorem goes_returnStatement_none :
    ∀ follow bs, Goes 1 returnStatement ((Stmt.return none span).kinds ++ follow) bs
      (Stmt.return none span).Like follow bs := by
  intro follow bs
  refine goes_advance.step fun start _ => goes_current.step fun t ht => ?_
  rw [if_pos (by simp [ht.isTerminator])]
  refine Goes.step (.pure (Q := (· = none)) rfl) fun value hvalue => ?_
  subst hvalue
  exact (goes_expectTerminator _).step fun _ _ => goes_finish start fun span => rfl

theorem goes_returnStatement (he : e.AllFresh) :
    ∃ c, ∀ follow bs, Goes c returnStatement ((Stmt.return (some e) span).kinds ++ follow) bs
      (Stmt.return (some e) span).Like follow bs := by
  obtain ⟨c, he⟩ := exists_accepts_expression he
  refine ⟨c + 1, fun follow bs => ?_⟩
  have hks : (Stmt.return (some e) span).kinds ++ follow =
      .keyword .return_ :: (e.kinds ++ (.terminator :: follow)) := by simp [Stmt.kinds]
  rw [hks]
  refine goes_advance.step fun start _ => goes_current.step fun t ht => ?_
  rw [if_neg (by simp [ht.isTerminator, Expr.kinds, enclose])]
  have hvalue : Goes c (some <$> expression) (e.kinds ++ (.terminator :: follow)) bs
      (fun o => ∃ e', o = some e' ∧ e.Like e') (.terminator :: follow) bs :=
    .map ((he (.terminator :: follow) bs Nat.zero_lt_one).imp fun e' he' => ⟨e', rfl, he'⟩)
  refine hvalue.bind fun value hvalue => ?_
  obtain ⟨e', rfl, he'⟩ := hvalue
  refine (goes_expectTerminator _).step fun _ _ => goes_finish start fun span => ?_
  unfold Stmt.Like Expr.Like at *
  simp [Stmt.spanless, he']

theorem goes_expressionStatement (he : e.AllFresh) :
    ∃ c, ∀ follow bs, Goes c expressionStatement ((Stmt.expression e span).kinds ++ follow) bs
      (Stmt.expression e span).Like follow bs := by
  obtain ⟨c, he⟩ := exists_accepts_expression he
  refine ⟨c + 1, fun follow bs => ?_⟩
  have hks : (Stmt.expression e span).kinds ++ follow = e.kinds ++ (.terminator :: follow) := by
    simp [Stmt.kinds]
  have hmisspelt : Goes 0 rejectMisspelt (e.kinds ++ (.terminator :: follow)) bs (fun _ => True)
      (e.kinds ++ (.terminator :: follow)) bs := by
    refine goes_current.step fun t ht => goes_second.step fun next _ => ?_
    have hkind : t.kind = .sign .openParen := ht.1
    simp only [hkind]
    exact .pure trivial
  rw [hks]
  refine hmisspelt.step fun _ _ => goes_current.step fun start _ => ?_
  refine (he (.terminator :: follow) bs Nat.zero_lt_one).bind fun e' he' => ?_
  refine (goes_expectTerminator _).step fun _ _ => goes_finish start fun span => ?_
  unfold Stmt.Like Expr.Like at *
  simp [Stmt.spanless, he']

theorem goes_callStatement {args : List Expr} {note : CallNote}
    (hcall : (Expr.call name args note).AllFresh) :
    ∃ c, ∀ follow bs, Goes c callStatement ((Stmt.call name args note span).kinds ++ follow) bs
      (Stmt.call name args note span).Like follow bs := by
  obtain ⟨c, hgoes⟩ := exists_accepts_call hcall
  refine ⟨c + 1, fun follow bs => ?_⟩
  have hks : (Stmt.call name args note span).kinds ++ follow =
      (Expr.call name args note).inside ++ (.terminator :: follow) := by simp [Stmt.kinds]
  have hends : Kind.Ends .terminator := ⟨rfl, by simp, by simp, by simp⟩
  rw [hks]
  refine goes_current.step fun start _ => (hgoes (.terminator :: follow) bs hends).bind ?_
  rintro ⟨callee, args', note'⟩ hlike
  refine (goes_expectTerminator _).step fun _ _ => goes_finish start fun span => ?_
  unfold Stmt.Like Expr.Like at *
  simpa [Stmt.spanless, Expr.spanless] using hlike

end

/-! ### The ends of blocks -/

/-- Some tokens at which a block ends. -/
def Leaves (ks : List Kind) (bs : List Block) : Prop := Goes 0 blockStep ks bs (· = .leave) ks bs

theorem leaves_closer {b : Block} : Leaves (b.kind.kinds ++ ks) (b :: bs) := by
  refine goes_current.step fun t ht => goes_second.step fun word hword => ?_
  refine goes_openBlocks.step fun blocks hblocks => ?_
  have hkind : t.kind = .keyword .end_ := ht.1
  have hcloses : closes? word = some b.kind := by
    have hword : word.kind = .keyword b.kind.closer := hword
    rw [closes?, Token.keyword?, hword]
    exact BlockKind.ofCloser?_closer b.kind
  simp only [hkind, hcloses, hblocks, List.any_cons, decide_true, Bool.true_or, if_true]
  exact .pure rfl

theorem leaves_otherwise {b : Block} (hb : b.kind = .if_) :
    Leaves (.keyword .otherwise :: ks) (b :: bs) := by
  refine goes_current.step fun t ht => goes_second.step fun word _ => ?_
  refine goes_openBlocks.step fun blocks hblocks => ?_
  have hkind : t.kind = .keyword .otherwise := ht.1
  simp only [hkind, hblocks, List.any_cons, hb, decide_true, Bool.true_or, if_true]
  exact .pure rfl

/-- What a printed statement starts with. -/
def Starts (k : Kind) : Prop :=
  k = .keyword .let_ ∨ k = .keyword .if_ ∨ k = .keyword .for_ ∨ k = .keyword .call ∨
    k = .keyword .return_ ∨ k = .sign .openParen

theorem exists_starts (s : Stmt) : ∃ k ks, s.kinds = k :: ks ∧ Starts k := by
  cases s with
  | bind name e span => exact ⟨_, _, rfl, .inl rfl⟩
  | branch c t o span => cases o <;> exact ⟨_, _, rfl, .inr (.inl rfl)⟩
  | forEach item e body span => exact ⟨_, _, rfl, .inr (.inr (.inl rfl))⟩
  | call callee args note span =>
      cases args <;> exact ⟨_, _, rfl, .inr (.inr (.inr (.inl rfl)))⟩
  | «return» value span =>
      cases value <;> exact ⟨_, _, rfl, .inr (.inr (.inr (.inr (.inl rfl))))⟩
  | expression e span => exact ⟨_, _, rfl, .inr (.inr (.inr (.inr (.inr rfl))))⟩

theorem goes_blockStep_statement {k : Kind} (hk : Starts k) :
    Goes 0 blockStep (k :: ks) bs (· = .statement) (k :: ks) bs := by
  refine goes_current.step fun t ht => goes_second.step fun word _ => ?_
  refine goes_openBlocks.step fun blocks _ => ?_
  have hkind : t.kind = k := ht.1
  rcases hk with rfl | rfl | rfl | rfl | rfl | rfl <;> simp only [hkind] <;> exact .pure rfl

/-! ### Blocks -/

/-- With so much room, a statement is read wherever blocks may be nested deep enough. -/
def Stmt.Reread (c : Nat) (s : Stmt) : Prop :=
  ∀ d follow bs, s.kinds.length ≤ d → Goes c (statement (blockUpTo d)) (s.kinds ++ follow) bs
    (fun o => ∃ s', o = some s' ∧ s.Like s') follow bs

/-- With so much room, the statements of a block are read up to its end. -/
def Stmt.AllReread (c : Nat) (ss : List Stmt) : Prop :=
  ∀ d fuel follow bs, (Stmt.blockKinds ss).length ≤ d → ss.length ≤ fuel → Leaves follow bs →
    Goes c (statements (blockUpTo d) fuel) (Stmt.blockKinds ss ++ follow) bs
      (fun ss' => Stmt.allSpanless ss' = Stmt.allSpanless ss) follow bs

theorem exists_allReread {ss : List Stmt} (h : ∀ s ∈ ss, ∃ c, Stmt.Reread c s) :
    ∃ c, Stmt.AllReread c ss := by
  induction ss with
  | nil =>
      refine ⟨0, fun d fuel follow bs _ _ hleaves => ?_⟩
      cases fuel with
      | zero => exact .pure rfl
      | succ fuel =>
          refine goes_current.step fun t _ => hleaves.step fun step hstep => ?_
          subst hstep
          exact .pure rfl
  | cons s ss ih =>
      obtain ⟨hfirst, hrest⟩ := List.forall_mem_cons.mp h
      obtain ⟨c₁, hfirst⟩ := hfirst
      obtain ⟨c₂, hrest⟩ := ih hrest
      refine ⟨c₁ + c₂, fun d fuel follow bs hd hfuel hleaves => ?_⟩
      simp only [Stmt.blockKinds, List.length_append, List.length_cons] at hd hfuel
      cases fuel with
      | zero => omega
      | succ fuel =>
          have hstep : Goes 0 blockStep (Stmt.blockKinds (s :: ss) ++ follow) bs (· = .statement)
              (s.kinds ++ (Stmt.blockKinds ss ++ follow)) bs := by
            obtain ⟨k, ks, hks, hk⟩ := exists_starts s
            rw [Stmt.blockKinds, hks, List.append_assoc]
            exact goes_blockStep_statement hk
          have hstatement : Goes c₁ (recoveringStatement (blockUpTo d))
              (s.kinds ++ (Stmt.blockKinds ss ++ follow)) bs
              (fun o => ∃ s', o = some s' ∧ s.Like s') (Stmt.blockKinds ss ++ follow) bs := by
            refine goes_remaining.step fun _ _ => ?_
            refine (hfirst d _ bs (by omega)).attempt.last fun r ⟨o, hr, hs'⟩ => ?_
            subst hr
            exact .pure hs'
          refine goes_current.step fun t _ => hstep.step fun step hstep => ?_
          subst hstep
          refine (goes_checkTime t).step fun _ _ => hstatement.bind fun o ⟨s', ho, hs'⟩ => ?_
          subst ho
          refine (hrest d fuel follow bs (by omega) (by omega) hleaves).last fun ss' hss' => ?_
          exact .pure (congrArg₂ List.cons hs' hss')

theorem length_le_blockKinds (ss : List Stmt) : ss.length ≤ (Stmt.blockKinds ss).length := by
  induction ss with
  | nil => exact Nat.le_refl _
  | cons s ss ih =>
      obtain ⟨k, ks, hks, -⟩ := exists_starts s
      simp only [Stmt.blockKinds, hks, List.length_append, List.length_cons]
      omega

theorem Stmt.AllReread.blockUpTo {ss : List Stmt} (h : Stmt.AllReread c ss) {d : Nat}
    (hd : (Stmt.blockKinds ss).length < d) (hleaves : Leaves follow bs) :
    Goes c (blockUpTo d) (Stmt.blockKinds ss ++ follow) bs
      (fun ss' => Stmt.allSpanless ss' = Stmt.allSpanless ss) follow bs := by
  cases d with
  | zero => omega
  | succ d =>
      refine goes_remaining.step fun fuel hfuel => ?_
      have := length_le_blockKinds ss
      rw [List.length_append] at hfuel
      exact h d fuel follow bs (by omega) (by omega) hleaves

/-! ### Statements with blocks -/

theorem goes_ifHeader {e : Expr} (he : Accepts c expression (·.rank < 1) e.kinds e.Like) :
    Goes c ifHeader (e.kinds ++ (.keyword .then_ :: .sign .colon :: ks)) bs
      (fun h => ∃ e', h = (some e', none) ∧ e.Like e') ks bs := by
  have hcondition := he (.keyword .then_ :: .sign .colon :: ks) bs Nat.zero_lt_one
  refine hcondition.attempt.last fun r ⟨e', hr, he'⟩ => ?_
  subst hr
  refine Goes.step (Goes.attempt ((goes_expectKeyword .then_ _ _).step fun _ _ =>
    goes_expectSign .colon _ _)) fun rest ⟨t, hrest, _⟩ => ?_
  subst hrest
  exact .pure ⟨e', rfl, he'⟩

theorem goes_forHeader {item : Name} {e : Expr}
    (he : Accepts c expression (·.rank < 1) e.kinds e.Like) :
    Goes c forHeader (.keyword .each :: .identifier item.text :: .keyword .in_ ::
      (e.kinds ++ (.sign .colon :: ks))) bs
      (fun h => ∃ t e', h = (some (t, some e'), none) ∧ t.lexeme = item.text ∧
        e.Like e') ks bs := by
  have hiterable := he (.sign .colon :: ks) bs Nat.zero_lt_one
  refine Goes.step (Goes.attempt ((goes_expectKeyword .each _ _).step fun _ _ =>
    goes_expectIdentifier item.text _ _)) fun r ⟨t, hr, ht⟩ => ?_
  subst hr
  refine Goes.last (Goes.attempt ((goes_expectKeyword .in_ _ _).step fun _ _ => hiterable))
    fun r ⟨e', hr, he'⟩ => ?_
  subst hr
  refine (goes_expectSign .colon _ _).attempt.step fun r ⟨_, hr, _⟩ => ?_
  subst hr
  exact .pure ⟨t, e', rfl, ht, he'⟩

theorem goes_recoverHeader (start : Nat) :
    Goes 0 (recoverHeader start none) ks bs (fun _ => True) ks bs := .pure trivial

section

variable {d : Nat} {b : Block}

/-- The second block of an `if`, which may be left out. -/
def otherwiseKinds : Option (List Stmt) → List Kind
  | none => []
  | some others => .keyword .otherwise :: .sign .colon :: Stmt.blockKinds others

theorem leaves_otherwiseKinds (o : Option (List Stmt)) (hb : b.kind = .if_) :
    Leaves (otherwiseKinds o ++ (b.kind.kinds ++ ks)) (b :: bs) := by
  cases o with
  | none => exact leaves_closer
  | some others => exact leaves_otherwise hb

theorem goes_otherwiseBranch {o : Option (List Stmt)} (h : ∀ others ∈ o, Stmt.AllReread c others)
    (hd : (otherwiseKinds o).length ≤ d) (ifLine : Nat) :
    Goes c (otherwiseBranch (blockUpTo d) ifLine) (otherwiseKinds o ++
      (b.kind.kinds ++ ks)) (b :: bs)
      (fun o' => o'.map Stmt.allSpanless = o.map Stmt.allSpanless)
      (b.kind.kinds ++ ks) (b :: bs) := by
  refine (goes_atKeyword .otherwise).step fun more hmore => ?_
  subst hmore
  cases o with
  | none =>
      rw [if_neg (by simp [otherwiseKinds, BlockKind.kinds])]
      exact Goes.mono (.pure rfl) (Nat.zero_le c)
  | some others =>
      have hlength : (Stmt.blockKinds others).length < d := by
        simp only [otherwiseKinds, List.length_cons] at hd
        omega
      rw [if_pos (by simp [otherwiseKinds])]
      refine goes_advance.step fun start _ => (goes_acceptSign .colon).step fun colon hcolon => ?_
      subst hcolon
      refine ((h others rfl).blockUpTo hlength leaves_closer).last fun ss' hss' => ?_
      refine goes_remaining.step fun fuel _ => ?_
      have hrepeated : Goes 0 (repeatedOtherwise (blockUpTo d) ifLine start.span.start.line fuel)
          (b.kind.kinds ++ ks) (b :: bs) (· = []) (b.kind.kinds ++ ks) (b :: bs) := by
        cases fuel with
        | zero => exact .pure rfl
        | succ fuel =>
            refine (goes_atKeyword .otherwise).step fun more hmore => ?_
            subst hmore
            rw [if_neg (by simp [BlockKind.kinds])]
            exact .pure rfl
      refine hrepeated.step fun more hmore => .pure ?_
      rw [hmore, List.append_nil, Option.map_some, Option.map_some, hss']

end

section

variable {e : Expr} {body : List Stmt}

theorem kinds_branch (o : Option (List Stmt)) (span : Span) (follow : List Kind) :
    (Stmt.branch e body o span).kinds ++ follow = .keyword .if_ :: (e.kinds ++
      (.keyword .then_ :: .sign .colon :: (Stmt.blockKinds body ++
        (otherwiseKinds o ++ (BlockKind.if_.kinds ++ follow))))) := by
  cases o <;> simp [Stmt.kinds, otherwiseKinds]

theorem spanless_branch (o : Option (List Stmt)) (span : Span) :
    (Stmt.branch e body o span).spanless =
      .branch e.spanless (Stmt.allSpanless body) (o.map Stmt.allSpanless) default := by
  cases o <;> rfl

theorem goes_ifStatement (he : e.AllFresh) (hbody : ∃ c, Stmt.AllReread c body)
    {o : Option (List Stmt)} (hothers : ∃ c, ∀ others ∈ o, Stmt.AllReread c others) {span : Span} :
    ∃ c, ∀ d follow bs, (Stmt.branch e body o span).kinds.length ≤ d →
      Goes c (ifStatement (blockUpTo d)) ((Stmt.branch e body o span).kinds ++ follow) bs
        (fun o' => ∃ s', o' = some s' ∧ (Stmt.branch e body o span).Like s') follow bs := by
  obtain ⟨c₁, he⟩ := exists_accepts_expression he
  obtain ⟨c₂, hbody⟩ := hbody
  obtain ⟨c₃, hothers⟩ := hothers
  refine ⟨c₁ + (1 + (c₂ + (c₃ + 1))), fun d follow bs hd => ?_⟩
  have hlength : (Stmt.blockKinds body).length < d ∧ (otherwiseKinds o).length ≤ d := by
    rw [← List.append_nil (Stmt.kinds _), kinds_branch] at hd
    simp only [List.length_cons, List.length_append] at hd
    omega
  rw [kinds_branch]
  refine goes_advance.step fun start _ => goes_remaining.step fun headerStart _ => ?_
  refine (goes_ifHeader he).bind fun header ⟨e', hheader, he'⟩ => ?_
  subst hheader
  let b : Block := ⟨.if_, "If", start.span.start.line⟩
  refine (goes_recoverHeader _).step fun _ _ => (goes_openBlock b _).bind fun _ _ => ?_
  refine (hbody.blockUpTo hlength.1 (leaves_otherwiseKinds (b := b) o rfl)).bind
    fun body' hbody' => ?_
  refine (goes_otherwiseBranch (b := b) hothers hlength.2 _).bind fun o' ho' => ?_
  refine (goes_closeBlock b).step fun _ _ => goes_finish start fun span => ⟨_, rfl, ?_⟩
  unfold Stmt.Like Expr.Like at *
  rw [spanless_branch, spanless_branch, he', hbody', ho']

theorem goes_forStatement (he : e.AllFresh) (hbody : ∃ c, Stmt.AllReread c body) {item : Name}
    {span : Span} :
    ∃ c, ∀ d follow bs, (Stmt.forEach item e body span).kinds.length ≤ d →
      Goes c (forStatement (blockUpTo d)) ((Stmt.forEach item e body span).kinds ++ follow) bs
        (fun o => ∃ s', o = some s' ∧ (Stmt.forEach item e body span).Like s') follow bs := by
  obtain ⟨c₁, he⟩ := exists_accepts_expression he
  obtain ⟨c₂, hbody⟩ := hbody
  refine ⟨c₁ + (1 + (c₂ + 1)), fun d follow bs hd => ?_⟩
  have hks : (Stmt.forEach item e body span).kinds ++ follow = .keyword .for_ :: .keyword .each ::
      .identifier item.text :: .keyword .in_ :: (e.kinds ++
        (.sign .colon :: (Stmt.blockKinds body ++ (BlockKind.for_.kinds ++ follow)))) := by
    simp [Stmt.kinds]
  have hlength : (Stmt.blockKinds body).length < d := by
    simp only [Stmt.kinds, List.length_cons, List.length_append] at hd
    omega
  rw [hks]
  refine goes_advance.step fun start _ => goes_remaining.step fun headerStart _ => ?_
  refine (goes_forHeader he).bind fun header ⟨t, e', hheader, ht, he'⟩ => ?_
  subst hheader
  let b : Block := ⟨.for_, "For each", start.span.start.line⟩
  refine (goes_recoverHeader _).step fun _ _ => (goes_openBlock b _).bind fun _ _ => ?_
  refine (hbody.blockUpTo hlength (leaves_closer (b := b))).bind fun body' hbody' => ?_
  refine (goes_closeBlock b).step fun _ _ => goes_finish start fun span => ⟨_, rfl, ?_⟩
  unfold Stmt.Like Expr.Like at *
  simp [Stmt.spanless, Name.spanless, nameOf, ht, he', hbody']

end

/-! ### Statements -/

theorem goes_some {p : Parser Stmt} {s : Stmt} (h : Goes c p ks bs s.Like follow bs) :
    Goes c (some <$> p) ks bs (fun o => ∃ s', o = some s' ∧ s.Like s') follow bs :=
  .map (h.imp fun s' hs' => ⟨s', rfl, hs'⟩)

theorem exists_reread_stmt {s : Stmt} (h : s.WellFormed) : ∃ c, Stmt.Reread c s := by
  have hblock : ∀ ss : List Stmt, (∀ s ∈ ss, s.WellFormed → ∃ c, Stmt.Reread c s) →
      Stmt.AllWellFormed ss → ∃ c, Stmt.AllReread c ss := by
    intro ss ih hss
    rw [Stmt.allWellFormed_iff] at hss
    exact exists_allReread fun s hs => ih s hs (hss s hs)
  -- a statement is told by the token it starts with
  induction s with
  | bind name e span =>
      obtain ⟨c, hc⟩ := @goes_letStatement name e span h.2
      refine ⟨c, fun d follow bs _ => goes_current.step fun t ht => ?_⟩
      have hkind : t.kind = .keyword .let_ := ht.1
      simp only [hkind]
      exact goes_some (hc follow bs)
  | branch e body span ih =>
      obtain ⟨c, hc⟩ := @goes_ifStatement e body h.1 (hblock body ih h.2) none ⟨0, nofun⟩ span
      refine ⟨c, fun d follow bs hd => goes_current.step fun t ht => ?_⟩
      have hkind : t.kind = .keyword .if_ := ht.1
      simp only [hkind]
      exact hc d follow bs hd
  | branchOtherwise e body others span ih iho =>
      obtain ⟨cothers, hothers⟩ := hblock others iho h.2.2
      have hsome : ∃ c, ∀ ss ∈ some others, Stmt.AllReread c ss :=
        ⟨cothers, fun ss hss => Option.some.inj hss ▸ hothers⟩
      obtain ⟨c, hc⟩ := @goes_ifStatement e body h.1 (hblock body ih h.2.1) _ hsome span
      refine ⟨c, fun d follow bs hd => goes_current.step fun t ht => ?_⟩
      have hkind : t.kind = .keyword .if_ := ht.1
      simp only [hkind]
      exact hc d follow bs hd
  | forEach item e body span ih =>
      obtain ⟨c, hc⟩ := @goes_forStatement e body h.2.1 (hblock body ih h.2.2) item span
      refine ⟨c, fun d follow bs hd => goes_current.step fun t ht => ?_⟩
      have hkind : t.kind = .keyword .for_ := ht.1
      simp only [hkind]
      exact hc d follow bs hd
  | call callee args note span =>
      obtain ⟨c, hc⟩ := @goes_callStatement callee span args note h
      refine ⟨c, fun d follow bs _ => goes_current.step fun t ht => ?_⟩
      have hkind : t.kind = .keyword .call := by cases args <;> exact ht.1
      simp only [hkind]
      exact goes_some (hc follow bs)
  | returns value span =>
      cases value with
      | none =>
          refine ⟨1, fun d follow bs _ => goes_current.step fun t ht => ?_⟩
          have hkind : t.kind = .keyword .return_ := ht.1
          simp only [hkind]
          exact goes_some (goes_returnStatement_none follow bs)
      | some e =>
          obtain ⟨c, hc⟩ := @goes_returnStatement e span h
          refine ⟨c, fun d follow bs _ => goes_current.step fun t ht => ?_⟩
          have hkind : t.kind = .keyword .return_ := ht.1
          simp only [hkind]
          exact goes_some (hc follow bs)
  | expression e span =>
      obtain ⟨c, hc⟩ := @goes_expressionStatement e span h
      refine ⟨c, fun d follow bs _ => goes_current.step fun t ht => ?_⟩
      have hkind : t.kind = .sign .openParen := ht.1
      simp only [hkind]
      exact goes_some (hc follow bs)

/-- The statements of a body, up to its closer. -/
theorem exists_goes_block {ss : List Stmt} (h : ∀ s ∈ ss, s.WellFormed) :
    ∃ c, ∀ b ks bs, Goes c block (Stmt.blockKinds ss ++ (b.kind.kinds ++ ks)) (b :: bs)
      (fun ss' => Stmt.allSpanless ss' = Stmt.allSpanless ss) (b.kind.kinds ++ ks) (b :: bs) := by
  obtain ⟨c, hc⟩ := exists_allReread fun s hs => exists_reread_stmt (h s hs)
  refine ⟨c, fun b ks bs => goes_remaining.step fun d hd => hc.blockUpTo ?_ leaves_closer⟩
  simp only [hd, List.length_append, BlockKind.kinds, List.length_cons]
  omega

end Parser

end Prosaic
