import Prosaic.Proofs.Grammar.Loops
import Prosaic.Proofs.Grammar.Progress

/-!
Nested blocks. A block inside a statement follows a token of that statement, so the reader of a
block asks for nested blocks only where fewer tokens are to come than at its own start. Therefore
the bound on the depth of nesting is never met, and a block is read by a loop whose nested blocks
are read in the same way.

Reading is total. Whatever tokens stand before the one that marks the end, and whatever the limits
are, all of them are gone through, no syntax failure gets out, and each loop that can start on the
way takes a token in every turn behind which it goes on.
-/

namespace Prosaic

namespace Parser

variable {α β : Type}

/-! ### Parsers that agree where few tokens are to come -/

/-- Two parsers agree wherever fewer than so many tokens are to come. -/
def Same (n : Nat) (p q : Parser α) : Prop :=
  ∀ s : State, s.stop.isEof = true → s.left < n → p s = q s

variable {n : Nat} {p q : Parser α} {f g : α → Parser β}

theorem Same.refl (n : Nat) (p : Parser α) : Same n p p := fun _ _ _ => rfl

theorem Same.bind (hpq : Same n p q) (hmoves : Moves p) (hfg : ∀ a, Same n (f a) (g a)) :
    Same n (p >>= f) (q >>= g) := by
  intro s hstop hs
  have hreach := hmoves s
  simp only [Bind.bind]
  rw [← hpq s hstop hs]
  cases hps : p s with
  | done a s₁ =>
      rw [hps] at hreach
      exact hfg a s₁ (hreach.stop ▸ hstop) (Nat.lt_of_le_of_lt hreach.left_le hs)
  | failed d s₁ | stopped e s₁ => rfl

/-- A common first step changes nothing. -/
theorem Same.step (hmoves : Moves p) (hfg : ∀ a, Same n (f a) (g a)) :
    Same n (p >>= f) (p >>= g) :=
  (Same.refl n p).bind hmoves hfg

/-- Two parsers agree before the end of a text, with at most so many tokens to come. -/
def SameBefore (n : Nat) (p q : Parser α) : Prop :=
  ∀ s : State, s.stop.isEof = true → s.current.isEof = false → s.left ≤ n → p s = q s

theorem SameBefore.refl (n : Nat) (p : Parser α) : SameBefore n p p := fun _ _ _ _ => rfl

theorem SameBefore.current {f g : Token → Parser β} (hfg : ∀ t, SameBefore n (f t) (g t)) :
    SameBefore n (current >>= f) (current >>= g) := fun s => hfg s.current s

/-- Behind a token that is taken, fewer tokens are to come. -/
theorem SameBefore.advance {f g : Token → Parser β} (hfg : ∀ t, Same n (f t) (g t)) :
    SameBefore n (advance >>= f) (advance >>= g) := fun s hstop hcurrent hs =>
  hfg _ _ (s.reaches_advance.stop ▸ hstop)
    (Nat.lt_of_lt_of_le (s.advance_left_lt hstop hcurrent) hs)

theorem Same.attempt (hpq : Same n p q) : Same n (attempt p) (attempt q) := by
  intro s hstop hs
  unfold Parser.attempt
  rw [hpq s hstop hs]

/-! ### Statements -/

section

variable {p q : Parser (List Stmt)} (hpq : Same n p q)
  (hp : Reads True p fun ss => ∀ s ∈ ss, s.WellFormed)

include hpq hp

theorem Same.repeatedOtherwise (ifLine otherwiseLine fuel : Nat) :
    Same n (repeatedOtherwise p ifLine otherwiseLine fuel)
      (repeatedOtherwise q ifLine otherwiseLine fuel) := by
  induction fuel with
  | zero => exact .refl n _
  | succ fuel ih =>
      refine .step (reads_atKeyword _).moves fun more => ?_
      cases more with
      | false => exact .refl n _
      | true =>
          refine .step moves_current fun t => .step (moves_report _) fun _ => ?_
          refine .step moves_advance fun _ => .step (reads_acceptSign _).moves fun _ => ?_
          refine hpq.bind hp.moves fun ss => ih.bind (reads_repeatedOtherwise hp _ _ fuel).moves ?_
          exact fun _ => .refl n _

theorem Same.otherwiseBranch (ifLine : Nat) :
    Same n (otherwiseBranch p ifLine) (otherwiseBranch q ifLine) := by
  refine .step (reads_atKeyword _).moves fun more => ?_
  cases more with
  | false => exact .refl n _
  | true =>
      refine .step moves_advance fun start => .step (reads_acceptSign _).moves fun colon => ?_
      have hrest : Same n
          (do
            let ss ← p
            let more ← Parser.repeatedOtherwise p ifLine start.span.start.line (← remaining)
            return some (ss ++ more))
          (do
            let ss ← q
            let more ← Parser.repeatedOtherwise q ifLine start.span.start.line (← remaining)
            return some (ss ++ more)) := by
        refine hpq.bind hp.moves fun ss => .step moves_remaining fun fuel => ?_
        exact (hpq.repeatedOtherwise hp _ _ fuel).bind (reads_repeatedOtherwise hp _ _ fuel).moves
          fun _ => .refl n _
      cases colon with
      | true => exact hrest
      | false => exact .step moves_current fun t => .step (moves_report _) fun _ => hrest

/-- A statement with blocks takes its first word before it reads one of them. -/
theorem Same.ifStatement : SameBefore n (ifStatement p) (ifStatement q) := by
  refine .advance fun start => ?_
  refine .step moves_remaining fun headerStart => .step reads_ifHeader.moves fun header => ?_
  refine .step (reads_recoverHeader _ _).moves fun _ =>
    .step (reads_openBlock _ _).moves fun _ => ?_
  refine hpq.bind hp.moves fun thenBlock => ?_
  refine (hpq.otherwiseBranch hp _).bind (reads_otherwiseBranch hp _).moves fun otherwise => ?_
  exact .refl n _

theorem Same.forStatement : SameBefore n (forStatement p) (forStatement q) := by
  refine .advance fun start => ?_
  refine .step moves_remaining fun headerStart => .step reads_forHeader.moves fun header => ?_
  refine .step (reads_recoverHeader _ _).moves fun _ =>
    .step (reads_openBlock _ _).moves fun _ => ?_
  exact hpq.bind hp.moves fun body => .refl n _

theorem Same.statement : Same (n + 1) (statement p) (statement q) := by
  intro s hstop hs
  by_cases heof : s.current.isEof = true
  · -- at the end no statement with blocks is tried
    have hkind : s.current.kind = .eof := by simpa [Token.isEof] using heof
    simp only [Parser.statement, liftM_eq, lift_eq, Bind.bind, Parser.current, hkind]
  · have hbefore : SameBefore n (Parser.statement p) (Parser.statement q) := by
      refine .current fun t => ?_
      split
      · exact .refl n _
      · exact hpq.ifStatement hp
      · exact hpq.forStatement hp
      all_goals exact .refl n _
    exact hbefore s hstop (Bool.eq_false_iff.mpr heof) (Nat.le_of_lt_succ hs)

theorem Same.statements (fuel : Nat) : Same (n + 1) (statements p fuel) (statements q fuel) := by
  induction fuel with
  | zero => exact .refl _ _
  | succ fuel ih =>
      refine .step moves_current fun t => .step reads_blockStep.moves fun step => ?_
      cases step with
      | leave => exact .refl _ _
      | stray word => exact .step (takes_skipStrayCloser t word).moves fun _ => ih
      | statement =>
          have hstatement : Same (n + 1) (recoveringStatement p) (recoveringStatement q) :=
            .step moves_remaining fun start =>
              (hpq.statement hp).attempt.bind (reads_statement hp).moves.attempt fun r => .refl _ _
          refine .step (reads_checkTime t).moves fun _ => ?_
          refine hstatement.bind (takes_recoveringStatement hp).moves fun s => ?_
          exact ih.bind (reads_statements hp fuel).moves fun rest => .refl _ _

end

/-! ### Blocks -/

/-- A greater bound on the depth of nesting changes nothing. -/
theorem same_blockUpTo {d m : Nat} (hm : d ≤ m) : Same (d + 1) (blockUpTo d) (blockUpTo m) := by
  induction d generalizing m with
  | zero =>
      intro s hstop hs
      cases m with
      | zero => rfl
      | succ m =>
          have hleft : s.left = 0 := by omega
          change Outcome.done [] s = (Parser.statements (blockUpTo m) s.left : Parser _) s
          rw [hleft]
          rfl
  | succ d ih =>
      cases m with
      | zero => omega
      | succ m =>
          refine .step moves_remaining fun fuel => ?_
          exact (ih (Nat.le_of_succ_le_succ hm)).statements (reads_blockUpTo d) fuel

/-- A block is read by a loop whose nested blocks are read in the same way. -/
theorem block_eq {s : State} (hstop : s.stop.isEof = true) :
    (block : Parser _) s = (statements block s.left : Parser _) s := by
  change (blockUpTo s.left : Parser _) s = _
  cases hleft : s.left with
  | zero => rfl
  | succ d =>
      have hinner : Same (d + 1) (blockUpTo d) block := by
        intro s' hstop' hs'
        exact (same_blockUpTo (Nat.le_of_lt_succ hs') s' hstop' (Nat.lt_succ_self _)).symm
      have hlast := hinner.statements (reads_blockUpTo d) (d + 1) s hstop (by omega)
      rw [← hlast]
      change (Parser.statements (blockUpTo d) s.left : Parser _) s = _
      rw [hleft]

/-- The runs of the top level: turn by turn to the end of the text, or until a limit is exceeded.
There is no turn that fails, and each one takes a token. -/
inductive TopLevelRuns : State → List Decl × State → Prop
  | ended {s : State} (hend : s.current.isEof = true) : TopLevelRuns s ([], s)
  | turn {s s₁ s₂ : State} {d : Option Decl} {ds : List Decl} (hpending : s.current.isEof = false)
      (hturn : topLevel s = .done d s₁) (hreach : s.Reaches s₁) (htakes : s₁.left < s.left)
      (hlater : TopLevelRuns s₁ (ds, s₂)) : TopLevelRuns s (d.toList ++ ds, s₂)
  | exceeded {s s₁ : State} {e : Exceeded} (hpending : s.current.isEof = false)
      (hturn : topLevel s = .stopped e s₁) (hreach : s.Reaches s₁) :
      TopLevelRuns s ([], { s₁ with found := e.diagnostic .parse :: s₁.found })

/-- The top level that may turn as often as there are tokens to come is not cut off. -/
theorem topLevelRuns_declarations (n : Nat) {s : State} (hstop : s.stop.isEof = true)
    (hn : s.left ≤ n) : TopLevelRuns s (declarations n s) := by
  induction n generalizing s with
  | zero =>
      have hcurrent := State.current_of_left_eq_zero (Nat.le_zero.mp hn)
      exact .ended (hcurrent ▸ hstop)
  | succ n ih =>
      unfold declarations
      by_cases heof : s.current.isEof = true
      · rw [if_pos heof]
        exact .ended heof
      · rw [if_neg heof]
        have hpending := Bool.eq_false_iff.mpr heof
        have hreach := takes_topLevel.moves s
        cases hturn : topLevel s with
        | failed d s₁ => exact absurd hturn (recovers_topLevel s d s₁)
        | stopped e s₁ =>
            rw [hturn] at hreach
            exact .exceeded hpending hturn hreach
        | done d s₁ =>
            rw [hturn] at hreach
            have htakes := takes_topLevel.left_lt hstop hpending hturn trivial
            have hlater := ih (s := s₁) (hreach.stop ▸ hstop) (by omega)
            exact .turn hpending hturn hreach htakes hlater

/-- All loops that can start at a state run turn by turn. Resuming skips a token before its loop if
none was taken before. -/
structure State.LoopsRun (s : State) : Prop where
  block : Runs (blockTurn block) s ((Parser.block : Parser _) s)
  fields : ∀ record, Runs (fieldTurn record) s (recordFields record s.left s)
  otherwise : ∀ ifLine otherwiseLine, Runs (otherwiseTurn Parser.block ifLine otherwiseLine) s
    ((repeatedOtherwise Parser.block ifLine otherwiseLine s.left : Parser _) s)
  boundary : ∀ colonToo, Runs (boundaryTurn colonToo) s (skipToBoundary colonToo s.left s)
  define : Runs defineTurn s (skipToDefine s.left s)
  resume : ∀ colonToo colon s', s.current.isEof = false →
    synchronize s.left colonToo s = .done colon s' → s'.left < s.left

theorem State.loopsRun {s : State} (hstop : s.stop.isEof = true) : s.LoopsRun where
  block := by
    rw [block_eq hstop]
    exact (loops_statements reads_block).runs s.left hstop (Nat.le_refl _)
  fields record := (loops_recordFields record).runs s.left hstop (Nat.le_refl _)
  otherwise ifLine otherwiseLine :=
    (loops_repeatedOtherwise reads_block ifLine otherwiseLine).runs s.left hstop (Nat.le_refl _)
  boundary colonToo := (loops_skipToBoundary colonToo).runs s.left hstop (Nat.le_refl _)
  define := loops_skipToDefine.runs s.left hstop (Nat.le_refl _)
  resume _ _ _ hcurrent h := synchronize_left_lt hstop hcurrent h

/-- A state stands at one of some tokens, counted from the last one. -/
def State.At (s : State) (tokens : List Token) : Prop :=
  ∃ position, position + s.left + 1 = tokens.length ∧ tokens[position]? = some s.current

theorem State.Reaches.at {init : List Token} {stop : Token} {budget : Budget} {s : State}
    (h : (State.start init stop budget).Reaches s) : s.At (init ++ [stop]) := by
  obtain ⟨taken, htaken : taken ++ s.rest = init⟩ := h.rest
  have hleft := s.left_eq
  refine ⟨taken.length, ?_, ?_⟩
  · simp [← htaken, hleft]
    omega
  · have hstop : s.stop = stop := h.stop
    rw [← htaken, List.append_assoc, List.getElem?_append_right (Nat.le_refl _), Nat.sub_self]
    cases hrest : s.rest with
    | nil => simp [State.current, hrest, hstop]
    | cons t rest => simp [State.current, hrest]

end Parser

/-- Tokens of which only the last one marks the end are read to a result, with no position behind
the end and no turn of a loop that neither takes a token nor leaves the loop. -/
theorem Program.read_total {init : List Token} {stop : Token}
    (hinit : ∀ t ∈ init, t.isEof = false) (hstop : stop.isEof = true) (budget : Budget) :
    ∃ run, Parser.TopLevelRuns (.start init stop budget) run ∧
      Program.read (init ++ [stop]) budget = some (.of (.start init stop budget) run) ∧
      (Parser.State.start init stop budget).Reaches run.2 ∧
      ∀ s, (Parser.State.start init stop budget).Reaches s → s.At (init ++ [stop]) ∧
        s.LoopsRun := by
  let start := Parser.State.start init stop budget
  refine ⟨Parser.declarations start.left start, ?_, ?_, ?_, fun s hs => ⟨hs.at, ?_⟩⟩
  · exact Parser.topLevelRuns_declarations _ hstop (Nat.le_refl _)
  · exact Program.read_append hinit hstop budget
  · obtain ⟨hreach, -⟩ : start.Reaches _ ∧ (start.Proper → (True → _) → _) :=
      Parser.declarations_wellRead start.left start
    exact hreach
  · have hend : s.stop = stop := hs.stop
    exact Parser.State.loopsRun (hend ▸ hstop)

/-- A closer of nothing, and a function that breaks off behind a failure. -/
def brokenOff : List Token :=
  [⟨.keyword .end_, "End", default⟩, ⟨.keyword .record, "record", default⟩,
    ⟨.keyword .define, "Define", default⟩, ⟨.keyword .function, "function", default⟩,
    ⟨.identifier "f", "f", default⟩, ⟨.sign .colon, ":", default⟩, ⟨.keyword .if_, "If", default⟩,
    ⟨.sign .colon, ":", default⟩, ⟨.keyword .otherwise, "Otherwise", default⟩,
    ⟨.keyword .otherwise, "Otherwise", default⟩]

theorem Program.read_brokenOff : ∃ run,
    Parser.TopLevelRuns (.start brokenOff ⟨.eof, "", default⟩ (.start .standard .still)) run ∧
      (Program.read (brokenOff ++ [⟨.eof, "", default⟩]) (.start .standard .still)).isSome =
        true := by
  have hinit : ∀ t ∈ brokenOff, t.isEof = false := by decide
  have hstop : (Token.mk .eof "" default).isEof = true := rfl
  obtain ⟨run, hrun, hread, -⟩ := Program.read_total hinit hstop (.start .standard .still)
  exact ⟨run, hrun, by rw [hread]; rfl⟩

end Prosaic
