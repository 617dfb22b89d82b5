import Prosaic.Proofs.Grammar.Progress

/-!
The loops of the grammar, turn by turn. A turn either leaves the loop or takes a token and goes on,
so no loop turns more often than there are tokens to come, and cutting it off after so many turns
changes nothing.
-/

namespace Prosaic.Parser

variable {α β : Type}

def Outcome.map (f : α → β) : Outcome α → Outcome β
  | .done a s => .done (f a) s
  | .failed d s => .failed d s
  | .stopped e s => .stopped e s

/-! ### The laws of parsers -/

theorem map_apply (f : α → β) (p : Parser α) (s : State) : (f <$> p) s = (p s).map f := by
  change (match p s with | .done a s => _ | .failed d s => _ | .stopped e s => _) = _
  cases p s <;> rfl

theorem Outcome.map_id (o : Outcome α) : o.map id = o := by cases o <;> rfl

instance : LawfulMonad Parser :=
  .mk' Parser
    (fun p => funext fun s => (map_apply id p s).trans (p s).map_id)
    (fun _ _ => rfl)
    (fun p f g => by
      funext s
      simp only [Bind.bind]
      cases p s <;> rfl)

/-! ### Turns -/

/-- What a turn comes to: the loop is left with its value, or it goes on, and its value is made of
the one that the later turns yield. -/
inductive Turn (α : Type)
  | leave (value : α)
  | goOn (finish : α → α)

def Turn.GoesOn (t : Turn α) : Prop := ∃ finish, t = .goOn finish

/-- Goes on with the later turns, unless the loop is left. -/
def Turn.followedBy (later : Parser α) : Turn α → Parser α
  | .leave a => pure a
  | .goOn finish => finish <$> later

/-- The outcomes of a loop with given turns. No token is given back, and every turn behind which the
loop goes on takes one. -/
inductive Runs (turn : Parser (Turn α)) : State → Outcome α → Prop
  | leave {s s' : State} {a : α} (hturn : turn s = .done (.leave a) s') (hreach : s.Reaches s') :
      Runs turn s (.done a s')
  | goOn {s s₁ : State} {finish : α → α} {o : Outcome α}
      (hturn : turn s = .done (.goOn finish) s₁) (hreach : s.Reaches s₁)
      (htakes : s₁.left < s.left) (hlater : Runs turn s₁ o) : Runs turn s (o.map finish)
  | failed {s s' : State} {d : Diagnostic} (hturn : turn s = .failed d s') (hreach : s.Reaches s') :
      Runs turn s (.failed d s')
  | stopped {s s' : State} {e : Exceeded} (hturn : turn s = .stopped e s')
      (hreach : s.Reaches s') : Runs turn s (.stopped e s')

/-- A parser that takes turns as often as it is told. At the end of the text it would be left. -/
structure Loops (turn : Parser (Turn α)) (loop : Nat → Parser α) : Prop where
  takes : TakesIf Turn.GoesOn turn
  leaves : ∀ s : State, s.current.isEof = true →
    ∃ a, turn s = .done (.leave a) s ∧ loop 0 s = .done a s
  step : ∀ n, loop (n + 1) = turn >>= Turn.followedBy (loop n)

theorem State.current_of_left_eq_zero {s : State} (hleft : s.left = 0) : s.current = s.stop := by
  have hrest : s.rest = [] := List.eq_nil_of_length_eq_zero (s.left_eq ▸ hleft)
  simp [State.current, hrest]

/-- A loop that may turn as often as there are tokens to come is not cut off. -/
theorem Loops.runs {turn : Parser (Turn α)} {loop : Nat → Parser α} (h : Loops turn loop) (n : Nat)
    {s : State} (hstop : s.stop.isEof = true) (hn : s.left ≤ n) : Runs turn s (loop n s) := by
  induction n generalizing s with
  | zero =>
      have heof : s.current.isEof = true := by
        rw [State.current_of_left_eq_zero (Nat.le_zero.mp hn)]
        exact hstop
      obtain ⟨a, hturn, hloop⟩ := h.leaves s heof
      rw [hloop]
      exact .leave hturn (.refl s)
  | succ n ih =>
      have hreach := h.takes.moves s
      rw [h.step]
      simp only [Bind.bind]
      cases hturn : turn s with
      | failed d s₁ =>
          rw [hturn] at hreach
          exact .failed hturn hreach
      | stopped e s₁ =>
          rw [hturn] at hreach
          exact .stopped hturn hreach
      | done t s₁ =>
          rw [hturn] at hreach
          cases t with
          | leave a => exact .leave hturn hreach
          | goOn finish =>
              have htakes : s₁.left < s.left := by
                by_cases heof : s.current.isEof = true
                · obtain ⟨a, hleave, -⟩ := h.leaves s heof
                  rw [hleave] at hturn
                  cases hturn
                · exact h.takes.left_lt hstop (Bool.eq_false_iff.mpr heof) hturn ⟨finish, rfl⟩
              have hlater := ih (s := s₁) (hreach.stop ▸ hstop) (by omega)
              change Runs turn s ((finish <$> loop n) s₁)
              rw [map_apply]
              exact .goOn hturn hreach htakes hlater

theorem takes_leave (a : α) : TakesIf Turn.GoesOn (pure (.leave a)) where
  moves := .pure _
  left_lt := by
    rintro s - - t s' h ⟨finish, rfl⟩
    cases h

/-! ### Skipping -/

/-- One turn of skipping to the next boundary. -/
def boundaryTurn (colonToo : Bool) : Parser (Turn Bool) := do
  let t ← current
  match t.kind with
  | .eof => return .leave false
  | .terminator =>
    let _ ← advance
    return .leave false
  | .sign .colon =>
    let _ ← advance
    if colonToo then return .leave true else return .goOn id
  | .keyword word =>
    if isBoundaryWord word then return .leave false
    else
      let _ ← advance
      return .goOn id
  | _ =>
    let _ ← advance
    return .goOn id

/-- One turn of skipping to the next `Define`. -/
def defineTurn : Parser (Turn PUnit) := do
  let t ← current
  if t.isEof || t.isKeyword .define then return .leave ⟨⟩
  else
    let _ ← advance
    return .goOn id

theorem loops_skipToBoundary (colonToo : Bool) :
    Loops (boundaryTurn colonToo) (skipToBoundary colonToo) where
  takes := by
    refine .bind_right moves_current fun t => ?_
    split
    · exact takes_leave _
    · exact takes_advance.bind fun _ => .pure _
    · exact takes_advance.bind fun _ => .ite (.pure _) (.pure _)
    · exact .ite (takes_leave _) (takes_advance.bind fun _ => .pure _)
    · exact takes_advance.bind fun _ => .pure _
  leaves := by
    intro s heof
    have hkind : s.current.kind = .eof := by simpa [Token.isEof] using heof
    refine ⟨false, ?_, rfl⟩
    simp only [boundaryTurn, Bind.bind, current, hkind]
    rfl
  step := by
    intro n
    simp only [skipToBoundary, boundaryTurn, bind_assoc]
    refine bind_congr fun t => ?_
    split
    · simp [*, Turn.followedBy]
    · simp [*, Turn.followedBy]
    · cases colonToo <;> simp [*, Turn.followedBy]
    · next word _ => by_cases hword : isBoundaryWord word <;> simp [*, Turn.followedBy]
    · simp [*, Turn.followedBy]

theorem loops_skipToDefine : Loops defineTurn skipToDefine where
  takes := .bind_right moves_current fun t =>
    .ite (takes_leave _) (takes_advance.bind fun _ => .pure _)
  leaves := by
    intro s heof
    refine ⟨⟨⟩, ?_, rfl⟩
    have hleave : (s.current.isEof || s.current.isKeyword .define) = true := by
      rw [heof, Bool.true_or]
    exact congrFun (if_pos hleave) s
  step := by
    intro n
    simp only [skipToDefine, defineTurn, bind_assoc]
    refine bind_congr fun t => ?_
    split <;> simp [Turn.followedBy]

/-! ### Fields -/

/-- One turn of reading the fields of a record. -/
def fieldTurn (record : String) : Parser (Turn (List Typed)) := do
  let t ← current
  match t.kind with
  | .eof | .keyword .end_ | .keyword .define => return .leave []
  | _ =>
    let start ← remaining
    match ← attempt (recordField record) with
    | .ok f => return .goOn (f :: ·)
    | .error d =>
      report d
      let _ ← synchronize start false
      return .goOn id

theorem loops_recordFields (record : String) :
    Loops (fieldTurn record) (recordFields record) where
  takes := by
    refine .bind_right moves_current fun t => ?_
    split
    · exact takes_leave _
    · exact takes_leave _
    · exact takes_leave _
    · exact takes_recovering (takes_recordField record) (fun _ _ => .pure _) (.pure _)
        fun _ _ => rfl
  leaves := by
    intro s heof
    have hkind : s.current.kind = .eof := by simpa [Token.isEof] using heof
    refine ⟨[], ?_, rfl⟩
    simp only [fieldTurn, Bind.bind, current, hkind]
    rfl
  step := by
    intro n
    simp only [recordFields, fieldTurn, bind_assoc]
    refine bind_congr fun t => ?_
    split
    · simp [*, Turn.followedBy]
    · simp [*, Turn.followedBy]
    · simp [*, Turn.followedBy]
    · simp only [*, bind_assoc]
      refine bind_congr fun start => bind_congr fun r => ?_
      cases r <;> simp [Turn.followedBy]

/-! ### Branches -/

/-- One turn of reading further branches of an `If`. -/
def otherwiseTurn (block : Parser (List Stmt)) (ifLine otherwiseLine : Nat) :
    Parser (Turn (List Stmt)) := do
  if ← atKeyword .otherwise then
    report (problem "Second 'Otherwise' in the same 'If'" (← current)
      (some ("The 'If' opened at line " ++ toString ifLine ++ " already has an 'Otherwise' at line "
        ++ toString otherwiseLine ++ "; nest another 'If' inside it instead.")))
    let _ ← advance
    let _ ← acceptSign .colon
    let statements ← block
    return .goOn (statements ++ ·)
  else return .leave []

/-- One turn of reading a block. -/
def blockTurn (inner : Parser (List Stmt)) : Parser (Turn (List Stmt)) := do
  let t ← current
  match ← blockStep with
  | .leave => return .leave []
  | .stray word =>
    skipStrayCloser t word
    return .goOn id
  | .statement =>
    checkTime t
    let s ← recoveringStatement inner
    return .goOn (s.toList ++ ·)

section

variable {inner : Parser (List Stmt)} (hinner : Reads True inner fun ss => ∀ s ∈ ss, s.WellFormed)

include hinner

theorem loops_repeatedOtherwise (ifLine otherwiseLine : Nat) :
    Loops (otherwiseTurn inner ifLine otherwiseLine)
      (repeatedOtherwise inner ifLine otherwiseLine) where
  takes := by
    refine .bind_right (reads_atKeyword _).moves fun _ => .ite ?_ (takes_leave _)
    refine .bind_right moves_current fun t => .bind_right (moves_report _) fun _ => ?_
    refine takes_advance.bind fun _ => (reads_acceptSign _).moves.bind fun _ => ?_
    exact hinner.moves.bind fun _ => .pure _
  leaves := by
    intro s heof
    have hkind : s.current.kind = .eof := by simpa [Token.isEof] using heof
    refine ⟨[], ?_, rfl⟩
    simp only [otherwiseTurn, Bind.bind, atKeyword, Token.isKeyword, hkind]
    rfl
  step := by
    intro n
    simp only [repeatedOtherwise, otherwiseTurn, bind_assoc]
    refine bind_congr fun more => ?_
    cases more <;> simp [Turn.followedBy]

theorem loops_statements : Loops (blockTurn inner) (statements inner) where
  takes := by
    refine .bind_right moves_current fun t => .bind_right reads_blockStep.moves fun step => ?_
    cases step with
    | leave => exact takes_leave _
    | stray word => exact (takes_skipStrayCloser t word).bind fun _ => .pure _
    | statement =>
        refine .bind_right (reads_checkTime t).moves fun _ => ?_
        exact (takes_recoveringStatement hinner).bind fun _ => .pure _
  leaves := by
    intro s heof
    have hkind : s.current.kind = .eof := by simpa [Token.isEof] using heof
    refine ⟨[], ?_, rfl⟩
    simp only [blockTurn, blockStep, Bind.bind, current, second, openBlocks, hkind]
    rfl
  step := by
    intro n
    simp only [statements, blockTurn, bind_assoc]
    refine bind_congr fun t => bind_congr fun step => ?_
    cases step <;> simp [Turn.followedBy]

end

end Prosaic.Parser
