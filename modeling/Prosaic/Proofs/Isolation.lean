import Prosaic.Proofs.Except
import Prosaic.Proofs.Limits
import Prosaic.Proofs.Passing.Rules
import Prosaic.Proofs.Program.Bare

/-!
Where recovery stops before a declaration, a broken text before it does not matter to it. The turns
of the top level go through the broken text; if one of them starts with the first `Define` behind
it, the later ones read what is read of the declarations alone, and report nothing. No turn takes
that `Define` but one whose last token before it opens a header.
-/

namespace Prosaic

namespace Parser

/-! ### Turns -/

/-- Turns of the top level that lead from one state to another, and what they declare. -/
inductive Turns : State → List Decl → State → Prop
  | none (s : State) : Turns s [] s
  | turn {s s₁ s₂ : State} {d : Option Decl} {ds : List Decl} (hpending : s.current.isEof = false)
      (hturn : topLevel s = .done d s₁) (hlater : Turns s₁ ds s₂) : Turns s (d.toList ++ ds) s₂

/-- From a state on, some turn of the top level starts with given tokens to come. -/
def StartsAt (s : State) (rest : List Token) : Prop := ∃ ds s', Turns s ds s' ∧ s'.rest = rest

theorem Turns.reaches {s s' : State} {ds : List Decl} (h : Turns s ds s') : s.Reaches s' := by
  induction h with
  | none s => exact .refl s
  | turn _ hturn _ ih => exact (takes_topLevel.moves.done hturn).trans ih

theorem StartsAt.turn {s s₁ : State} {d : Option Decl} {rest : List Token} (h : StartsAt s₁ rest)
    (hpending : s.current.isEof = false) (hturn : topLevel s = .done d s₁) : StartsAt s rest := by
  obtain ⟨ds, s', hturns, hrest⟩ := h
  exact ⟨_, s', .turn hpending hturn hturns, hrest⟩

/-- There is one run from a state. -/
theorem TopLevelRuns.unique {s : State} {run run' : List Decl × State} (h : TopLevelRuns s run)
    (h' : TopLevelRuns s run') : run = run' := by
  induction h generalizing run' with
  | ended hend =>
      cases h' with
      | ended => rfl
      | turn hpending => rw [hend] at hpending; cases hpending
      | exceeded hpending => rw [hend] at hpending; cases hpending
  | turn hpending hturn _ _ _ ih =>
      cases h' with
      | ended hend => rw [hend] at hpending; cases hpending
      | turn _ hturn' _ _ hlater' =>
          rw [hturn] at hturn'
          cases hturn'
          cases ih hlater'
          rfl
      | exceeded _ hturn' => rw [hturn] at hturn'; cases hturn'
  | exceeded hpending hturn =>
      cases h' with
      | ended hend => rw [hend] at hpending; cases hpending
      | turn _ hturn' => rw [hturn] at hturn'; cases hturn'
      | exceeded _ hturn' => rw [hturn] at hturn'; cases hturn'; rfl

/-- Behind some of its turns, a run goes on. -/
theorem TopLevelRuns.behind {s s' : State} {ds : List Decl} {run : List Decl × State}
    (h : TopLevelRuns s run) (hturns : Turns s ds s') :
    ∃ ds', run.1 = ds ++ ds' ∧ TopLevelRuns s' (ds', run.2) := by
  induction hturns generalizing run with
  | none s => exact ⟨run.1, rfl, h⟩
  | turn hpending hturn _ ih =>
      cases h with
      | ended hend => rw [hend] at hpending; cases hpending
      | exceeded _ hturn' => rw [hturn] at hturn'; cases hturn'
      | turn _ hturn' _ _ hlater =>
          rw [hturn] at hturn'
          cases hturn'
          obtain ⟨ds', hds, hruns⟩ := ih hlater
          exact ⟨ds', by rw [List.append_assoc, ← hds], hruns⟩

/-- Each declaration of a run comes from a turn of its own. -/
theorem TopLevelRuns.mem {s : State} {run : List Decl × State} (h : TopLevelRuns s run) {d : Decl}
    (hd : d ∈ run.1) : ∃ ds s' s'', Turns s ds s' ∧ s'.current.isEof = false ∧
      topLevel s' = .done (some d) s'' := by
  induction h with
  | ended => cases hd
  | exceeded => cases hd
  | @turn s s₁ s₂ o ds hpending hturn _ _ _ ih =>
      rcases List.mem_append.mp hd with hd | hd
      · obtain rfl := Option.mem_toList.mp hd
        exact ⟨[], s, s₁, .none s, hpending, hturn⟩
      · obtain ⟨ds', s', s'', hturns, hpending', hturn'⟩ := ih hd
        exact ⟨_, s', s'', .turn hpending hturn hturns, hpending', hturn'⟩

/-! ### The first turn at a declaration -/

variable {α β : Type}

/-- Whatever a parser yields has a property. -/
def Yields (p : Parser α) (Q : α → Prop) : Prop := ∀ s a s', p s = .done a s' → Q a

section

variable {p : Parser α} {f : α → Parser β} {Q : α → Prop} {R : β → Prop}

theorem Yields.last (hf : ∀ a, Yields (f a) R) : Yields (p >>= f) R := by
  intro s b s' h
  obtain ⟨a, s₁, -, hfs⟩ := bind_eq_done h
  exact hf a s₁ b s' hfs

theorem Yields.pure {a : α} (h : Q a) : Yields (Pure.pure a) Q := by
  intro s b s' hb
  cases hb
  exact h

theorem Yields.fail {d : Diagnostic} : Yields (Parser.fail d : Parser α) Q :=
  fun _ _ _ h => by cases h

theorem Yields.map {g : α → β} (h : Yields p fun a => R (g a)) : Yields (g <$> p) R := by
  intro s b s' hb
  obtain ⟨a, s₁, hps, hpure⟩ := bind_eq_done (f := fun a => Pure.pure (g a)) hb
  cases hpure
  exact h s a _ hps

/-- What a construct ends with, from the start of its first token on. -/
theorem Yields.finish {start : Token} {value : Span → α}
    (h : ∀ stop, Q (value ⟨start.span.start, stop⟩)) :
    Yields (do let span ← spanFrom start; countNode start; return value span) Q := by
  intro s a s' hdone
  obtain ⟨span, s₁, hspan, hrest⟩ := bind_eq_done hdone
  cases hspan
  exact Yields.last (p := countNode start) (fun _ => .pure (h _)) _ a s' hrest

end

theorem yields_functionDecl (define : Token) (purity : Purity) :
    Yields (functionDecl define purity) fun f => f.span.start = define.span.start :=
  .last fun _ => .last fun _ => .last fun _ => .last fun _ => .last fun _ => .last fun _ =>
    .last fun _ => .last fun _ => .finish fun _ => rfl

theorem yields_typeDecl (define : Token) :
    Yields (typeDecl define) fun t => t.span.start = define.span.start := by
  refine .last fun _ => .last fun name => ?_
  extract_lets text context rest
  have hrest : ∀ body, Yields (rest body) fun t => t.span.start = define.span.start :=
    fun body => .last fun _ => .finish fun _ => rfl
  refine .last fun _ => .last fun t => ?_
  split
  · refine .last fun _ => .last fun _ => .last fun values => ?_
    extract_lets values twice body
    have hbody : ∀ u, Yields (body u) fun t => t.span.start = define.span.start :=
      fun _ => .last hrest
    split
    · exact hbody ()
    · exact .last hbody
  · exact .last hrest

theorem yields_recordDecl (define : Token) :
    Yields (recordDecl define) fun r => r.span.start = define.span.start :=
  .last fun _ => .last fun _ => .last fun _ => .last fun _ => .last fun _ => .last fun _ =>
    .last fun _ => .finish fun _ => rfl

theorem expectKeyword_apply {word : Keyword} {s : State} (h : s.current.isKeyword word = true)
    (context : String) (hint : Option String) :
    expectKeyword word context hint s = .done s.current s.advance :=
  congrFun (if_pos h) s

/-- A declaration stands where its `Define` stands. -/
theorem declaration_span {s s' : State} {d : Decl} (h : s.current.isKeyword .define = true)
    (hdone : (declaration : Parser _) s = .done d s') : d.span.start = s.current.span.start := by
  obtain ⟨define, s₁, hdefine, hrest⟩ := bind_eq_done hdone
  cases (expectKeyword_apply h _ _).symm.trans hdefine
  refine (?_ : Yields _ fun d : Decl => d.span.start = s.current.span.start) s.advance d s' hrest
  refine .last fun effectful => .last fun t => ?_
  split
  · exact .map (yields_functionDecl _ _)
  · split
    · exact .fail
    · split
      · exact .map (yields_typeDecl _)
      · exact .map (yields_recordDecl _)
      · exact .fail

/-- Reading a declaration starts with taking its `Define`. -/
theorem declaration_congr {s s' : State} (h : s.current.isKeyword .define = true)
    (hcurrent : s'.current = s.current) (hadvance : s'.advance = s.advance) :
    (declaration : Parser _) s' = (declaration : Parser _) s := by
  have hdefine := expectKeyword_apply h "declaration" none
  have hdefine' := expectKeyword_apply (hcurrent ▸ h) "declaration" none
  rw [hcurrent, hadvance] at hdefine'
  simp only [declaration, liftM_eq, lift_eq, Bind.bind, hdefine, hdefine']

theorem topLevel_of_define {s : State} (h : s.current.isKeyword .define = true) :
    topLevel s = (recoveringDeclaration : Parser _) s := congrFun (if_pos h) s

/-- Where the token before a declaration ends does not matter to the declaration. -/
theorem topLevel_last {s : State} {t : Token} {rest : List Token} (hrest : s.rest = t :: rest)
    (h : t.isKeyword .define = true) (last : Option Position) :
    topLevel { s with last := last } = topLevel s := by
  have hcurrent : s.current = t := by rw [State.current, hrest]; rfl
  have hadvance : State.advance { s with last := last } = s.advance := by
    unfold State.advance
    split
    · next hnil => rw [hrest] at hnil; cases hnil
    · next u later hcons =>
        split
        · next hnil => rw [hrest] at hnil; cases hnil
        · next u' later' hcons' =>
            cases hcons.symm.trans hcons'
            rfl
  have hdefine : s.current.isKeyword .define = true := hcurrent ▸ h
  have hsame : (declaration : Parser _) { s with last := last } = (declaration : Parser _) s :=
    declaration_congr hdefine rfl hadvance
  rw [topLevel_of_define hdefine, topLevel_of_define (s := { s with last := last }) hdefine]
  simp only [recoveringDeclaration, liftM_eq, lift_eq, Bind.bind, remaining,
    BlockReader.attempt, attempt, hsame]

theorem yields_skipping : Yields (do skipToDefine (← remaining); return (none : Option Decl))
    (· = none) :=
  .last fun _ => .last fun _ => .pure rfl

/-- A turn at a `Define` declares what the declaration is read to, or reports its failure. -/
theorem recoveringDeclaration_done {s s' : State} {o : Option Decl}
    (h : (recoveringDeclaration : Parser _) s = .done o s') :
    (∃ d, o = some d ∧ (declaration : Parser _) s = .done d s') ∨ o = none ∧ s'.found ≠ [] := by
  obtain ⟨r, s₁, hattempt, hrest⟩ :
      ∃ r s₁, attempt (declaration : Parser _) s = .done r s₁ ∧ _ :=
    bind_eq_done (p := attempt declaration) h
  unfold attempt at hattempt
  cases hdecl : (declaration : Parser _) s with
  | stopped e s₂ => rw [hdecl] at hattempt; cases hattempt
  | done d s₂ =>
      rw [hdecl] at hattempt
      cases hattempt
      cases hrest
      exact .inl ⟨d, rfl, rfl⟩
  | failed e s₂ =>
      rw [hdecl] at hattempt
      cases hattempt
      obtain ⟨u, s₃, hreport, hlater⟩ := bind_eq_done hrest
      cases hreport
      have hmoves : Moves (do
          let _ ← synchronize s.left false
          skipToDefine (← remaining)
          return (none : Option Decl)) := (moves_synchronize _ _).bind fun _ => moves_skipToDefine
      refine .inr ⟨Yields.last (fun _ => yields_skipping) _ _ _ hlater, fun hnil => ?_⟩
      have hfound := (hmoves.done hlater).found
      rw [hnil] at hfound
      cases List.suffix_nil.mp hfound

/-- A turn declares something only if it starts with the `Define` of the declaration. If it does not
declare anything it reports something. -/
theorem topLevel_done {s s' : State} {o : Option Decl} (h : topLevel s = .done o s') :
    (∃ d, o = some d ∧ s.current.isKeyword .define = true ∧
      d.span.start = s.current.span.start) ∨ o = none ∧ s'.found ≠ [] := by
  by_cases hdefine : s.current.isKeyword .define = true
  · rw [topLevel_of_define hdefine] at h
    rcases recoveringDeclaration_done h with ⟨d, rfl, hdecl⟩ | hnone
    · exact .inl ⟨d, rfl, hdefine, declaration_span hdefine hdecl⟩
    · exact .inr hnone
  · have htop : topLevel s = (do
        report (unexpectedAtTop s.current)
        let _ ← advance
        skipToDefine (← remaining)
        return none : Parser (Option Decl)) s := congrFun (if_neg hdefine) s
    rw [htop] at h
    obtain ⟨u, s₁, hreport, hlater⟩ := bind_eq_done h
    cases hreport
    have hmoves : Moves (do
        let _ ← advance
        skipToDefine (← remaining)
        return (none : Option Decl)) := moves_advance.bind fun _ => moves_skipToDefine
    refine .inr ⟨Yields.last (fun _ => yields_skipping) _ _ _ hlater, fun hnil => ?_⟩
    have hfound := (hmoves.done hlater).found
    rw [hnil] at hfound
    cases List.suffix_nil.mp hfound

/-! ### Up to the declarations -/

/-- While the turns leave the tokens behind alone, what they find lies before them, and no construct
stays open. -/
theorem Turns.twin {c : Pairing} {l : Level} {s s' : State} {ds : List Decl} (h : Turns s ds s')
    (htwin : c.Twin l s s) (hbehind : c.behind <:+ s'.rest) : c.Twin l s' s' := by
  induction h with
  | none s => exact htwin
  | @turn s s₁ s₂ d ds hpending hturn hlater ih =>
      have hrest : c.behind <:+ s₁.rest := hbehind.trans hlater.reaches.rest
      have hfollows := (Pairing.keeps_topLevel (H := True)).follows trivial htwin (by rwa [hturn])
      rw [hturn] at hfollows
      cases hfollows with
      | done hd ht => exact ih ht hbehind

/-- No turn takes the first `Define` behind some tokens unless the last of them opens a header. -/
theorem TopLevelRuns.startsAt {s : State} {run : List Decl × State} (h : TopLevelRuns s run)
    {front rest : List Token} {define : Token} (hrest : s.rest = front ++ define :: rest)
    (hdefine : define.isKeyword .define = true) (hfront : ∀ t ∈ front.getLast?, t.opens = false)
    (hpending : ∀ t ∈ s.rest, t.isEof = false)
    (hunlimited : ∀ d ∈ run.2.found, d.code ≠ Diagnostic.resourceLimit) :
    StartsAt s (define :: rest) := by
  induction h generalizing front with
  | @ended s hend =>
      have hcurrent : s.current ∈ s.rest := by
        rw [State.current, hrest]
        cases front <;> simp
      rw [hpending _ hcurrent] at hend
      cases hend
  | exceeded => exact (hunlimited _ List.mem_cons_self rfl).elim
  | @turn s s₁ s₂ d ds hturnPending hturn hreach htakes _ ih =>
      rcases List.eq_nil_or_concat front with rfl | ⟨front, t, rfl⟩
      · exact ⟨[], s, .none s, hrest⟩
      · obtain ⟨taken, htaken, hpass⟩ : Passed true s s₁ := by
          have hpassed := (passes_topLevel (P := fun _ => True)).passed s trivial
          rwa [hturn] at hpassed
        rw [List.concat_eq_append] at hrest hfront
        rw [hrest] at htaken
        rcases List.append_eq_append_iff.mp htaken with
          ⟨more, hmore, hlater⟩ | ⟨left, hleft, hlater⟩
        · cases more with
          | nil => exact StartsAt.turn ⟨[], s₁, .none s₁, hlater.symm⟩ hturnPending hturn
          | cons u more =>
              -- the turn would have taken the `Define` behind the last token before it
              obtain ⟨rfl, -⟩ := List.cons.inj hlater
              rw [hmore, List.append_assoc] at hpass
              have hlast : t.opens = false := hfront t (by simp)
              rw [hpass.opens hdefine] at hlast
              cases hlast
        · have hfront₁ : ∀ u ∈ left.getLast?, u.opens = false := fun u hu => by
            refine hfront u ?_
            rw [hleft, List.getLast?_append, Option.mem_def.mp hu]
            rfl
          have hpending₁ : ∀ u ∈ s₁.rest, u.isEof = false :=
            fun u hu => hpending u (hreach.rest.subset hu)
          exact (ih hlater hfront₁ hpending₁ hunlimited).turn hturnPending hturn

theorem TopLevelRuns.reaches {s : State} {run : List Decl × State} (h : TopLevelRuns s run) :
    s.Reaches run.2 := by
  induction h with
  | @ended s hend => exact .refl s
  | turn _ _ hreach _ _ ih => exact hreach.trans ih
  | exceeded _ _ hreach => exact ⟨hreach.rest, hreach.stop,
    hreach.found.trans (List.suffix_cons _ _)⟩

/-- Declarations that are read without a finding start with the `Define` of the first one. -/
theorem TopLevelRuns.clean {s : State} {run : List Decl × State} (h : TopLevelRuns s run)
    (hfound : run.2.found = []) (hsome : run.1 ≠ []) :
    s.current.isEof = false ∧ s.current.isKeyword .define = true ∧
      ∃ d ∈ run.1, d.span.start = s.current.span.start := by
  cases h with
  | ended => exact (hsome rfl).elim
  | exceeded => cases hfound
  | turn hpending hturn _ _ hlater =>
      rcases topLevel_done hturn with ⟨d, rfl, hdefine, hspan⟩ | ⟨-, hloud⟩
      · exact ⟨hpending, hdefine, d, List.mem_cons_self, hspan⟩
      · have hlater := hlater.reaches.found
        rw [hfound] at hlater
        exact (hloud (List.suffix_nil.mp hlater)).elim

/-- Some tokens before others that are held back, with unknown budgets. -/
def Pairing.holding (before decls : List Token) (stop : Token)
    (define : ∀ t ∈ decls.head?, t.isKeyword .define = true) : Pairing :=
  ⟨before, decls, stop, define, [], True⟩

/-- Declarations read behind others, and read alone. -/
def Pairing.alone (decls : List Token) (stop : Token) (older : List Diagnostic) : Pairing :=
  ⟨decls, [], stop, Pairing.define_nil, older, True⟩

/-- A state with given tokens to come, before a declaration, is as good as the start of them. -/
theorem declarations_alone {s : State} {define : Token} {rest : List Token} {stop : Token}
    {b : Budget} (hrest : s.rest = define :: rest) (hdefine : define.isKeyword .define = true)
    (hstop : s.stop = stop) (hblocks : s.blocks = []) :
    (Pairing.alone (define :: rest) stop s.found).Meets ⟨[], s.budget.depth⟩
      (declarations s.left s)
      (declarations s.left (.start (define :: rest) stop b)) := by
  have htwin : (Pairing.alone (define :: rest) stop s.found).Twin ⟨[], s.budget.depth⟩
      { s with last := none } (.start (define :: rest) stop b) :=
    { rest := hrest.symm
      inside := ⟨[], by rw [List.nil_append, hrest]; exact (List.append_nil _).symm⟩
      stop := hstop
      stop' := rfl
      last := rfl
      blocks := hblocks
      blocks' := rfl
      depth := rfl
      found := rfl
      placed := nofun
      budget := .inl trivial }
  have hmeets := Pairing.meets_declarations rfl s.left htwin
  have hsame : ∀ n, n ≠ 0 → declarations n { s with last := none } = declarations n s := by
    intro n hn
    cases n with
    | zero => exact (hn rfl).elim
    | succ n =>
        have hpending : s.current.isEof = false := by
          have hkind : define.kind = .keyword .define := by simpa [Token.isKeyword] using hdefine
          rw [State.current, hrest]
          simp [Token.isEof, hkind]
        have hpending' : State.current { s with last := none } = s.current := rfl
        simp only [declarations, topLevel_last hrest hdefine none, hpending', hpending]
        rfl
  have hleft : s.left ≠ 0 := by simp [s.left_eq, hrest]
  exact hsame s.left hleft ▸ hmeets

end Parser

/-! ### Programs -/

/-- A reading of some tokens and of declarations behind them ends with what is read of the
declarations alone, and finds nothing wrong behind their first token. -/
structure Reading.Isolates (r r' : Reading) (before decls : List Token) : Prop where
  declarations : r'.program.declarations <:+ r.program.declarations
  found : ∀ d ∈ r.found, ∃ t ∈ before ++ decls.take 1, d.location = t.span.start.location

section

open Prosaic.Parser

variable {before decls : List Token} {stop : Token} {b b' : Budget} {r r' : Reading}

/-- A turn that starts with a declaration reads it as if nothing stood before. -/
theorem Parser.TopLevelRuns.isolates {run run' : List Decl × State} {define : Token}
    {rest : List Token} (hdefine : define.isKeyword .define = true) (hstop : stop.isEof = true)
    (hruns : TopLevelRuns (.start (before ++ define :: rest) stop b) run)
    (hruns' : TopLevelRuns (.start (define :: rest) stop b') run') (hclean : run'.2.found = [])
    (hunlimited : ∀ d ∈ run.2.found, d.code ≠ Diagnostic.resourceLimit)
    (hstarts : StartsAt (.start (before ++ define :: rest) stop b) (define :: rest)) :
    run'.1 <:+ run.1 ∧
      ∀ d ∈ run.2.found, ∃ t ∈ before ++ [define], d.location = t.span.start.location := by
  obtain ⟨ds, s, hturns, hrest⟩ := hstarts
  obtain ⟨ds', hds, hlater⟩ := hruns.behind hturns
  have hhead : ∀ t ∈ (define :: rest).head?, t.isKeyword .define = true :=
    fun t ht => Option.some.inj ht ▸ hdefine
  let c := Pairing.holding before (define :: rest) stop hhead
  have hstart : c.Twin ⟨[], b.depth⟩ (.start (before ++ define :: rest) stop b)
      (.start (before ++ define :: rest) stop b) :=
    { rest := rfl, inside := List.suffix_rfl, stop := rfl, stop' := rfl, last := rfl, blocks := rfl,
      blocks' := rfl, depth := rfl, found := rfl, placed := nofun, budget := .inl trivial }
  have htwin : c.Twin ⟨[], b.depth⟩ s s := hturns.twin hstart (hrest ▸ List.suffix_rfl)
  -- from here on both runs take the same turns
  have hstop' : s.stop.isEof = true := htwin.stop.symm ▸ hstop
  have hrun := hlater.unique (topLevelRuns_declarations s.left hstop' (Nat.le_refl _))
  have hleft : s.left = (State.start (define :: rest) stop b').left := by
    rw [s.left_eq, hrest]
    rfl
  have hrun' := hruns'.unique (topLevelRuns_declarations s.left hstop (Nat.le_of_eq hleft.symm))
  have hmeets : (Pairing.alone (define :: rest) stop s.found).Meets ⟨[], s.budget.depth⟩
      (ds', run.2) run' := by
    rw [hrun, hrun']
    exact declarations_alone hrest hdefine htwin.stop htwin.blocks
  obtain ⟨decls', fin'⟩ := run'
  cases hmeets with
  | alike ht =>
      refine ⟨hds ▸ List.suffix_append ds _, fun d hd => ?_⟩
      have hfound : run.2.found = s.found := by
        have := ht.found
        rw [hclean] at this
        exact this
      obtain ⟨t, hhere, hlocation⟩ := (htwin.placed d (hfound ▸ hd)).location
      refine ⟨t, ?_, hlocation⟩
      rcases hhere with hmem | rfl
      · exact List.mem_append_left _ hmem
      · exact List.mem_append_right _ List.mem_cons_self
  | stopped new hfound => exact (hunlimited _ (hfound ▸ List.mem_cons_self) rfl).elim
  | first _ he => exact (hunlimited _ he rfl).elim
  | second _ he =>
      change _ ∈ fin'.found at he
      rw [hclean] at he
      cases he

/-- A state before a token that stands where only one of the tokens stands is before that one. -/
theorem Parser.State.Reaches.rest_eq {s : State} {define : Token} {rest : List Token}
    (h : (State.start (before ++ define :: rest) stop b).Reaches s)
    (hpending : s.current.isEof = false) (hstop : stop.isEof = true)
    (hplace : s.current.span.start = define.span.start)
    (hdistinct : ∀ t ∈ before ++ rest, t.span.start ≠ define.span.start) :
    s.rest = define :: rest := by
  obtain ⟨taken, htaken⟩ := h.rest
  change taken ++ s.rest = before ++ define :: rest at htaken
  cases hrest : s.rest with
  | nil =>
      have hend : s.current = stop := by rw [State.current, hrest, List.headD_nil, h.stop]; rfl
      rw [hend, hstop] at hpending
      cases hpending
  | cons t later =>
      have hcurrent : s.current = t := by rw [State.current, hrest]; rfl
      rw [hcurrent] at hplace
      rw [hrest] at htaken
      rcases List.append_eq_append_iff.mp htaken with ⟨more, hmore, heq⟩ | ⟨more, hmore, heq⟩
      · cases more with
        | nil => exact heq
        | cons u more =>
            obtain ⟨rfl, -⟩ := List.cons.inj heq
            exact (hdistinct t (by simp [hmore]) hplace).elim
      · cases more with
        | nil => exact heq.symm
        | cons u more =>
            obtain ⟨rfl, hlater⟩ := List.cons.inj heq
            exact (hdistinct t (by simp [hlater]) hplace).elim

/-- Declarations that are read without a finding are isolated from what stands before them if a turn
of the top level starts with the first of them, which is always so unless the last token before them
opens a header. If they stand where no other token stands, they are not isolated otherwise. -/
theorem Program.read_isolates (hpending : ∀ t ∈ before ++ decls, t.isEof = false)
    (hstop : stop.isEof = true) (halone : Program.read (decls ++ [stop]) b' = some r')
    (hclean : r'.found = []) (hsome : r'.program.declarations ≠ [])
    (hread : Program.read (before ++ decls ++ [stop]) b = some r)
    (hunlimited : ∀ d ∈ r.found, d.code ≠ Diagnostic.resourceLimit) :
    ((∀ t ∈ before.getLast?, t.opens = false) → StartsAt (.start (before ++ decls) stop b) decls) ∧
      (StartsAt (.start (before ++ decls) stop b) decls → r.Isolates r' before decls) ∧
      ((∀ t ∈ before ++ decls.tail, ∀ d ∈ decls.head?, t.span.start ≠ d.span.start) →
        r.Isolates r' before decls → StartsAt (.start (before ++ decls) stop b) decls) := by
  have hdecls : ∀ t ∈ decls, t.isEof = false := fun t ht => hpending t (List.mem_append_right _ ht)
  have hruns :=
    topLevelRuns_declarations (s := .start (before ++ decls) stop b) _ hstop (Nat.le_refl _)
  have hruns' := topLevelRuns_declarations (s := .start decls stop b') _ hstop (Nat.le_refl _)
  rw [Program.read_append hdecls hstop] at halone
  rw [Program.read_append hpending hstop] at hread
  obtain rfl := Option.some.inj halone
  obtain rfl := Option.some.inj hread
  generalize Parser.declarations _ (State.start (before ++ decls) stop b) = run at *
  generalize Parser.declarations _ (State.start decls stop b') = run' at *
  have hnone : run'.2.found = [] := List.reverse_eq_nil_iff.mp hclean
  have hwide : ∀ d ∈ run.2.found, d.code ≠ Diagnostic.resourceLimit :=
    fun d hd => hunlimited d (List.mem_reverse.mpr hd)
  obtain ⟨hcurrent, hdefine, d, hd, hspan⟩ := hruns'.clean hnone hsome
  cases decls with
  | nil =>
      change stop.isEof = false at hcurrent
      rw [hstop] at hcurrent
      cases hcurrent
  | cons define rest =>
      refine ⟨fun hlast => ?_, fun hstarts => ?_, fun hdistinct hisolates => ?_⟩
      · exact hruns.startsAt rfl hdefine hlast hpending hwide
      · obtain ⟨hsuffix, hplaced⟩ := hruns.isolates hdefine hstop hruns' hnone hwide hstarts
        exact ⟨hsuffix, fun d hd => hplaced d (List.mem_reverse.mp hd)⟩
      · obtain ⟨ds, s, s', hturns, hpending', hturn⟩ := hruns.mem (hisolates.declarations.subset hd)
        have hplace : s.current.span.start = define.span.start := by
          rcases topLevel_done hturn with ⟨d', hd', -, hspan'⟩ | ⟨hnone, -⟩
          · obtain rfl := Option.some.inj hd'
            exact hspan'.symm.trans hspan
          · cases hnone
        exact ⟨ds, s, hturns, hturns.reaches.rest_eq hpending' hstop hplace fun t ht =>
          hdistinct t ht define rfl⟩

end

/-- A function without statements. -/
def emptyFunction : List Token :=
  [⟨.keyword .define, "Define", default⟩, ⟨.keyword .function, "function", default⟩,
    ⟨.identifier "g", "g", default⟩, ⟨.sign .colon, ":", default⟩, ⟨.keyword .end_, "End", default⟩,
    ⟨.keyword .function, "function", default⟩, ⟨.terminator, ".", default⟩]

theorem Program.read_isolates_brokenOff :
    let stop : Token := ⟨.eof, "", default⟩
    ∃ r r', Program.read (brokenOff ++ emptyFunction ++ [stop]) (.start .standard .still) = some r ∧
      Program.read (emptyFunction ++ [stop]) (.start .standard .still) = some r' ∧
      r.found ≠ [] ∧ r.Isolates r' brokenOff emptyFunction := by
  intro stop
  have hpending : ∀ t ∈ brokenOff ++ emptyFunction, t.isEof = false := by decide
  have hlast : ∀ t ∈ brokenOff.getLast?, t.opens = false := by decide
  have halone : ((Program.read (emptyFunction ++ [stop]) (.start .standard .still)).any fun r' =>
      r'.found.isEmpty && !r'.program.declarations.isEmpty) = true := by decide +kernel
  have hread : ((Program.read (brokenOff ++ emptyFunction ++ [stop]) (.start .standard .still)).any
      fun r => !r.found.isEmpty && r.found.all fun d =>
        d.code ≠ Diagnostic.resourceLimit) = true := by
    decide +kernel
  obtain ⟨r', halone, hclean⟩ := (Option.any_eq_true _ _).mp halone
  obtain ⟨r, hread, hfound⟩ := (Option.any_eq_true _ _).mp hread
  simp only [Bool.and_eq_true, List.isEmpty_iff, Bool.not_eq_true', List.isEmpty_eq_false_iff,
    List.all_eq_true, decide_eq_true_eq] at hclean hfound
  obtain ⟨hstarts, hisolates, -⟩ :=
    Program.read_isolates hpending rfl halone hclean.1 hclean.2 hread
    hfound.2
  exact ⟨r, r', hread, halone, hfound.1, hisolates (hstarts hlast)⟩

/-- A header that ends before its name takes the `Define` behind it for the name, and recovery then
passes over the rest of the declaration. -/
theorem Program.not_isolated_openedHeader :
    ∃ before decls stop r r',
      Token.scan "Define function Define function g: End function." =
        .ok (before ++ decls ++ [stop]) ∧
      Program.read (decls ++ [stop]) (.start .standard .still) = some r' ∧
      r'.found = [] ∧ r'.program.declarations ≠ [] ∧
      Program.read (before ++ decls ++ [stop]) (.start .standard .still) = some r ∧
      (∀ d ∈ r.found, d.code ≠ Diagnostic.resourceLimit) ∧
      ¬(r'.program.declarations.map Decl.spanless <:+
        r.program.declarations.map Decl.spanless) := by
  have hrun : ((Token.scan "Define function Define function g: End function.").toOption.any
      fun tokens =>
        tokens = tokens.take 2 ++ (tokens.drop 2).dropLast ++ tokens.getLast?.toList &&
        tokens.getLast?.any fun stop =>
        (Program.read ((tokens.drop 2).dropLast ++ [stop]) (.start .standard .still)).any fun r' =>
        r'.found.isEmpty && !r'.program.declarations.isEmpty &&
        (Program.read (tokens.take 2 ++ (tokens.drop 2).dropLast ++ [stop])
          (.start .standard .still)).any fun r =>
        (r.found.all fun d => d.code ≠ Diagnostic.resourceLimit) &&
        !(((r'.program.declarations.map Decl.spanless).map Decl.name).isSuffixOf
          ((r.program.declarations.map Decl.spanless).map Decl.name))) = true := by
    decide +kernel
  obtain ⟨tokens, hscan, hrun⟩ := any_toOption.mp hrun
  simp only [Bool.and_eq_true, decide_eq_true_eq] at hrun
  obtain ⟨hsplit, hrun⟩ := hrun
  obtain ⟨stop, hstop, hrun⟩ := (Option.any_eq_true _ _).mp hrun
  obtain ⟨r', halone, hrun⟩ := (Option.any_eq_true _ _).mp hrun
  simp only [Bool.and_eq_true, List.isEmpty_iff, Bool.not_eq_true',
    List.isEmpty_eq_false_iff] at hrun
  obtain ⟨hclean, hrun⟩ := hrun
  obtain ⟨r, hread, hrun⟩ := (Option.any_eq_true _ _).mp hrun
  simp only [Bool.and_eq_true, List.all_eq_true, decide_eq_true_eq, Bool.not_eq_true'] at hrun
  obtain ⟨hlimit, hsuffix⟩ := hrun
  rw [hstop] at hsplit
  refine ⟨_, _, stop, r, r', hscan.trans (congrArg _ hsplit), halone, hclean.1,
    hclean.2, hread, hlimit, fun h => ?_⟩
  have hnames := List.isSuffixOf_iff_suffix.mpr (h.map Decl.name)
  rw [hsuffix] at hnames
  cases hnames

end Prosaic
