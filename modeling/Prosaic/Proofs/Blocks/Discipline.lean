import Prosaic.Proofs.Blocks.Balance
import Prosaic.Proofs.Blocks.History
import Prosaic.Proofs.Except

/-!
The discipline of blocks. A reading closes what it opens, each construct once and the innermost one
first; the block that it reads belongs to the innermost construct; and whatever it closes it closes
by the right words, or it says that these are missing.

`Records` relates a rule to its recorded form, with the levels between which the two lead. A rule
that fails may do so inside others, so the level at which it fails is kept apart; between the
opening of a construct and its closer nothing fails.
-/

namespace Prosaic

namespace Parser

variable {α β : Type}

/-! ### Histories -/

/-- A history between two levels in which every block belongs to the innermost open construct, and
this one is closed first. -/
inductive Bracketed : Level → List Event → Level → Prop
  | nil (l : Level) : Bracketed l [] l
  | opened {l l' : Level} {b : Block} {s t : State} {events : List Event} (before : s.level = l)
      (after : t.level = l.inside b) (more : Bracketed (l.inside b) events l') :
      Bracketed l (.opened b s t :: events) l'
  | body {l l' : Level} {b : Block} {s : State} {events : List Event}
      (here : s.level = l.inside b) (more : Bracketed (l.inside b) events l') :
      Bracketed (l.inside b) (.body b s :: events) l'
  | closed {l l' : Level} {b : Block} {s t : State} {events : List Event}
      (before : s.level = l.inside b) (after : t.level = l) (closing : Closing b s t)
      (more : Bracketed l events l') : Bracketed (l.inside b) (.closed b s t :: events) l'

theorem Bracketed.append {l l' l'' : Level} {events later : List Event}
    (h : Bracketed l events l') (hlater : Bracketed l' later l'') :
    Bracketed l (events ++ later) l'' := by
  induction h with
  | nil => exact hlater
  | opened before after _ ih => exact .opened before after (ih hlater)
  | body here _ ih => exact .body here (ih hlater)
  | closed before after closing _ ih => exact .closed before after closing (ih hlater)

/-! ### Rules and their recorded forms -/

/-- A rule with its history, from one level to another; a failure ends at the given base. -/
structure Records (base l l' : Level) (p : Parser α) (r : Recorded α) : Prop where
  erase : r.erase = p
  moves : Moves p
  done : ∀ {s a t}, s.stop.isEof = true → s.level = l → p s = .done a t →
    Bracketed l (r s).1 l' ∧ t.level = l'
  failed : ∀ {s d t}, s.stop.isEof = true → s.level = l → p s = .failed d t →
    Bracketed l (r s).1 base ∧ t.level = base

namespace Records

variable {base l l₁ l' : Level} {p q : Parser α} {r r' : Recorded α} {f : α → Parser β}
  {g : α → Recorded β}

theorem pure (a : α) : Records base l l (Pure.pure a) (Pure.pure a) where
  erase := rfl
  moves := .pure a
  done _ hlevel h := by
    cases h
    exact ⟨.nil l, hlevel⟩
  failed _ _ h := by cases h

theorem bind (hp : Records base l l₁ p r) (hf : ∀ a, Records base l₁ l' (f a) (g a)) :
    Records base l l' (p >>= f) (r >>= g) where
  erase := by
    funext s
    have hps := congrFun hp.erase s
    simp only [Recorded.erase, Bind.bind] at hps ⊢
    rw [← hps]
    cases (r s).2 with
    | done a t => exact congrFun (hf a).erase t
    | failed d t | stopped e t => rfl
  moves := hp.moves.bind fun a => (hf a).moves
  done := by
    intro s b t hstop hlevel h
    obtain ⟨a, s₁, hps, hfs⟩ := bind_eq_done h
    obtain ⟨hfirst, hlevel₁⟩ := hp.done hstop hlevel hps
    have hstop₁ : s₁.stop.isEof = true := by rw [(hp.moves.done hps).stop, hstop]
    obtain ⟨hsecond, hlevel'⟩ := (hf a).done hstop₁ hlevel₁ hfs
    have hrs : (r s).2 = .done a s₁ := by rw [← hps, ← hp.erase]; rfl
    refine ⟨?_, hlevel'⟩
    simp only [Bind.bind, hrs]
    exact hfirst.append hsecond
  failed := by
    intro s d t hstop hlevel h
    have hrs : (r s).2 = p s := congrFun hp.erase s
    simp only [Bind.bind] at h ⊢
    cases hps : p s with
    | done a s₁ =>
        obtain ⟨hfirst, hlevel₁⟩ := hp.done hstop hlevel hps
        have hstop₁ : s₁.stop.isEof = true := by rw [(hp.moves.done hps).stop, hstop]
        rw [hps] at h hrs
        obtain ⟨hsecond, hbase⟩ := (hf a).failed hstop₁ hlevel₁ h
        rw [hrs]
        exact ⟨hfirst.append hsecond, hbase⟩
    | failed d' s₁ =>
        rw [hps] at h hrs
        cases h
        rw [hrs]
        exact hp.failed hstop hlevel hps
    | stopped e s₁ =>
        rw [hps] at h
        cases h

theorem ite {c : Prop} [Decidable c] (hp : Records base l l' p r) (hq : Records base l l' q r') :
    Records base l l' (if c then p else q) (if c then r else r') := by
  split
  · exact hp
  · exact hq

theorem map {h : α → β} (hp : Records base l l' p r) : Records base l l' (h <$> p) (h <$> r) :=
  hp.bind fun a => .pure (h a)

/-- Where nothing is opened, a rule needs no history. -/
theorem lift (h : Steady p) : Records l l l p (liftM p) where
  erase := rfl
  moves := h.moves
  done _ hlevel hps := ⟨.nil l, (h.done hps).trans hlevel⟩
  failed _ hlevel hps := ⟨.nil l, (h.failed hps).trans hlevel⟩

/-- What cannot fail can be done anywhere. -/
theorem sure (h : Records l l l' p r) (hrecovers : Recovers p) : Records base l l' p r where
  erase := h.erase
  moves := h.moves
  done := h.done
  failed _ _ hps := (hrecovers _ _ _ hps).elim

/-- A step outside of all that is opened. -/
theorem step {g : α → Recorded β} (h : Steady p) (hf : ∀ a, Records l l l' (f a) (g a)) :
    Records l l l' (p >>= f) (liftM p >>= g) :=
  (lift h).bind hf

/-- A step anywhere. -/
theorem safely {g : α → Recorded β} (h : Steady p) (hrecovers : Recovers p)
    (hf : ∀ a, Records base l l' (f a) (g a)) : Records base l l' (p >>= f) (liftM p >>= g) :=
  ((lift h).sure hrecovers).bind hf

theorem finish (start : Token) (value : Span → β) : Records l l l
    (do let span ← spanFrom start; countNode start; return value span)
    (do let span ← spanFrom start; countNode start; return value span) :=
  .step (steady_spanFrom start) fun _ => .step (steady_countNode start) fun _ => .pure _

theorem attempt (h : Records l l l p r) :
    Records base l l (Parser.attempt p) (BlockReader.attempt r) where
  erase := by
    funext s
    exact congrArg (Parser.attempt · s) h.erase
  moves := h.moves.attempt
  done := by
    intro s a t hstop hlevel hps
    unfold Parser.attempt at hps
    cases hp : p s with
    | done b s₁ =>
        rw [hp] at hps
        cases hps
        exact h.done hstop hlevel hp
    | failed d s₁ =>
        rw [hp] at hps
        cases hps
        exact h.failed hstop hlevel hp
    | stopped e s₁ =>
        rw [hp] at hps
        cases hps
  failed _ _ hps := (recovers_attempt p _ _ _ hps).elim

theorem within {b : Block} (h : Records base (l.inside b) l' p r) :
    Records base (l.inside b) l' p (Recorded.within b r) where
  erase := h.erase
  moves := h.moves
  done hstop hlevel hps :=
    have ⟨hinner, hend⟩ := h.done hstop hlevel hps
    ⟨.body hlevel hinner, hend⟩
  failed hstop hlevel hps :=
    have ⟨hinner, hend⟩ := h.failed hstop hlevel hps
    ⟨.body hlevel hinner, hend⟩

theorem opening (b : Block) (opener : Token) :
    Records base l (l.inside b) (openBlock b opener) (Recorded.opening b opener) where
  erase := by
    funext s
    unfold Recorded.erase Recorded.opening
    cases openBlock b opener s <;> rfl
  moves := (reads_openBlock b opener).moves
  done := by
    intro s u t _ hlevel h
    have hend := (openBlock_level h).trans (congrArg (·.inside b) hlevel)
    simp only [Recorded.opening, h]
    exact ⟨.opened hlevel hend (.nil _), hend⟩
  failed _ _ h := (recovers_openBlock _ _ _ _ _ h).elim

theorem closing (b : Block) :
    Records base (l.inside b) l (closeBlock b) (Recorded.closing b) where
  erase := by
    funext s
    unfold Recorded.erase Recorded.closing
    cases closeBlock b s <;> rfl
  moves := (reads_closeBlock b).moves
  done := by
    intro s span t hstop hlevel h
    obtain ⟨hclosing, hend⟩ := closeBlock_closing hstop hlevel h
    simp only [Recorded.closing, h]
    exact ⟨.closed hlevel hend hclosing (.nil l), hend⟩
  failed _ _ h := (recovers_closeBlock _ _ _ _ h).elim

end Records

/-! ### The rules that hold blocks -/

section

variable {block : Parser (List Stmt)} {recorded : Recorded (List Stmt)}

section

variable {base l : Level} (hblock : Records base l l block recorded)

include hblock

theorem records_repeatedOtherwise (ifLine otherwiseLine fuel : Nat) :
    Records base l l (repeatedOtherwise block ifLine otherwiseLine fuel)
      (repeatedOtherwise recorded ifLine otherwiseLine fuel) := by
  induction fuel with
  | zero => exact .pure []
  | succ fuel ih =>
      refine .safely (steady_atKeyword _) (recovers_atKeyword _) fun again => .ite ?_ (.pure [])
      refine .safely steady_current recovers_current fun t => ?_
      refine .safely (steady_report _) (recovers_report _) fun _ => ?_
      refine .safely steady_advance recovers_advance fun _ => ?_
      refine .safely (steady_acceptSign _) (recovers_acceptSign _) fun _ => ?_
      exact hblock.bind fun statements => ih.bind fun more => .pure _

theorem records_otherwiseBranch (ifLine : Nat) :
    Records base l l (otherwiseBranch block ifLine)
      (otherwiseBranch recorded ifLine) := by
  refine .safely (steady_atKeyword _) (recovers_atKeyword _) fun present => .ite ?_ (.pure none)
  refine .safely steady_advance recovers_advance fun start => ?_
  refine .safely (steady_acceptSign _) (recovers_acceptSign _) fun colon => ?_
  extract_lets rest rest'
  have hrest : ∀ u, Records base l l (rest u) (rest' u) := by
    refine fun _ => hblock.bind fun statements => ?_
    refine .safely steady_remaining recovers_remaining fun fuel => ?_
    exact (records_repeatedOtherwise hblock _ _ fuel).bind fun more => .pure _
  refine .ite (hrest ()) (.safely steady_current recovers_current fun t => ?_)
  exact .safely (steady_report _) (recovers_report _) hrest

end

variable (hblock : ∀ base l, Records base l l block recorded)

include hblock

theorem records_ifStatement (l : Level) :
    Records l l l (ifStatement block) (ifStatement recorded) := by
  refine .step steady_advance fun start => .step steady_remaining fun headerStart => ?_
  refine .step steady_ifHeader fun ⟨condition, failure⟩ => ?_
  refine .step (steady_recoverHeader _ _) fun _ => ?_
  refine (Records.opening _ start).bind fun _ => ?_
  refine (Records.within (hblock _ _)).bind fun thenBlock => ?_
  refine (records_otherwiseBranch (.within (hblock _ _)) _).bind fun otherwise => ?_
  refine (Records.closing _).bind fun closer => ?_
  cases condition with
  | none => exact .pure none
  | some condition => exact .finish start _

theorem records_forStatement (l : Level) :
    Records l l l (forStatement block) (forStatement recorded) := by
  refine .step steady_advance fun start => .step steady_remaining fun headerStart => ?_
  refine .step steady_forHeader fun ⟨header, failure⟩ => ?_
  refine .step (steady_recoverHeader _ _) fun _ => ?_
  refine (Records.opening _ start).bind fun _ => ?_
  refine (Records.within (hblock _ _)).bind fun body => ?_
  refine (Records.closing _).bind fun closer => ?_
  match header with
  | some (item, some iterable) => exact .finish start _
  | some (item, none) => exact .pure none
  | none => exact .pure none

/-- The statements that hold no block need no history. -/
theorem records_statement (l : Level) :
    Records l l l (statement block) (statement recorded) := by
  refine .step steady_current fun t => ?_
  have hexpression : Records l l l (some <$> expressionStatement)
      (some <$> liftM expressionStatement) := .map (.lift steady_expressionStatement)
  cases t.kind with
  | keyword word =>
      cases word with
      | let_ => exact .map (.lift steady_letStatement)
      | if_ => exact records_ifStatement hblock l
      | for_ => exact records_forStatement hblock l
      | call => exact .map (.lift steady_callStatement)
      | return_ => exact .map (.lift steady_returnStatement)
      | otherwise => exact .lift (steady_fail _)
      | _ => exact hexpression
  | _ => exact hexpression

theorem records_recoveringStatement (base l : Level) :
    Records base l l (recoveringStatement block) (recoveringStatement recorded) := by
  refine .safely steady_remaining recovers_remaining fun start => ?_
  refine (records_statement hblock l).attempt.bind fun r => ?_
  cases r with
  | ok s => exact .pure s
  | error d =>
      refine .safely (steady_report d) (recovers_report d) fun _ => ?_
      exact .safely (steady_synchronize _ _) (recovers_synchronize _ _) fun _ => .pure none

theorem records_statements (base l : Level) (fuel : Nat) :
    Records base l l (statements block fuel) (statements recorded fuel) := by
  induction fuel with
  | zero => exact .pure []
  | succ fuel ih =>
      refine .safely steady_current recovers_current fun t => ?_
      refine .safely steady_blockStep recovers_blockStep fun step => ?_
      cases step with
      | leave => exact .pure []
      | stray word =>
          exact .safely (steady_skipStrayCloser t word)
            (recovers_skipStrayCloser t word) fun _ => ih
      | statement =>
          refine .safely (steady_checkTime t) (recovers_checkTime t) fun _ => ?_
          refine (records_recoveringStatement hblock base l).bind fun s => ?_
          exact ih.bind fun rest => .pure _

end

theorem records_blockUpTo (depth : Nat) (base l : Level) :
    Records base l l (blockUpTo depth) (blockUpTo depth) := by
  induction depth generalizing base l with
  | zero => exact .pure []
  | succ depth ih =>
      exact .safely steady_remaining recovers_remaining fun fuel =>
        records_statements ih base l fuel

theorem records_block (base l : Level) : Records base l l block block :=
  .safely steady_remaining recovers_remaining fun depth => records_blockUpTo depth base l

/-! ### Declarations -/

section

variable (l : Level)

theorem records_functionDecl (define : Token) (purity : Purity) :
    Records l l l (functionDecl define purity) (functionDecl define purity) := by
  refine .step (steady_expectKeyword _ _ _) fun _ => .step steady_current fun nameToken => ?_
  refine .step steady_remaining fun headerStart => ?_
  refine .step steady_functionHeader fun ⟨header, failure⟩ => ?_
  refine .step (steady_recoverHeader _ _) fun _ => ?_
  refine (Records.opening _ define).bind fun _ => ?_
  refine (Records.within (records_block _ _)).bind fun body => ?_
  exact (Records.closing _).bind fun closer => .finish define _

theorem records_recordDecl (define : Token) :
    Records l l l (recordDecl define) (recordDecl define) := by
  refine .step (steady_expectKeyword _ _ _) fun _ =>
    .step (steady_expectIdentifier _ _) fun name => ?_
  refine .step (steady_expectSign _ _ _) fun _ => ?_
  refine (Records.opening _ define).bind fun _ => ?_
  refine .safely steady_remaining recovers_remaining fun fuel => ?_
  refine .safely (steady_recordFields _ _) (recovers_recordFields _ _) fun fields => ?_
  exact (Records.closing _).bind fun closer => .finish define _

theorem records_declaration : Records l l l declaration declaration := by
  refine .step (steady_expectKeyword _ _ _) fun define => ?_
  refine .step (steady_acceptKeyword _) fun effectful => .step steady_current fun t => ?_
  cases t.kind with
  | keyword word =>
      cases word with
      | function => exact .map (records_functionDecl l define _)
      | type => exact .ite (.lift (steady_fail _)) (.map (.lift (steady_typeDecl define)))
      | record => exact .ite (.lift (steady_fail _)) (.map (records_recordDecl l define))
      | _ => exact .ite (.lift (steady_fail _)) (.lift (steady_fail _))
  | _ => exact .ite (.lift (steady_fail _)) (.lift (steady_fail _))

theorem records_recoveringDeclaration (base : Level) :
    Records base l l recoveringDeclaration recoveringDeclaration := by
  refine .safely steady_remaining recovers_remaining fun start => ?_
  refine (records_declaration l).attempt.bind fun r => ?_
  cases r with
  | ok d => exact .pure (some d)
  | error d =>
      refine .safely (steady_report d) (recovers_report d) fun _ => ?_
      refine .safely (steady_synchronize _ _) (recovers_synchronize _ _) fun _ => ?_
      refine .safely steady_remaining recovers_remaining fun fuel => ?_
      exact .safely (steady_skipToDefine fuel) (recovers_skipToDefine fuel) fun _ => .pure none

theorem records_topLevel (base : Level) : Records base l l topLevel turn := by
  refine .safely steady_current recovers_current fun t => ?_
  refine .ite (records_recoveringDeclaration l base) ?_
  refine .safely (steady_report _) (recovers_report _) fun _ => ?_
  refine .safely steady_advance recovers_advance fun _ => ?_
  refine .safely steady_remaining recovers_remaining fun fuel => ?_
  exact .safely (steady_skipToDefine fuel) (recovers_skipToDefine fuel) fun _ => .pure none

/-- The whole of a reading, if no limit ends it: every turn of the top level closes what it
opens. -/
theorem declarations_bracketed (n : Nat) {l : Level} {s : State} (hstop : s.stop.isEof = true)
    (hlevel : s.level = l)
    (hlimit : ∀ d ∈ (declarations n s).2.found, d.code ≠ Diagnostic.resourceLimit) :
    (Recorded.declarations n s).2 = declarations n s ∧
      Bracketed l (Recorded.declarations n s).1 l ∧ (declarations n s).2.level = l := by
  induction n generalizing s with
  | zero => exact ⟨rfl, .nil l, hlevel⟩
  | succ n ih =>
      have hturn := records_topLevel l l
      have hsame : (turn : Recorded _) s = (((turn : Recorded _) s).1, topLevel s) :=
        Prod.ext rfl (congrFun hturn.erase s)
      unfold declarations at hlimit ⊢
      unfold Recorded.declarations
      split
      · exact ⟨rfl, .nil l, hlevel⟩
      · next hpending =>
          rw [if_neg hpending] at hlimit
          rw [hsame]
          cases htop : topLevel s with
          | done d t =>
              rw [htop] at hlimit
              have hstop' : t.stop.isEof = true := by rw [(hturn.moves.done htop).stop, hstop]
              obtain ⟨hfirst, hlevel'⟩ := hturn.done hstop hlevel htop
              obtain ⟨heq, hlater, hend⟩ := ih hstop' hlevel' hlimit
              exact ⟨congrArg (fun r => (d.toList ++ r.1, r.2)) heq, hfirst.append hlater, hend⟩
          | failed d t => exact (recovers_topLevel _ _ _ htop).elim
          | stopped e t =>
              rw [htop] at hlimit
              exact (hlimit _ List.mem_cons_self rfl).elim

end

end Parser

/-- What tokens are read from, if they are read at all. -/
theorem Program.read_run {tokens : List Token} {budget : Budget} {reading : Reading}
    (h : Program.read tokens budget = some reading) :
    ∃ stop ∈ tokens, stop.isEof = true ∧
      let start := Parser.State.start (tokens.takeWhile fun t => !t.isEof) stop budget
      reading = .of start (Parser.declarations start.left start) := by
  unfold Program.read at h
  cases hfind : tokens.find? Token.isEof with
  | none =>
      rw [hfind] at h
      cases h
  | some stop =>
      rw [hfind] at h
      dsimp only at h
      split at h
      · cases h
        exact ⟨stop, List.mem_of_find?_eq_some hfind, List.find?_some hfind, rfl⟩
      · cases h

/-- The discipline of blocks. Every rule returns or fails at the level at which it starts; and if no
limit is exceeded, the history of the reading is bracketed: what is opened is closed once, the
innermost construct first, and nothing is open at the end. -/
theorem Program.read_disciplined {tokens : List Token} {budget : Budget} {reading : Reading}
    (h : Program.read tokens budget = some reading)
    (hlimit : ∀ d ∈ reading.found, d.code ≠ Diagnostic.resourceLimit) :
    (∀ (α : Type) (p : Parser α), Parser.Rule p → Parser.Balanced p) ∧
      ∃ stop events ds s,
        let start := Parser.State.start (tokens.takeWhile fun t => !t.isEof) stop budget
        reading = .of start (ds, s) ∧ Parser.declarations start.left start = (ds, s) ∧
          Parser.Recorded.declarations start.left start = (events, ds, s) ∧
          Parser.Bracketed ⟨[], budget.depth⟩ events ⟨[], budget.depth⟩ ∧
          s.blocks = [] ∧ s.budget.depth = budget.depth := by
  refine ⟨fun α p hrule => hrule.steady.toBalanced, ?_⟩
  obtain ⟨stop, -, hstop, hreading⟩ := Program.read_run h
  let start := Parser.State.start (tokens.takeWhile fun t => !t.isEof) stop budget
  have hfound : ∀ d ∈ (Parser.declarations start.left start).2.found,
      d.code ≠ Diagnostic.resourceLimit := by
    intro d hd
    apply hlimit d
    rw [hreading]
    exact List.mem_reverse.mpr hd
  obtain ⟨hsame, hbracketed, hlevel⟩ :=
    Parser.declarations_bracketed start.left (l := ⟨[], budget.depth⟩) hstop rfl hfound
  injection hlevel with hblocks hdepth
  exact ⟨stop, _, _, _, hreading, rfl, Prod.ext rfl hsame, hbracketed, hblocks, hdepth⟩

/-- A closer of the condition closes the loop inside it first, and a new declaration closes the
function; the record lacks its last period. -/
theorem Program.read_disciplined_unclosed :
    let source := "Define function f:\nIf true then:\nFor each x in y:\nReturn x.\nEnd if.\n" ++
      "Define record r:\na as B.\nEnd record"
    ∃ tokens reading, Token.scan source = .ok tokens ∧
      Program.read tokens (.start .standard .still) = some reading ∧ reading.found.length = 3 ∧
      (∀ d ∈ reading.found, d.code ≠ Diagnostic.resourceLimit) ∧
      ∃ stop events ds s,
        let start := Parser.State.start (tokens.takeWhile fun t => !t.isEof) stop
          (.start .standard .still)
        Parser.Recorded.declarations start.left start = (events, ds, s) ∧
          Parser.Bracketed ⟨[], 0⟩ events ⟨[], 0⟩ := by
  intro source
  have hrun : ((Token.scan source).toOption.any fun tokens =>
      (Program.read tokens (.start .standard .still)).any fun r =>
        r.found.length == 3 && r.found.all fun d => d.code != Diagnostic.resourceLimit) = true := by
    decide +kernel
  obtain ⟨tokens, hscan, hread⟩ := any_toOption.mp hrun
  obtain ⟨reading, hreading, hfound⟩ := Option.any_eq_true _ _ |>.mp hread
  obtain ⟨hthree, hall⟩ := Bool.and_eq_true_iff.mp hfound
  have hlimit : ∀ d ∈ reading.found, d.code ≠ Diagnostic.resourceLimit := by
    intro d hd
    simpa using List.all_eq_true.mp hall d hd
  obtain ⟨-, stop, events, ds, s, -, -, hhistory, hbracketed, -, -⟩ :=
    Program.read_disciplined hreading hlimit
  exact ⟨tokens, reading, hscan, hreading, by simpa using hthree, hlimit, stop, events, ds, s,
    hhistory, hbracketed⟩

end Prosaic
