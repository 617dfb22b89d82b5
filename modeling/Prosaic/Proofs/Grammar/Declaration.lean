import Mathlib.Data.List.Nodup
import Prosaic.Grammar.Declaration
import Prosaic.Proofs.Grammar.Statement

/-!
The declarations of a program that is read without findings are well formed. No syntax failure gets
out of a declaration, and every text that can be scanned can be read. A failure inside a block or a
list of fields is recovered from there, so between the opening of a construct and its closer a
reading only ends early if a limit is exceeded.
-/

namespace Prosaic

/-- What the reading of a declaration promises: it is well formed if nothing is reported, and its
statements are in any case. -/
structure Decl.WellRead (quiet : Prop) (d : Decl) : Prop where
  formed : quiet → d.WellFormed
  body : ∀ f ∈ d.function?, ∀ s ∈ f.body, s.WellFormed

theorem Decl.WellRead.readable {quiet : Prop} {d : Decl} (h : d.WellRead quiet) (hquiet : quiet) :
    d.isReadable = true := (h.formed hquiet).readable

theorem Decl.WellRead.fresh {quiet : Prop} {d : Decl} (h : d.WellRead quiet) :
    ∀ f ∈ d.function?, ∀ s ∈ f.body, s.AllFresh := fun f hf s hs => (h.body f hf s hs).fresh

namespace Parser

variable {quiet : Prop}

/-! ### Types -/

theorem reads_typeRefUpTo (fuel : Nat) : Reads quiet (typeRefUpTo fuel) TypeRef.WellFormed := by
  induction fuel with
  | zero => exact (reads_expectIdentifier _ _).bind fun t => .pure id
  | succ fuel ih =>
      refine (reads_expectIdentifier _ _).bind fun t => ?_
      refine .ite (fun _ => ?_) fun _ => .pure id
      refine (reads_acceptKeyword _).step fun _ => .ite (fun _ => ?_) fun _ => .pure id
      exact (ih.nested t).bind fun _ => (reads_spanFrom t).step fun _ => .pure fun he _ => he

theorem reads_typeRef : Reads quiet typeRef TypeRef.WellFormed :=
  reads_remaining.step reads_typeRefUpTo

/-! ### Functions -/

theorem reads_parameter : Reads quiet parameter Typed.WellFormed := by
  refine (reads_expectIdentifier _ _).bind fun name => (reads_expectKeyword _ _ _).step fun _ => ?_
  exact reads_typeRef.bind fun _ => (reads_spanFrom name).step fun _ => .pure fun hty hname =>
    ⟨hname, hty⟩

theorem reads_parameters (fuel : Nat) :
    Reads quiet (parameters fuel) fun ps => ∀ p ∈ ps.1, p.WellFormed := by
  induction fuel with
  | zero => exact .pure (by simp)
  | succ fuel ih =>
      refine reads_parameter.attempt.bind fun r => ?_
      cases r with
      | error d => exact .pure (by simp)
      | ok p =>
          refine (reads_acceptSign _).step fun _ => .ite (fun _ => ?_) fun _ => ?_
          · exact ih.bind fun ps => .pure fun hps hp => List.forall_mem_cons.mpr ⟨hp p rfl, hps⟩
          · exact .pure fun hp => by simpa using hp p rfl

theorem reads_returnClause : Reads quiet returnClause fun o => ∀ r ∈ o, r.WellFormed := by
  refine (reads_acceptKeyword _).step fun _ => .ite (fun _ => ?_) fun _ => .pure (by simp)
  exact .map (reads_typeRef.mono fun r hr => by simpa using hr)

theorem reads_headerEnd (name : String) : Reads quiet (headerEnd name) fun _ => True := by
  refine reads_current.step fun t => .ite (fun _ => reads_fail _) fun _ => ?_
  exact (reads_expectSign _ _ _).step fun _ => .pure trivial

structure Header.WellFormed (h : Header) : Prop where
  name : IsName h.name
  parameters : ∀ p ∈ h.parameters, p.WellFormed
  returns : ∀ r ∈ h.returns, r.WellFormed

structure Header.Named (h : Header) : Prop where
  name : IsName h.name ∨ h.name = unreadableName
  parameters : ∀ p ∈ h.parameters, IsName p.name

/-- What is read of a header has names, and one without a failure is well formed. -/
theorem reads_functionHeader :
    Reads quiet functionHeader fun h => h.1.Named ∧ (h.2 = none → h.1.WellFormed) := by
  refine (reads_expectIdentifier _ _).attempt.bind fun r => ?_
  cases r with
  | error d => exact .pure fun _ => ⟨⟨.inr rfl, List.forall_mem_nil _⟩, nofun⟩
  | ok name =>
      refine reads_remaining.step fun fuel => (reads_acceptKeyword _).step fun _ => ?_
      extract_lets rest
      have hrest : ∀ x, Reads quiet (rest x) fun h => (∀ p ∈ x.1, p.WellFormed) →
          (∀ t, Except.ok (ε := Diagnostic) name = .ok t → IsName t.lexeme) →
            h.1.Named ∧ (h.2 = none → h.1.WellFormed) := by
        rintro ⟨ps, failure⟩
        have hnamed : ∀ returns, (∀ p ∈ ps, p.WellFormed) →
            (∀ t, Except.ok (ε := Diagnostic) name = .ok t → IsName t.lexeme) →
              Header.Named ⟨name.lexeme, ps, returns⟩ := fun _ hps hname =>
          ⟨.inl (hname name rfl), fun p hp => (hps p hp).name⟩
        cases failure with
        | some d => exact .pure fun hps hname => ⟨hnamed none hps hname, nofun⟩
        | none =>
            refine reads_returnClause.attempt.bind fun returns => ?_
            cases returns with
            | error d => exact .pure fun _ hps hname => ⟨hnamed none hps hname, nofun⟩
            | ok returns =>
                refine (reads_headerEnd _).attempt.step fun done => ?_
                cases done with
                | error d => exact .pure fun _ hps hname => ⟨hnamed returns hps hname, nofun⟩
                | ok u =>
                    refine .pure fun hreturns hps hname => ⟨hnamed returns hps hname, fun _ => ?_⟩
                    exact ⟨hname name rfl, hps, hreturns returns rfl⟩
      refine .ite (fun _ => (reads_parameters _).bind hrest) fun _ => ?_
      exact Reads.bind (Reads.pure (Q := fun x => ∀ p ∈ x.1, p.WellFormed) (by simp)) hrest

theorem reads_functionDecl (define : Token) (purity : Purity) :
    Reads quiet (functionDecl define purity) fun f =>
      f.Named ∧ (quiet → f.WellFormed) ∧ ∀ s ∈ f.body, s.WellFormed := by
  refine (reads_expectKeyword _ _ _).step fun _ => reads_current.step fun nameToken => ?_
  refine reads_remaining.step fun headerStart => reads_functionHeader.bind fun header => ?_
  refine (reads_recoverHeader _ _).bind fun _ => (reads_openBlock _ _).step fun _ => ?_
  refine reads_block.bind fun body => (reads_closeBlock _).step fun closer => ?_
  refine (reads_spanFrom define).step fun _ => (reads_countNode define).step fun _ => ?_
  refine .pure fun hbody hfailure hheader =>
    ⟨⟨hheader.1.name, hheader.1.parameters⟩, fun hquiet => ?_, hbody⟩
  have hformed := hheader.2 (hfailure hquiet)
  exact ⟨hformed.name, hformed.parameters, hformed.returns, hbody, rfl⟩

/-! ### Types and records -/

theorem reads_literalsRest (name : String) (fuel : Nat) :
    Reads quiet (literalsRest name fuel) fun _ => True := by
  induction fuel with
  | zero => exact .pure trivial
  | succ fuel ih =>
      refine (reads_acceptKeyword _).step fun _ => .ite (fun _ => ?_) fun _ => .pure trivial
      refine reads_current.step fun t => ?_
      split
      · exact reads_advance.step fun _ => ih.step fun _ => .pure trivial
      · exact reads_fail _

/-- Values of which none is repeated are distinct. -/
theorem nodup_of_repeated {values : List String} (h : (repeated values).isEmpty = true) :
    values.Nodup := by
  rw [List.nodup_iff_count_le_one]
  intro v
  by_contra hv
  have hmem : v ∈ values.filter fun v => 1 < values.count v := by
    rw [List.mem_filter]
    exact ⟨List.count_pos_iff.mp (by omega), by simpa using Nat.lt_of_not_le hv⟩
  have hrepeated : v ∈ repeated values := by
    rw [repeated, List.mem_mergeSort]
    exact List.mem_eraseDups.mpr hmem
  rw [List.isEmpty_iff] at h
  rw [h] at hrepeated
  cases hrepeated

theorem reads_typeDecl (define : Token) :
    Reads quiet (typeDecl define) fun t => IsName t.name ∧ (quiet → t.WellFormed) := by
  refine (reads_expectKeyword _ _ _).step fun _ => (reads_expectIdentifier _ _).bind fun name => ?_
  extract_lets text context rest
  refine (reads_expectKeyword _ _ _).step fun _ => reads_current.step fun t => ?_
  have hrest : ∀ body, Reads quiet (rest body) fun d =>
      (quiet → body.WellFormed) → IsName name.lexeme →
        IsName d.name ∧ (quiet → d.WellFormed) := fun body =>
    (reads_expectTerminator _).step fun _ => (reads_spanFrom define).step fun _ =>
      (reads_countNode define).step fun _ =>
        .pure fun hbody hname => ⟨hname, fun hquiet => ⟨hname, hbody hquiet⟩⟩
  split
  · refine reads_advance.step fun _ => reads_remaining.step fun fuel => ?_
    refine (reads_literalsRest _ fuel).step fun values => ?_
    extract_lets values twice body
    have hbody : ∀ u, Reads quiet (body u) fun d =>
        (quiet → (TypeBody.literals values).WellFormed) → IsName name.lexeme →
          IsName d.name ∧ (quiet → d.WellFormed) := fun _ =>
      (Reads.pure (Q := fun b => b = TypeBody.literals values) rfl).bind fun b =>
        (hrest b).mono fun d hd hb => hb ▸ hd
    refine .ite (fun hdistinct => ?_) fun _ => ?_
    · have hvalues : (TypeBody.literals values).WellFormed :=
        ⟨List.cons_ne_nil _ _, nodup_of_repeated hdistinct⟩
      exact (hbody ()).mono fun d hd => hd fun _ => hvalues
    · refine (reads_report _).bind fun u => (hbody u).mono fun d hd hloud => ?_
      exact hd fun hquiet => absurd hquiet hloud
  · refine Reads.bind (Reads.map (R := TypeBody.WellFormed) reads_typeRef) fun body => ?_
    exact (hrest body).mono fun d hd hbody => hd fun _ => hbody

theorem reads_recordField (record : String) :
    Reads quiet (recordField record) Typed.WellFormed := by
  refine (reads_expectIdentifier _ _).bind fun field => (reads_expectKeyword _ _ _).step fun _ => ?_
  refine reads_typeRef.bind fun _ => (reads_expectTerminator _).step fun _ => ?_
  exact (reads_spanFrom field).step fun _ => .pure fun hty hname => ⟨hname, hty⟩

theorem reads_recordFields (record : String) (fuel : Nat) :
    Reads quiet (recordFields record fuel) fun fs => ∀ f ∈ fs, f.WellFormed := by
  induction fuel with
  | zero => exact .pure (by simp)
  | succ fuel ih =>
      refine reads_current.step fun t => ?_
      split
      · exact .pure (by simp)
      · exact .pure (by simp)
      · exact .pure (by simp)
      · refine reads_remaining.step fun start => (reads_recordField record).attempt.bind fun r => ?_
        cases r with
        | ok f =>
            exact ih.bind fun fs => .pure fun hfs hf => List.forall_mem_cons.mpr ⟨hf f rfl, hfs⟩
        | error d =>
            refine (reads_report d).step fun _ => (reads_synchronize _ _).step fun _ => ?_
            exact ih.mono fun _ hfs _ => hfs

theorem reads_recordDecl (define : Token) :
    Reads quiet (recordDecl define) RecordDecl.WellFormed := by
  refine (reads_expectKeyword _ _ _).step fun _ => (reads_expectIdentifier _ _).bind fun name => ?_
  refine (reads_expectSign _ _ _).step fun _ => (reads_openBlock _ _).step fun _ => ?_
  refine reads_remaining.step fun fuel => (reads_recordFields _ fuel).bind fun fields => ?_
  refine (reads_closeBlock _).step fun _ => (reads_spanFrom define).step fun _ => ?_
  exact (reads_countNode define).step fun _ => .pure fun hfields hname => ⟨hname, hfields⟩

/-! ### Declarations -/

/-- What is read of a declaration has names, and promises what it does. -/
theorem reads_declaration :
    Reads quiet declaration fun d => d.Named ∧ d.WellRead quiet := by
  refine (reads_expectKeyword _ _ _).step fun define => ?_
  refine (reads_acceptKeyword _).step fun effectful => reads_current.step fun t => ?_
  split
  · refine .map ((reads_functionDecl _ _).mono fun f ⟨hnamed, hformed, hbody⟩ =>
      ⟨hnamed, hformed, ?_⟩)
    rintro f' hf'
    obtain rfl := Option.some.inj hf'
    exact hbody
  · refine .ite (fun _ => reads_fail _) fun _ => ?_
    split
    · exact .map ((reads_typeDecl _).mono fun t ht => ⟨ht.1, ht.2, nofun⟩)
    · exact .map ((reads_recordDecl _).mono fun r hr => ⟨hr.name, fun _ => hr, nofun⟩)
    · exact reads_fail _

theorem reads_skipToDefine (fuel : Nat) : Reads quiet (skipToDefine fuel) fun _ => True := by
  induction fuel with
  | zero => exact .pure trivial
  | succ fuel ih =>
      refine reads_current.step fun t => .ite (fun _ => .pure trivial) fun _ => ?_
      exact reads_advance.step fun _ => ih

theorem reads_recoveringDeclaration :
    Reads quiet recoveringDeclaration fun o => ∀ d ∈ o, d.Named ∧ d.WellRead quiet := by
  refine reads_remaining.step fun start => reads_declaration.attempt.bind fun r => ?_
  cases r with
  | ok d => exact .pure fun hd e he => Option.some.inj he ▸ hd d rfl
  | error d =>
      refine (reads_report d).step fun _ => (reads_synchronize _ _).step fun _ => ?_
      refine reads_remaining.step fun fuel => (reads_skipToDefine fuel).step fun _ => ?_
      exact .pure (by simp)

theorem reads_topLevel :
    Reads quiet topLevel fun o => ∀ d ∈ o, d.Named ∧ d.WellRead quiet := by
  refine reads_current.step fun t => .ite (fun _ => reads_recoveringDeclaration) fun _ => ?_
  refine (reads_report _).step fun _ => reads_advance.step fun _ => ?_
  refine reads_remaining.step fun fuel => (reads_skipToDefine fuel).step fun _ => ?_
  exact .pure (by simp)

/-- Reading declarations to the end goes on from where it starts, and the declarations have names
and are well read. -/
theorem reads_declarations (fuel : Nat) (s : State) :
    s.Reaches (declarations fuel s).2 ∧
      (s.Proper → (quiet → (declarations fuel s).2.found = s.found) →
        ∀ d ∈ (declarations fuel s).1, d.Named ∧ d.WellRead quiet) := by
  induction fuel generalizing s with
  | zero => exact ⟨.refl s, by simp [declarations]⟩
  | succ fuel ih =>
      have htop : (topLevel s).From quiet s fun o => ∀ d ∈ o, d.Named ∧ d.WellRead quiet :=
        reads_topLevel s
      unfold declarations
      by_cases heof : s.current.isEof = true
      · rw [if_pos heof]
        exact ⟨.refl s, by simp⟩
      · rw [if_neg heof]
        cases hps : topLevel s with
        | done d s₁ =>
            rw [hps] at htop
            obtain ⟨hreach, hd⟩ := htop
            obtain ⟨hmore, hds⟩ := ih s₁
            refine ⟨hreach.trans hmore, fun hs hfound => ?_⟩
            have hboth := fun hquiet => hreach.found_eq hmore (hfound hquiet)
            have hrest := hds (hreach.proper hs) fun hquiet => (hboth hquiet).2
            refine List.forall_mem_append.mpr ⟨fun e he => ?_, hrest⟩
            exact hd hs (fun hquiet => (hboth hquiet).1) e (Option.mem_toList.mp he)
        | failed d s₁ =>
            rw [hps] at htop
            have hreported : s.Reaches { s₁ with found := d :: s₁.found } :=
              ⟨htop.rest, htop.stop, htop.found.trans (List.suffix_cons d s₁.found)⟩
            obtain ⟨hmore, hds⟩ := ih { s₁ with found := d :: s₁.found }
            refine ⟨hreported.trans hmore, fun hs hfound =>
              hds (hreported.proper hs) fun hquiet => ?_⟩
            obtain ⟨hfirst, -⟩ := hreported.found_eq hmore (hfound hquiet)
            -- something was reported, against the assumption that nothing is
            have := htop.found.length_le
            have := congrArg List.length hfirst
            simp only [List.length_cons] at this
            omega
        | stopped e s₁ =>
            rw [hps] at htop
            exact ⟨⟨htop.rest, htop.stop, htop.found.trans (List.suffix_cons _ s₁.found)⟩, by simp⟩

theorem declarations_wellRead (fuel : Nat) (s : State) :
    s.Reaches (declarations fuel s).2 ∧
      (s.Proper → (quiet → (declarations fuel s).2.found = s.found) →
        ∀ d ∈ (declarations fuel s).1, d.WellRead quiet) :=
  (reads_declarations fuel s).imp_right fun h hs hfound d hd => (h hs hfound d hd).2

/-! ### Failures -/

/-- A parser that never ends with a syntax failure. -/
def Recovers {α : Type} (p : Parser α) : Prop := ∀ s d s', p s ≠ .failed d s'

theorem Recovers.pure {α : Type} (a : α) : Recovers (Pure.pure a) := fun _ _ _ h => by cases h

theorem Recovers.bind {α β : Type} {p : Parser α} {f : α → Parser β} (hp : Recovers p)
    (hf : ∀ a, Recovers (f a)) : Recovers (p >>= f) := by
  intro s d s' h
  simp only [Bind.bind] at h
  cases hps : p s with
  | done a s₁ =>
      rw [hps] at h
      exact hf a s₁ d s' h
  | failed d' s₁ => exact hp s d' s₁ hps
  | stopped e s₁ =>
      rw [hps] at h
      cases h

theorem Recovers.ite {α : Type} {c : Prop} [Decidable c] {p q : Parser α} (hp : Recovers p)
    (hq : Recovers q) : Recovers (if c then p else q) := by
  split
  · exact hp
  · exact hq

theorem recovers_attempt {α : Type} (p : Parser α) : Recovers (attempt p) := by
  intro s d s' h
  unfold attempt at h
  split at h <;> cases h

theorem recovers_current : Recovers current := fun _ _ _ h => by cases h

theorem recovers_remaining : Recovers remaining := fun _ _ _ h => by cases h

theorem recovers_advance : Recovers advance := fun _ _ _ h => by cases h

theorem recovers_report (d : Diagnostic) : Recovers (report d) := fun _ _ _ h => by cases h

theorem recovers_skipToBoundary (colonToo : Bool) (fuel : Nat) :
    Recovers (skipToBoundary colonToo fuel) := by
  induction fuel with
  | zero => exact .pure false
  | succ fuel ih =>
      refine recovers_current.bind fun t => ?_
      split
      · exact .pure false
      · exact recovers_advance.bind fun _ => .pure false
      · exact recovers_advance.bind fun _ => .ite (.pure true) ih
      · exact .ite (.pure false) (recovers_advance.bind fun _ => ih)
      · exact recovers_advance.bind fun _ => ih

theorem recovers_synchronize (start : Nat) (colonToo : Bool) :
    Recovers (synchronize start colonToo) := by
  refine recovers_remaining.bind fun here => ?_
  have hrest : Recovers (remaining >>= skipToBoundary colonToo) :=
    recovers_remaining.bind fun fuel => recovers_skipToBoundary colonToo fuel
  exact .ite (recovers_advance.bind fun _ => hrest) hrest

theorem recovers_skipToDefine (fuel : Nat) : Recovers (skipToDefine fuel) := by
  induction fuel with
  | zero => exact .pure PUnit.unit
  | succ fuel ih =>
      refine recovers_current.bind fun t => .ite (.pure PUnit.unit) ?_
      exact recovers_advance.bind fun _ => ih

/-- No syntax failure gets out of what stands at the top level. -/
theorem recovers_topLevel : Recovers topLevel := by
  have hskip : Recovers (do skipToDefine (← remaining); return (none : Option Decl)) :=
    recovers_remaining.bind fun fuel => (recovers_skipToDefine fuel).bind fun _ => .pure none
  refine recovers_current.bind fun t => .ite ?_ ?_
  · refine recovers_remaining.bind fun start => (recovers_attempt _).bind fun r => ?_
    cases r with
    | ok d => exact .pure (some d)
    | error d =>
        exact (recovers_report d).bind fun _ => (recovers_synchronize _ _).bind fun _ => hskip
  · exact (recovers_report _).bind fun _ => recovers_advance.bind fun _ => hskip

end Parser

/-! ### Programs -/

/-- What reading all declarations from a state comes to. -/
def Reading.of (start : Parser.State) (run : List Decl × Parser.State) : Reading :=
  let first := start.current.span
  ⟨⟨run.1, ⟨first.start, run.2.last.getD first.stop⟩⟩, run.2.found.reverse, run.2.budget⟩

/-- Tokens of which the last one, and no other, marks the end are read from the first one on. -/
theorem Program.read_append {init : List Token} {stop : Token}
    (hinit : ∀ t ∈ init, t.isEof = false) (hstop : stop.isEof = true) (budget : Budget) :
    Program.read (init ++ [stop]) budget =
      let start := Parser.State.start init stop budget
      some (.of start (Parser.declarations start.left start)) := by
  have hnone : init.find? Token.isEof = none := by
    rw [List.find?_eq_none]
    intro t ht
    simp [hinit t ht]
  have hfind : (init ++ [stop]).find? Token.isEof = some stop := by
    rw [List.find?_append, hnone, Option.none_or, List.find?_singleton, if_pos hstop]
  have htake : (init ++ [stop]).takeWhile (fun t => !t.isEof) = init := by
    rw [List.takeWhile_append_of_pos fun t ht => by simp [hinit t ht]]
    simp [hstop]
  simp [Program.read, hfind, htake, hstop, Reading.of]

theorem Program.exists_read {source : String} {tokens : List Token}
    (h : Token.scan source = .ok tokens) (budget : Budget) :
    ∃ r, Program.read tokens budget = some r ∧
      ∀ d ∈ r.program.declarations, d.Named ∧ d.WellRead (r.found = []) := by
  obtain ⟨init, stop, rfl, hstop, hlast, hinit⟩ := Token.scan_spec h
  let start := Parser.State.start init stop budget
  have hstart : start.Proper := ⟨hlast, fun t ht => (hinit t ht).2⟩
  obtain ⟨-, hread⟩ := Parser.reads_declarations start.left start
  refine ⟨_, Program.read_append (fun t ht => ?_) (by simp [Token.isEof, hstop]) budget, ?_⟩
  · simpa [Token.isEof] using (hinit t ht).1
  · exact hread hstart fun hfound => List.reverse_eq_nil_iff.mp hfound

/-- The tokens of a text can be read, and all declarations are well read. -/
theorem Program.read_scanned {source : String} {tokens : List Token}
    (h : Token.scan source = .ok tokens) (budget : Budget) :
    ∃ r, Program.read tokens budget = some r ∧
      ∀ d ∈ r.program.declarations, d.WellRead (r.found = []) := by
  obtain ⟨r, hr, hread⟩ := Program.exists_read h budget
  exact ⟨r, hr, fun d hd => (hread d hd).2⟩

namespace Parser

/-! ### Steps that do not fail -/

theorem recovers_second : Recovers second := fun _ _ _ h => by cases h

theorem recovers_openBlocks : Recovers openBlocks := fun _ _ _ h => by cases h

theorem recovers_atKeyword (word : Keyword) : Recovers (atKeyword word) := fun _ _ _ h => by cases h

theorem recovers_acceptSign (sign : Sign) : Recovers (acceptSign sign) := by
  intro s d s' h
  unfold acceptSign at h
  split at h <;> cases h

theorem recovers_acceptTerminator : Recovers acceptTerminator := by
  intro s d s' h
  unfold acceptTerminator at h
  split at h <;> cases h

theorem recovers_spend (use : Budget → Option Exceeded × Budget) : Recovers (spend use) := by
  intro s d s' h
  unfold spend at h
  split at h <;> cases h

theorem recovers_checkTime (t : Token) : Recovers (checkTime t) :=
  recovers_spend _

/-! ### Closers -/

theorem recovers_skipStrayCloser (endToken word : Token) :
    Recovers (skipStrayCloser endToken word) := by
  refine recovers_openBlocks.bind fun blocks => (recovers_report _).bind fun _ => ?_
  refine recovers_advance.bind fun _ => recovers_advance.bind fun _ => ?_
  exact recovers_acceptTerminator.bind fun _ => .pure PUnit.unit

theorem recovers_closer (b : Block) : Recovers (closer b) := by
  refine recovers_current.bind fun t => recovers_second.bind fun word => ?_
  split
  · split
    · refine .ite ?_ ((recovers_report _).bind fun _ => .pure none)
      refine recovers_advance.bind fun _ => recovers_advance.bind fun _ => ?_
      refine recovers_acceptTerminator.bind fun closed => .ite (.pure (some _)) ?_
      exact recovers_current.bind fun _ => (recovers_report _).bind fun _ => .pure (some _)
    · refine (recovers_report _).bind fun _ => recovers_advance.bind fun _ => ?_
      exact recovers_acceptTerminator.bind fun _ => .pure none
  · exact (recovers_report _).bind fun _ => .pure none

/-! ### Blocks -/

theorem recovers_recoveringStatement (block : Parser (List Stmt)) :
    Recovers (recoveringStatement block) := by
  refine recovers_remaining.bind fun start => (recovers_attempt _).bind fun r => ?_
  cases r with
  | ok s => exact .pure s
  | error d =>
      exact (recovers_report d).bind fun _ => (recovers_synchronize _ _).bind fun _ => .pure none

theorem recovers_blockStep : Recovers blockStep := by
  refine recovers_current.bind fun t => recovers_second.bind fun word => ?_
  refine recovers_openBlocks.bind fun blocks => ?_
  split
  · exact .pure _
  · exact .pure _
  · exact .pure _
  · split
    · exact .pure _
    · exact .pure _
  · exact .pure _

theorem recovers_statements (block : Parser (List Stmt)) (fuel : Nat) :
    Recovers (statements block fuel) := by
  induction fuel with
  | zero => exact .pure []
  | succ fuel ih =>
      refine recovers_current.bind fun t => recovers_blockStep.bind fun step => ?_
      cases step with
      | leave => exact .pure []
      | stray word => exact (recovers_skipStrayCloser t word).bind fun _ => ih
      | statement =>
          refine (recovers_checkTime t).bind fun _ => (recovers_recoveringStatement block).bind ?_
          exact fun s => ih.bind fun rest => .pure _

theorem recovers_blockUpTo (depth : Nat) : Recovers (blockUpTo depth) := by
  cases depth with
  | zero => exact .pure []
  | succ depth => exact recovers_remaining.bind fun fuel => recovers_statements _ fuel

theorem recovers_block : Recovers block := recovers_remaining.bind recovers_blockUpTo

section

variable {block : Parser (List Stmt)} (hblock : Recovers block)

include hblock

theorem recovers_repeatedOtherwise (ifLine otherwiseLine fuel : Nat) :
    Recovers (repeatedOtherwise block ifLine otherwiseLine fuel) := by
  induction fuel with
  | zero => exact .pure []
  | succ fuel ih =>
      refine (recovers_atKeyword _).bind fun more => .ite ?_ (.pure [])
      refine recovers_current.bind fun t => (recovers_report _).bind fun _ => ?_
      refine recovers_advance.bind fun _ => (recovers_acceptSign _).bind fun _ => ?_
      exact hblock.bind fun statements => ih.bind fun more => .pure _

theorem recovers_otherwiseBranch (ifLine : Nat) :
    Recovers (otherwiseBranch block ifLine) := by
  have hrest : ∀ start : Token, Recovers do
      let statements ← block
      let more ← repeatedOtherwise block ifLine start.span.start.line (← remaining)
      return some (statements ++ more) := fun start =>
    hblock.bind fun statements => recovers_remaining.bind fun fuel =>
      (recovers_repeatedOtherwise hblock _ _ fuel).bind fun more => .pure _
  refine (recovers_atKeyword _).bind fun more => .ite ?_ (.pure none)
  refine recovers_advance.bind fun start => (recovers_acceptSign _).bind fun colon => ?_
  refine .ite (hrest start) ?_
  exact recovers_current.bind fun _ => (recovers_report _).bind fun _ => hrest start

end

/-! ### Fields -/

theorem recovers_recordFields (record : String) (fuel : Nat) :
    Recovers (recordFields record fuel) := by
  induction fuel with
  | zero => exact .pure []
  | succ fuel ih =>
      refine recovers_current.bind fun t => ?_
      split
      · exact .pure []
      · exact .pure []
      · exact .pure []
      · refine recovers_remaining.bind fun start => (recovers_attempt _).bind fun r => ?_
        cases r with
        | ok f => exact ih.bind fun fs => .pure _
        | error d =>
            exact (recovers_report d).bind fun _ => (recovers_synchronize _ _).bind fun _ => ih

end Parser

end Prosaic
