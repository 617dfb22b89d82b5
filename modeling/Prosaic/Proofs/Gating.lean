import Prosaic.Proofs.Compilation
import Prosaic.Proofs.Except
import Prosaic.Proofs.Limits
import Prosaic.Proofs.Purity.Findings
import Prosaic.Proofs.Typing.Findings

/-!
Gating. A compilation that fails returns the findings of a single phase, the first one that reports
anything. They are in order and no two of them say the same. At most one is about a limit, and a
check that exceeds a limit reports nothing else.

A phase may also outgrow the stack of the machine that it runs on, whatever the limits allow. It
then reports this alone. It is the only thing that the emission can report, so that without it no
compilation fails in the last phase.
-/

namespace Prosaic

open Diagnostic

/-! ### What the phases report -/

/-- The finding of a phase that outgrows the stack. -/
def Diagnostic.outgrown (phase : Phase) : Diagnostic :=
  ⟨resourceLimit, "Program nests too deeply to compile", ⟨1, 1⟩,
    some (Limit.hint "max_nesting_depth"), phase⟩

/-- The limit that a check exceeds. -/
def Checked.exceeded? {α : Type} (c : Checked α) : Option Exceeded :=
  match c.result with
  | .error e => some e
  | .ok _ => none

namespace Reading

/-- What a phase reports about a program that was read. -/
def report (r : Reading) (registry : Registry) : Phase → List Diagnostic
  | .lex => []
  | .parse => r.found
  | .types => (r.typed registry).found .types id
  | .effects => (r.labelled registry).found .effects PurityReport.found
  | .emit => []

/-- What a phase reports about a program that was read, unless it outgrows the stack. -/
def reportOn (outgrows : Phase → Bool) (r : Reading) (registry : Registry) (phase : Phase) :
    List Diagnostic :=
  if outgrows phase then [outgrown phase] else r.report registry phase

/-- The limit that a check exceeds in a program that was read. -/
def exceeded? (r : Reading) (registry : Registry) : Phase → Option Exceeded
  | .types => (r.typed registry).exceeded?
  | .effects => (r.labelled registry).exceeded?
  | _ => none

end Reading

/-- What a text is read as, if it can be scanned. -/
def reading? (source : String) (budget : Budget) : Option Reading :=
  (Token.scan source).toOption.bind fun tokens => Program.read tokens budget

/-- What a phase reports about a text on its own: about what comes out of the phases before, if
anything does. -/
def Phase.report (outgrows : Phase → Bool) (source : String) (registry : Registry)
    (budget : Budget) : Phase → List Diagnostic
  | .lex =>
    match Token.scan source with
    | .error e => [e.diagnostic]
    | .ok _ => []
  | phase => ((reading? source budget).map fun r => r.reportOn outgrows registry phase).getD []

/-- Compiles a text where some phases outgrow the stack. -/
def compileOn (outgrows : Phase → Bool) (source : String) (registry : Registry) (target : Target)
    (budget : Budget) : Except TypeScript.Defect Outcome :=
  match Token.scan source with
  | .error e => .ok (.ofFound [e.diagnostic])
  | .ok tokens =>
    match Program.read tokens budget with
    | none => .ok (.rejected [])
    | some r =>
      unlessFound (r.reportOn outgrows registry .parse) <|
      unlessFound (r.reportOn outgrows registry .types) <|
      unlessFound (r.reportOn outgrows registry .effects) <|
      unlessFound (r.reportOn outgrows registry .emit) <|
      return .emitted (← (r.labelled registry).program.emit registry target)

/-- A large enough stack makes no difference. -/
theorem compileOn_never (source : String) (registry : Registry) (target : Target)
    (budget : Budget) :
    compileOn (fun _ => false) source registry target budget =
      compile source registry target budget := rfl

/-! ### Findings of one phase -/

/-- Findings of a single phase, of which the last one may be about a limit. In a check this is the
only one. -/
inductive OfPhase (phase : Phase) : List Diagnostic → Prop
  | plain {ds : List Diagnostic} (h : AllPlain phase ds) : OfPhase phase ds
  | limited {ds : List Diagnostic} {d : Diagnostic} (h : AllPlain phase ds)
      (hphase : d.phase = phase) (hcode : d.code = resourceLimit)
      (halone : phase = .types ∨ phase = .effects → ds = []) : OfPhase phase (ds ++ [d])

/-- Findings as a compilation returns them. -/
structure Reported (phase : Phase) (found : List Diagnostic) : Prop where
  nonempty : found ≠ []
  phase_eq : ∀ d ∈ found, d.phase = phase
  ordered : found.Pairwise fun a b => a.key ≤ b.key
  differs : found.Pairwise Differs
  limit : found.countP (fun d => d.code = resourceLimit) ≤ 1
  /-- A finding about a limit is the only one of a check. -/
  alone : phase = .types ∨ phase = .effects → ∀ d ∈ found, d.code = resourceLimit → found = [d]
  /-- The document has an entry for each finding, in the same order. -/
  document : (Outcome.rejected found).document =
    .table [("diagnostics", .array (found.map Diagnostic.document))]

section

variable {phase : Phase} {ds : List Diagnostic}

theorem countP_limit_of_plain (h : AllPlain phase ds) :
    ds.countP (fun d => d.code = resourceLimit) = 0 := by
  rw [List.countP_eq_zero]
  intro d hd
  simpa using (h d hd).code

namespace OfPhase

/-- A single finding about a limit. -/
theorem single {d : Diagnostic} (hphase : d.phase = phase) (hcode : d.code = resourceLimit) :
    OfPhase phase [d] :=
  limited allPlain_nil hphase hcode fun _ => rfl

theorem phase_eq (h : OfPhase phase ds) {d : Diagnostic} (hd : d ∈ ds) : d.phase = phase := by
  cases h with
  | plain h => exact (h d hd).phase
  | limited h hphase hcode halone =>
      rw [List.mem_append, List.mem_singleton] at hd
      rcases hd with hd | rfl
      · exact (h d hd).phase
      · exact hphase

theorem countP_le (h : OfPhase phase ds) :
    ds.countP (fun d => d.code = resourceLimit) ≤ 1 := by
  cases h with
  | plain h => simp [countP_limit_of_plain h]
  | limited h hphase hcode halone => simp [countP_limit_of_plain h, hcode]

/-- In a check a finding about a limit is the only one. -/
theorem eq_singleton (h : OfPhase phase ds) (hcheck : phase = .types ∨ phase = .effects)
    {d : Diagnostic} (hd : d ∈ ds) (hcode : d.code = resourceLimit) : ds = [d] := by
  cases h with
  | plain h => exact ((h d hd).code hcode).elim
  | limited h hphase _ halone =>
      rw [halone hcheck, List.nil_append] at hd ⊢
      rw [List.mem_singleton.mp hd]

/-- How the findings of a phase are returned. -/
theorem reported (h : OfPhase phase ds) (hne : ds ≠ []) :
    Reported phase (Findings.ofList ds).sorted := by
  have hsub := Findings.subperm_sorted ds
  have hordered := (Findings.ofList ds).sorted_ordered
  have hdiffers := (Findings.ofList ds).sorted_differs (Findings.differs_extend .nil)
  refine ⟨Findings.sorted_ofList_ne_nil hne, ?_, hordered, hdiffers, ?_, ?_, ?_⟩
  · exact fun d hd => h.phase_eq (hsub.subset hd)
  · exact (hsub.countP_le _).trans h.countP_le
  · intro hcheck d hd hcode
    rw [h.eq_singleton hcheck (hsub.subset hd) hcode]
    exact Findings.sorted_ofList (List.pairwise_singleton _ d) (List.pairwise_singleton _ d)
  · rw [Outcome.document, Findings.document, Findings.sorted_ofList hordered hdiffers]

end OfPhase

end

/-! ### The phases one by one -/

theorem Token.ScanError.plain (e : Token.ScanError) : e.diagnostic.Plain .lex where
  phase := rfl
  code := (by decide : syntaxError ≠ resourceLimit)

namespace Parser.Pairing

theorem Places.plain {c : Pairing} {d : Diagnostic} (h : c.Places d) : d.Plain .parse :=
  ⟨h.phase, h.code_ne⟩

/-- A run finds syntax errors, and at the end possibly that it exceeds a limit. -/
theorem Meets.ofPhase {init : List Token} {stop : Token} {l : Level} {run run' : List Decl × State}
    (h : (whole init stop).Meets l run run') : OfPhase .parse run.2.found.reverse := by
  cases h with
  | alike ht =>
      have hfound := ht.found.trans (List.append_nil _)
      refine .plain fun d hd => (ht.placed d ?_).plain
      rwa [← hfound, ← List.mem_reverse]
  | stopped new hfound hmore hplaced hfirst =>
      have hnew : AllPlain .parse new.reverse :=
        fun d hd => (hplaced d (List.mem_reverse.mp hd)).plain
      rw [hfound, List.reverse_cons]
      refine .limited ?_ rfl rfl nofun
      exact (List.append_nil new).symm ▸ hnew
  | first hlax => exact hlax.elim
  | second hlax => exact hlax.elim

end Parser.Pairing

theorem Program.read_ofPhase {tokens : List Token} {budget : Budget} {r : Reading}
    (h : Program.read tokens budget = some r) : OfPhase .parse r.found := by
  rcases Program.read_eq tokens with hnone | ⟨init, stop, hsome⟩
  · rw [hnone] at h
    cases h
  · rw [hsome] at h
    cases h
    -- a run beside itself agrees with itself, or exceeds a limit
    have htwin := Parser.Pairing.twin_start init stop (b := budget) (.inl rfl)
    exact (Parser.Pairing.meets_declarations rfl _ htwin).ofPhase

/-- What a check finds is its own, or it exceeds a limit. -/
theorem Checked.found_ofPhase {α : Type} {c : Checked α} {phase : Phase}
    {findings : α → List Diagnostic}
    (h : ∀ a, c.result = .ok a → AllPlain phase (findings a)) :
    OfPhase phase (c.found phase findings) := by
  unfold found
  split
  · exact .single rfl rfl
  · next a ha => exact .plain (h a ha)

theorem Checked.found_of_exceeded {α : Type} {c : Checked α} {e : Exceeded}
    (h : c.exceeded? = some e) (phase : Phase) (findings : α → List Diagnostic) :
    c.found phase findings = [e.diagnostic phase] := by
  unfold exceeded? at h
  unfold found
  cases hresult : c.result with
  | ok a => simp [hresult] at h
  | error e' =>
      rw [hresult] at h
      cases h
      rfl

namespace Reading

variable {r : Reading} {outgrows : Phase → Bool} {registry : Registry}

theorem reportOn_of_exceeded {phase : Phase} {e : Exceeded} (hstack : outgrows phase = false)
    (h : r.exceeded? registry phase = some e) :
    r.reportOn outgrows registry phase = [e.diagnostic phase] := by
  rw [reportOn, hstack, if_neg Bool.false_ne_true]
  cases phase with
  | types => exact Checked.found_of_exceeded h _ _
  | effects => exact Checked.found_of_exceeded h _ _
  | _ => cases h

theorem reportOn_ofPhase {tokens : List Token} {budget : Budget}
    (h : Program.read tokens budget = some r) (phase : Phase) :
    OfPhase phase (r.reportOn outgrows registry phase) := by
  unfold reportOn
  split
  · exact .single rfl rfl
  · cases phase with
    | lex | emit => exact .plain allPlain_nil
    | parse => exact Program.read_ofPhase h
    | types => exact Checked.found_ofPhase fun _ => Program.checkTypes_plain
    | effects => exact Checked.found_ofPhase fun _ => Program.checkPurity_plain

end Reading

/-! ### Compilations -/

/-- No phase before this one reports anything on its own. -/
def Phase.Silent (outgrows : Phase → Bool) (source : String) (registry : Registry)
    (budget : Budget) (phase : Phase) : Prop :=
  ∀ earlier : Phase, earlier.rank < phase.rank →
    earlier.report outgrows source registry budget = []

/-- A compilation that fails in a phase, with what it returns. -/
structure Gated (outgrows : Phase → Bool) (source : String) (registry : Registry)
    (budget : Budget) (phase : Phase) (found : List Diagnostic) : Prop where
  /-- What is returned is what the phase reports. -/
  report : found = (Findings.ofList (phase.report outgrows source registry budget)).sorted
  silent : phase.Silent outgrows source registry budget
  reported : Reported phase found
  /-- A check that exceeds a limit reports that alone. -/
  exceeded : ∀ r e, reading? source budget = some r → outgrows phase = false →
    r.exceeded? registry phase = some e → found = [e.diagnostic phase]

/-- A compilation fails in a phase only if that finds something, and else goes on. -/
theorem unlessFound_eq_rejected {ds found : List Diagnostic}
    {next : Except TypeScript.Defect Outcome} (h : unlessFound ds next = .ok (.rejected found)) :
    ds ≠ [] ∧ found = (Findings.ofList ds).sorted ∨ ds = [] ∧ next = .ok (.rejected found) := by
  unfold unlessFound at h
  split at h
  · next hnone => exact .inr ⟨List.isEmpty_iff.mp hnone, h⟩
  · next hsome =>
      cases h
      exact .inl ⟨fun hnil => hsome (List.isEmpty_iff.mpr hnil), rfl⟩

section

variable {outgrows : Phase → Bool} {source : String} {registry : Registry} {budget : Budget}
  {found : List Diagnostic}

namespace Phase

theorem rank_injective : Function.Injective Phase.rank := by
  intro a b h
  cases a <;> cases b <;> first | rfl | cases h

/-- If a phase and all before it report nothing, nothing is reported before the next one. -/
theorem Silent.next {phase next : Phase} (h : phase.Silent outgrows source registry budget)
    (hphase : phase.report outgrows source registry budget = [])
    (hnext : next.rank = phase.rank + 1) : next.Silent outgrows source registry budget := by
  intro earlier hrank
  rw [hnext, Nat.lt_succ_iff_lt_or_eq] at hrank
  rcases hrank with hlt | heq
  · exact h earlier hlt
  · exact rank_injective heq ▸ hphase

theorem report_of_error {e : Token.ScanError} (h : Token.scan source = .error e) :
    Phase.lex.report outgrows source registry budget = [e.diagnostic] := by
  simp only [report, h]

theorem report_of_ok {tokens : List Token} (h : Token.scan source = .ok tokens) :
    Phase.lex.report outgrows source registry budget = [] := by
  simp only [report, h]

theorem report_of_reading {phase : Phase} {r : Reading} (h : reading? source budget = some r)
    (hphase : phase ≠ .lex) :
    phase.report outgrows source registry budget = r.reportOn outgrows registry phase := by
  unfold report
  split
  · exact (hphase rfl).elim
  · rw [h]
    rfl

theorem report_ofPhase (phase : Phase) :
    OfPhase phase (phase.report outgrows source registry budget) := by
  unfold report
  split
  · split
    · next e _ => exact .plain (allPlain_singleton.mpr e.plain)
    · exact .plain allPlain_nil
  · cases hreading : reading? source budget with
    | none => exact .plain allPlain_nil
    | some r =>
        obtain ⟨tokens, -, hread⟩ := Option.bind_eq_some_iff.mp hreading
        exact r.reportOn_ofPhase hread _

end Phase

/-- A compilation that fails returns what the first phase reports that reports anything. -/
theorem compileOn_rejected {target : Target}
    (h : compileOn outgrows source registry target budget = .ok (.rejected found)) :
    ∃ phase : Phase, phase.report outgrows source registry budget ≠ [] ∧
      phase.Silent outgrows source registry budget ∧
      found = (Findings.ofList (phase.report outgrows source registry budget)).sorted := by
  unfold compileOn at h
  have hsilent : Phase.lex.Silent outgrows source registry budget :=
    fun _ hrank => absurd hrank (Nat.not_lt_zero _)
  cases hscan : Token.scan source with
  | error e =>
      rw [hscan] at h
      cases h
      have hlex : Phase.lex.report outgrows source registry budget = [e.diagnostic] :=
        Phase.report_of_error hscan
      refine ⟨.lex, ?_, hsilent, ?_⟩
      · rw [hlex]
        exact List.cons_ne_nil _ _
      · rw [hlex]
  | ok tokens =>
      obtain ⟨r, hread, -⟩ := Program.read_scanned hscan budget
      have hreading : reading? source budget = some r := by
        rw [reading?, hscan]
        exact hread
      simp only [hscan, hread, ← Phase.report_of_reading hreading (by decide : Phase.parse ≠ .lex),
        ← Phase.report_of_reading hreading (by decide : Phase.types ≠ .lex),
        ← Phase.report_of_reading hreading (by decide : Phase.effects ≠ .lex),
        ← Phase.report_of_reading hreading (by decide : Phase.emit ≠ .lex)] at h
      have hparse : Phase.parse.Silent outgrows source registry budget :=
        hsilent.next (Phase.report_of_ok hscan) rfl
      obtain ⟨hne, hfound⟩ | ⟨hnone, h⟩ := unlessFound_eq_rejected h
      · exact ⟨.parse, hne, hparse, hfound⟩
      have htypes : Phase.types.Silent outgrows source registry budget := hparse.next hnone rfl
      obtain ⟨hne, hfound⟩ | ⟨hnone, h⟩ := unlessFound_eq_rejected h
      · exact ⟨.types, hne, htypes, hfound⟩
      have heffects : Phase.effects.Silent outgrows source registry budget := htypes.next hnone rfl
      obtain ⟨hne, hfound⟩ | ⟨hnone, h⟩ := unlessFound_eq_rejected h
      · exact ⟨.effects, hne, heffects, hfound⟩
      have hemit : Phase.emit.Silent outgrows source registry budget := heffects.next hnone rfl
      obtain ⟨hne, hfound⟩ | ⟨-, h⟩ := unlessFound_eq_rejected h
      · exact ⟨.emit, hne, hemit, hfound⟩
      -- behind all phases there is a module
      obtain ⟨text, -, h⟩ := bind_eq_ok.mp h
      cases h

theorem compileOn_gated {target : Target}
    (h : compileOn outgrows source registry target budget = .ok (.rejected found)) :
    ∃ phase, Gated outgrows source registry budget phase found := by
  obtain ⟨phase, hne, hsilent, rfl⟩ := compileOn_rejected h
  refine ⟨phase, rfl, hsilent, (Phase.report_ofPhase phase).reported hne, ?_⟩
  intro r e hreading hstack hexceeded
  have hphase : phase ≠ .lex := by
    rintro rfl
    cases hexceeded
  rw [Phase.report_of_reading hreading hphase, Reading.reportOn_of_exceeded hstack hexceeded]
  exact Findings.sorted_ofList (List.pairwise_singleton _ _) (List.pairwise_singleton _ _)

end

/-- A compilation that fails returns the findings of one phase, and no phase before it would find
anything. This stays so where phases outgrow the stack. -/
theorem compile_gated (source : String) (registry : Registry) (target : Target) (budget : Budget) :
    (∀ found, compile source registry target budget = .ok (.rejected found) →
      ∃ phase, Gated (fun _ => false) source registry budget phase found) ∧
    ∀ outgrows found, compileOn outgrows source registry target budget = .ok (.rejected found) →
      ∃ phase, Gated outgrows source registry budget phase found := by
  refine ⟨fun found h => ?_, fun outgrows found h => compileOn_gated h⟩
  rw [← compileOn_never] at h
  exact compileOn_gated h

/-- The second finding of the check comes first in the text; and an empty text can fail only in the
emission. -/
theorem compile_gated_greet :
    let source := "Define function greet returning Number:\nReturn \"Hi\".\nEnd function.\n" ++
      "Define function greet:\nReturn.\nEnd function.\n"
    let budget := Budget.start .standard .still
    let outgrows (phase : Phase) : Bool := phase = .emit
    (∃ found phase, compile source .empty .standard budget = .ok (.rejected found) ∧
      Gated (fun _ => false) source .empty budget phase found) ∧
    ∃ found phase, compileOn outgrows "" .empty .standard budget = .ok (.rejected found) ∧
      Gated outgrows "" .empty budget phase found := by
  intro source budget outgrows
  have hrun : ((Token.scan source).toOption.any fun tokens =>
      (Program.read tokens budget).any fun r =>
        r.found.isEmpty && !((r.typed .empty).found .types id).isEmpty) = true := by
    decide +kernel
  obtain ⟨tokens, hscan, hread⟩ := any_toOption.mp hrun
  obtain ⟨r, hreading, hfound⟩ := Option.any_eq_true _ _ |>.mp hread
  obtain ⟨hclean, htyped⟩ := Bool.and_eq_true_iff.mp hfound
  have htypes : compile source .empty .standard budget =
      .ok (.ofFound ((r.typed .empty).found .types id)) := by
    simp only [compile, hscan, hreading]
    rw [unlessFound, if_pos hclean, Program.compile, unlessFound, if_neg]
    · rfl
    · exact Bool.eq_false_iff.mp ((Bool.not_eq_true' _).mp htyped)
  have hemit : compileOn outgrows "" .empty .standard budget = .ok (.ofFound [.outgrown .emit]) :=
    rfl
  obtain ⟨phase, hphase⟩ := (compile_gated source .empty .standard budget).1 _ htypes
  obtain ⟨phase', hphase'⟩ := (compile_gated "" .empty .standard budget).2 outgrows _ hemit
  exact ⟨⟨_, phase, htypes, hphase⟩, _, phase', hemit, hphase'⟩

end Prosaic
