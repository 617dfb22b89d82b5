import Prosaic.Proofs.Gating
import Prosaic.Proofs.Located.Declaration
import Prosaic.Proofs.Token.Layout
import Prosaic.Proofs.Typing.Check

/-!
Where the findings of a compilation are. Every phase reports places that come from the tokens of the
text: the reading the start of a token, the checks the start of a node, a name or a reference to a
type, each of which starts where a token does. Only a text that cannot be scanned has no tokens; the
finding about it is at the character where the scanner gives up.
-/

namespace Prosaic

/-- A finding is at a place of a text: where one of its tokens starts, the end of the text included,
or, if it cannot be scanned, where one of its characters stands. -/
inductive Diagnostic.Located (source : String) (d : Diagnostic) : Prop
  | token {tokens : List Token} {t : Token} (scan : Token.scan source = .ok tokens)
      (mem : t ∈ tokens) (location : d.location = t.span.start.location)
  | character {front back : List Char} {c : Char} (phase : d.phase = .lex)
      (split : source.toList = front ++ c :: back)
      (location : d.location = (Position.first.after front).location)

/-! ### Texts that cannot be scanned -/

theorem Token.ScanError.located {source : String} {e : ScanError} (h : scan source = .error e) :
    e.diagnostic.Located source := by
  obtain ⟨gone, c, back, hsplit, hstart⟩ := scanFrom_error [] h
  exact .character rfl hsplit (by rw [diagnostic, hstart, List.nil_append])

/-! ### The tokens of a text -/

/-- A place where one of some tokens starts. -/
def Token.Marks (tokens : List Token) (l : Location) : Prop :=
  ∃ t ∈ tokens, l = t.span.start.location

/-- Lines and columns are counted from one, so a place in a text is reported as it is. -/
theorem Position.reported_after (front : List Char) :
    (first.after front).location.reported = (first.after front).location := by
  have hline : (first.after front).line ≠ 0 := by
    rw [line_after]
    exact Nat.add_one_ne_zero _ ∘ (Nat.add_comm 1 _).symm.trans
  have hcolumn : (first.after front).column ≠ 0 := by
    rw [column_after]
    exact Nat.add_one_ne_zero _ ∘ (Nat.add_comm 1 _).symm.trans
  simp only [Location.reported, location, Int.natCast_eq_zero, hline, hcolumn, if_false]

section

variable {source : String} {tokens : List Token} (hscan : Token.scan source = .ok tokens)

include hscan

theorem Token.Marks.reported {l : Location} (h : Marks tokens l) : Marks tokens l.reported := by
  obtain ⟨t, ht, rfl⟩ := h
  obtain ⟨front, back, -, hstart, -⟩ := (scanFrom_lies (Nat.le_refl _) hscan).stands [] rfl t ht
  refine ⟨t, ht, ?_⟩
  rw [hstart, Position.reported_after]

/-- The places where the tokens of a text start, under a limit on nesting. -/
def Parser.Frame.ofTokens (most : Int) : Parser.Frame :=
  ⟨Token.Marks tokens, fun _ => Token.Marks.reported hscan, most⟩

end

/-! ### Phases -/

section

variable {source : String} {tokens : List Token} {registry : Registry} {r : Reading}

/-- A check reports places of the text if what it finds is at such places, and so is the limit that
it may exceed. -/
theorem Checked.found_marked {α : Type} {c : Checked α} {phase : Phase}
    {findings : α → List Diagnostic} (hscan : Token.scan source = .ok tokens)
    (hok : ∀ a, c.result = .ok a → Diagnostic.AllPlainAt phase (Token.Marks tokens) (findings a))
    (herror : ∀ e, c.result = .error e → Token.Marks tokens e.location) :
    ∀ d ∈ c.found phase findings, Token.Marks tokens d.location := by
  unfold found
  split
  · next e he => exact List.forall_mem_singleton.mpr ((herror e he).reported hscan)
  · next a ha => exact fun d hd => (hok a ha d hd).location

/-- Whatever a phase reports about a program that was read is where a token starts. -/
theorem Reading.report_marked {limits : Limits} {clock : Clock}
    (hscan : Token.scan source = .ok tokens)
    (h : Program.read tokens (.start limits clock) = some r) (phase : Phase) :
    ∀ d ∈ r.report registry phase, Token.Marks tokens d.location := by
  obtain ⟨hread, hfound⟩ := Parser.Frame.read (c := .ofTokens hscan limits.nestingDepth)
    (fun t ht => ⟨t, ht, rfl⟩) rfl rfl h
  have hplaced : r.program.Placed (Token.Marks tokens) (Expr.Placed (Token.Marks tokens)) :=
    hread.mono fun _ he => he.placed
  -- the type check leaves every part of the program where it is
  have htyped : (r.typed registry).program.Placed (Token.Marks tokens)
      (Expr.Placed (Token.Marks tokens)) :=
    (r.program.sameBare_checkTypes registry r.budget).placed Expr.placed_bare hplaced
  cases phase with
  | lex | emit => exact nofun
  | parse => exact hfound
  | types =>
      exact Checked.found_marked hscan (fun _ => Program.checkTypes_plainAt hplaced)
        fun _ h => (Program.checkTypes_marked hplaced h).2
  | effects =>
      exact Checked.found_marked hscan (fun _ => Program.checkPurity_plainAt htyped)
        fun _ h => (Program.checkPurity_marked htyped h).2

/-- What a phase reports about a text is at a place of the text, unless it outgrows the stack. -/
theorem Phase.report_located {outgrows : Phase → Bool} {limits : Limits} {clock : Clock}
    (phase : Phase) : ∀ d ∈ phase.report outgrows source registry (.start limits clock),
      d.Located source ∨ ∃ phase, outgrows phase = true ∧ d = .outgrown phase := by
  unfold report
  split
  · split
    · next e hscan => exact List.forall_mem_singleton.mpr (.inl (Token.ScanError.located hscan))
    · exact nofun
  · cases hreading : reading? source (.start limits clock) with
    | none => exact nofun
    | some r =>
        obtain ⟨tokens, htokens, hread⟩ := Option.bind_eq_some_iff.mp hreading
        have hscan : Token.scan source = .ok tokens := toOption_eq_some.mp htokens
        rw [Option.map_some, Option.getD_some, Reading.reportOn]
        split
        · next houtgrows => exact List.forall_mem_singleton.mpr (.inr ⟨phase, houtgrows, rfl⟩)
        · intro d hd
          obtain ⟨t, ht, hlocation⟩ := Reading.report_marked hscan hread phase d hd
          exact .inl (.token hscan ht hlocation)

end

/-! ### Compilations -/

/-- Whatever a compilation finds is at a place of its text. Where phases outgrow the stack, this
alone is reported without a place of its own. -/
theorem compile_located (source : String) (registry : Registry) (target : Target) (limits : Limits)
    (clock : Clock) :
    (∀ found, compile source registry target (.start limits clock) = .ok (.rejected found) →
      ∀ d ∈ found, d.Located source) ∧
    ∀ outgrows found,
      compileOn outgrows source registry target (.start limits clock) = .ok (.rejected found) →
        ∀ d ∈ found, d.Located source ∨ ∃ phase, outgrows phase = true ∧ d = .outgrown phase := by
  have hlocated : ∀ outgrows found,
      compileOn outgrows source registry target (.start limits clock) = .ok (.rejected found) →
        ∀ d ∈ found, d.Located source ∨ ∃ phase, outgrows phase = true ∧ d = .outgrown phase := by
    intro outgrows found h d hd
    obtain ⟨phase, -, -, rfl⟩ := compileOn_rejected h
    exact phase.report_located d ((Findings.subperm_sorted _).subset hd)
  refine ⟨fun found h d hd => ?_, hlocated⟩
  rw [← compileOn_never] at h
  exact (hlocated _ found h d hd).resolve_right fun ⟨_, houtgrows, _⟩ => nomatch houtgrows

/-- A string that is not closed, and a function that is not: one is reported at a character, the
other one where the text ends. -/
theorem compile_located_unclosed :
    let budget := Budget.start .standard .still
    (∃ found, compile "Define \"" .empty .standard budget = .ok (.rejected found) ∧
      found.map (·.location) = [⟨1, 8⟩] ∧ ∀ d ∈ found, d.Located "Define \"") ∧
    ∃ found, compile "Define function f:\n" .empty .standard budget = .ok (.rejected found) ∧
      found.map (·.location) = [⟨2, 1⟩] ∧ ∀ d ∈ found, d.Located "Define function f:\n" := by
  intro budget
  have hlocated : ∀ source place,
      ((compile source .empty .standard budget).toOption.any fun o =>
        !o.isEmitted && o.found.map (·.location) == [place]) = true →
      ∃ found, compile source .empty .standard budget = .ok (.rejected found) ∧
        found.map (·.location) = [place] ∧ ∀ d ∈ found, d.Located source := by
    intro source place hrun
    obtain ⟨o, ho, hplaces⟩ := any_toOption.mp hrun
    cases o with
    | emitted text => cases hplaces
    | rejected found =>
        exact ⟨found, ho, beq_iff_eq.mp hplaces,
          (compile_located source .empty .standard .standard .still).1 found ho⟩
  exact ⟨hlocated _ _ (by decide +kernel), hlocated _ _ (by decide +kernel)⟩

end Prosaic
