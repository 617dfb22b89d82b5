import Prosaic.Proofs.Grammar.Totality
import Prosaic.Proofs.Located.Declaration
import Prosaic.Proofs.Pairing.Rules
import Prosaic.Proofs.Program.Parts

/-!
Limits only cut a reading short. If the limits on nesting and nodes are raised, a reading that
exceeded none of them stays the same, and what a reading had found before it exceeded one is found
again, in the same order and with the same declarations before it.

The limit on nesting bounds the height of every expression, but not linearly. The operators of a
chain give their levels back at its end, so each rung of the ladder can use all of the levels that
are left, once for every level of parentheses, lists and arguments around it. With `n` levels inside
a function, an expression is at most `n * (5 * n - 1) / 2` nodes high, and a call that stands as a
statement one more.
-/

namespace Prosaic

/-! ### Reading declarations side by side -/

namespace Parser.Pairing

variable {c : Pairing} {l : Level}

/-- Two runs of the top level: they agree, or the first one exceeds a limit and the second one finds
what the first one has found before. If nothing is known of the budgets, either may be stopped. -/
inductive Meets (c : Pairing) (l : Level) : List Decl × State → List Decl × State → Prop
  | alike {ds : List Decl} {t t' : State} (ht : c.Twin l t t') : c.Meets l (ds, t) (ds, t')
  | stopped {e : Exceeded} {ds ds' : List Decl} {t t' : State} (new : List Diagnostic)
      (hfound : t.found = e.diagnostic .parse :: (new ++ c.older)) (hmore : new <:+ t'.found)
      (hplaced : ∀ d ∈ new, c.Places d) (hfirst : ds <+: ds') : c.Meets l (ds, t) (ds', t')
  | first {e : Exceeded} {r r' : List Decl × State} (hlax : c.lax)
      (he : e.diagnostic .parse ∈ r.2.found) : c.Meets l r r'
  | second {e : Exceeded} {r r' : List Decl × State} (hlax : c.lax)
      (he : e.diagnostic .parse ∈ r'.2.found) : c.Meets l r r'

theorem Meets.prepend {r r' : List Decl × State} (h : c.Meets l r r') (ds : List Decl) :
    c.Meets l (ds ++ r.1, r.2) (ds ++ r'.1, r'.2) := by
  cases h with
  | alike ht => exact .alike ht
  | stopped new hfound hmore hplaced hfirst =>
      exact .stopped new hfound hmore hplaced ((List.prefix_append_right_inj ds).mpr hfirst)
  | first hlax he => exact .first hlax he
  | second hlax he => exact .second hlax he

theorem reaches_declarations (n : Nat) (s : State) : s.Reaches (declarations n s).2 :=
  (@declarations_wellRead True n s).1

/-- A turn of the top level that agrees with another one goes on in the same way. -/
theorem meets_declarations (hbehind : c.behind = []) (n : Nat) {s s' : State}
    (h : c.Twin l s s') : c.Meets l (declarations n s) (declarations n s') := by
  induction n generalizing s s' with
  | zero => exact .alike h
  | succ n ih =>
      have hturn := (keeps_topLevel (H := True)).follows trivial h (hbehind ▸ List.nil_suffix)
      unfold declarations
      rw [h.current]
      split
      · exact .alike h
      · have hrecovers := recovers_topLevel s
        have hrecovers' := recovers_topLevel s'
        generalize topLevel s = o at hturn hrecovers ⊢
        generalize topLevel s' = o' at hturn hrecovers' ⊢
        cases hturn with
        | done hd ht => exact (ih ht).prepend _
        | failed hd ht => exact (hrecovers _ _ rfl).elim
        | stopped new hfound hmore hplaced =>
            refine .stopped new (by rw [hfound]) (hmore.trans ?_) hplaced List.nil_prefix
            cases o' with
            | done d t => exact (reaches_declarations n t).found
            | failed d t => exact (hrecovers' _ _ rfl).elim
            | stopped e t => exact List.suffix_cons _ _
        | first hlax => exact .first hlax List.mem_cons_self
        | second hlax => exact .second hlax List.mem_cons_self

end Parser.Pairing

/-! ### Programs -/

/-- What tokens come to when they are read: nothing if the last one does not mark the end, and else
a run over the tokens before the first one that does. -/
theorem Program.read_eq (tokens : List Token) :
    (∀ b, Program.read tokens b = none) ∨ ∃ init stop, ∀ b, Program.read tokens b =
      let start := Parser.State.start init stop b
      some (.of start (Parser.declarations start.left start)) := by
  unfold Program.read
  cases tokens.find? Token.isEof with
  | none => exact .inl fun _ => rfl
  | some stop =>
      by_cases hlast : tokens.getLast?.all Token.isEof = true
      · exact .inr ⟨_, stop, fun b => by simp only [hlast, if_true]; rfl⟩
      · exact .inl fun b => by simp [hlast]

namespace Reading

/-- A reading that exceeds no limit and is the same as another one. -/
structure Same (r r' : Reading) : Prop where
  unlimited : ∀ d ∈ r.found, d.code ≠ Diagnostic.resourceLimit
  program : r'.program = r.program
  found : r'.found = r.found

/-- A reading that a limit cuts short: the last thing that it finds, and nothing else, is that the
limit is exceeded, and up to there it is the beginning of another one. -/
structure CutShort (r r' : Reading) : Prop where
  found : ∃ before last, r.found = before ++ [last] ∧ last.code = Diagnostic.resourceLimit ∧
    (∀ d ∈ before, d.code ≠ Diagnostic.resourceLimit) ∧ before <+: r'.found
  declarations : r.program.declarations <+: r'.program.declarations

end Reading

namespace Parser.Pairing

/-- Some tokens, of which none is held back, with nothing found before and known budgets. -/
def whole (init : List Token) (stop : Token) : Pairing := ⟨init, [], stop, define_nil, [], False⟩

theorem Places.code_ne {c : Pairing} {d : Diagnostic} (h : c.Places d) :
    d.code ≠ Diagnostic.resourceLimit := by
  rw [h.code]
  decide

theorem twin_start (init : List Token) (stop : Token) {b b' : Budget} (h : b.Below b') :
    (whole init stop).Twin ⟨[], b.depth⟩ (.start init stop b) (.start init stop b') where
  rest := rfl
  inside := (List.append_nil init).symm ▸ List.suffix_rfl
  stop := rfl
  stop' := rfl
  last := rfl
  blocks := rfl
  blocks' := rfl
  depth := rfl
  found := rfl
  placed := nofun
  budget := .inr h

/-- What two runs that meet come to. -/
theorem Meets.reading {init : List Token} {stop : Token} {b b' : Budget}
    {run run' : List Decl × State} (h : (whole init stop).Meets l run run') :
    (Reading.of (.start init stop b) run).Same (.of (.start init stop b') run') ∨
      (Reading.of (.start init stop b) run).CutShort (.of (.start init stop b') run') := by
  cases h with
  | alike ht =>
      have hfound := ht.found.trans (List.append_nil _)
      refine .inl ⟨fun d hd => ?_, ?_, ?_⟩
      · rw [Reading.of, List.mem_reverse, hfound] at hd
        exact (ht.placed d hd).code_ne
      · simp only [Reading.of, ht.last]
        rfl
      · rw [Reading.of, Reading.of, hfound]
  | @stopped e ds ds' t t' new hfound hmore hplaced hfirst =>
      refine .inr ⟨⟨new.reverse, e.diagnostic .parse, ?_, rfl, fun d hd => ?_, ?_⟩, hfirst⟩
      · rw [Reading.of, hfound, List.reverse_cons]
        exact congrArg (·.reverse ++ _) (List.append_nil new)
      · exact (hplaced d (List.mem_reverse.mp hd)).code_ne
      · exact List.reverse_prefix.mpr hmore
  | first hlax => exact hlax.elim
  | second hlax => exact hlax.elim

end Parser.Pairing

/-- The same tokens are read within limits and within wider ones, without running out of time: the
reading is the same, or a limit cuts the first one short. -/
theorem Program.read_wider (tokens : List Token) {limits limits' : Limits} {clock clock' : Clock}
    (hlimits : limits.Within limits') (htimely : (Budget.start limits clock).Timely)
    (htimely' : (Budget.start limits' clock').Timely) :
    Option.Rel (fun r r' => r.Same r' ∨ r.CutShort r')
      (Program.read tokens (.start limits clock))
      (Program.read tokens (.start limits' clock')) := by
  have hwithin : (Budget.start limits clock).Within (.start limits' clock') :=
    ⟨hlimits, rfl, rfl, htimely, htimely'⟩
  rcases Program.read_eq tokens with hnone | ⟨init, stop, hsome⟩
  · rw [hnone, hnone]
    exact .none
  · rw [hsome, hsome]
    have htwin := Parser.Pairing.twin_start init stop (.inr hwithin)
    exact .some (Parser.Pairing.meets_declarations rfl _ htwin).reading

/-- A function that breaks off inside a condition that is nested too deep. -/
theorem Program.read_wider_brokenOff :
    let tokens := brokenOff ++ [⟨.eof, "", default⟩]
    let narrow : Limits := { Limits.standard with nestingDepth := 1 }
    narrow.Within .standard ∧ (Budget.start narrow .still).Timely ∧
      (Budget.start .standard .still).Timely ∧
      Option.Rel (fun r r' => r.Same r' ∨ r.CutShort r')
        (Program.read tokens (.start narrow .still))
        (Program.read tokens (.start .standard .still)) ∧
      (Program.read tokens (.start narrow .still)).any (fun r =>
        r.found.any fun d => d.code = Diagnostic.resourceLimit) = true := by
  intro tokens narrow
  have hwithin : narrow.Within .standard := ⟨by decide, by decide⟩
  have htimely : (Budget.start narrow .still).Timely := by decide +kernel
  have htimely' : (Budget.start .standard .still).Timely := by decide +kernel
  exact ⟨hwithin, htimely, htimely', Program.read_wider tokens hwithin htimely htimely',
    by decide +kernel⟩

/-! ### Height -/

/-- Every place, under some limit on nesting. -/
def Parser.Frame.anywhere (most : Int) : Frame := ⟨fun _ => True, fun _ _ => trivial, most⟩

/-- No expression of a program that is read under a limit on nesting is higher than what the levels
inside a function allow. -/
theorem Program.read_height_le {tokens : List Token} {limits : Limits} {clock : Clock}
    {reading : Reading} (h : Program.read tokens (.start limits clock) = some reading) :
    let n := (limits.nestingDepth - 1).toNat
    reading.program.Everywhere fun e => e.height ≤ n * (5 * n - 1) / 2 + 1 := by
  obtain ⟨hplaced, -⟩ :=
    Parser.Frame.read (c := .anywhere limits.nestingDepth) (fun _ _ => trivial) rfl rfl h
  intro n f hf
  have hbody := (hplaced _ (Program.mem_functions.mp hf)).body
  refine Stmt.everywhereIn_iff.mpr fun s hs => ?_
  refine (Stmt.allPlaced_iff.mp hbody s hs).everywhere fun e he => ?_
  exact Expr.everywhere_height_le he.height

/-- Lists within lists, each with a chain of every rung behind it that takes all levels that are
left: with five levels the call is 39 nodes high. -/
theorem Program.read_chainsInLists :
    let source :=
      "Define function f: Call g with [[[1 < 2].f * 1 + 1 < 1 and x or x].f.f * 1 * 1 + " ++
      "1 + 1 < 1 and x and x or x or x].f.f.f * 1 * 1 * 1 + 1 + 1 + 1 < 1 and x and x and x " ++
      "or x or x or x. End function."
    ∃ tokens reading f callee args note span, Token.scan source = .ok tokens ∧
      Program.read tokens (.start { Limits.standard with nestingDepth := 5 } .still) =
        some reading ∧
      reading.found = [] ∧ f ∈ reading.program.functions ∧ .call callee args note span ∈ f.body ∧
      (Expr.call callee args note).height = 39 := by
  intro source
  have hrun : ((Token.scan source).toOption.any fun tokens =>
      (Program.read tokens (.start { Limits.standard with nestingDepth := 5 } .still)).any fun r =>
        r.found.isEmpty && r.program.functions.any fun f => f.body.any fun
          | .call callee args note _ => (Expr.call callee args note).height == 39
          | _ => false) = true := by
    have hsource : source = .ofList _ :=
      Token.append_eq_ofList (Token.append_eq_ofList rfl rfl) rfl
    rw [hsource, Token.scan_ofList]
    decide +kernel
  obtain ⟨tokens, hscan, hread⟩ := any_toOption.mp hrun
  obtain ⟨reading, hreading, hfound⟩ := Option.any_eq_true _ _ |>.mp hread
  obtain ⟨hnone, hany⟩ := Bool.and_eq_true_iff.mp hfound
  obtain ⟨f, hf, hbody⟩ := List.any_eq_true.mp hany
  obtain ⟨s, hs, hheight⟩ := List.any_eq_true.mp hbody
  cases s with
  | call callee args note span =>
      exact ⟨tokens, reading, f, callee, args, note, span, hscan, hreading,
        List.isEmpty_iff.mp hnone, hf, hs, beq_iff_eq.mp hheight⟩
  | _ => cases hheight

/-- With five levels the bound is 39, and there is a program that attains it. -/
theorem Program.read_height_le_attained : ∃ tokens reading,
    Program.read tokens (.start { Limits.standard with nestingDepth := 5 } .still) = some reading ∧
      (reading.program.Everywhere fun e => e.height ≤ 39) ∧
      ¬reading.program.Everywhere fun e => e.height ≤ 38 := by
  obtain ⟨tokens, reading, f, callee, args, note, span, -, hread, -, hf, hs, hheight⟩ :=
    Program.read_chainsInLists
  refine ⟨tokens, reading, hread, Program.read_height_le hread, fun hall => ?_⟩
  have hcall := Expr.Everywhere.here (Stmt.everywhereIn_iff.mp (hall f hf) _ hs)
  rw [hheight] at hcall
  exact absurd hcall (by decide)

/-- Seven nodes for every level are not enough. -/
theorem Program.height_not_linear : ¬∀ (tokens : List Token) (most : Nat) (reading : Reading),
    1 ≤ most →
    Program.read tokens (.start { Limits.standard with nestingDepth := most } .still) =
      some reading →
    (∀ d ∈ reading.found, d.code ≠ Diagnostic.resourceLimit) →
    reading.program.Everywhere fun e => e.height ≤ 7 * most := by
  intro hall
  obtain ⟨tokens, reading, f, callee, args, note, span, -, hread, hfound, hf, hs, hheight⟩ :=
    Program.read_chainsInLists
  have heverywhere := hall tokens 5 reading (by decide) hread (by simp [hfound])
  have hcall := Expr.Everywhere.here (Stmt.everywhereIn_iff.mp (heverywhere f hf) _ hs)
  rw [hheight] at hcall
  exact absurd hcall (by decide)

end Prosaic
