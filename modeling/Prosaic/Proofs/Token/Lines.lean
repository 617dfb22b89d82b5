import Mathlib.Data.List.Induction
import Prosaic.Proofs.Except
import Prosaic.Proofs.Token.Piece

/-!
Lines and columns. The position behind a stretch of text is told by the characters of that stretch:
the line by its line feeds, the column by what follows the last of them. A text that starts on a
line of its own has the same columns as if it stood alone.

Scanning line by line. Where a text ends, a line may end instead: what follows the line end is
scanned as if it stood alone, and only its positions are further down. Nothing that the scanner
looks back at reaches over a line end, and nothing it looks ahead at does, so long as the text
before is a whole one.
-/

namespace Prosaic

namespace Position

theorem after_concat (p : Position) (cs : List Char) (c : Char) :
    p.after (cs ++ [c]) = (p.after cs).next c := by
  rw [after_append, after_cons, after_nil]

/-- Every line feed starts a line. -/
theorem line_after (p : Position) (cs : List Char) :
    (p.after cs).line = p.line + cs.count '\n' := by
  induction cs generalizing p with
  | nil => rfl
  | cons c cs ih =>
      rw [after_cons, ih, List.count_cons]
      by_cases hc : c = '\n'
      · subst hc
        simp [next]
        omega
      · simp [next, hc]

/-- Columns are counted from the last line feed on. -/
theorem column_after (cs : List Char) :
    (first.after cs).column = 1 + (cs.reverse.takeWhile (· != '\n')).length := by
  induction cs using List.reverseRecOn with
  | nil => rfl
  | append_singleton cs c ih =>
      rw [after_concat, List.reverse_append]
      by_cases hc : c = '\n'
      · simp [next, hc]
      · simp [next, hc, ih]
        omega

/-- A position in a text: as many line feeds stand before it as its line says, and as many other
characters between the last of them and the position as its column says, both counted from one. -/
structure Marks (cs : List Char) (p : Position) : Prop where
  inside : p.offset ≤ cs.length
  line : p.line = 1 + (cs.take p.offset).count '\n'
  column : p.column = 1 + ((cs.take p.offset).reverse.takeWhile (· != '\n')).length

/-- The position behind the first part of a text. -/
theorem marks_after (front back : List Char) : Marks (front ++ back) (first.after front) := by
  have hoffset : (first.after front).offset = front.length := by
    rw [offset_after]
    exact Nat.zero_add _
  have hbefore : (front ++ back).take (first.after front).offset = front := by
    rw [hoffset, List.take_left]
  constructor
  · rw [hoffset, List.length_append]
    exact Nat.le_add_right _ _
  · rw [hbefore, line_after]
    rfl
  · rw [hbefore, column_after]

/-! ### Further down -/

/-- The same column so many lines further down, behind so many more characters. -/
def down (p : Position) (lines chars : Nat) : Position :=
  ⟨p.line + lines, p.column, p.offset + chars⟩

theorem next_down (p : Position) (lines chars : Nat) (c : Char) :
    (p.down lines chars).next c = (p.next c).down lines chars := by
  unfold next down
  split <;> simp <;> omega

theorem after_down (p : Position) (lines chars : Nat) (cs : List Char) :
    (p.down lines chars).after cs = (p.after cs).down lines chars := by
  induction cs generalizing p with
  | nil => rfl
  | cons c cs ih => rw [after_cons, after_cons, next_down, ih]

/-- A text behind a line end starts further down. -/
theorem after_line (cs : List Char) :
    first.after (cs ++ ['\n']) = first.down (cs.count '\n' + 1) (cs.length + 1) := by
  rw [after_concat, next, if_pos rfl, line_after, offset_after]
  simp only [down, first, mk.injEq]
  refine ⟨?_, trivial, ?_⟩ <;> omega

end Position

/-- A stretch of text so many lines further down. -/
def Span.down (s : Span) (lines chars : Nat) : Span :=
  ⟨s.start.down lines chars, s.stop.down lines chars⟩

end Prosaic

namespace Prosaic.Token

/-- The same token so many lines further down, behind so many more characters. -/
def down (t : Token) (lines chars : Nat) : Token :=
  { t with span := t.span.down lines chars }

/-- The same fault so many lines further down. -/
def ScanError.down (e : ScanError) (lines chars : Nat) : ScanError :=
  { e with start := e.start.down lines chars }

theorem ScanError.diagnostic_down (e : ScanError) (lines chars : Nat) :
    (e.down lines chars).diagnostic =
      { e.diagnostic with location.line := e.diagnostic.location.line + lines } := rfl

/-- The tokens, or the fault, so many lines further down. -/
def allDown (lines chars : Nat) : Except ScanError (List Token) → Except ScanError (List Token)
  | .ok tokens => .ok (tokens.map (·.down lines chars))
  | .error e => .error (e.down lines chars)

theorem Piece.tokens_down (p : Piece) (start : Position) (lines chars : Nat) :
    p.tokens (start.down lines chars) = (p.tokens start).map (·.down lines chars) := by
  cases hkind : p.kind with
  | none => rw [p.tokens_none hkind, p.tokens_none hkind, List.map_nil]
  | some kind =>
      rw [p.tokens_some hkind, p.tokens_some hkind, Position.after_down]
      rfl

theorem allDown_map_append (lines chars : Nat) (own : List Token)
    (scanned : Except ScanError (List Token)) :
    (allDown lines chars scanned).map (own.map (·.down lines chars) ++ ·) =
      allDown lines chars (scanned.map (own ++ ·)) := by
  cases scanned with
  | error e => rfl
  | ok tokens => simp [allDown, Except.map]

/-- The tokens of a text depend on where it starts by their positions only. -/
theorem scanFrom_down (fuel : Nat) (before : Option Char) (start : Position) (cs : List Char)
    (lines chars : Nat) :
    scanFrom fuel before (start.down lines chars) cs =
      allDown lines chars (scanFrom fuel before start cs) := by
  induction fuel generalizing before start cs with
  | zero => rfl
  | succ fuel ih =>
      cases cs with
      | nil => rfl
      | cons c rest =>
          rw [scanFrom_cons, scanFrom_cons]
          cases piece before c rest with
          | error cause => rfl
          | ok p =>
              dsimp only
              rw [Position.after_down, ih, p.tokens_down, allDown_map_append]

/-- A text at the start of a line is scanned like one at the start of everything. -/
theorem scanFrom_first (fuel : Nat) (start : Position) (cs : List Char) :
    scanFrom fuel (some '\n') start cs = scanFrom fuel none start cs := by
  cases fuel with
  | zero => rfl
  | succ fuel =>
      cases cs with
      | nil => rfl
      | cons c rest => rw [scanFrom_cons, scanFrom_cons, piece_first]

/-- No more steps are needed than there are characters. -/
theorem scanFrom_fuel {n m : Nat} {cs : List Char} (hn : cs.length ≤ n) (hm : cs.length ≤ m)
    (before : Option Char) (start : Position) :
    scanFrom n before start cs = scanFrom m before start cs := by
  induction n generalizing m before start cs with
  | zero =>
      obtain rfl : cs = [] := List.length_eq_zero_iff.mp (Nat.le_zero.mp hn)
      cases m <;> rfl
  | succ n ih =>
      cases cs with
      | nil => cases m <;> rfl
      | cons c rest =>
          cases m with
          | zero => cases hm
          | succ m =>
              cases hpiece : piece before c rest with
              | error cause => rw [scanFrom_cons, scanFrom_cons, hpiece]
              | ok p =>
                  obtain ⟨behind, hsplit, hshorter⟩ := piece_split hpiece
                  rw [scanFrom_piece hpiece hsplit, scanFrom_piece hpiece hsplit,
                    ih (Nat.le_trans hshorter (Nat.le_of_succ_le_succ hn))
                      (Nat.le_trans hshorter (Nat.le_of_succ_le_succ hm))]

/-- A line end is passed over. -/
theorem scanFrom_newline (fuel : Nat) (before : Option Char) (start : Position)
    (tail : List Char) :
    scanFrom (fuel + (tail.length + 1)) before start ('\n' :: tail) =
      scanFrom tail.length none (start.after ['\n']) tail := by
  have hpiece : piece before '\n' tail = .ok ⟨['\n'], none⟩ := rfl
  have hsplit : ['\n'] ++ tail = '\n' :: tail := rfl
  rw [← Nat.add_assoc, scanFrom_piece hpiece hsplit, List.getLast?_singleton,
    scanFrom_first, scanFrom_fuel (Nat.le_add_left _ _) (Nat.le_refl _), Piece.tokens_none _ rfl]
  cases scanFrom tail.length none (start.after ['\n']) tail <;> rfl

/-- A text that scans goes on behind a line end: its own tokens come first, without the one that
marked its end. -/
theorem scanFrom_line {fuel : Nat} {before : Option Char} {start : Position} {cs : List Char}
    {tokens : List Token} (hfuel : cs.length ≤ fuel)
    (h : scanFrom fuel before start cs = .ok tokens) :
    ∃ own stop, tokens = own ++ [stop] ∧ stop.kind = .eof ∧
      ∀ tail, scanFrom (fuel + (tail.length + 1)) before start (cs ++ '\n' :: tail) =
        (scanFrom tail.length none (start.after (cs ++ ['\n'])) tail).map (own ++ ·) := by
  -- the line end stands where the text ended, and the pieces before it stay as they are
  have hend : ∀ fuel before start (tail : List Char),
      scanFrom (fuel + (tail.length + 1)) before start ('\n' :: tail) =
        (scanFrom tail.length none (start.after ['\n']) tail).map ([] ++ ·) := by
    intro fuel before start tail
    rw [scanFrom_newline]
    cases scanFrom tail.length none (start.after ['\n']) tail <;> rfl
  induction fuel generalizing before start cs tokens with
  | zero =>
      obtain rfl : cs = [] := List.length_eq_zero_iff.mp (Nat.le_zero.mp hfuel)
      obtain rfl := Except.ok.inj h
      exact ⟨[], _, rfl, rfl, hend 0 before start⟩
  | succ fuel ih =>
      cases cs with
      | nil =>
          obtain rfl := Except.ok.inj h
          exact ⟨[], _, rfl, rfl, hend (fuel + 1) before start⟩
      | cons c rest =>
          obtain ⟨p, hpiece⟩ := piece_of_scanFrom h
          obtain ⟨behind, hsplit, hshorter⟩ := piece_split hpiece
          rw [scanFrom_piece hpiece hsplit] at h
          obtain ⟨more, hmore, rfl⟩ := map_eq_ok.mp h
          obtain ⟨own, stop, rfl, hstop, hown⟩ :=
            ih (Nat.le_trans hshorter (Nat.le_of_succ_le_succ hfuel)) hmore
          refine ⟨p.tokens start ++ own, stop, (List.append_assoc _ _ _).symm, hstop, ?_⟩
          intro tail
          have hlonger : p.taken ++ (behind ++ '\n' :: tail) = c :: (rest ++ '\n' :: tail) := by
            rw [← List.append_assoc, hsplit, List.cons_append]
          have hafter : start.after (c :: rest ++ ['\n']) =
              (start.after p.taken).after (behind ++ ['\n']) := by
            rw [← hsplit, List.append_assoc, Position.after_append]
          rw [Nat.add_right_comm, List.cons_append,
            scanFrom_piece (piece_line tail hpiece) hlonger, hown tail, hafter]
          cases scanFrom tail.length none ((start.after p.taken).after (behind ++ ['\n'])) tail with
          | error e => rfl
          | ok scanned => simp [Except.map]

/-- Scanning composes over lines. Behind a text that scans and a line end, any other text has the
tokens it has alone, or the fault it has alone, further down by the lines of the first text. -/
theorem scan_line {first : String} {tokens : List Token} (h : scan first = .ok tokens) :
    ∃ own stop, tokens = own ++ [stop] ∧ stop.kind = .eof ∧ (∀ t ∈ own, t.kind ≠ .eof) ∧
      ∀ second : String,
        (∀ more, scan second = .ok more →
          scan (first ++ "\n" ++ second) = .ok (own ++ more.map
            (·.down (first.toList.count '\n' + 1) (first.length + 1)))) ∧
        (∀ e, scan second = .error e →
          scan (first ++ "\n" ++ second) =
            .error (e.down (first.toList.count '\n' + 1) (first.length + 1)) ∧
          (e.down (first.toList.count '\n' + 1) (first.length + 1)).diagnostic =
            { e.diagnostic with
              location.line := e.diagnostic.location.line + (first.toList.count '\n' + 1) }) := by
  obtain ⟨own, stop, rfl, hstop, hline⟩ := scanFrom_line (Nat.le_refl _) h
  have hown : ∀ t ∈ own, t.kind ≠ .eof := by
    obtain ⟨own', stop', heq, -, -, hown'⟩ := scan_spec h
    obtain ⟨rfl, -⟩ := List.append_inj' heq rfl
    exact fun t ht => (hown' t ht).1
  refine ⟨own, stop, rfl, hstop, hown, ?_⟩
  intro second
  -- the two texts in one go, by the tokens of the second alone
  have hwhole : scan (first ++ "\n" ++ second) =
      (allDown (first.toList.count '\n' + 1) (first.length + 1) (scan second)).map (own ++ ·) := by
    have htext : (first ++ "\n" ++ second).toList = first.toList ++ '\n' :: second.toList := by
      rw [String.toList_append, String.toList_append]
      simp
    have hlength : (first.toList ++ '\n' :: second.toList).length =
        first.toList.length + (second.toList.length + 1) := by
      rw [List.length_append, List.length_cons]
    unfold scan
    dsimp only
    rw [htext, hlength, hline, Position.after_line, scanFrom_down, String.length_toList]
  constructor
  · intro more hmore
    rw [hwhole, hmore]
    rfl
  · intro e he
    rw [hwhole, he]
    exact ⟨rfl, e.diagnostic_down _ _⟩

/-- The dot in the second line ends a statement, although a name stands before it. -/
theorem scan_line_dot : ∃ own stop, scan "a -- x\n \"b\"" = .ok (own ++ [stop]) ∧
    ((∃ more, scan ".c" = .ok more ∧
      scan ("a -- x\n \"b\"" ++ "\n" ++ ".c") = .ok (own ++ more.map (·.down 2 12))) ∧
    ∃ e, scan "c ?" = .error e ∧
      scan ("a -- x\n \"b\"" ++ "\n" ++ "c ?") = .error (e.down 2 12)) := by
  have hfirst : ((scan "a -- x\n \"b\"").toOption.any fun _ => true) = true := by decide +kernel
  have hsecond : ((scan ".c").toOption.any fun _ => true) = true := by decide +kernel
  have hfault : ∃ e, scan "c ?" = .error e := by
    cases h : scan "c ?" with
    | error e => exact ⟨e, rfl⟩
    | ok tokens =>
        have hnone : (scan "c ?").toOption.isNone = true := by decide +kernel
        rw [h] at hnone
        cases hnone
  obtain ⟨tokens, htokens, -⟩ := any_toOption.mp hfirst
  obtain ⟨more, hmore, -⟩ := any_toOption.mp hsecond
  obtain ⟨e, he⟩ := hfault
  obtain ⟨own, stop, rfl, -, -, hline⟩ := scan_line htokens
  exact ⟨own, stop, htokens, ⟨more, hmore, (hline ".c").1 more hmore⟩,
    e, he, ((hline "c ?").2 e he).1⟩

end Prosaic.Token
