import Mathlib.Data.List.TakeWhile
import Prosaic.Proofs.Except
import Prosaic.Proofs.Token.Lines
import Prosaic.Proofs.Token.Piece

/-!
Where the tokens of a text stand. The scanner loses nothing: a text is its tokens, in order, with
gaps between them that hold separators and comments only, and the place of a token tells its line
and its column.

`Lies p cs tokens` is the layout as the scanner leaves it, one gap and one token after the other,
with positions counted on from `p`. `Lossless` says the same of the text as a whole, in terms of
offsets; it is read off the layout by induction, with the part of the text that is passed already
kept in front.
-/

namespace Prosaic.Token

/-- Text between tokens, and what stands behind it: separators, and comments, each of which runs to
the end of its line. -/
inductive Gap : List Char → List Char → Prop
  | nil (behind : List Char) : Gap [] behind
  | separator {c : Char} {gap behind : List Char} (hc : isSeparator c = true)
      (more : Gap gap behind) : Gap (c :: gap) behind
  | comment {text gap behind : List Char} (line : '\n' ∉ text)
      (ends : ∀ c, (gap ++ behind).head? = some c → c = '\n') (more : Gap gap behind) :
      Gap ('-' :: '-' :: (text ++ gap)) behind

/-- Tokens along a text that starts at the given position. -/
inductive Lies : Position → List Char → List Token → Prop
  | stop {p : Position} {gap : List Char} (blank : Gap gap []) :
      Lies p gap [⟨.eof, "", ⟨p.after gap, p.after gap⟩⟩]
  | token {p : Position} {gap rest : List Char} {t : Token} {tokens : List Token}
      (blank : Gap gap (t.lexeme.toList ++ rest)) (kind : t.kind ≠ .eof)
      (nonempty : t.lexeme.toList ≠ []) (start : t.span.start = p.after gap)
      (stop : t.span.stop = t.span.start.after t.lexeme.toList)
      (more : Lies t.span.stop rest tokens) :
      Lies p (gap ++ (t.lexeme.toList ++ rest)) (t :: tokens)

/-- What is passed over belongs to the gap before the next token. -/
theorem piece_gap {before : Option Char} {c : Char} {rest : List Char} {p : Piece}
    (h : piece before c rest = .ok p) (hkind : p.kind = none) {gap behind : List Char}
    (hsplit : c :: rest = p.taken ++ (gap ++ behind)) (hgap : Gap gap behind) :
    Gap (p.taken ++ gap) behind := by
  obtain ⟨hc, htaken⟩ | ⟨more, rfl, rfl, htaken⟩ := piece_none h hkind
  · rw [htaken]
    exact .separator hc hgap
  · have hline : '\n' ∉ more.takeWhile (· != '\n') := by
      intro hmem
      simpa using List.mem_takeWhile_imp hmem
    rw [htaken]
    exact .comment hline (piece_comment h hkind rfl hsplit.symm) hgap

/-- A layout with more of a gap in front. -/
theorem Lies.widen {p : Position} {taken cs : List Char} {tokens : List Token}
    (h : Lies (p.after taken) cs tokens)
    (hgap : ∀ gap behind, cs = gap ++ behind → Gap gap behind → Gap (taken ++ gap) behind) :
    Lies p (taken ++ cs) tokens := by
  cases h with
  | stop blank =>
      rw [← Position.after_append]
      exact .stop (hgap _ [] (List.append_nil _).symm blank)
  | token blank kind nonempty start stop more =>
      rw [← List.append_assoc]
      apply Lies.token (hgap _ _ rfl blank) kind nonempty _ stop more
      rw [start, Position.after_append]

theorem scanFrom_lies {fuel : Nat} {before : Option Char} {p : Position} {cs : List Char}
    {tokens : List Token} (hfuel : cs.length ≤ fuel)
    (h : scanFrom fuel before p cs = .ok tokens) : Lies p cs tokens := by
  induction fuel generalizing before p cs tokens with
  | zero =>
      obtain rfl : cs = [] := List.length_eq_zero_iff.mp (Nat.le_zero.mp hfuel)
      obtain rfl := Except.ok.inj h
      exact .stop (.nil [])
  | succ fuel ih =>
      cases cs with
      | nil =>
          obtain rfl := Except.ok.inj h
          exact .stop (.nil [])
      | cons c rest =>
          obtain ⟨piece, hpiece⟩ := piece_of_scanFrom h
          obtain ⟨behind, hsplit, hshorter⟩ := piece_split hpiece
          rw [scanFrom_piece hpiece hsplit] at h
          obtain ⟨more, hmore, rfl⟩ := map_eq_ok.mp h
          have hlies := ih (Nat.le_trans hshorter (Nat.le_of_succ_le_succ hfuel)) hmore
          rw [← hsplit]
          cases hkind : piece.kind with
          | none =>
              rw [piece.tokens_none hkind]
              apply hlies.widen
              intro gap back hback hgap
              exact piece_gap hpiece hkind (by rw [← hsplit, hback]) hgap
          | some kind =>
              rw [piece.tokens_some hkind]
              have hproper := (piece_proper hpiece hkind ⟨p, p⟩).1
              have hnonempty := (piece_takes hpiece).1
              have htext : (String.ofList piece.taken).toList = piece.taken :=
                String.toList_ofList
              let t : Token := ⟨kind, String.ofList piece.taken, ⟨p, p.after piece.taken⟩⟩
              have hlast : Lies p ([] ++ (t.lexeme.toList ++ behind)) (t :: more) := by
                refine Lies.token (.nil _) hproper ?_ rfl ?_ hlies
                · rwa [htext]
                · rw [htext]
              simpa only [t, htext, List.nil_append, List.singleton_append] using hlast

/-! ### Texts that cannot be scanned -/

/-- The scanner gives up at a character of the text. -/
theorem scanFrom_error {fuel : Nat} {before : Option Char} (front : List Char)
    {cs : List Char} {e : ScanError}
    (h : scanFrom fuel before (.after .first front) cs = .error e) :
    ∃ gone c back, cs = gone ++ c :: back ∧ e.start = .after .first (front ++ gone) := by
  induction fuel generalizing before front cs with
  | zero => cases h
  | succ fuel ih =>
      cases cs with
      | nil => cases h
      | cons c rest =>
          cases hpiece : piece before c rest with
          | error cause =>
              rw [scanFrom_cons, hpiece] at h
              cases h
              exact ⟨[], c, rest, rfl, by rw [List.append_nil]⟩
          | ok p =>
              obtain ⟨behind, hsplit, -⟩ := piece_split hpiece
              rw [scanFrom_piece hpiece hsplit, ← Position.after_append] at h
              cases hmore : scanFrom fuel p.taken.getLast? (.after .first (front ++ p.taken))
                  behind with
              | ok more =>
                  rw [hmore] at h
                  cases h
              | error e' =>
                  rw [hmore] at h
                  cases h
                  obtain ⟨gone, c', back, rfl, hstart⟩ := ih _ hmore
                  refine ⟨p.taken ++ gone, c', back, ?_, ?_⟩
                  · rw [← hsplit, List.append_assoc]
                  · rw [hstart, List.append_assoc]

/-! ### The text as a whole -/

/-- The text from the given offset on, up to the first of the tokens, and from each token to the
next one, is a gap; and so is the text behind the last. -/
def Gaps (cs : List Char) : Nat → List Token → Prop
  | start, [] => Gap (cs.drop start) []
  | start, t :: tokens =>
    start ≤ t.span.start.offset ∧
      Gap (cs.extract start t.span.start.offset) (cs.drop t.span.start.offset) ∧
      Gaps cs t.span.stop.offset tokens

/-- The tokens of a text without loss. -/
structure Lossless (cs : List Char) (tokens : List Token) : Prop where
  ordered : tokens.Pairwise fun a b =>
    a.span.start.offset < b.span.start.offset ∧ a.span.stop.offset ≤ b.span.start.offset
  sliced : ∀ t ∈ tokens, t.span.start.offset ≤ t.span.stop.offset ∧
    t.lexeme.toList = cs.extract t.span.start.offset t.span.stop.offset
  marked : ∀ t ∈ tokens, Position.Marks cs t.span.start ∧ Position.Marks cs t.span.stop
  gaps : Gaps cs 0 tokens
  ended : ∃ own stop, tokens = own ++ [stop] ∧
    stop.kind = .eof ∧ stop.lexeme = "" ∧ stop.span.start.offset = cs.length ∧
    stop.span.stop = stop.span.start ∧ ∀ t ∈ own, t.kind ≠ .eof ∧ t.lexeme ≠ ""

/-- Where one token stands in a text: what is before it, and what is behind. -/
def Stands (cs : List Char) (t : Token) : Prop :=
  ∃ front back, cs = front ++ (t.lexeme.toList ++ back) ∧ t.span.start = .after .first front ∧
    t.span.stop = .after .first (front ++ t.lexeme.toList)

theorem Stands.sliced {cs : List Char} {t : Token} (h : Stands cs t) :
    t.span.start.offset ≤ t.span.stop.offset ∧
      t.lexeme.toList = cs.extract t.span.start.offset t.span.stop.offset := by
  obtain ⟨front, back, rfl, hstart, hstop⟩ := h
  have hfirst : Position.first.offset = 0 := rfl
  rw [hstart, hstop, Position.offset_after, Position.offset_after, hfirst, List.length_append]
  constructor
  · omega
  · simp [List.extract_eq_take_drop]

theorem Stands.marked {cs : List Char} {t : Token} (h : Stands cs t) :
    Position.Marks cs t.span.start ∧ Position.Marks cs t.span.stop := by
  obtain ⟨front, back, rfl, hstart, hstop⟩ := h
  constructor
  · rw [hstart]
    exact Position.marks_after _ _
  · rw [hstop, ← List.append_assoc]
    exact Position.marks_after _ _

section

variable {p : Position} {cs : List Char} {tokens : List Token}

theorem Lies.stands (h : Lies p cs tokens) (front : List Char) (hp : p = .after .first front) :
    ∀ t ∈ tokens, Stands (front ++ cs) t := by
  induction h generalizing front with
  | @stop p gap blank =>
      subst hp
      refine List.forall_mem_singleton.mpr ⟨front ++ gap, [], ?_, ?_, ?_⟩ <;>
        simp [Position.after_append]
  | @token p gap rest t tokens blank kind nonempty start stop more ih =>
      subst hp
      have hstart : t.span.start = .after .first (front ++ gap) := by
        rw [start, Position.after_append]
      have hstop : t.span.stop = .after .first (front ++ gap ++ t.lexeme.toList) := by
        rw [stop, hstart, ← Position.after_append]
      have hmore := ih _ hstop
      simp only [List.append_assoc] at hmore hstop
      refine List.forall_mem_cons.mpr ⟨⟨front ++ gap, rest, ?_, hstart, ?_⟩, hmore⟩
      · simp only [List.append_assoc]
      · rw [hstop, List.append_assoc]

/-- No token starts before the text does. -/
theorem Lies.offset_le (h : Lies p cs tokens) : ∀ t ∈ tokens, p.offset ≤ t.span.start.offset := by
  induction h with
  | stop blank => simp
  | token blank kind nonempty start stop more ih =>
      refine List.forall_mem_cons.mpr ⟨?_, ?_⟩
      · rw [start, Position.offset_after]
        exact Nat.le_add_right _ _
      · intro u hu
        have hlater := ih u hu
        rw [stop, start, Position.offset_after, Position.offset_after] at hlater
        omega

theorem Lies.ordered (h : Lies p cs tokens) : tokens.Pairwise fun a b =>
    a.span.start.offset < b.span.start.offset ∧ a.span.stop.offset ≤ b.span.start.offset := by
  induction h with
  | stop blank => exact List.pairwise_singleton _ _
  | token blank kind nonempty start stop more ih =>
      refine List.pairwise_cons.mpr ⟨?_, ih⟩
      intro u hu
      have hlater := more.offset_le u hu
      have hlength := List.length_pos_iff.mpr nonempty
      refine ⟨?_, hlater⟩
      rw [stop, Position.offset_after] at hlater
      omega

theorem Lies.gaps (h : Lies p cs tokens) (front : List Char) (hp : p = .after .first front) :
    Gaps (front ++ cs) front.length tokens := by
  have hfirst : Position.first.offset = 0 := rfl
  induction h generalizing front with
  | @stop p gap blank =>
      subst hp
      simp only [Gaps, Position.offset_after, hfirst, Nat.zero_add, List.extract_eq_take_drop,
        List.drop_left, Nat.add_sub_cancel_left, List.take_length]
      have hend : (front ++ gap).drop (front.length + gap.length) = [] := by simp
      rw [hend]
      exact ⟨Nat.le_add_right _ _, blank, .nil []⟩
  | @token p gap rest t tokens blank kind nonempty start stop more ih =>
      subst hp
      have hstart : t.span.start = .after .first (front ++ gap) := by
        rw [start, Position.after_append]
      have hstop : t.span.stop = .after .first (front ++ gap ++ t.lexeme.toList) := by
        rw [stop, hstart, ← Position.after_append]
      have hmore := ih _ hstop
      have hoffset : t.span.start.offset = (front ++ gap).length := by
        rw [hstart, Position.offset_after, hfirst, Nat.zero_add]
      have hoffset' : t.span.stop.offset = (front ++ gap ++ t.lexeme.toList).length := by
        rw [hstop, Position.offset_after, hfirst, Nat.zero_add]
      have hbefore : (front ++ (gap ++ (t.lexeme.toList ++ rest))).extract front.length
          (front ++ gap).length = gap := by
        simp [List.extract_eq_take_drop]
      have hbehind : (front ++ (gap ++ (t.lexeme.toList ++ rest))).drop (front ++ gap).length =
          t.lexeme.toList ++ rest := by
        rw [← List.append_assoc, List.drop_left]
      rw [Gaps, hoffset, hoffset', hbefore, hbehind]
      refine ⟨by simp, blank, ?_⟩
      simpa only [List.append_assoc] using hmore

theorem Lies.ended (h : Lies p cs tokens) : ∃ own stop, tokens = own ++ [stop] ∧
    stop.kind = .eof ∧ stop.lexeme = "" ∧ stop.span.start.offset = p.offset + cs.length ∧
    stop.span.stop = stop.span.start ∧ ∀ t ∈ own, t.kind ≠ .eof ∧ t.lexeme ≠ "" := by
  induction h with
  | stop blank => exact ⟨[], _, rfl, rfl, rfl, Position.offset_after _ _, rfl, by simp⟩
  | @token p gap rest t tokens blank kind nonempty start stop more ih =>
      obtain ⟨own, last, rfl, heof, hlexeme, hoffset, hspan, hown⟩ := ih
      refine ⟨t :: own, last, rfl, heof, hlexeme, ?_, hspan, ?_⟩
      · rw [hoffset, stop, start, Position.offset_after, Position.offset_after]
        simp only [List.length_append]
        omega
      · refine List.forall_mem_cons.mpr ⟨⟨kind, ?_⟩, hown⟩
        intro hempty
        exact nonempty (by rw [hempty]; rfl)

end

/-- Scanning loses nothing: the text is its tokens and the gaps between them, and every position
says where in the text it is. -/
theorem scan_lossless {source : String} {tokens : List Token} (h : scan source = .ok tokens) :
    Lossless source.toList tokens := by
  have hlies : Lies .first source.toList tokens := scanFrom_lies (Nat.le_refl _) h
  have hstands := hlies.stands [] rfl
  obtain ⟨own, stop, hsplit, hkind, hlexeme, hoffset, hspan, hown⟩ := hlies.ended
  constructor
  · exact hlies.ordered
  · exact fun t ht => (hstands t ht).sliced
  · exact fun t ht => (hstands t ht).marked
  · exact hlies.gaps [] rfl
  · refine ⟨own, stop, hsplit, hkind, hlexeme, ?_, hspan, hown⟩
    rw [hoffset]
    exact Nat.zero_add _

/-- A string that goes on in the next line, a comment, a number with a point and a field behind
a line end. -/
theorem scan_lossless_lines : ∃ tokens, scan "a \"\\\n\" -- x\n1.5 b.c" = .ok tokens ∧
    tokens.length = 7 ∧ Lossless "a \"\\\n\" -- x\n1.5 b.c".toList tokens := by
  have hrun : ((scan "a \"\\\n\" -- x\n1.5 b.c").toOption.any fun tokens =>
      tokens.length == 7) = true := by decide +kernel
  obtain ⟨tokens, hscan, hlength⟩ := any_toOption.mp hrun
  exact ⟨tokens, hscan, by simpa using hlength, scan_lossless hscan⟩

end Prosaic.Token
