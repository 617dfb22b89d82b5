import Prosaic.Proofs.Token.Layout
import Prosaic.Proofs.Token.Lines

/-!
What stands between two tokens does not matter, as long as something does. A text may be cut behind
a token: what is behind the cut is scanned from there on, and anything else may stand in its place
that the token does not go on into. A gap is passed over, and of the gap only its last character is
looked at again, by a dot right behind it. So where a gap is replaced by another one that starts
with a separator, all tokens stay what they are, and only those behind the gap move.
-/

namespace Prosaic.Token

/-! ### Cutting a text behind a token -/

/-- Every token but the one that marks the end takes some of the text. -/
theorem Lies.offset_lt {p : Position} {cs : List Char} {tokens : List Token}
    (h : Lies p cs tokens) : ∀ t ∈ tokens, t.kind ≠ .eof → p.offset < t.span.stop.offset := by
  induction h with
  | stop blank => simp
  | @token p gap rest t tokens blank kind nonempty start stop more ih =>
      have hlength := List.length_pos_iff.mpr nonempty
      have hstop : p.offset < t.span.stop.offset := by
        rw [stop, start, Position.offset_after, Position.offset_after]
        omega
      refine List.forall_mem_cons.mpr ⟨fun _ => hstop, ?_⟩
      intro u hu hkind
      exact Nat.lt_trans hstop (ih u hu hkind)

/-- The token that a piece is ends where the piece does. -/
theorem Piece.stop_of_tokens {p : Piece} {start : Position} {a : Token}
    (h : p.tokens start = [a]) : a.span.stop = start.after p.taken := by
  cases hkind : p.kind with
  | none => simp [p.tokens_none hkind] at h
  | some kind =>
      rw [p.tokens_some hkind] at h
      obtain rfl := List.singleton_inj.mp h
      rfl

/-- A piece and the tokens behind it: either the last of the tokens in front is the piece, or the
piece comes before it. -/
theorem Piece.tokens_append_eq {p : Piece} {start : Position} {behind front more : List Token}
    {a : Token} (h : p.tokens start ++ behind = front ++ a :: more) :
    (front = [] ∧ p.tokens start = [a] ∧ behind = more) ∨
      ∃ front', front = p.tokens start ++ front' ∧ behind = front' ++ a :: more := by
  cases hkind : p.kind with
  | none =>
      rw [p.tokens_none hkind] at h ⊢
      exact .inr ⟨front, rfl, h⟩
  | some kind =>
      rw [p.tokens_some hkind] at h ⊢
      cases front with
      | nil =>
          obtain ⟨rfl, rfl⟩ := List.cons.inj h
          exact .inl ⟨rfl, rfl, rfl⟩
      | cons f front =>
          obtain ⟨rfl, rfl⟩ := List.cons.inj h
          exact .inr ⟨front, rfl, rfl⟩

/-- A comment that ends before the text that it is in does is the same whatever stands behind. -/
theorem takeWhile_comment {before : Option Char} {rest tail more : List Char} {p : Piece} {d : Char}
    (h : piece before '-' (rest ++ tail) = .ok p) (hkind : p.kind = none)
    (hends : '-' :: rest = p.taken ++ d :: more) (tail' : List Char) :
    ('-' :: rest ++ tail').takeWhile (· != '\n') = p.taken := by
  obtain ⟨hseparator, -⟩ | ⟨line, -, hline, htaken⟩ := piece_none h hkind
  · exact absurd hseparator (by decide)
  have hwhole : p.taken = ('-' :: rest ++ tail).takeWhile (· != '\n') := by
    rw [htaken, List.cons_append, hline]
    simp
  have hplain : ∀ c ∈ p.taken, (c != '\n') = true := by
    rw [hwhole]
    exact fun c => List.mem_takeWhile_imp
  -- the comment goes on to the end of its line, so what follows it ends the line
  obtain rfl : d = '\n' := by
    rw [hends, List.append_assoc, List.takeWhile_append_of_pos hplain,
      List.self_eq_append_right] at hwhole
    simpa [List.takeWhile_cons] using hwhole
  rw [hends, List.append_assoc, List.takeWhile_append_of_pos hplain, List.cons_append,
    List.takeWhile_cons_of_neg (by simp), List.append_nil]

/-- Where a piece ends in front of a cut, the scanner goes on between the two, whatever is behind
the cut. -/
theorem scanFrom_piece_apart {before : Option Char} {c : Char}
    {rest tail cs : List Char} {p : Piece}
    (htail : Apart tail) (hpiece : piece before c (rest ++ tail) = .ok p)
    (hcs : c :: rest = p.taken ++ cs) (hends : p.kind = none → c = '-' → cs ≠ []) (start : Position)
    {tail' : List Char} (htail' : Apart tail') (hminus : tail'.head? ≠ some '-') :
    scanFrom (c :: rest ++ tail').length before start (c :: rest ++ tail') =
      (scanFrom (cs ++ tail').length p.taken.getLast? (start.after p.taken) (cs ++ tail')).map
        (p.tokens start ++ ·) := by
  have hpiece' : piece before c (rest ++ tail') = .ok p := by
    refine piece_apart htail htail' hminus hpiece ⟨cs, hcs.symm⟩ fun hkind hdash => ?_
    subst hdash
    obtain ⟨d, more, rfl⟩ := List.exists_cons_of_ne_nil (hends hkind rfl)
    rw [takeWhile_comment hpiece hkind hcs, takeWhile_comment hpiece hkind hcs]
  have hsplit : p.taken ++ (cs ++ tail') = c :: (rest ++ tail') := by
    rw [← List.append_assoc, ← hcs, List.cons_append]
  have hroom : (cs ++ tail').length ≤ (rest ++ tail').length := by
    have hsame := congrArg List.length hsplit
    have htaken := List.length_pos_iff.mpr (piece_takes hpiece).1
    simp only [List.length_append, List.length_cons] at hsame ⊢
    omega
  rw [List.cons_append, List.length_cons, scanFrom_piece hpiece' hsplit,
    scanFrom_fuel hroom (Nat.le_refl _)]

/-- A text that scans may be cut behind any of its tokens. The text up to there has the same tokens
with anything else behind the cut, if the last one does not go on into it. -/
theorem scanFrom_cut {fuel : Nat} {before : Option Char} {start : Position} {cs tail : List Char}
    {front more : List Token} {a : Token} (hfuel : (cs ++ tail).length ≤ fuel) (htail : Apart tail)
    (h : scanFrom fuel before start (cs ++ tail) = .ok (front ++ a :: more)) (ha : a.kind ≠ .eof)
    (hstop : a.span.stop.offset = start.offset + cs.length) :
    scanFrom tail.length cs.getLast? (start.after cs) tail = .ok more ∧
      ∀ tail', Apart tail' → tail'.head? ≠ some '-' →
        scanFrom (cs ++ tail').length before start (cs ++ tail') =
          (scanFrom tail'.length cs.getLast? (start.after cs) tail').map (front ++ a :: ·) := by
  induction fuel generalizing before start cs front with
  | zero =>
      have hlt := (scanFrom_lies hfuel h).offset_lt a (by simp) ha
      rw [List.length_append] at hfuel
      omega
  | succ fuel ih =>
      have hlt := (scanFrom_lies hfuel h).offset_lt a (by simp) ha
      obtain ⟨c, rest, rfl⟩ := List.exists_cons_of_length_pos (l := cs) (by omega)
      rw [List.cons_append] at h
      obtain ⟨p, hpiece⟩ := piece_of_scanFrom h
      obtain ⟨behind, hsplit, hshorter⟩ := piece_split hpiece
      rw [scanFrom_piece hpiece hsplit] at h
      obtain ⟨scanned, hscanned, htokens⟩ := map_eq_ok.mp h
      have hbehind : behind.length ≤ fuel := Nat.le_trans hshorter (Nat.le_of_succ_le_succ hfuel)
      obtain ⟨rfl, hlast, rfl⟩ | ⟨front', rfl, rfl⟩ := Piece.tokens_append_eq htokens
      · -- the piece is the last token in front of the cut
        have hkind : p.kind ≠ none := fun hkind => by simp [p.tokens_none hkind] at hlast
        have hlength : p.taken.length = (c :: rest).length := by
          rw [p.stop_of_tokens hlast, Position.offset_after] at hstop
          omega
        obtain ⟨htaken, rfl⟩ := List.append_inj hsplit hlength
        have hcs : c :: rest = p.taken ++ [] := by rw [htaken, List.append_nil]
        refine ⟨?_, fun tail' htail' hminus => ?_⟩
        · rw [← htaken, scanFrom_fuel (Nat.le_refl _) hbehind, hscanned]
        · rw [scanFrom_piece_apart htail hpiece hcs (fun hnone => absurd hnone hkind) start htail'
            hminus, hlast, htaken]
          rfl
      · -- the piece ends in front of the cut, and the text goes on behind it
        have hbefore := (scanFrom_lies hbehind hscanned).offset_lt a (by simp) ha
        rw [Position.offset_after, hstop] at hbefore
        obtain ⟨cs, hcs, rfl⟩ : ∃ cs, c :: rest = p.taken ++ cs ∧ behind = cs ++ tail := by
          rw [← List.cons_append] at hsplit
          obtain ⟨cs, hcs, htail⟩ | ⟨beyond, hbeyond, -⟩ := List.append_eq_append_iff.mp hsplit
          · exact ⟨cs, hcs, htail⟩
          · rw [hbeyond, List.length_append] at hbefore
            omega
        have hnonempty : cs ≠ [] := by
          rintro rfl
          simp [hcs] at hbefore
        have hlength : a.span.stop.offset = (start.after p.taken).offset + cs.length := by
          rw [hstop, hcs, Position.offset_after, List.length_append]
          omega
        obtain ⟨hmore, hcut⟩ := ih hbehind hscanned hlength
        rw [hcs, List.getLast?_append_of_ne_nil _ hnonempty, Position.after_append, ← hcs]
        refine ⟨hmore, fun tail' htail' hminus => ?_⟩
        rw [scanFrom_piece_apart htail hpiece hcs (fun _ _ => hnonempty) start htail' hminus,
          hcut tail' htail' hminus]
        cases scanFrom tail'.length cs.getLast? ((start.after p.taken).after cs) tail' with
        | error e => rfl
        | ok tokens => simp [Except.map]

/-! ### Passing over a gap -/

/-- The character before what is behind a gap is the last one of the gap. -/
theorem Gap.scanFrom_append {gap behind : List Char} (h : Gap gap behind) (before : Option Char)
    (start : Position) :
    scanFrom (gap ++ behind).length before start (gap ++ behind) =
      scanFrom behind.length (gap.getLast?.or before) (start.after gap) behind := by
  have hpassed : ∀ (p : Piece) (start : Position) (scanned : Except ScanError (List Token)),
      p.kind = none → scanned.map (p.tokens start ++ ·) = scanned := by
    intro p start scanned hkind
    rw [p.tokens_none hkind]
    cases scanned <;> rfl
  induction h generalizing before start with
  | nil behind => rfl
  | @separator c gap behind hc more ih =>
      have hpiece : piece before c (gap ++ behind) = .ok ⟨[c], none⟩ := by rw [piece, if_pos hc]
      have hsplit : [c] ++ (gap ++ behind) = c :: (gap ++ behind) := rfl
      have hlast : (c :: gap).getLast? = gap.getLast?.or (some c) := by
        rw [← List.singleton_append, List.getLast?_append, List.getLast?_singleton]
      rw [List.cons_append, List.length_cons, scanFrom_piece hpiece hsplit, hpassed _ _ _ rfl, ih,
        ← Position.after_append, hlast, Option.or_assoc]
      rfl
  | @comment text gap behind line ends more ih =>
      have htext : (text ++ (gap ++ behind)).takeWhile (· != '\n') = text := by
        rw [takeWhile_apart (by simpa using ends), List.takeWhile_eq_self_iff]
        intro c hc
        simpa using ne_of_mem_of_not_mem hc line
      have hpiece : piece before '-' ('-' :: (text ++ gap) ++ behind) =
          .ok ⟨'-' :: '-' :: text, none⟩ := by
        have hseparator : isSeparator '-' = false := by decide
        simp [piece, hseparator, htext]
      have hroom : (gap ++ behind).length ≤ ('-' :: (text ++ gap) ++ behind).length := by
        simp only [List.length_append, List.length_cons]
        omega
      have hsplit : '-' :: '-' :: text ++ (gap ++ behind) =
          '-' :: ('-' :: (text ++ gap) ++ behind) := by simp
      rw [List.cons_append, List.length_cons, scanFrom_piece hpiece hsplit, hpassed _ _ _ rfl,
        scanFrom_fuel hroom (Nat.le_refl _), ih, ← Position.after_append]
      have hwhole : '-' :: '-' :: (text ++ gap) = '-' :: '-' :: text ++ gap := rfl
      rw [hwhole, List.getLast?_append, Option.or_assoc]
      cases gap.getLast? <;> simp [List.getLast?_cons]

/-- A dot behind a gap has nothing in front of it that it could select a field of. -/
theorem Gap.any_isOperandEnd {gap behind : List Char} (h : Gap gap behind) (hgap : gap ≠ [])
    (hdot : behind.head? = some '.') (before : Option Char) :
    (gap.getLast?.or before).any isOperandEnd = false := by
  induction h with
  | nil behind => exact absurd rfl hgap
  | @separator c gap behind hc more ih =>
      cases gap with
      | nil =>
          simp only [isSeparator, Bool.or_eq_true, beq_iff_eq] at hc
          obtain ((rfl | rfl) | rfl) | rfl := hc <;> rfl
      | cons d gap => exact ih (List.cons_ne_nil _ _) hdot
  | @comment text gap behind line ends more ih =>
      cases gap with
      | nil =>
          have hend := ends '.' hdot
          cases hend
      | cons d gap =>
          have hlast : ('-' :: '-' :: (text ++ d :: gap)).getLast? = (d :: gap).getLast? :=
            List.getLast?_append_of_ne_nil ('-' :: '-' :: text) (List.cons_ne_nil d gap)
          rw [hlast]
          exact ih (List.cons_ne_nil _ _) hdot

/-- A text that starts with a gap is no part of what stands in front of it. -/
theorem Gap.apart {gap behind : List Char} (h : Gap gap behind) (hgap : gap ≠ []) :
    Apart (gap ++ behind) := by
  cases h with
  | nil => exact absurd rfl hgap
  | separator hc more =>
      refine apart_cons ?_ _
      simp only [isSeparator, Bool.or_eq_true, beq_iff_eq] at hc
      obtain ((rfl | rfl) | rfl) | rfl := hc <;> rfl
  | comment => exact apart_cons rfl _

/-- Between two tokens that follow each other there is a gap. -/
theorem Gaps.between {cs : List Char} {start : Nat} {front back : List Token} {a b : Token}
    (h : Gaps cs start (front ++ a :: b :: back)) :
    Gap (cs.extract a.span.stop.offset b.span.start.offset) (cs.drop b.span.start.offset) := by
  induction front generalizing start with
  | nil => exact h.2.2.2.1
  | cons t front ih => exact ih h.2.2

/-! ### Tokens wherever they stand -/

/-- What a token is, and the text it was read from. -/
def content (t : Token) : Kind × String := (t.kind, t.lexeme)

theorem Piece.map_content_tokens (p : Piece) (start start' : Position) :
    (p.tokens start).map content = (p.tokens start').map content := by
  cases hkind : p.kind with
  | none => rw [p.tokens_none hkind, p.tokens_none hkind]
  | some kind =>
      rw [p.tokens_some hkind, p.tokens_some hkind]
      rfl

/-- Where a text starts is nothing to its tokens but their places; what stands before it matters to
a dot at its start only. -/
theorem scanFrom_content {fuel : Nat} {before before' : Option Char} {start : Position}
    (start' : Position) {cs : List Char} {tokens : List Token}
    (hdot : cs.head? = some '.' → before.any isOperandEnd = before'.any isOperandEnd)
    (h : scanFrom fuel before start cs = .ok tokens) :
    ∃ tokens', scanFrom fuel before' start' cs = .ok tokens' ∧
      tokens'.map content = tokens.map content := by
  induction fuel generalizing before before' start start' cs tokens with
  | zero =>
      obtain rfl := Except.ok.inj h
      exact ⟨_, rfl, rfl⟩
  | succ fuel ih =>
      cases cs with
      | nil =>
          obtain rfl := Except.ok.inj h
          exact ⟨_, rfl, rfl⟩
      | cons c rest =>
          obtain ⟨p, hpiece⟩ := piece_of_scanFrom h
          obtain ⟨behind, hsplit, -⟩ := piece_split hpiece
          have hpiece' : piece before' c rest = .ok p := by
            rw [← piece_before (fun hc => hdot (by rw [hc]; rfl)) rest, hpiece]
          rw [scanFrom_piece hpiece hsplit] at h
          obtain ⟨more, hmore, rfl⟩ := map_eq_ok.mp h
          obtain ⟨more', hmore', hcontent⟩ := ih (start'.after p.taken) (fun _ => rfl) hmore
          refine ⟨p.tokens start' ++ more', ?_, ?_⟩
          · rw [scanFrom_piece hpiece' hsplit, hmore']
            rfl
          · rw [List.map_append, List.map_append, hcontent, p.map_content_tokens start' start]

/-! ### Replacing a gap -/

/-- Separators and whole comments, each with the end of its line. -/
inductive Trivia : List Char → Prop
  | nil : Trivia []
  | separator {c : Char} {text : List Char} (hc : isSeparator c = true) (more : Trivia text) :
      Trivia (c :: text)
  | comment {line text : List Char} (hline : '\n' ∉ line) (more : Trivia text) :
      Trivia ('-' :: '-' :: (line ++ '\n' :: text))

theorem Trivia.gap {text : List Char} (h : Trivia text) (behind : List Char) : Gap text behind := by
  induction h with
  | nil => exact .nil behind
  | separator hc more ih => exact .separator hc ih
  | comment hline more ih =>
      refine .comment hline (fun c hc => ?_) (.separator rfl ih)
      rw [List.cons_append, List.head?_cons] at hc
      exact (Option.some.inj hc).symm

/-- Where a gap between two tokens is replaced by other separators and comments, of which a
separator comes first, the tokens in front of it stay as they are, and those behind it but for their
places. -/
theorem scan_trivia {pre gap post : String} {front back : List Token} {a b : Token}
    (h : scan (pre ++ gap ++ post) = .ok (front ++ a :: b :: back))
    (ha : a.span.stop.offset = pre.length) (hb : b.span.start.offset = pre.length + gap.length)
    (hgap : gap ≠ "") {c : Char} {text : List Char} (hc : isSeparator c = true)
    (htext : Trivia text) :
    ∃ later, scan (pre ++ String.ofList (c :: text) ++ post) = .ok (front ++ a :: later) ∧
      later.map content = (b :: back).map content := by
  have hscan : ∀ mid : String, scan (pre ++ mid ++ post) =
      scanFrom (pre.toList ++ (mid.toList ++ post.toList)).length none .first
        (pre.toList ++ (mid.toList ++ post.toList)) := by
    intro mid
    rw [← List.append_assoc, ← String.toList_append, ← String.toList_append, scan]
  have hblank : gap.toList ≠ [] := by simpa using hgap
  have hbetween : Gap gap.toList post.toList := by
    have hgaps := (scan_lossless h).gaps.between
    have hwhole : (pre ++ gap ++ post).toList = pre.toList ++ gap.toList ++ post.toList := by
      rw [String.toList_append, String.toList_append]
    have hstop : a.span.stop.offset = pre.toList.length := by rw [ha, String.length_toList]
    have hstart : b.span.start.offset = (pre.toList ++ gap.toList).length := by
      rw [hb, List.length_append, String.length_toList, String.length_toList]
    rw [hwhole, hstop, hstart, List.drop_left, List.append_assoc] at hgaps
    simpa [List.extract_eq_take_drop] using hgaps
  have hown : a.kind ≠ .eof := by
    obtain ⟨own, stop, heq, -, -, hown⟩ := scan_spec h
    have hinit := congrArg List.dropLast heq
    rw [List.dropLast_concat, List.dropLast_append_of_ne_nil (List.cons_ne_nil _ _)] at hinit
    rw [← hinit] at hown
    exact (hown a (by simp)).1
  rw [hscan] at h ⊢
  -- what is behind the first token is scanned from there on, and of it what is behind the gap
  obtain ⟨hbehind, hcut⟩ := scanFrom_cut (Nat.le_refl _) (hbetween.apart hblank) h hown
    (by rw [ha, String.length_toList]; exact (Nat.zero_add _).symm)
  rw [hbetween.scanFrom_append] at hbehind
  have hfiller : Gap (c :: text) post.toList := (Trivia.separator hc htext).gap _
  have hnonempty : c :: text ≠ [] := List.cons_ne_nil _ _
  have hdot : post.toList.head? = some '.' →
      (gap.toList.getLast?.or pre.toList.getLast?).any isOperandEnd =
        ((c :: text).getLast?.or pre.toList.getLast?).any isOperandEnd := by
    intro hpost
    rw [hbetween.any_isOperandEnd hblank hpost, hfiller.any_isOperandEnd hnonempty hpost]
  obtain ⟨later, hlater, hcontent⟩ :=
    scanFrom_content ((Position.first.after pre.toList).after (c :: text)) hdot hbehind
  refine ⟨later, ?_, hcontent⟩
  have hminus : (c :: text ++ post.toList).head? ≠ some '-' := by
    intro hhead
    obtain rfl := Option.some.inj hhead
    cases hc
  rw [String.toList_ofList, hcut _ (hfiller.apart hnonempty) hminus,
    hfiller.scanFrom_append, hlater]
  rfl

/-- A comment right behind a minus, and a dot right behind the comment that selects no field. -/
theorem scan_trivia_minus : ∃ front a b back later,
    scan ("x.y -" ++ "\t-- one\n" ++ ".z") = .ok (front ++ a :: b :: back) ∧
      a.span.stop.offset = "x.y -".length ∧
      b.span.start.offset = "x.y -".length + "\t-- one\n".length ∧ "\t-- one\n" ≠ "" ∧
      isSeparator '\r' = true ∧ Trivia ['-', '-', 'z', '\n', '-', '-', '\n'] ∧
      scan ("x.y -" ++ String.ofList ['\r', '-', '-', 'z', '\n', '-', '-', '\n'] ++ ".z") =
        .ok (front ++ a :: later) ∧
      later.map content = (b :: back).map content := by
  have hrun : ((scan ("x.y -" ++ "\t-- one\n" ++ ".z")).toOption.any fun tokens =>
      tokens.length == 7 && (tokens[3]?.any fun a => a.span.stop.offset == 5) &&
        (tokens[4]?.any fun b => b.span.start.offset == 13)) = true := by decide +kernel
  obtain ⟨tokens, hscan, htokens⟩ := any_toOption.mp hrun
  obtain ⟨t₀, t₁, t₂, a, b, t₅, t₆, rfl⟩ : ∃ t₀ t₁ t₂ a b t₅ t₆ : Token,
      tokens = [t₀, t₁, t₂, a, b, t₅, t₆] := by
    match tokens, htokens with
    | [t₀, t₁, t₂, a, b, t₅, t₆], _ => exact ⟨t₀, t₁, t₂, a, b, t₅, t₆, rfl⟩
  obtain ⟨hstop, hstart⟩ : a.span.stop.offset = 5 ∧ b.span.start.offset = 13 := by
    simpa using htokens
  have ha : a.span.stop.offset = "x.y -".length := hstop
  have hb : b.span.start.offset = "x.y -".length + "\t-- one\n".length := hstart
  have hempty : Trivia ['-', '-', '\n'] := .comment List.not_mem_nil .nil
  have htrivia : Trivia ('-' :: '-' :: (['z'] ++ '\n' :: ['-', '-', '\n'])) :=
    .comment (by decide) hempty
  have hscan' : scan ("x.y -" ++ "\t-- one\n" ++ ".z") =
      .ok ([t₀, t₁, t₂] ++ a :: b :: [t₅, t₆]) := hscan
  have hseparator : isSeparator '\r' = true := rfl
  obtain ⟨later, hlater, hcontent⟩ := scan_trivia hscan' ha hb (by decide) hseparator htrivia
  exact ⟨[t₀, t₁, t₂], a, b, [t₅, t₆], later, hscan', ha, hb, by decide, hseparator, htrivia,
    hlater, hcontent⟩

end Prosaic.Token
