import Prosaic.Proofs.Token.Trivia

/-!
Strings and lines. Inside a string a backslash and the character behind it belong together, whatever
that character is. So a line end closes a string, with a fault at the opening quote, unless it is
the second half of such a pair: then the string goes on in the next line.
-/

namespace Prosaic.Token

/-! ### The inside of a string -/

/-- The inside of a string: characters that stand for themselves, and pairs of a backslash and any
character. -/
inductive Inside : List Char → Prop
  | nil : Inside []
  | plain {c : Char} {cs : List Char} (hquote : c ≠ '"') (hline : c ≠ '\n') (hescape : c ≠ '\\')
      (more : Inside cs) : Inside (c :: cs)
  | escaped (c : Char) {cs : List Char} (more : Inside cs) : Inside ('\\' :: c :: cs)

theorem Inside.append {cs ds : List Char} (hc : Inside cs) (hd : Inside ds) :
    Inside (cs ++ ds) := by
  induction hc with
  | nil => exact hd
  | plain hquote hline hescape more ih => exact .plain hquote hline hescape ih
  | escaped c more ih => exact .escaped c ih

/-- Only a pair brings a line end into a string. -/
theorem Inside.mem_line_iff {cs : List Char} (h : Inside cs) :
    '\n' ∈ cs ↔ ∃ front back, cs = front ++ '\\' :: '\n' :: back ∧ Inside front := by
  refine ⟨fun hmem => ?_, fun ⟨front, back, heq, _⟩ => by simp [heq]⟩
  induction h with
  | nil => cases hmem
  | @plain c cs hquote hline hescape more ih =>
      obtain ⟨front, back, rfl, hfront⟩ := ih (List.mem_of_ne_of_mem hline.symm hmem)
      exact ⟨c :: front, back, rfl, .plain hquote hline hescape hfront⟩
  | @escaped c cs more ih =>
      by_cases hc : c = '\n'
      · subst hc
        exact ⟨[], cs, rfl, .nil⟩
      · have hrest : '\n' ∈ cs := by
          have hbehind := List.mem_of_ne_of_mem (by decide) hmem
          exact List.mem_of_ne_of_mem (Ne.symm hc) hbehind
        obtain ⟨front, back, rfl, hfront⟩ := ih hrest
        exact ⟨'\\' :: c :: front, back, rfl, .escaped c hfront⟩

/-- Behind an opening quote: the string is closed at some place. -/
def Closed (cs : List Char) : Prop := ∃ inside rest, Inside inside ∧ cs = inside ++ '"' :: rest

theorem inside_of_stringBody {cs value raw rest : List Char}
    (h : stringBody cs = some (value, raw, rest)) :
    ∃ inside, Inside inside ∧ raw = inside ++ ['"'] := by
  fun_induction stringBody cs generalizing value raw rest with
  | case1 | case3 | case4 => cases h
  | case2 =>
      cases h
      exact ⟨[], .nil, rfl⟩
  | case5 c cs ih =>
      simp only [Option.map_eq_some_iff, Prod.exists, Prod.mk.injEq] at h
      obtain ⟨value', raw', rest', hbody, -, rfl, rfl⟩ := h
      obtain ⟨inside, hinside, rfl⟩ := ih hbody
      exact ⟨'\\' :: c :: inside, .escaped c hinside, rfl⟩
  | case6 c cs hquote hline hlast hescape ih =>
      simp only [Option.map_eq_some_iff, Prod.exists, Prod.mk.injEq] at h
      obtain ⟨value', raw', rest', hbody, -, rfl, rfl⟩ := h
      obtain ⟨inside, hinside, rfl⟩ := ih hbody
      have hplain : c ≠ '\\' := by
        rintro rfl
        cases cs with
        | nil => exact hlast rfl rfl
        | cons d cs => exact hescape d cs rfl rfl
      exact ⟨c :: inside, .plain hquote hline hplain hinside, rfl⟩

theorem Inside.stringBody {inside : List Char} (h : Inside inside) (rest : List Char) :
    ∃ value, stringBody (inside ++ '"' :: rest) = some (value, inside ++ ['"'], rest) := by
  induction h with
  | nil => exact ⟨[], rfl⟩
  | @plain c cs hquote hline hescape more ih =>
      obtain ⟨value, hvalue⟩ := ih
      exact ⟨c :: value,
        by rw [List.cons_append, stringBody_cons hquote hline hescape, hvalue]; rfl⟩
  | @escaped c cs more ih =>
      obtain ⟨value, hvalue⟩ := ih
      exact ⟨unescape c :: value, by simp [Token.stringBody, hvalue]⟩

theorem stringBody_isSome_iff {cs : List Char} : (stringBody cs).isSome = true ↔ Closed cs := by
  constructor
  · intro h
    obtain ⟨⟨value, raw, rest⟩, hbody⟩ := Option.isSome_iff_exists.mp h
    obtain ⟨inside, hinside, rfl⟩ := inside_of_stringBody hbody
    exact ⟨inside, rest, hinside, by rw [stringBody_eq hbody, List.append_assoc]; rfl⟩
  · rintro ⟨inside, rest, hinside, rfl⟩
    obtain ⟨value, hvalue⟩ := hinside.stringBody rest
    rw [hvalue]
    rfl

/-! ### The end of a line -/

/-- A line ends with the first half of a pair. -/
def Carries (line : List Char) : Prop := ∃ inside, Inside inside ∧ line = inside ++ ['\\']

/-- A string that its line does not close is closed in a later line or not at all, and in a later
line only if the line end is escaped. -/
theorem closed_append_iff {line tail : List Char} (htail : ∀ c ∈ tail.head?, c = '\n')
    (hopen : ¬Closed line) :
    Closed (line ++ tail) ↔ Carries line ∧ ∃ more, tail = '\n' :: more ∧ Closed more := by
  constructor
  · rintro ⟨inside, rest, hinside, heq⟩
    induction hinside generalizing line with
    | nil =>
        cases line with
        | nil =>
            rw [List.nil_append] at heq
            cases htail '"' (by rw [heq]; rfl)
        | cons d line =>
            obtain ⟨rfl, -⟩ := List.cons.inj heq
            exact absurd ⟨[], line, .nil, rfl⟩ hopen
    | @plain c cs hquote hline hescape more ih =>
        cases line with
        | nil =>
            rw [List.nil_append] at heq
            exact absurd (htail c (by rw [heq]; rfl)) hline
        | cons d line =>
            obtain ⟨rfl, hbehind⟩ := List.cons.inj heq
            have hopen' : ¬Closed line := by
              rintro ⟨inside, rest, hinside, rfl⟩
              exact hopen ⟨d :: inside, rest, .plain hquote hline hescape hinside, rfl⟩
            obtain ⟨⟨inside, hinside, rfl⟩, hmore⟩ := ih hopen' hbehind
            exact ⟨⟨d :: inside, .plain hquote hline hescape hinside, rfl⟩, hmore⟩
    | @escaped c cs more ih =>
        match line with
        | [] =>
            rw [List.nil_append] at heq
            cases htail '\\' (by rw [heq]; rfl)
        | [d] =>
            simp only [List.cons_append, List.nil_append, List.cons.injEq] at heq
            obtain ⟨rfl, hbehind⟩ := heq
            obtain rfl := htail c (by rw [hbehind]; rfl)
            exact ⟨⟨[], .nil, rfl⟩, cs ++ '"' :: rest, hbehind, cs, rest, more, rfl⟩
        | d :: e :: line =>
            simp only [List.cons_append, List.cons.injEq] at heq
            obtain ⟨rfl, rfl, hbehind⟩ := heq
            have hopen' : ¬Closed line := by
              rintro ⟨inside, rest, hinside, rfl⟩
              exact hopen ⟨'\\' :: e :: inside, rest, .escaped e hinside, rfl⟩
            obtain ⟨⟨inside, hinside, rfl⟩, hmore⟩ := ih hopen' hbehind
            exact ⟨⟨'\\' :: e :: inside, .escaped e hinside, rfl⟩, hmore⟩
  · rintro ⟨⟨front, hfront, rfl⟩, more, rfl, back, rest, hback, rfl⟩
    refine ⟨front ++ '\\' :: '\n' :: back, rest, hfront.append (.escaped '\n' hback), ?_⟩
    simp

/-! ### Strings among the tokens -/

/-- Every token but the last one stood at the front of a text. -/
theorem scanFrom_front {fuel : Nat} {before : Option Char} {start : Position} {cs : List Char}
    {tokens : List Token} (h : scanFrom fuel before start cs = .ok tokens) :
    ∀ t ∈ tokens, t.kind ≠ .eof →
      ∃ before c rest, Front before c rest t.lexeme.toList t.kind := by
  have hend : ∀ p : Position, ∀ t ∈ [(⟨.eof, "", ⟨p, p⟩⟩ : Token)], t.kind ≠ .eof →
      ∃ before c rest, Front before c rest t.lexeme.toList t.kind := by
    intro p t ht hkind
    obtain rfl := List.mem_singleton.mp ht
    exact absurd rfl hkind
  induction fuel generalizing before start cs tokens with
  | zero =>
      obtain rfl := Except.ok.inj h
      exact hend start
  | succ fuel ih =>
      cases cs with
      | nil =>
          obtain rfl := Except.ok.inj h
          exact hend start
      | cons c rest =>
          obtain ⟨p, hpiece⟩ := piece_of_scanFrom h
          obtain ⟨behind, hsplit, -⟩ := piece_split hpiece
          rw [scanFrom_piece hpiece hsplit] at h
          obtain ⟨more, hmore, rfl⟩ := map_eq_ok.mp h
          refine List.forall_mem_append.mpr ⟨fun t ht _ => ?_, ih hmore⟩
          cases hkind : p.kind with
          | none =>
              rw [p.tokens_none hkind] at ht
              cases ht
          | some kind =>
              rw [p.tokens_some hkind] at ht
              obtain rfl := List.mem_singleton.mp ht
              refine ⟨before, c, rest, ?_⟩
              rw [String.toList_ofList]
              exact piece_some hpiece hkind

/-- A string is its inside between two quotes. -/
theorem Front.inside {before : Option Char} {c : Char} {rest taken : List Char} {kind : Kind}
    {value : String} (h : Front before c rest taken kind) (hkind : kind = .string value) :
    ∃ inside, Inside inside ∧ taken = '"' :: (inside ++ ['"']) := by
  cases h with
  | string body =>
      obtain ⟨inside, hinside, rfl⟩ := inside_of_stringBody body
      exact ⟨inside, hinside, rfl⟩
  | number | sign => cases hkind
  | word =>
      unfold wordKind at hkind
      split at hkind <;> cases hkind
  | dot => split at hkind <;> cases hkind

/-! ### Opening quotes -/

/-- A quote behind this text would open a string. With nothing behind it, it would be reported. -/
def Opens (front : List Char) : Prop :=
  scan (.ofList (front ++ ['"'])) = .error ⟨.unterminatedString, .after .first front⟩

theorem apart_quote (rest : List Char) : Apart ('"' :: rest) := apart_cons rfl rest

/-- Up to a quote that opens a string the scanner does the same whatever is behind the quote. -/
theorem scanFrom_quote {fuel : Nat} {before : Option Char} {start : Position} {front : List Char}
    (hfuel : (front ++ ['"']).length ≤ fuel)
    (h : scanFrom fuel before start (front ++ ['"']) =
      .error ⟨.unterminatedString, start.after front⟩) :
    ∃ own before', ∀ rest, scanFrom (front ++ '"' :: rest).length before start
    (front ++ '"' :: rest) =
      (scanFrom ('"' :: rest).length before' (start.after front) ('"' :: rest)).map (own ++ ·) := by
  induction fuel generalizing before start front with
  | zero => simp at hfuel
  | succ fuel ih =>
      cases front with
      | nil =>
          refine ⟨[], before, fun rest => ?_⟩
          rw [List.nil_append, Position.after_nil]
          cases scanFrom ('"' :: rest).length before start ('"' :: rest) <;> rfl
      | cons c rest =>
          rw [List.cons_append] at h
          cases hpiece : piece before c (rest ++ ['"']) with
          | error cause =>
              -- the fault would be at the first character
              rw [scanFrom_cons, hpiece] at h
              have hplace := congrArg (fun e => e.start.offset) (Except.error.inj h)
              simp only [Position.offset_after, List.length_cons] at hplace
              omega
          | ok p =>
              obtain ⟨behind, hsplit, hshorter⟩ := piece_split hpiece
              rw [scanFrom_piece hpiece hsplit] at h
              have hlater := map_eq_error.mp h
              -- the piece ends in front of the quote, or nothing would be left to report
              obtain ⟨cs, hcs, rfl⟩ : ∃ cs, c :: rest = p.taken ++ cs ∧ behind = cs ++ ['"'] := by
                rw [← List.cons_append] at hsplit
                obtain rfl | ⟨cs, q, rfl⟩ := List.eq_nil_or_concat behind
                · cases fuel <;> cases hlater
                · rw [List.concat_eq_append, ← List.append_assoc] at hsplit
                  obtain ⟨hcs, hq⟩ := List.append_inj' hsplit rfl
                  exact ⟨cs, hcs.symm, by rw [List.concat_eq_append, hq]⟩
              have hends : p.kind = none → c = '-' → cs ≠ [] := by
                rintro hkind rfl rfl
                cases piece_comment hpiece hkind rfl hsplit '"' rfl
              have hafter : start.after (c :: rest) = (start.after p.taken).after cs := by
                rw [hcs, Position.after_append]
              rw [hafter] at hlater ⊢
              have hroom : (cs ++ ['"']).length ≤ fuel :=
                Nat.le_trans hshorter (Nat.le_of_succ_le_succ hfuel)
              obtain ⟨own, before', hown⟩ := ih hroom hlater
              refine ⟨p.tokens start ++ own, before', fun more => ?_⟩
              rw [scanFrom_piece_apart (apart_quote []) hpiece hcs hends start (apart_quote more)
                (by simp), hown more]
              cases scanFrom ('"' :: more).length before' ((start.after p.taken).after cs)
                  ('"' :: more) with
              | error e => rfl
              | ok tokens => simp [Except.map]

/-- A string behind an opening quote is read if it is closed; else the quote is reported. -/
theorem Opens.scan_error_iff {front : List Char} (h : Opens front) (rest : List Char) :
    scan (.ofList (front ++ '"' :: rest)) = .error ⟨.unterminatedString, .after .first front⟩ ↔
      ¬Closed rest := by
  rw [Opens, scan_ofList] at h
  obtain ⟨own, before, hown⟩ := scanFrom_quote (Nat.le_refl _) h
  rw [scan_ofList, hown rest, map_eq_error, ← stringBody_isSome_iff]
  cases hbody : stringBody rest with
  | none =>
      refine ⟨fun _ => Bool.false_ne_true, fun _ => ?_⟩
      rw [List.length_cons, scanFrom_cons, piece_quote, hbody]
  | some read =>
      obtain ⟨value, raw, behind⟩ := read
      have hpiece : piece before '"' rest =
          .ok ⟨'"' :: raw, some (.string (String.ofList value))⟩ := by
        rw [piece_quote, hbody]
      have hsplit : '"' :: raw ++ behind = '"' :: rest := by
        rw [stringBody_eq hbody, List.cons_append]
      rw [List.length_cons, scanFrom_piece hpiece hsplit, map_eq_error, ← Position.after_append]
      refine ⟨fun herror => ?_, fun hclosed => absurd rfl hclosed⟩
      -- a later fault is further behind
      obtain ⟨gone, c, back, -, hplace⟩ := scanFrom_error _ herror
      have hoffset := congrArg Position.offset hplace
      simp only [Position.offset_after, List.length_append, List.length_cons] at hoffset
      omega

/-! ### Strings and their lines -/

/-- Strings stay on their lines but for escaped line ends. A string that the scanner accepts ends on
its line unless it escapes a line end. One that its line does not close is reported at the opening
quote, unless the line ends with half of a pair and the string is closed behind it. -/
theorem scan_strings (source : String) :
    (∀ tokens, scan source = .ok tokens → ∀ t ∈ tokens, ∀ value, t.kind = .string value →
      (t.span.start.line = t.span.stop.line ↔
        ¬∃ front back, t.lexeme.toList = '"' :: (front ++ '\\' :: '\n' :: back) ∧ Inside front)) ∧
    ∀ front line tail, source.toList = front ++ '"' :: (line ++ tail) → Opens front →
      (∀ c ∈ tail.head?, c = '\n') → ¬Closed line →
        (scan source = .error ⟨.unterminatedString, .after .first front⟩ ↔
          ¬(Carries line ∧ ∃ more, tail = '\n' :: more ∧ Closed more)) := by
  constructor
  · intro tokens h t ht value hkind
    obtain ⟨before, c, rest, hfront⟩ := scanFrom_front h t ht (by rw [hkind]; nofun)
    obtain ⟨inside, hinside, hlexeme⟩ := hfront.inside hkind
    obtain ⟨gone, back, -, hstart, hstop⟩ := (scanFrom_lies (Nat.le_refl _) h).stands [] rfl t ht
    have hlines : t.span.start.line = t.span.stop.line ↔ '\n' ∉ inside := by
      rw [hstart, hstop, Position.line_after, Position.line_after, List.count_append, hlexeme,
        ← List.count_eq_zero]
      simp
    rw [hlines, hinside.mem_line_iff, hlexeme, not_iff_not]
    constructor
    · rintro ⟨front, back, rfl, hfront⟩
      exact ⟨front, back ++ ['"'], by simp, hfront⟩
    · rintro ⟨front, back, heq, hfront⟩
      rw [← hinside.mem_line_iff]
      have hmem : '\n' ∈ inside ++ ['"'] := by simp [(List.cons.inj heq).2]
      simpa using hmem
  · intro front line tail hsource hopens htail hopen
    obtain rfl : source = .ofList (front ++ '"' :: (line ++ tail)) := by
      rw [← hsource, String.ofList_toList]
    rw [hopens.scan_error_iff, closed_append_iff htail hopen]

/-- An escaped backslash does not escape the line end behind it, so the string is reported, although
the next line closes it. -/
theorem scan_strings_backslashes : ∃ front line tail,
    "f \"a\\\\\nb\"".toList = front ++ '"' :: (line ++ tail) ∧ Opens front ∧
      (∀ c ∈ tail.head?, c = '\n') ∧ ¬Closed line ∧
      scan "f \"a\\\\\nb\"" = .error ⟨.unterminatedString, .after .first front⟩ := by
  have hsource : "f \"a\\\\\nb\"".toList =
      ['f', ' '] ++ '"' :: (['a', '\\', '\\'] ++ ['\n', 'b', '"']) := by decide
  have hopens : Opens ['f', ' '] := by
    rw [Opens, scan_ofList]
    decide +kernel
  have htail : ∀ c ∈ ['\n', 'b', '"'].head?, c = '\n' := by simp
  have hopen : ¬Closed ['a', '\\', '\\'] := stringBody_isSome_iff.not.mp (by decide)
  refine ⟨_, _, _, hsource, hopens, htail, hopen, ?_⟩
  refine ((scan_strings _).2 _ _ _ hsource hopens htail hopen).mpr ?_
  rintro ⟨⟨inside, hinside, heq⟩, -⟩
  obtain rfl : ['a', '\\'] = inside := List.append_cancel_right heq
  cases hinside with
  | plain _ _ _ more =>
      cases more with
      | plain _ _ hescape _ => exact hescape rfl

/-- A backslash at the end of a line carries a string over to the next one. -/
theorem not_sameLine_escapedLineEnd : ∃ tokens, scan "\"a\\\nb\"" = .ok tokens ∧
    ∃ t ∈ tokens, ∃ value, t.kind = .string value ∧ t.span.start.line ≠ t.span.stop.line := by
  have hrun : ((scan "\"a\\\nb\"").toOption.any fun tokens => tokens.any fun t =>
      (t.kind == .string "a\nb") && t.span.start.line == 1 && t.span.stop.line == 2) = true := by
    decide +kernel
  obtain ⟨tokens, hscan, htokens⟩ := any_toOption.mp hrun
  obtain ⟨t, ht, htest⟩ := List.any_eq_true.mp htokens
  simp only [Bool.and_eq_true, beq_iff_eq] at htest
  obtain ⟨⟨hkind, hstart⟩, hstop⟩ := htest
  exact ⟨tokens, hscan, t, ht, _, hkind, by rw [hstart, hstop]; decide⟩

end Prosaic.Token
