import Prosaic.Proofs.Token.Scan

/-!
Pieces of a text. A piece takes some characters off the front of the text, at least one, and it
takes the same ones whatever stands behind the next line end: all that a piece looks at are the
characters of its own line, unless a backslash carries a string over to the next one.
-/

namespace Prosaic.Token

/-! ### What is taken -/

/-- Anything but a quote, a line end and a backslash stands for itself in a string. -/
theorem stringBody_cons {c : Char} (hquote : c ≠ '"') (hline : c ≠ '\n') (hescape : c ≠ '\\')
    (cs : List Char) :
    stringBody (c :: cs) =
      (stringBody cs).map fun (value, raw, rest) => (c :: value, c :: raw, rest) := by
  rw [stringBody.eq_def]
  split <;> simp_all

theorem stringBody_eq {cs value raw rest : List Char}
    (h : stringBody cs = some (value, raw, rest)) : cs = raw ++ rest := by
  fun_induction stringBody cs generalizing value raw rest with
  | case1 | case3 | case4 => cases h
  | case2 => cases h; rfl
  | case5 c cs ih =>
      simp only [Option.map_eq_some_iff, Prod.exists, Prod.mk.injEq] at h
      obtain ⟨value', raw', rest', hbody, -, rfl, rfl⟩ := h
      rw [ih hbody]
      rfl
  | case6 c cs _ _ _ _ ih =>
      simp only [Option.map_eq_some_iff, Prod.exists, Prod.mk.injEq] at h
      obtain ⟨value', raw', rest', hbody, -, rfl, rfl⟩ := h
      rw [ih hbody]
      rfl

/-- The digits of a fraction stand behind the point. -/
theorem fraction?_eq_some {cs ds : List Char} (h : fraction? cs = some ds) :
    ∃ rest, cs = '.' :: (ds ++ rest) := by
  unfold fraction? at h
  split at h
  · next d rest =>
      split at h
      · obtain rfl := Option.some.inj h
        exact ⟨(d :: rest).dropWhile isDigit, by rw [List.takeWhile_append_dropWhile]⟩
      · cases h
  · cases h

theorem numeral_prefix (cs : List Char) : (numeral cs).1 <+: cs := by
  have hsplit := List.takeWhile_append_dropWhile (p := isDigit) (l := cs)
  unfold numeral
  dsimp only
  split
  · next fraction hfraction =>
      obtain ⟨rest, hrest⟩ := fraction?_eq_some hfraction
      refine ⟨rest, ?_⟩
      rw [hrest] at hsplit
      simpa using hsplit
  · exact List.takeWhile_prefix isDigit

theorem sign?_prefix {cs : List Char} {sign : Sign} (h : sign? cs = some sign) :
    sign.text.toList <+: cs := by
  unfold sign? at h
  split at h <;> first | (cases h; exact ⟨_, rfl⟩) | cases h

theorem sign_text_ne_nil (sign : Sign) : sign.text.toList ≠ [] := by
  cases sign <;> decide

theorem numeral_ne_nil {c : Char} (hc : isDigit c = true) (rest : List Char) :
    (numeral (c :: rest)).1 ≠ [] := by
  unfold numeral
  rw [List.takeWhile_cons_of_pos hc]
  dsimp only
  split <;> exact List.cons_ne_nil _ _

/-- A piece takes something, and takes it off the front of the text. -/
theorem piece_takes {before : Option Char} {c : Char} {rest : List Char} {p : Piece}
    (h : piece before c rest = .ok p) : p.taken ≠ [] ∧ p.taken <+: c :: rest := by
  unfold piece at h
  split at h
  · obtain rfl := Except.ok.inj h
    exact ⟨List.cons_ne_nil _ _, ⟨rest, rfl⟩⟩
  split at h
  · next hcomment =>
      obtain rfl := Except.ok.inj h
      obtain ⟨rfl, -⟩ := hcomment
      exact ⟨by simp, List.takeWhile_prefix _⟩
  split at h
  · split at h
    · next value raw behind hbody =>
        obtain rfl := Except.ok.inj h
        rw [stringBody_eq hbody]
        exact ⟨List.cons_ne_nil _ _, ⟨behind, rfl⟩⟩
    · cases h
  split at h
  · next hdigit =>
      have htaken := numeral_prefix (c :: rest)
      have hnonempty := numeral_ne_nil hdigit rest
      split at h
      · next taken value hnumeral =>
          obtain rfl := Except.ok.inj h
          rw [hnumeral] at htaken hnonempty
          exact ⟨hnonempty, htaken⟩
      · cases h
  split at h
  · next hstart =>
      obtain rfl := Except.ok.inj h
      have hname : isNameChar c = true := by rw [isNameChar, hstart, Bool.true_or]
      refine ⟨?_, List.takeWhile_prefix _⟩
      rw [List.takeWhile_cons_of_pos hname]
      exact List.cons_ne_nil _ _
  split at h
  · obtain rfl := Except.ok.inj h
    exact ⟨List.cons_ne_nil _ _, ⟨rest, rfl⟩⟩
  split at h
  · next sign hsign =>
      obtain rfl := Except.ok.inj h
      exact ⟨sign_text_ne_nil sign, sign?_prefix hsign⟩
  · cases h

/-- What stands behind a piece is shorter than what stood before it. -/
theorem piece_split {before : Option Char} {c : Char} {rest : List Char} {p : Piece}
    (h : piece before c rest = .ok p) :
    ∃ behind, p.taken ++ behind = c :: rest ∧ behind.length ≤ rest.length := by
  obtain ⟨hnonempty, behind, hsplit⟩ := piece_takes h
  have hlength : (p.taken ++ behind).length = rest.length + 1 := by
    rw [hsplit]
    rfl
  have htaken : 0 < p.taken.length := List.length_pos_iff.mpr hnonempty
  refine ⟨behind, hsplit, ?_⟩
  rw [List.length_append] at hlength
  omega

/-- Only separators and comments are passed over. -/
theorem piece_none {before : Option Char} {c : Char} {rest : List Char} {p : Piece}
    (h : piece before c rest = .ok p) (hkind : p.kind = none) :
    (isSeparator c = true ∧ p.taken = [c]) ∨
      ∃ more, c = '-' ∧ rest = '-' :: more ∧
        p.taken = '-' :: '-' :: more.takeWhile (· != '\n') := by
  unfold piece at h
  split at h
  · next hseparator =>
      obtain rfl := Except.ok.inj h
      exact .inl ⟨hseparator, rfl⟩
  split at h
  · next hcomment =>
      obtain rfl := Except.ok.inj h
      obtain ⟨rfl, hhead⟩ := hcomment
      obtain ⟨more, rfl⟩ := List.head?_eq_some_iff.mp hhead
      exact .inr ⟨more, rfl, rfl, by simp⟩
  -- whatever else a text starts with is a token
  · repeat' split at h
    all_goals first | (cases h; done) | (cases h; cases hkind)

/-- A comment goes on to the end of its line. -/
theorem piece_comment {before : Option Char} {c : Char} {rest behind : List Char} {p : Piece}
    (h : piece before c rest = .ok p) (hkind : p.kind = none) (hc : isSeparator c = false)
    (hsplit : p.taken ++ behind = c :: rest) : ∀ d ∈ behind.head?, d = '\n' := by
  obtain ⟨hseparator, -⟩ | ⟨more, rfl, rfl, htaken⟩ := piece_none h hkind
  · rw [hc] at hseparator
    cases hseparator
  · have hmore : more.takeWhile (· != '\n') ++ behind = more := by
      rw [htaken] at hsplit
      simpa using hsplit
    have hbehind : behind = more.dropWhile (· != '\n') :=
      List.append_cancel_left (hmore.trans List.takeWhile_append_dropWhile.symm)
    intro d hd
    have hstop := List.head?_dropWhile_not (· != '\n') more
    rw [← hbehind, hd] at hstop
    simpa using hstop

/-- A token at the front of a text, by the sorts of tokens: the text that it takes, and its kind. -/
inductive Front (before : Option Char) : Char → List Char → List Char → Kind → Prop
  | string {rest value raw behind : List Char}
      (body : stringBody rest = some (value, raw, behind)) :
      Front before '"' rest ('"' :: raw) (.string (String.ofList value))
  | number {c : Char} {rest taken : List Char} {value : Number} (digit : isDigit c = true)
      (value_eq : numeral (c :: rest) = (taken, some value)) :
      Front before c rest taken (.number value)
  | word {c : Char} {rest : List Char} (start : isNameStart c = true) :
      Front before c rest ((c :: rest).takeWhile isNameChar)
        (wordKind (String.ofList ((c :: rest).takeWhile isNameChar)))
  | dot (rest : List Char) :
      Front before '.' rest ['.'] (if selectsField before rest then .sign .dot else .terminator)
  | sign {c : Char} {rest : List Char} {sign : Sign} (read : sign? (c :: rest) = some sign) :
      Front before c rest sign.text.toList (.sign sign)

theorem piece_some {before : Option Char} {c : Char} {rest : List Char} {p : Piece} {kind : Kind}
    (h : piece before c rest = .ok p) (hkind : p.kind = some kind) :
    Front before c rest p.taken kind := by
  unfold piece at h
  split at h
  · cases h
    cases hkind
  split at h
  · cases h
    cases hkind
  split at h
  · next hquote =>
      subst hquote
      split at h
      · next value raw behind hbody =>
          cases h
          cases hkind
          exact .string hbody
      · cases h
  split at h
  · next hdigit =>
      split at h
      · next taken value hnumeral =>
          cases h
          cases hkind
          exact .number hdigit hnumeral
      · cases h
  split at h
  · next hstart =>
      cases h
      cases hkind
      exact .word hstart
  split at h
  · next hdot =>
      subst hdot
      cases h
      cases hkind
      exact .dot rest
  split at h
  · next sign hsign =>
      cases h
      cases hkind
      exact .sign hsign
  · cases h

/-! ### Where tokens end -/

/-- The characters with which a token in front of them could go on: those of words and numbers, a
decimal point, and the second half of a comparison. -/
def continues (c : Char) : Bool := isNameChar c || c == '.' || c == '='

/-- A text into which no word, number or sign in front of it goes on. -/
def Apart (tail : List Char) : Prop := ∀ d ∈ tail.head?, continues d = false

theorem apart_nil : Apart [] := by simp [Apart]

theorem apart_cons {d : Char} (hd : continues d = false) (tail : List Char) :
    Apart (d :: tail) := by
  simpa [Apart] using hd

section

variable {tail tail' : List Char}

theorem Apart.not_name (h : Apart tail) : ∀ d ∈ tail.head?, isNameChar d = false := by
  intro d hd
  have hcontinues := h d hd
  simp only [continues, Bool.or_eq_false_iff] at hcontinues
  exact hcontinues.1.1

theorem Apart.not_digit (h : Apart tail) : ∀ d ∈ tail.head?, isDigit d = false := by
  intro d hd
  have hname := h.not_name d hd
  simp only [isNameChar, Bool.or_eq_false_iff] at hname
  exact hname.2

theorem Apart.ne_equals (h : Apart tail) : tail.head? ≠ some '=' :=
  fun hequals => absurd (h '=' hequals) (by decide)

theorem Apart.ne_point (h : Apart tail) : tail.head? ≠ some '.' :=
  fun hpoint => absurd (h '.' hpoint) (by decide)

theorem takeWhile_apart {test : Char → Bool} (h : ∀ d ∈ tail.head?, test d = false)
    (cs : List Char) : (cs ++ tail).takeWhile test = cs.takeWhile test := by
  induction cs with
  | nil =>
      cases tail with
      | nil => rfl
      | cons d tail => simp [h d rfl]
  | cons c cs ih => simp [List.takeWhile_cons, ih]

theorem dropWhile_apart {test : Char → Bool} (h : ∀ d ∈ tail.head?, test d = false)
    (cs : List Char) : (cs ++ tail).dropWhile test = cs.dropWhile test ++ tail := by
  induction cs with
  | nil =>
      cases tail with
      | nil => rfl
      | cons d tail => simp [h d rfl]
  | cons c cs ih =>
      by_cases hc : test c
      · simp [hc, ih]
      · simp [hc]

/-- Only an equals sign makes a difference to the sign before it. -/
theorem sign?_of_head?_ne (c : Char) (rest : List Char) (h : rest.head? ≠ some '=') :
    sign? (c :: rest) = sign? [c] := by
  cases rest with
  | nil => rfl
  | cons d rest =>
      have hd : d ≠ '=' := by simpa using h
      unfold sign?
      split <;> simp_all

theorem sign?_equals (c : Char) (rest more : List Char) :
    sign? (c :: '=' :: rest) = sign? (c :: '=' :: more) := by
  by_cases hless : c = '<'
  · subst hless
    rfl
  by_cases hgreater : c = '>'
  · subst hgreater
    rfl
  unfold sign?
  split <;> simp_all

theorem sign?_apart (h : Apart tail) (c : Char) (rest : List Char) :
    sign? (c :: (rest ++ tail)) = sign? (c :: rest) := by
  match rest with
  | [] => exact sign?_of_head?_ne c _ h.ne_equals
  | d :: rest =>
      by_cases hd : d = '='
      · subst hd
        exact sign?_equals c _ _
      · rw [sign?_of_head?_ne c (d :: rest) (by simpa using hd)]
        exact sign?_of_head?_ne c _ (by simpa using hd)

theorem fraction?_apart (h : Apart tail) (cs : List Char) :
    fraction? (cs ++ tail) = fraction? cs := by
  match cs with
  | [] =>
      cases tail with
      | nil => rfl
      | cons d tail =>
          have hd : d ≠ '.' := by simpa using h.ne_point
          simp [fraction?, hd]
  | [c] =>
      cases tail with
      | nil => rfl
      | cons d tail =>
          have hd := h.not_digit d rfl
          by_cases hc : c = '.'
          · simp [fraction?, hc, hd]
          · simp [fraction?, hc]
  | c :: d :: rest =>
      by_cases hc : c = '.'
      · subst hc
        have hdigits : (d :: rest ++ tail).takeWhile isDigit = _ :=
          takeWhile_apart h.not_digit (d :: rest)
        simp only [List.cons_append] at hdigits
        simp only [fraction?, List.cons_append, hdigits]
      · simp [fraction?, hc]

theorem numeral_apart (h : Apart tail) (cs : List Char) : numeral (cs ++ tail) = numeral cs := by
  unfold numeral
  rw [takeWhile_apart h.not_digit, dropWhile_apart h.not_digit, fraction?_apart h]

theorem selectsField_apart (h : Apart tail) (before : Option Char) (rest : List Char) :
    selectsField before (rest ++ tail) = selectsField before rest := by
  unfold selectsField
  rw [takeWhile_apart h.not_name]
  cases rest with
  | cons c rest => rfl
  | nil =>
      cases tail with
      | nil => rfl
      | cons d tail =>
          have hd := h.not_name d rfl
          simp only [isNameChar, Bool.or_eq_false_iff] at hd
          simp [hd.1]

/-- A string that is closed is read up to its quote, whatever follows. -/
theorem stringBody_raw {cs value raw rest : List Char}
    (h : stringBody cs = some (value, raw, rest)) (more : List Char) :
    stringBody (raw ++ more) = some (value, raw, more) := by
  fun_induction stringBody cs generalizing value raw rest with
  | case1 | case3 | case4 => cases h
  | case2 => cases h; rfl
  | case5 c cs ih =>
      simp only [Option.map_eq_some_iff, Prod.exists, Prod.mk.injEq] at h
      obtain ⟨value', raw', rest', hbody, rfl, rfl, rfl⟩ := h
      simp [stringBody, ih hbody]
  | case6 c cs hquote hline hlast hescape ih =>
      simp only [Option.map_eq_some_iff, Prod.exists, Prod.mk.injEq] at h
      obtain ⟨value', raw', rest', hbody, rfl, rfl, rfl⟩ := h
      have hplain : c ≠ '\\' := by
        intro hc
        cases cs with
        | nil => exact hlast hc rfl
        | cons d cs => exact hescape d cs hc rfl
      rw [List.cons_append, stringBody_cons hquote hline hplain, ih hbody]
      rfl

/-- A quote starts a string. -/
theorem piece_quote (before : Option Char) (rest : List Char) :
    piece before '"' rest =
      match stringBody rest with
      | some (value, raw, _) => .ok ⟨'"' :: raw, some (.string (String.ofList value))⟩
      | none => .error .unterminatedString := by
  have hseparator : isSeparator '"' = false := by decide
  simp only [piece, hseparator]
  rfl

/-- A piece that ends in time is the same whatever stands behind the text that it is in. A comment
ends with its line, so for one the end of the line has to stay where it is. -/
theorem piece_apart {before : Option Char} {c : Char} {rest : List Char} {p : Piece}
    (htail : Apart tail) (htail' : Apart tail') (hminus : tail'.head? ≠ some '-')
    (h : piece before c (rest ++ tail) = .ok p) (hwithin : p.taken <+: c :: rest)
    (hcomment : p.kind = none → c = '-' → (c :: rest ++ tail').takeWhile (· != '\n') =
      (c :: rest ++ tail).takeWhile (· != '\n')) :
    piece before c (rest ++ tail') = .ok p := by
  by_cases hstring : c = '"'
  · subst hstring
    cases hbody : stringBody (rest ++ tail) with
    | none =>
        rw [piece_quote, hbody] at h
        cases h
    | some read =>
        obtain ⟨value, raw, behind⟩ := read
        rw [piece_quote, hbody] at h
        obtain rfl := Except.ok.inj h
        obtain ⟨more, hmore⟩ := hwithin
        obtain rfl : raw ++ more = rest := List.cons.inj hmore |>.2
        rw [piece_quote, List.append_assoc, stringBody_raw hbody]
  have hhead : c = '-' ∧ (rest ++ tail').head? = some '-' ↔
      c = '-' ∧ (rest ++ tail).head? = some '-' := by
    cases rest with
    | cons d rest => simp
    | nil =>
        -- with nothing between, a comment would take more than there is
        refine ⟨fun hboth => absurd hboth.2 hminus, fun hboth => ?_⟩
        obtain ⟨rfl, hdash⟩ := hboth
        obtain ⟨more, hmore⟩ := List.head?_eq_some_iff.mp hdash
        rw [hmore] at h
        obtain rfl := Except.ok.inj h
        have hlength := hwithin.length_le
        simp at hlength
  have hword : (c :: rest ++ tail').takeWhile isNameChar =
      (c :: rest ++ tail).takeWhile isNameChar := by
    rw [takeWhile_apart htail'.not_name, takeWhile_apart htail.not_name]
  have hnumeral : numeral (c :: rest ++ tail') = numeral (c :: rest ++ tail) := by
    rw [numeral_apart htail', numeral_apart htail]
  rw [List.cons_append, List.cons_append] at hword hnumeral hcomment
  unfold piece at h ⊢
  rw [if_neg hstring] at h ⊢
  rw [selectsField_apart htail, sign?_apart htail] at h
  rw [selectsField_apart htail', sign?_apart htail', hword, hnumeral]
  simp only [hhead]
  split at h
  · next hseparator => rw [if_pos hseparator, h]
  · next hseparator =>
      rw [if_neg hseparator]
      split at h
      · next hdashes =>
          obtain rfl := Except.ok.inj h
          rw [if_pos hdashes, hcomment rfl hdashes.1]
      · next hdashes => rw [if_neg hdashes, h]

/-- Further lines behind a text do not change the piece at its front. -/
theorem piece_line {before : Option Char} {c : Char} {rest : List Char} {p : Piece}
    (tail : List Char) (h : piece before c rest = .ok p) :
    piece before c (rest ++ '\n' :: tail) = .ok p := by
  have hwithin := (piece_takes h).2
  rw [← List.append_nil rest] at h
  refine piece_apart apart_nil (apart_cons rfl tail) (by simp) h hwithin fun _ _ => ?_
  rw [List.append_nil, takeWhile_apart (by simp)]

end

/-! ### The character before -/

/-- The characters behind which a dot may select a field. -/
def isOperandEnd (c : Char) : Bool := isNameChar c || c == ')' || c == ']'

/-- A text that starts with a word that is not reserved. -/
def startsName (cs : List Char) : Bool :=
  cs.head?.any isNameStart && (Keyword.ofText? (String.ofList (cs.takeWhile isNameChar))).isNone

theorem selectsField_eq (before : Option Char) (rest : List Char) :
    selectsField before rest = (before.any isOperandEnd && startsName rest) := by
  unfold startsName
  rw [← Bool.and_assoc]
  cases before <;> cases rest <;> rfl

/-- Only a dot is looked at from behind. -/
theorem piece_before {before before' : Option Char} {c : Char}
    (h : c = '.' → before.any isOperandEnd = before'.any isOperandEnd) (rest : List Char) :
    piece before c rest = piece before' c rest := by
  unfold piece
  by_cases hdot : c = '.'
  · rw [selectsField_eq, selectsField_eq, h hdot]
  · simp only [hdot, if_false]

/-- Nothing before a piece and a line end before it are the same to it. -/
theorem piece_first (c : Char) (rest : List Char) :
    piece (some '\n') c rest = piece none c rest := piece_before (fun _ => rfl) rest

/-! ### One piece after the other -/

/-- The token that a piece from `start` on is, if it is one. -/
def Piece.tokens (p : Piece) (start : Position) : List Token :=
  match p.kind with
  | some kind => [⟨kind, String.ofList p.taken, ⟨start, start.after p.taken⟩⟩]
  | none => []

theorem Piece.tokens_none (p : Piece) (h : p.kind = none) (start : Position) :
    p.tokens start = [] := by
  rw [tokens, h]

theorem Piece.tokens_some (p : Piece) {kind : Kind} (h : p.kind = some kind) (start : Position) :
    p.tokens start = [⟨kind, String.ofList p.taken, ⟨start, start.after p.taken⟩⟩] := by
  rw [tokens, h]

/-- A text that is not empty is its first piece and the tokens behind it. -/
theorem scanFrom_cons (fuel : Nat) (before : Option Char) (start : Position) (c : Char)
    (rest : List Char) :
    scanFrom (fuel + 1) before start (c :: rest) =
      match piece before c rest with
      | .error cause => .error ⟨cause, start⟩
      | .ok p => (scanFrom fuel p.taken.getLast? (start.after p.taken)
          ((c :: rest).drop p.taken.length)).map (p.tokens start ++ ·) := by
  rw [scanFrom]
  cases piece before c rest with
  | error cause => rfl
  | ok p =>
      dsimp only
      cases scanFrom fuel p.taken.getLast? (start.after p.taken)
          ((c :: rest).drop p.taken.length) with
      | error e => rfl
      | ok more => cases hkind : p.kind <;> simp [Piece.tokens, hkind, Except.map]

/-- The same with what is behind the piece by name. -/
theorem scanFrom_piece {before : Option Char} {c : Char} {rest behind : List Char} {p : Piece}
    (h : piece before c rest = .ok p) (hsplit : p.taken ++ behind = c :: rest) (fuel : Nat)
    (start : Position) :
    scanFrom (fuel + 1) before start (c :: rest) =
      (scanFrom fuel p.taken.getLast? (start.after p.taken) behind).map (p.tokens start ++ ·) := by
  rw [scanFrom_cons, h, ← hsplit]
  dsimp only
  rw [List.drop_left]

/-- A text starts with a piece if it scans. -/
theorem piece_of_scanFrom {fuel : Nat} {before : Option Char} {start : Position} {c : Char}
    {rest : List Char} {tokens : List Token}
    (h : scanFrom (fuel + 1) before start (c :: rest) = .ok tokens) :
    ∃ p, piece before c rest = .ok p := by
  rw [scanFrom_cons] at h
  cases hpiece : piece before c rest with
  | error cause =>
      rw [hpiece] at h
      cases h
  | ok p => exact ⟨p, rfl⟩

end Prosaic.Token
