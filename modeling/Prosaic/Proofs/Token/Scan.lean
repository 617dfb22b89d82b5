import Prosaic.Program.Tree
import Prosaic.Token.Scan

/-!
What the tokens of a text are: the last one, and no other, marks the end, the numbers among them are
values of literals, and a name is a word that is not reserved.
-/

namespace Prosaic

/-- A number that a literal of the language can stand for. -/
def Number.IsLiteral (n : Number) : Prop := ∃ cs, (Token.numeral cs).2 = some n

/-- A word of the language: letters, digits and underscores, and no digit first. -/
def isWord : List Char → Bool
  | [] => false
  | c :: cs => Token.isNameStart c && cs.all Token.isNameChar

/-- A name of the language: a word that is not reserved. -/
structure IsName (s : String) : Prop where
  word : isWord s.toList = true
  free : Keyword.ofText? s = none

/-- What stands in place of an unreadable name is none. -/
theorem IsName.ne_unreadable {s : String} (h : IsName s) : s ≠ unreadableName := by
  rintro rfl
  have hword : isWord unreadableName.toList = false := by decide
  rw [h.word] at hword
  cases hword

namespace Token

theorem finite_numeral {cs : List Char} {x : Binary64} (h : (numeral cs).2 = some (.real x)) :
    x.isFinite = true := by
  unfold numeral at h
  split at h
  · dsimp only at h
    split at h
    · next hfinite =>
        obtain rfl : nearest _ _ = x := by simpa using h
        exact hfinite
    · cases h
  · dsimp only at h
    split at h <;> simp at h

/-- What the scanner promises about the contents of a token. -/
structure Proper (t : Token) : Prop where
  number : ∀ n, t.kind = .number n → n.IsLiteral
  identifier : ∀ name, t.kind = .identifier name → t.lexeme = name ∧ IsName name

theorem Proper.name {t : Token} {name : String} (h : t.Proper) (hkind : t.kind = .identifier name) :
    IsName t.lexeme := by
  obtain ⟨hlexeme, hname⟩ := h.identifier name hkind
  exact hlexeme ▸ hname

theorem wordKind_ne_eof (word : String) : wordKind word ≠ .eof := by
  unfold wordKind
  split <;> simp

/-- No word starts with a digit. -/
theorem isDigit_of_isNameStart {c : Char} (h : isNameStart c = true) : isDigit c = false := by
  refine Bool.eq_false_iff.mpr fun hdigit => ?_
  simp only [isDigit, Bool.and_eq_true, decide_eq_true_eq, Char.le_def,
    UInt32.le_iff_toNat_le] at hdigit
  simp only [isNameStart, Bool.or_eq_true, Bool.and_eq_true, decide_eq_true_eq, Char.le_def,
    UInt32.le_iff_toNat_le, beq_iff_eq] at h
  have hbounds : '0'.val.toNat = 48 ∧ '9'.val.toNat = 57 ∧ 'a'.val.toNat = 97 ∧
      'A'.val.toNat = 65 := ⟨rfl, rfl, rfl, rfl⟩
  rcases h with (h | h) | rfl
  · omega
  · omega
  · exact absurd hdigit.2 (by decide)

theorem isWord_takeWhile {c : Char} (rest : List Char) (hc : isNameStart c = true) :
    isWord ((c :: rest).takeWhile isNameChar) = true := by
  have hname : isNameChar c = true := by rw [isNameChar, hc, Bool.true_or]
  rw [List.takeWhile_cons_of_pos hname, isWord, hc, Bool.true_and]
  exact List.all_takeWhile

theorem piece_proper {before : Option Char} {c : Char} {rest : List Char} {p : Piece} {kind : Kind}
    (h : piece before c rest = .ok p) (hkind : p.kind = some kind) (span : Span) :
    kind ≠ .eof ∧ Proper ⟨kind, String.ofList p.taken, span⟩ := by
  -- one case for each sort of piece; numbers and words alone could go wrong
  unfold piece at h
  split at h
  · cases h
    cases hkind
  · split at h
    · cases h
      cases hkind
    · split at h
      · split at h
        · cases h
          cases hkind
          exact ⟨by simp, by simp, by simp⟩
        · cases h
      · split at h
        · split at h
          · next value hnumeral =>
              cases h
              cases hkind
              refine ⟨by simp, fun n hn => ?_, by simp⟩
              obtain rfl : value = n := by simpa using hn
              exact ⟨_, congrArg Prod.snd hnumeral⟩
          · cases h
        · split at h
          · next hstart =>
              cases h
              cases hkind
              refine ⟨wordKind_ne_eof _, fun n hn => ?_, fun name hname => ?_⟩
              · unfold wordKind at hn
                split at hn <;> cases hn
              · have hword := isWord_takeWhile rest hstart
                unfold wordKind at hname
                split at hname
                · cases hname
                · next hfree =>
                    cases hname
                    exact ⟨rfl, by rwa [String.toList_ofList], hfree⟩
          · split at h
            · cases h
              cases hkind
              split <;> exact ⟨by simp, by simp, by simp⟩
            · split at h
              · cases h
                cases hkind
                exact ⟨by simp, by simp, by simp⟩
              · cases h

/-- The tokens of a text are proper, and the last one, and no other, marks the end. -/
theorem scanFrom_spec {fuel : Nat} {before : Option Char} {start : Position} {cs : List Char}
    {tokens : List Token} (h : scanFrom fuel before start cs = .ok tokens) :
    ∃ init stop, tokens = init ++ [stop] ∧ stop.kind = .eof ∧ Proper stop ∧
      ∀ t ∈ init, t.kind ≠ .eof ∧ Proper t := by
  induction fuel generalizing before start cs tokens with
  | zero =>
      obtain rfl := Except.ok.inj h
      exact ⟨[], _, rfl, rfl, ⟨by simp, by simp⟩, by simp⟩
  | succ fuel ih =>
      cases cs with
      | nil =>
          obtain rfl := Except.ok.inj h
          exact ⟨[], _, rfl, rfl, ⟨by simp, by simp⟩, by simp⟩
      | cons c rest =>
          cases hpiece : piece before c rest with
          | error cause => simp [scanFrom, hpiece] at h
          | ok p =>
              cases hrest : scanFrom fuel p.taken.getLast? (start.after p.taken)
                  ((c :: rest).drop p.taken.length) with
              | error e => simp [scanFrom, hpiece, hrest] at h
              | ok more =>
                  -- a piece without a kind is passed over; any other becomes a token in front
                  obtain ⟨init, stop, rfl, hstop, hlast, hproper⟩ := ih hrest
                  cases hkind : p.kind with
                  | none =>
                      simp only [scanFrom, hpiece, hrest, hkind, Except.ok.injEq] at h
                      exact ⟨init, stop, h.symm, hstop, hlast, hproper⟩
                  | some kind =>
                      simp only [scanFrom, hpiece, hrest, hkind, Except.ok.injEq] at h
                      refine ⟨_ :: init, stop, h.symm, hstop, hlast, ?_⟩
                      exact List.forall_mem_cons.mpr ⟨piece_proper hpiece hkind _, hproper⟩

theorem scan_spec {source : String} {tokens : List Token} (h : scan source = .ok tokens) :
    ∃ init stop, tokens = init ++ [stop] ∧ stop.kind = .eof ∧ Proper stop ∧
      ∀ t ∈ init, t.kind ≠ .eof ∧ Proper t :=
  scanFrom_spec h

theorem scan_proper {source : String} {tokens : List Token} (h : scan source = .ok tokens) :
    ∀ t ∈ tokens, Proper t := by
  obtain ⟨init, stop, rfl, -, hstop, hinit⟩ := scan_spec h
  exact List.forall_mem_append.mpr ⟨fun t ht => (hinit t ht).2, List.forall_mem_singleton.mpr hstop⟩

/-- A text that is given by its characters is scanned without decoding its bytes, which is most of
the work where a literal is scanned by evaluation. -/
theorem scan_ofList (cs : List Char) : scan (.ofList cs) = scanFrom cs.length none .first cs := by
  rw [scan, String.toList_ofList]

theorem append_eq_ofList {s t : String} {cs ds : List Char} (hs : s = .ofList cs)
    (ht : t = .ofList ds) : s ++ t = .ofList (cs ++ ds) := by
  rw [hs, ht, String.ofList_append]

end Token

end Prosaic
