import Mathlib.Data.Nat.Digits.Defs
import Prosaic.Document.Json
import Prosaic.Proofs.Token.Scan
import Prosaic.Text.Quoted
import Prosaic.Token.Scan
import Prosaic.TypeScript.Lowering

/-!
Tokens of the target language, as its readers take them from a text: each one as long as it can be,
so two marks that stand side by side may make up another one, and what follows a word or a number at
once belongs to it. Of all that can be written, only what stands on one line of plain code is read;
there are no comments and no templates. A string literal denotes the text that it is written for,
whatever characters there are in it.

Numbers are written as numerals: digits that do not start with a needless zero, with a fraction and
an exponent where there is one. Neither a sign nor anything else stands before the digits, as the
numbers of a program are not negative.
-/

namespace Prosaic.TypeScript

/-- A token of the target language. A number keeps the text it is written with. -/
inductive Lexeme
  | number (digits : String)
  | string (value : String)
  | word (name : String)
  | mark (text : String)
  deriving DecidableEq, Repr

/-! ### Words and numbers -/

def isWordStart (c : Char) : Bool := Token.isNameStart c || c == '$'

def isWordChar (c : Char) : Bool := isWordStart c || Token.isDigit c

/-- The digits before the point: a lone zero, or digits that do not start with one. -/
def wholeDigits : List Char → List Char × List Char
  | '0' :: cs => (['0'], cs)
  | cs => (cs.takeWhile Token.isDigit, cs.dropWhile Token.isDigit)

/-- The point and the digits behind it. -/
def fractionDigits : List Char → List Char × List Char
  | '.' :: cs => ('.' :: cs.takeWhile Token.isDigit, cs.dropWhile Token.isDigit)
  | cs => ([], cs)

/-- The sign of an exponent. -/
def exponentSign : List Char → List Char × List Char
  | '+' :: cs => (['+'], cs)
  | '-' :: cs => (['-'], cs)
  | cs => ([], cs)

/-- The exponent; without digits there is none. -/
def exponentDigits : List Char → List Char × List Char
  | [] => ([], [])
  | e :: cs =>
    let (sign, behind) := exponentSign cs
    let digits := behind.takeWhile Token.isDigit
    if (e = 'e' ∨ e = 'E') ∧ digits ≠ [] then
      (e :: (sign ++ digits), behind.dropWhile Token.isDigit)
    else ([], e :: cs)

/-- A number at the start of a text. Neither a word nor another digit may follow it at once. -/
def number? (cs : List Char) : Option (Lexeme × List Char) :=
  let (whole, cs) := wholeDigits cs
  let (fraction, cs) := fractionDigits cs
  let (exponent, cs) := exponentDigits cs
  if cs.head?.any isWordChar then none
  else some (.number (String.ofList (whole ++ fraction ++ exponent)), cs)

/-! ### Marks -/

/-- The marks of the language, longer ones first. -/
def marks : List String :=
  [">>>=", "...", "===", "!==", "**=", "<<=", ">>=", ">>>", "&&=", "||=", "??=", "=>", "==", "!=",
   "<=", ">=", "&&", "||", "??", "?.", "++", "--", "+=", "-=", "*=", "/=", "%=", "&=", "|=", "^=",
   "**", "<<", ">>", "//", "/*", "*/", "\x7b", "\x7d", "(", ")", "[", "]", ".", ";", ",", "<", ">",
   "+", "-", "*", "/", "%", "&", "|", "^", "!", "~", "?", ":", "=", "@", "#"]

/-- The longest mark at the start of a text. -/
def mark? (cs : List Char) : Option (Lexeme × List Char) :=
  (marks.find? fun m => m.toList.isPrefixOf cs).map fun m => (.mark m, cs.drop m.length)

/-! ### Texts -/

/-- Whether a number starts here: with a digit, or with a point before one. -/
def startsNumber : List Char → Bool
  | '.' :: d :: _ => Token.isDigit d
  | c :: _ => Token.isDigit c
  | [] => false

/-- The first token of a text, and what follows it. The escapes in a string are those that documents
have, too. -/
def lexeme? : List Char → Option (Lexeme × List Char)
  | [] => none
  | c :: cs =>
    if c = '"' then (Document.Json.stringBody cs).toOption.map fun (s, rest) => (.string s, rest)
    else if startsNumber (c :: cs) then number? (c :: cs)
    else if isWordStart c then
      some (.word (String.ofList ((c :: cs).takeWhile isWordChar)), (c :: cs).dropWhile isWordChar)
    else mark? (c :: cs)

/-- The tokens of a text of at most so many characters; spaces between them are skipped. -/
def lexemesUpTo : Nat → List Char → Option (List Lexeme)
  | _, [] => some []
  | 0, _ :: _ => none
  | n + 1, c :: cs =>
    if c = ' ' then lexemesUpTo n cs
    else do
      let (t, rest) ← lexeme? (c :: cs)
      let ts ← lexemesUpTo n rest
      return t :: ts

/-- The tokens of a text. -/
def lexemes? (text : String) : Option (List Lexeme) := lexemesUpTo text.length text.toList

end Prosaic.TypeScript

/-! ### Literals -/

namespace Prosaic.Text

open Document.Json (StringUnit stringUnits joinUnits hexUnit? stringBody consFirst unitChar)

/-! ### Code units -/

theorem hexValue?_hexDigit {n : Nat} (hn : n < 16) : hexValue? (hexDigit n) = some n := by
  have hall : ∀ k < 16, hexValue? (hexDigit k) = some k := by decide
  exact hall n hn

theorem exists_hex {n : Nat} (hn : n < 0x10000) :
    ∃ a b c d, hex 4 n = [a, b, c, d] ∧ hexUnit? a b c d = some n := by
  refine ⟨_, _, _, _, rfl, ?_⟩
  have hlast := hexValue?_hexDigit (Nat.mod_lt n (by decide : 0 < 16))
  have hthird := hexValue?_hexDigit (Nat.mod_lt (n / 16) (by decide : 0 < 16))
  have hsecond := hexValue?_hexDigit (Nat.mod_lt (n / 16 / 16) (by decide : 0 < 16))
  have hfirst := hexValue?_hexDigit (Nat.mod_lt (n / 16 / 16 / 16) (by decide : 0 < 16))
  simp only [hexUnit?, hfirst, hsecond, hthird, hlast, bind, Option.bind, pure]
  congr 1
  omega

/-! ### Characters -/

/-- What one character is written as, as a reader sees it. -/
def literalUnits (c : Char) : List StringUnit :=
  if c ∈ ['"', '\\', '\n', '\r', '\t', '\x08', '\x0c'] then [.char c]
  else if 0x20 ≤ c.toNat && c.toNat ≤ 0x7e then [.char c]
  else if c.toNat < 0x10000 then [.escaped c.toNat]
  else
    let n := c.toNat - 0x10000
    [.escaped (0xd800 + n / 0x400), .escaped (0xdc00 + n % 0x400)]

theorem toNat_lt (c : Char) : c.toNat < 0x110000 := by
  have := c.valid
  simp only [UInt32.isValidChar, Nat.isValidChar, Char.toNat] at *
  omega

theorem not_surrogate (c : Char) : c.toNat < 0xd800 ∨ 0xe000 ≤ c.toNat := by
  have := c.valid
  simp only [UInt32.isValidChar, Nat.isValidChar, Char.toNat] at *
  omega

theorem stringUnits_escapedUnit {n : Nat} (hn : n < 0x10000) {next : Char} {rest : List Char} :
    stringUnits (escapedUnit n ++ next :: rest) =
      (stringUnits (next :: rest)).map (consFirst (.escaped n)) := by
  obtain ⟨a, b, c, d, hhex, hunit⟩ := exists_hex hn
  rw [escapedUnit, hhex]
  simp [stringUnits, hunit]

theorem stringUnits_plain {c : Char} (hquote : c ≠ '"') (hslash : c ≠ '\\')
    (hspace : ¬c.toNat < 0x20) (rest : List Char) :
    stringUnits (c :: rest) = (stringUnits rest).map (consFirst (.char c)) := by
  generalize hr : stringUnits rest = r
  unfold stringUnits
  split
  · next h => cases h
  · next h => exact absurd (List.cons.inj h).1 hquote
  · next h => exact absurd (List.cons.inj h).1 hslash
  · next h => exact absurd (List.cons.inj h).1 hslash
  · next h => exact absurd (List.cons.inj h).1 hslash
  · next h =>
      obtain ⟨rfl, rfl⟩ := List.cons.inj h
      rw [if_neg hspace, hr]

theorem stringUnits_literalChar (c : Char) {next : Char} {rest : List Char} :
    stringUnits (literalChar c ++ next :: rest) =
      (stringUnits (next :: rest)).map fun r => (literalUnits c ++ r.1, r.2) := by
  by_cases hshort : c ∈ ['"', '\\', '\n', '\r', '\t', '\x08', '\x0c']
  · rw [show literalUnits c = [.char c] from if_pos hshort]
    simp only [List.mem_cons, List.not_mem_nil, or_false] at hshort
    rcases hshort with rfl | rfl | rfl | rfl | rfl | rfl | rfl <;> rfl
  · rw [literalUnits, if_neg hshort]
    simp only [List.mem_cons, List.not_mem_nil, or_false, not_or] at hshort
    obtain ⟨hquote, hslash, hn, hr, ht, hb, hf⟩ := hshort
    simp only [literalChar, hquote, hslash, hn, hr, ht, hb, hf, if_false]
    split
    · next hplain =>
        simp only [Bool.and_eq_true, decide_eq_true_eq] at hplain
        exact stringUnits_plain hquote hslash (by omega) (next :: rest)
    · split
      · next hbasic => exact stringUnits_escapedUnit hbasic
      -- a pair of surrogates
      · have hlt := toNat_lt c
        rw [List.append_assoc]
        refine (stringUnits_escapedUnit (by omega)).trans ?_
        refine (congrArg _ (stringUnits_escapedUnit (by omega))).trans ?_
        cases stringUnits (next :: rest) <;> rfl

/-- Joined again, the units of a character are that character. -/
theorem joinUnits_literalUnits (c : Char) (us : List StringUnit) :
    joinUnits (literalUnits c ++ us) = c :: joinUnits us := by
  unfold literalUnits
  split
  · rfl
  · split
    · rfl
    · have hsurrogate := not_surrogate c
      split
      · next hbasic =>
          have hchar : unitChar c.toNat = c := by
            rw [unitChar, if_neg, Char.ofNat_toNat]
            simp only [Bool.and_eq_true, decide_eq_true_eq]
            omega
          have hhigh : Document.Json.isHighSurrogate c.toNat = false := by
            simp only [Document.Json.isHighSurrogate, Bool.and_eq_false_iff,
              decide_eq_false_iff_not]
            omega
          rcases us with - | ⟨⟨d⟩ | ⟨n⟩, us⟩ <;> simp [joinUnits, hchar, hhigh]
      · next hbasic =>
          have hlt := toNat_lt c
          have hpair : (Document.Json.isHighSurrogate (0xd800 + (c.toNat - 0x10000) / 0x400) &&
              Document.Json.isLowSurrogate (0xdc00 + (c.toNat - 0x10000) % 0x400)) = true := by
            simp only [Document.Json.isHighSurrogate, Document.Json.isLowSurrogate,
              Bool.and_eq_true, decide_eq_true_eq]
            omega
          have hvalue : 0x10000 + (0xd800 + (c.toNat - 0x10000) / 0x400 - 0xd800) * 0x400 +
              (0xdc00 + (c.toNat - 0x10000) % 0x400 - 0xdc00) = c.toNat := by omega
          simp only [List.cons_append, List.nil_append, joinUnits, hpair, if_true, hvalue,
            Char.ofNat_toNat]

theorem stringUnits_literal (cs rest : List Char) :
    stringUnits (cs.flatMap literalChar ++ '"' :: rest) = .ok (cs.flatMap literalUnits, rest) := by
  induction cs with
  | nil => rfl
  | cons c cs ih =>
      obtain ⟨next, more, hmore⟩ : ∃ next more,
          cs.flatMap literalChar ++ '"' :: rest = next :: more :=
        List.exists_cons_of_ne_nil (by simp)
      rw [List.flatMap_cons, List.append_assoc, hmore, stringUnits_literalChar, ← hmore, ih]
      rfl

theorem joinUnits_literal (cs : List Char) : joinUnits (cs.flatMap literalUnits) = cs := by
  induction cs with
  | nil => rfl
  | cons c cs ih => rw [List.flatMap_cons, joinUnits_literalUnits, ih]

/-- A literal is read as the text that it denotes. -/
theorem stringBody_literal (s : String) (rest : List Char) :
    stringBody (s.toList.flatMap literalChar ++ '"' :: rest) = .ok (s, rest) := by
  rw [stringBody, stringUnits_literal]
  show Except.ok (String.ofList (joinUnits _), rest) = _
  rw [joinUnits_literal, String.ofList_toList]

end Prosaic.Text

/-! ### Numerals -/

namespace Prosaic.TypeScript

open Token (isDigit)

def AllDigits (cs : List Char) : Prop := ∀ c ∈ cs, isDigit c = true

/-- The digits of a number before its point. -/
def IsWhole (cs : List Char) : Prop := cs = ['0'] ∨ ∃ d ds, cs = d :: ds ∧ d ≠ '0' ∧ AllDigits cs

/-- A point and the digits behind it, if there are any. -/
def IsFraction (cs : List Char) : Prop := cs = [] ∨ ∃ ds, cs = '.' :: ds ∧ AllDigits ds

/-- An exponent, if there is one. -/
def IsExponent (cs : List Char) : Prop :=
  cs = [] ∨ ∃ sign ds, cs = 'e' :: sign :: ds ∧ (sign = '+' ∨ sign = '-') ∧ ds ≠ [] ∧ AllDigits ds

/-- A text that is a number of the target language. -/
structure IsNumeral (s : String) : Prop where
  parts : ∃ whole fraction exponent, s = String.ofList (whole ++ fraction ++ exponent) ∧
    IsWhole whole ∧ IsFraction fraction ∧ IsExponent exponent

/-! ### Reading -/

/-- What satisfies a condition is taken up to what does not. -/
theorem takeWhile_append_eq {p : Char → Bool} {cs rest : List Char} (hcs : ∀ c ∈ cs, p c = true)
    (hrest : ∀ c ∈ rest.head?, p c = false) :
    (cs ++ rest).takeWhile p = cs ∧ (cs ++ rest).dropWhile p = rest := by
  have hstop : rest.takeWhile p = [] ∧ rest.dropWhile p = rest := by
    cases rest with
    | nil => exact ⟨rfl, rfl⟩
    | cons c rest =>
        have hc : ¬p c = true := by simp [hrest c rfl]
        exact ⟨List.takeWhile_cons_of_neg hc, List.dropWhile_cons_of_neg hc⟩
  rw [List.takeWhile_append_of_pos hcs, List.dropWhile_append_of_pos hcs, hstop.1, hstop.2]
  exact ⟨List.append_nil cs, rfl⟩

theorem isDigit_eq_false_of_wordChar {c : Char} (h : isWordChar c = false) : isDigit c = false := by
  rw [isWordChar, Bool.or_eq_false_iff] at h
  exact h.2

section

variable {rest : List Char}

theorem wholeDigits_append {whole : List Char} (h : IsWhole whole)
    (hrest : ∀ c ∈ rest.head?, isDigit c = false) :
    wholeDigits (whole ++ rest) = (whole, rest) := by
  rcases h with rfl | ⟨d, ds, rfl, hd, hdigits⟩
  · rfl
  · obtain ⟨htake, hdrop⟩ := takeWhile_append_eq hdigits hrest
    rw [wholeDigits.eq_def]
    split
    · next cs hcs => exact absurd (List.cons.inj hcs).1 hd
    · rw [htake, hdrop]

theorem fractionDigits_append {fraction : List Char} (h : IsFraction fraction)
    (hrest : ∀ c ∈ rest.head?, isDigit c = false ∧ c ≠ '.') :
    fractionDigits (fraction ++ rest) = (fraction, rest) := by
  rcases h with rfl | ⟨ds, rfl, hdigits⟩
  · rw [fractionDigits.eq_def]
    split
    · next cs hcs =>
        exact absurd rfl (hrest '.' (by simp only [List.nil_append] at hcs; simp [hcs])).2
    · rfl
  · obtain ⟨htake, hdrop⟩ := takeWhile_append_eq hdigits fun c hc => (hrest c hc).1
    simp only [List.cons_append, fractionDigits, htake, hdrop]

theorem exponentDigits_append {exponent : List Char} (h : IsExponent exponent)
    (hrest : ∀ c ∈ rest.head?, isDigit c = false ∧ c ≠ 'e' ∧ c ≠ 'E') :
    exponentDigits (exponent ++ rest) = (exponent, rest) := by
  rcases h with rfl | ⟨sign, ds, rfl, hsign, hne, hdigits⟩
  · cases rest with
    | nil => rfl
    | cons c rest =>
        obtain ⟨-, hlower, hupper⟩ := hrest c rfl
        simp [exponentDigits, hlower, hupper]
  · obtain ⟨htake, hdrop⟩ := takeWhile_append_eq hdigits fun c hc => (hrest c hc).1
    have hsplit : exponentSign (sign :: (ds ++ rest)) = ([sign], ds ++ rest) := by
      rcases hsign with rfl | rfl <;> rfl
    simp [exponentDigits, hsplit, htake, hdrop, hne]

/-- A numeral is read as a whole if neither a word nor a number could go on behind it. -/
theorem number?_append {s : String} (h : IsNumeral s)
    (hrest : ∀ c ∈ rest.head?, isWordChar c = false ∧ c ≠ '.') :
    number? (s.toList ++ rest) = some (.number s, rest) := by
  obtain ⟨whole, fraction, exponent, rfl, hwhole, hfraction, hexponent⟩ := h.parts
  have hdigit : ∀ c ∈ rest.head?, isDigit c = false := fun c hc =>
    isDigit_eq_false_of_wordChar (hrest c hc).1
  have hletter : ∀ c ∈ rest.head?, c ≠ 'e' ∧ c ≠ 'E' := by
    rintro c hc
    have := (hrest c hc).1
    constructor <;> rintro rfl <;> simp [isWordChar, isWordStart, Token.isNameStart] at this
  -- each part ends where the next one, or what follows, starts
  have hbehindFraction : ∀ c ∈ (exponent ++ rest).head?, isDigit c = false ∧ c ≠ '.' := by
    rcases hexponent with rfl | ⟨sign, ds, rfl, -⟩
    · exact fun c hc => ⟨hdigit c hc, (hrest c hc).2⟩
    · rintro c hc
      obtain rfl : 'e' = c := Option.some.inj hc
      exact ⟨by decide, by decide⟩
  have hbehindWhole : ∀ c ∈ (fraction ++ (exponent ++ rest)).head?, isDigit c = false := by
    rcases hfraction with rfl | ⟨ds, rfl, -⟩
    · exact fun c hc => (hbehindFraction c hc).1
    · rintro c hc
      obtain rfl : '.' = c := Option.some.inj hc
      decide
  have hend : ¬rest.head?.any isWordChar = true := by
    cases rest with
    | nil => simp
    | cons c rest => simp [(hrest c rfl).1]
  simp only [number?, String.toList_ofList, List.append_assoc,
    wholeDigits_append hwhole hbehindWhole, fractionDigits_append hfraction hbehindFraction,
    exponentDigits_append hexponent fun c hc => ⟨hdigit c hc, hletter c hc⟩, hend]
  rfl

end

/-! ### Digits of natural numbers -/

theorem allDigits_toDigits (n : Nat) : AllDigits (Nat.toDigits 10 n) := by
  intro c hc
  have h := Nat.isDigit_of_mem_toDigits (by decide) (by decide) hc
  simpa [Char.isDigit, isDigit, Char.le_def] using h

/-- A positive number does not start with a zero. -/
theorem exists_toDigits {n : Nat} (hn : 0 < n) : ∃ d ds, Nat.toDigits 10 n = d :: ds ∧ d ≠ '0' := by
  induction n using Nat.strongRecOn with
  | ind n ih =>
      rw [Nat.toDigits_eq_if (by decide)]
      by_cases hsmall : n < 10
      · rw [if_pos hsmall]
        refine ⟨_, _, rfl, ?_⟩
        have hall : ∀ k < 10, 0 < k → Nat.digitChar k ≠ '0' := by decide
        exact hall n hsmall hn
      · obtain ⟨d, ds, hds, hd⟩ := ih (n / 10) (by omega) (by omega)
        rw [if_neg hsmall, hds]
        exact ⟨d, _, rfl, hd⟩

theorem isWhole_toDigits (n : Nat) : IsWhole (Nat.toDigits 10 n) := by
  cases n with
  | zero => exact .inl rfl
  | succ n =>
      obtain ⟨d, ds, hds, hd⟩ := exists_toDigits (Nat.succ_pos n)
      exact .inr ⟨d, ds, hds, hd, allDigits_toDigits _⟩

theorem isNumeral_nat (n : Nat) : IsNumeral (toString n) := by
  refine ⟨Nat.toDigits 10 n, [], [], ?_, isWhole_toDigits n, .inl rfl, .inl rfl⟩
  rw [List.append_nil, List.append_nil, Nat.toString_eq_ofList_toDigits]

/-! ### Decimals -/

open Decimal (Style Interval)

theorem isExponent_exponentText (p : Int) : IsExponent (Decimal.exponentText p).toList := by
  have hdigits : AllDigits (toString p.natAbs).toList := by
    rw [Nat.toString_eq_ofList_toDigits, String.toList_ofList]
    exact allDigits_toDigits _
  have hne : (toString p.natAbs).toList ≠ [] := by
    rw [Nat.toString_eq_ofList_toDigits, String.toList_ofList]
    exact Nat.toDigits_ne_nil
  have hsign : ∃ sign, (if p < 0 then "-" else "+").toList = [sign] ∧
      (sign = '+' ∨ sign = '-') := by
    split
    · exact ⟨'-', rfl, .inr rfl⟩
    · exact ⟨'+', rfl, .inl rfl⟩
  obtain ⟨sign, htext, hsign⟩ := hsign
  simp only [Decimal.exponentText, String.toList_append, htext]
  split
  · refine .inr ⟨sign, '0' :: (toString p.natAbs).toList, by simp, hsign, by simp, ?_⟩
    exact List.forall_mem_cons.mpr ⟨by decide, hdigits⟩
  · exact .inr ⟨sign, (toString p.natAbs).toList, rfl, hsign, hne, hdigits⟩

theorem allDigits_zeros (n : Nat) : AllDigits (List.replicate n '0') := fun c hc => by
  rw [List.eq_of_mem_replicate hc]
  decide

/-- Digits that do not start with a zero, wherever the point is put, make up a numeral. -/
theorem isNumeral_write {d : Char} {ds : List Char} (hd : d ≠ '0') (hdigits : AllDigits (d :: ds))
    (power : Int) : IsNumeral (Style.plain.write (d :: ds) power) := by
  have hwhole : ∀ more, AllDigits more → IsWhole (d :: more) := fun more hmore =>
    .inr ⟨d, more, rfl, hd, List.forall_mem_cons.mpr ⟨hdigits d List.mem_cons_self, hmore⟩⟩
  have htail : AllDigits ds := fun c hc => hdigits c (List.mem_cons_of_mem d hc)
  unfold Style.write
  split
  · split
    -- the point stands before all digits
    · refine ⟨['0'], '.' :: (List.replicate (-power - 1).toNat '0' ++ (d :: ds)), [], ?_, .inl rfl,
        .inr ⟨_, rfl, ?_⟩, .inl rfl⟩
      · rw [← String.toList_inj]
        simp
      · exact List.forall_mem_append.mpr ⟨allDigits_zeros _, hdigits⟩
    · simp only
      split
      -- behind all of them
      · refine ⟨d :: (ds ++ List.replicate (power.toNat + 1 - (d :: ds).length) '0'),
          ['.', '0'], [], ?_, hwhole _ (List.forall_mem_append.mpr ⟨htail, allDigits_zeros _⟩),
          .inr ⟨['0'], rfl, allDigits_zeros 1⟩, .inl rfl⟩
        rw [← String.toList_inj]
        simp [Style.plain]
      -- or somewhere between
      · refine ⟨d :: ds.take power.toNat, '.' :: ds.drop power.toNat, [], ?_,
          hwhole _ fun c hc => htail c (List.mem_of_mem_take hc),
          .inr ⟨_, rfl, fun c hc => htail c (List.mem_of_mem_drop hc)⟩, .inl rfl⟩
        rw [← String.toList_inj]
        simp
  · simp only [List.drop_succ_cons, List.drop_zero, List.take_succ_cons, List.take_zero]
    refine ⟨[d], if ds.isEmpty then [] else '.' :: ds, (Decimal.exponentText power).toList, ?_,
      hwhole [] (by simp [AllDigits]), ?_, isExponent_exponentText power⟩
    · rw [← String.toList_inj]
      split <;> simp
    · split
      · exact .inl rfl
      · exact .inr ⟨ds, rfl, htail⟩

/-! ### Numbers of programs -/

/-- No positive double has nothing for its shortest digits. -/
theorem holds_zero {i : Interval} (hi : 0 < i.low) (exponent power : Int) :
    i.holds exponent 0 power = false := by
  have hunit : 0 < Nat.pow 10 (-power).toNat * Nat.pow 2 exponent.toNat :=
    Nat.mul_pos (Nat.pow_pos (by decide)) (Nat.pow_pos (by decide))
  have hlow := Nat.mul_pos hi hunit
  unfold Interval.holds
  simp only [Nat.zero_mul]
  split
  · rw [decide_eq_false (by omega), Bool.false_and]
  · rw [decide_eq_false (by omega), Bool.false_and]

theorem shortOf?_pos {mantissa count : Nat} {exponent : Int} {d : Decimal} (hm : 0 < mantissa)
    (h : Decimal.shortOf? mantissa exponent count = some d) : 0 < d.digits := by
  have hlow : 0 < (Interval.around mantissa exponent).low := by
    unfold Interval.around
    simp only
    split <;> omega
  have hpos : ∀ digits power, (Interval.around mantissa exponent).holds
      (exponent - 2) digits power =
      true → 0 < digits := by
    intro digits power hholds
    refine Nat.pos_of_ne_zero fun hzero => ?_
    rw [hzero, holds_zero hlow] at hholds
    cases hholds
  unfold Decimal.shortOf? at h
  simp only at h
  split at h
  · next hfits => exact Option.some.inj h ▸ hpos _ _ hfits
  · split at h
    · next hfits => exact Option.some.inj h ▸ hpos _ _ hfits
    · split at h
      · next hfits => exact Option.some.inj h ▸ hpos _ _ hfits
      · cases h

theorem dropZeros_pos {fuel : Nat} {d : Decimal} (h : 0 < d.digits) :
    0 < (Decimal.dropZeros fuel d).digits := by
  induction fuel generalizing d with
  | zero => exact h
  | succ fuel ih =>
      unfold Decimal.dropZeros
      split
      · exact ih (by simp only; omega)
      · exact h

theorem shortest_pos {mantissa : Nat} (exponent : Int) (hm : 0 < mantissa) :
    0 < (Decimal.shortest mantissa exponent).digits := by
  unfold Decimal.shortest
  split
  · next d hd =>
      obtain ⟨count, -, hcount⟩ := List.exists_of_findSome?_eq_some hd
      exact dropZeros_pos (shortOf?_pos hm hcount)
  · exact hm

theorem isNumeral_decimal {d : Decimal} (h : 0 < d.digits) : IsNumeral (d.write .plain) := by
  obtain ⟨c, cs, hcs, hc⟩ := exists_toDigits h
  have hdigits : AllDigits (c :: cs) := hcs ▸ allDigits_toDigits d.digits
  have htext : (toString d.digits).toList = c :: cs := by
    rw [Nat.toString_eq_ofList_toDigits, String.toList_ofList, hcs]
  simp only [Decimal.write, htext]
  exact isNumeral_write hc hdigits _

theorem isNegative_ofRatio {negative : Bool} {num den : Nat} :
    (Binary64.ofRatio negative num den).isNegative = negative := by
  unfold Binary64.ofRatio
  simp only
  repeat' split
  all_goals rfl

theorem isNegative_ofDecimal {negative : Bool} {digits : Nat} {exponent : Int} :
    (Binary64.ofDecimal negative digits exponent).isNegative = negative := by
  unfold Binary64.ofDecimal
  repeat' split
  all_goals first | rfl | exact isNegative_ofRatio

/-- The numbers of a program are not negative. -/
theorem not_negative_of_isLiteral {n : Number} (h : n.IsLiteral) :
    (∃ k : Nat, n = .integer k) ∨ ∃ x : Binary64, n = .real x ∧ x.isNegative = false := by
  obtain ⟨cs, hcs⟩ := h
  unfold Token.numeral at hcs
  simp only at hcs
  split at hcs
  · split at hcs
    · exact .inr ⟨_, (Option.some.inj hcs).symm, isNegative_ofDecimal⟩
    · cases hcs
  · split at hcs
    · exact .inl ⟨_, (Option.some.inj hcs).symm⟩
    · cases hcs

/-- A number of a program is written as a numeral. -/
theorem isNumeral_numberDigits {n : Number} {digits : String} (hn : n.IsLiteral)
    (h : numberDigits n = .ok digits) : IsNumeral digits := by
  rcases not_negative_of_isLiteral hn with ⟨k, rfl⟩ | ⟨x, rfl, hx⟩
  · obtain rfl := Except.ok.inj h
    exact isNumeral_nat k
  · cases x with
    | infinite s | nan => cases h
    | finite s m e =>
        obtain rfl : s = false := hx
        obtain rfl := Except.ok.inj h
        split
        · exact isNumeral_nat _
        · unfold Binary64.text Binary64.textWith
          by_cases hm : m = 0
          · refine ⟨['0'], ['.', '0'], [], ?_, .inl rfl,
              .inr ⟨['0'], rfl, allDigits_zeros 1⟩, .inl rfl⟩
            rw [← String.toList_inj]
            simp [hm, Style.plain]
          · simpa [hm] using isNumeral_decimal (shortest_pos e (Nat.pos_of_ne_zero hm))

end Prosaic.TypeScript
