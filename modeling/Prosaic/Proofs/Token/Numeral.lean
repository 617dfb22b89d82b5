import Prosaic.Proofs.Numeric.Binary64
import Prosaic.Proofs.Token.Layout
import Prosaic.Proofs.TypeScript.Reader.Lexeme
import Prosaic.TypeScript.Print

/-!
Number literals. One is taken exactly if it is below the limit from which the nearest double is
infinite, whatever stands around it. One without a point stands for its exact value, and that is
written again with the same digits but for zeros at the front.
-/

namespace Prosaic.Token

open TypeScript (AllDigits takeWhile_append_eq allDigits_toDigits)

/-! ### Digits -/

theorem digitsValue_concat (ds : List Char) (d : Char) :
    digitsValue (ds ++ [d]) = 10 * digitsValue ds + (d.toNat - '0'.toNat) := by
  simp [digitsValue]

theorem digitsValue_toDigits (n : Nat) : digitsValue (Nat.toDigits 10 n) = n :=
  Nat.ofDigitChars_toDigits (by decide) (by decide)

/-- Digits without the zeros at their front; of nothing but zeros one stays. -/
def dropZeros (ds : List Char) : List Char :=
  match ds.dropWhile (· = '0') with
  | [] => ['0']
  | rest => rest

theorem dropZeros_concat (ds : List Char) (d : Char) :
    dropZeros (ds ++ [d]) = if ds.all (· = '0') then [d] else dropZeros ds ++ [d] := by
  unfold dropZeros
  rw [List.dropWhile_append]
  cases hrest : ds.dropWhile (· = '0') with
  | nil =>
      have hall : ds.all (· = '0') = true := by
        simpa [List.dropWhile_eq_nil_iff] using hrest
      by_cases hd : d = '0' <;> simp [hall, hd]
  | cons c rest =>
      have hall : ¬ds.all (· = '0') = true := by
        intro hall
        rw [List.dropWhile_eq_nil_iff.mpr (by simpa using hall)] at hrest
        cases hrest
      simp [hall]

/-- Zeros, and only they, leave a lone zero. -/
theorem dropZeros_eq_zero_iff {ds : List Char} :
    dropZeros ds = ['0'] ↔ ds.all (· = '0') = true := by
  have hall : ds.all (· = '0') = true ↔ ds.dropWhile (· = '0') = [] := by
    simp [List.dropWhile_eq_nil_iff]
  rw [hall, dropZeros]
  cases hrest : ds.dropWhile (· = '0') with
  | nil => exact iff_of_true rfl rfl
  | cons c rest =>
      have hhead := List.head?_dropWhile_not (fun d : Char => decide (d = '0')) ds
      rw [hrest] at hhead
      refine iff_of_false (fun hlone => ?_) (List.cons_ne_nil c rest)
      simp [(List.cons.inj hlone).1] at hhead

theorem exists_digitChar {d : Char} (hd : isDigit d = true) :
    ∃ k < 10, d = Nat.digitChar k ∧ d.toNat - '0'.toNat = k := by
  simp only [isDigit, Bool.and_eq_true, decide_eq_true_eq, Char.le_def,
    UInt32.le_iff_toNat_le] at hd
  have hbounds : '0'.val.toNat = 48 ∧ '9'.val.toNat = 57 := ⟨rfl, rfl⟩
  have hvalue : d.toNat = d.val.toNat := rfl
  have hzero : '0'.toNat = 48 := rfl
  have hchars : ∀ k < 10, Nat.digitChar k = Char.ofNat (48 + k) := by decide
  refine ⟨d.toNat - '0'.toNat, by omega, ?_, rfl⟩
  rw [hchars _ (by omega), hzero, Nat.add_sub_cancel' (by omega), Char.ofNat_toNat]

/-- A number is written with the digits that it is read from. -/
theorem toDigits_digitsValue {ds : List Char} (h : AllDigits ds) :
    Nat.toDigits 10 (digitsValue ds) = dropZeros ds := by
  induction ds using List.reverseRecOn with
  | nil => rfl
  | append_singleton ds d ih =>
      obtain ⟨hds, hd⟩ := List.forall_mem_append.mp h
      obtain ⟨k, hk, hchar, hvalue⟩ := exists_digitChar (hd d List.mem_cons_self)
      have hdigit : Nat.toDigits 10 k = [d] := by rw [Nat.toDigits_of_lt_base hk, hchar]
      rw [digitsValue_concat, dropZeros_concat, hvalue]
      have hzero : digitsValue ds = 0 ↔ ds.all (· = '0') = true := by
        rw [← dropZeros_eq_zero_iff, ← ih hds]
        refine ⟨fun h => h ▸ rfl, fun h => ?_⟩
        rw [← digitsValue_toDigits (digitsValue ds), h]
        rfl
      split_ifs with hzeros
      · rw [hzero.mpr hzeros, Nat.mul_zero, Nat.zero_add, hdigit]
      · have hpos : 0 < digitsValue ds := Nat.pos_of_ne_zero (hzeros ∘ hzero.mp)
        rw [← Nat.toDigits_append_toDigits (by decide) hpos hk, ih hds, hdigit]

/-! ### Literals -/

/-- A number literal as it is written: digits, and perhaps a point and digits behind it. -/
structure NumberText where
  whole : List Char
  fraction : Option (List Char)
  whole_ne_nil : whole ≠ []
  whole_digits : AllDigits whole
  fraction_ne_nil : ∀ ds ∈ fraction, ds ≠ []
  fraction_digits : ∀ ds ∈ fraction, AllDigits ds

namespace NumberText

variable (w : NumberText) {tail : List Char}

def chars : List Char := w.whole ++ w.fraction.elim [] ('.' :: ·)

theorem length_chars_pos : 0 < w.chars.length := by
  have hwhole := List.length_pos_iff.mpr w.whole_ne_nil
  rw [chars, List.length_append]
  omega

/-- The text of a literal. -/
def text : String := String.ofList w.chars

/-- The digits behind the point. -/
def decimals : List Char := w.fraction.getD []

/-- The exact value of a literal. -/
def value : ℚ := digitsValue (w.whole ++ w.decimals) / 10 ^ w.decimals.length

/-- The number that a token holds for a literal. -/
def number : Number :=
  match w.fraction with
  | none => .integer (digitsValue w.whole)
  | some ds => .real (nearest w.whole ds)

/-- What stands behind a literal does not belong to it. -/
structure EndsBefore (tail : List Char) : Prop where
  no_digit : ∀ c ∈ tail.head?, isDigit c = false
  no_fraction : w.fraction = none → fraction? tail = none

theorem endsBefore_nil : w.EndsBefore [] := ⟨by simp, fun _ => rfl⟩

theorem isFinite_nearest_iff (whole fraction : List Char) :
    (nearest whole fraction).isFinite = true ↔
      (digitsValue (whole ++ fraction) : ℚ) / 10 ^ fraction.length < 2 ^ 1024 - 2 ^ 970 :=
  Binary64.isFinite_ofDecimal_iff false _ _

variable {w}

theorem fraction?_append {ds : List Char} (hne : ds ≠ []) (hds : AllDigits ds)
    (htail : ∀ c ∈ tail.head?, isDigit c = false) : fraction? ('.' :: (ds ++ tail)) = some ds := by
  obtain ⟨d, ds, rfl⟩ := List.exists_cons_of_ne_nil hne
  rw [List.cons_append, fraction?, if_pos (hds d List.mem_cons_self), ← List.cons_append,
    (takeWhile_append_eq hds htail).1]

/-- A literal is read as a whole, and has a number if it is below the limit. -/
theorem numeral_chars (h : w.EndsBefore tail) :
    numeral (w.chars ++ tail) =
      (w.chars, if w.value < 2 ^ 1024 - 2 ^ 970 then some w.number else none) := by
  cases hfraction : w.fraction with
  | none =>
      obtain ⟨htake, hdrop⟩ := takeWhile_append_eq w.whole_digits h.no_digit
      simp only [numeral, chars, value, number, decimals, hfraction, Option.elim_none,
        Option.getD_none, List.append_nil, htake, hdrop, h.no_fraction hfraction,
        isFinite_nearest_iff]
  | some ds =>
      have hpoint : ∀ c ∈ ('.' :: (ds ++ tail)).head?, isDigit c = false := by
        rintro c hc
        obtain rfl : '.' = c := Option.some.inj hc
        rfl
      obtain ⟨htake, hdrop⟩ := takeWhile_append_eq w.whole_digits hpoint
      have hsome := fraction?_append (w.fraction_ne_nil ds hfraction)
        (w.fraction_digits ds hfraction) h.no_digit
      simp only [numeral, chars, value, number, decimals, hfraction, Option.elim_some,
        Option.getD_some, List.append_assoc, List.cons_append, htake, hdrop, hsome,
        isFinite_nearest_iff]

/-! ### Scanning -/

theorem piece_digit {before : Option Char} {c : Char} (hc : isDigit c = true) (rest : List Char) :
    piece before c rest =
      match numeral (c :: rest) with
      | (taken, some value) => .ok ⟨taken, some (.number value)⟩
      | (taken, none) => .error (.numberTooLarge (String.ofList taken)) := by
  obtain ⟨k, hk, rfl, -⟩ := exists_digitChar hc
  have hother : ∀ k < 10, isSeparator (Nat.digitChar k) = false ∧ Nat.digitChar k ≠ '-' ∧
      Nat.digitChar k ≠ '"' := by decide
  obtain ⟨hseparator, hminus, hquote⟩ := hother k hk
  rcases hnumeral : numeral (Nat.digitChar k :: rest) with ⟨taken, - | value⟩ <;>
    simp [piece, hseparator, hminus, hquote, hc, hnumeral]

/-- The token of a literal. -/
def token (w : NumberText) (start : Position) : Token :=
  ⟨.number w.number, w.text, ⟨start, start.after w.chars⟩⟩

/-- The scanner takes a literal as one token if it is below the limit, and gives up at its start
otherwise. -/
theorem scanFrom_chars (h : w.EndsBefore tail) (fuel : Nat) (before : Option Char)
    (start : Position) :
    scanFrom (fuel + 1) before start (w.chars ++ tail) =
      if w.value < 2 ^ 1024 - 2 ^ 970 then
        (scanFrom fuel w.chars.getLast? (start.after w.chars) tail).map (w.token start :: ·)
      else .error ⟨.numberTooLarge w.text, start⟩ := by
  obtain ⟨c, rest, hwhole⟩ := List.exists_cons_of_ne_nil w.whole_ne_nil
  have hc : isDigit c = true := w.whole_digits c (hwhole ▸ List.mem_cons_self)
  obtain ⟨more, hchars⟩ : ∃ more, w.chars ++ tail = c :: more :=
    ⟨rest ++ w.fraction.elim [] ('.' :: ·) ++ tail, by simp [chars, hwhole]⟩
  have hnumeral := numeral_chars h
  have hpiece : piece before c more = _ := piece_digit hc more
  rw [← hchars, hnumeral] at hpiece
  split_ifs at hpiece ⊢ with hlimit
  · have hsplit : w.chars ++ tail = c :: more := hchars
    rw [hchars, scanFrom_piece hpiece hsplit]
    rfl
  · rw [hchars, scanFrom_cons, hpiece]
    rfl

/-- By itself a literal is one token, or the scanner gives up at its start. -/
theorem scan_text (w : NumberText) :
    scan w.text =
      if w.value < 2 ^ 1024 - 2 ^ 970 then
        let stop := Position.first.after w.chars
        .ok [w.token .first, ⟨.eof, "", ⟨stop, stop⟩⟩]
      else .error ⟨.numberTooLarge w.text, .first⟩ := by
  have hpos := w.length_chars_pos
  have hscan := scanFrom_chars (endsBefore_nil w) (w.chars.length - 1) none .first
  rw [Nat.sub_add_cancel hpos, List.append_nil] at hscan
  rw [text, scan_ofList, hscan]
  cases w.chars.length - 1 <;> rfl

/-- A natural number as it is written. -/
def ofNat (n : Nat) : NumberText where
  whole := Nat.toDigits 10 n
  fraction := none
  whole_ne_nil := Nat.toDigits_ne_nil
  whole_digits := allDigits_toDigits n
  fraction_ne_nil := nofun
  fraction_digits := nofun

theorem text_ofNat (n : Nat) : (ofNat n).text = toString n := by
  rw [Nat.toString_eq_ofList_toDigits, text, chars, ofNat, Option.elim_none, List.append_nil]

theorem number_ofNat (n : Nat) : (ofNat n).number = .integer n := by
  simp [number, ofNat, digitsValue_toDigits]

theorem value_ofNat (n : Nat) : (ofNat n).value = n := by
  simp [value, decimals, ofNat, digitsValue_toDigits]

/-- The token of a literal without a point holds its exact value. -/
theorem number_of_integer (h : w.fraction = none) :
    w.number = .integer (digitsValue w.whole) ∧ w.value = digitsValue w.whole := by
  simp [number, value, decimals, h]

/-- Behind a literal there are only later positions. -/
theorem start_ne_of_error {fuel : Nat} {before : Option Char} {front : List Char} {e : ScanError}
    (h : scanFrom fuel before (.after .first (front ++ w.chars)) tail = .error e) :
    e.start ≠ .after .first front := by
  obtain ⟨gone, c, back, -, hstart⟩ := scanFrom_error _ h
  intro heq
  have hoffset := congrArg Position.offset (hstart.symm.trans heq)
  have hpos := w.length_chars_pos
  simp only [Position.offset_after, List.length_append] at hoffset
  omega

/-- A literal in a text is an error at its start exactly if its value is at least half a unit above
the largest double, and by itself no other error. One without a point that is taken keeps its exact
value: it is written with its own digits but for zeros at the front, and what is written is read as
the same number. -/
theorem number_limit (w : NumberText) :
    (∀ fuel before front tail, w.EndsBefore tail →
      ((∃ cause, scanFrom (fuel + 1) before (.after .first front) (w.chars ++ tail) =
        .error ⟨cause, .after .first front⟩) ↔ 2 ^ 1024 - 2 ^ 970 ≤ w.value)) ∧
    ((∃ e, scan w.text = .error e) ↔ 2 ^ 1024 - 2 ^ 970 ≤ w.value) ∧
    (∀ e, scan w.text = .error e → e = ⟨.numberTooLarge w.text, .first⟩) ∧
    ∀ tokens, scan w.text = .ok tokens → w.fraction = none →
      ∃ n : Nat, (n : ℚ) = w.value ∧ tokens.map Token.kind = [.number (.integer n), .eof] ∧
        ∃ digits, (∀ registry locals note ty, TypeScript.lowerExpr registry locals
            (.literal (.number (.integer n)) ⟨note, some ty⟩) = .ok (.number digits)) ∧
          (TypeScript.Term.number digits).text = String.ofList (dropZeros w.whole) ∧
          ∃ again, scan (TypeScript.Term.number digits).text = .ok again ∧
            again.map Token.kind = [.number (.integer n), .eof] := by
  refine ⟨fun fuel before front tail htail => ?_, ?_, fun e he => ?_,
    fun tokens htokens hwhole => ?_⟩
  · rw [scanFrom_chars htail]
    split_ifs with hlimit
    · refine iff_of_false (fun ⟨cause, hcause⟩ => ?_) (not_le.mpr hlimit)
      rw [← Position.after_append] at hcause
      cases hbehind : scanFrom fuel w.chars.getLast? (.after .first (front ++ w.chars)) tail with
      | ok more =>
          rw [hbehind] at hcause
          cases hcause
      | error e =>
          rw [hbehind] at hcause
          obtain rfl := Except.error.inj hcause
          exact start_ne_of_error hbehind rfl
    · exact iff_of_true ⟨_, rfl⟩ (not_lt.mp hlimit)
  · rw [scan_text]
    split_ifs with hlimit
    · exact iff_of_false (fun ⟨e, he⟩ => nomatch he) (not_le.mpr hlimit)
    · exact iff_of_true ⟨_, rfl⟩ (not_lt.mp hlimit)
  · rw [scan_text] at he
    split_ifs at he
    exact (Except.error.inj he).symm
  · rw [scan_text] at htokens
    split_ifs at htokens with hlimit
    obtain rfl := Except.ok.inj htokens
    obtain ⟨hnumber, hvalue⟩ := number_of_integer hwhole
    refine ⟨digitsValue w.whole, hvalue.symm, ?_, toString (digitsValue w.whole),
      fun _ _ _ _ => rfl, ?_, ?_⟩
    · simp [token, hnumber]
    · show toString (digitsValue w.whole) = _
      rw [Nat.toString_eq_ofList_toDigits, toDigits_digitsValue w.whole_digits]
    · have hagain := scan_text (ofNat (digitsValue w.whole))
      rw [value_ofNat, ← hvalue, if_pos hlimit, text_ofNat] at hagain
      refine ⟨_, hagain, ?_⟩
      simp [token, number_ofNat]

/-- A literal with zeros at its front is taken, and its value is kept. -/
theorem number_limit_zeros : ∃ tokens, scan "007" = .ok tokens ∧
    ∃ n : Nat, (n : ℚ) = 7 ∧ tokens.map Token.kind = [.number (.integer n), .eof] := by
  let w : NumberText := ⟨['0', '0', '7'], none,
    by decide, List.all_eq_true.mp (by decide), nofun, nofun⟩
  have hvalue : w.value = 7 := (number_of_integer rfl).2
  have hbelow : ¬(2 ^ 1024 - 2 ^ 970 ≤ w.value) := by
    rw [hvalue, Binary64.limit_eq, not_le]
    calc (7 : ℚ) < 2 ^ 54 - 1 := by norm_num
      _ ≤ (2 ^ 54 - 1) * 2 ^ 970 := le_mul_of_one_le_right (by norm_num) (one_le_pow₀ one_le_two)
  obtain ⟨-, herror, -, hkept⟩ := number_limit w
  cases hscan : scan w.text with
  | error e => exact absurd (herror.mp ⟨e, hscan⟩) hbelow
  | ok tokens =>
      obtain ⟨n, hn, hkinds, -⟩ := hkept tokens hscan rfl
      exact ⟨tokens, hscan, n, hn.trans hvalue, hkinds⟩

end NumberText

end Prosaic.Token
