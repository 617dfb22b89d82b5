import Prosaic.Proofs.Token.Strings
import Prosaic.Proofs.TypeScript.Reader.Lexeme
import Prosaic.TypeScript.Print

/-!
String literals. Whatever a text holds, its literal is printable ASCII, and the only quotes in it
that no backslash stands before are the ones around it. A reader of documents takes the literal back
to the text, so no two texts have the same one.
-/

namespace Prosaic.Text

open Token (Inside)
open Document.Json (stringBody)

/-! ### The characters of a literal -/

/-- A printable ASCII character. -/
def IsAscii (c : Char) : Prop := 0x20 ≤ c.toNat ∧ c.toNat ≤ 0x7e

instance (c : Char) : Decidable (IsAscii c) := inferInstanceAs (Decidable (_ ∧ _))

/-- Characters as they may stand inside a literal. -/
structure Enclosed (cs : List Char) : Prop where
  ascii : ∀ c ∈ cs, IsAscii c
  inside : Inside cs

theorem enclosed_nil : Enclosed [] := ⟨List.forall_mem_nil _, .nil⟩

theorem Enclosed.append {cs ds : List Char} (hc : Enclosed cs) (hd : Enclosed ds) :
    Enclosed (cs ++ ds) :=
  ⟨List.forall_mem_append.mpr ⟨hc.ascii, hd.ascii⟩, hc.inside.append hd.inside⟩

theorem enclosed_plain {c : Char} (hascii : IsAscii c) (hquote : c ≠ '"') (hslash : c ≠ '\\') :
    Enclosed [c] := by
  refine ⟨List.forall_mem_singleton.mpr hascii, .plain hquote ?_ hslash .nil⟩
  rintro rfl
  exact absurd hascii (by decide)

theorem enclosed_escape {c : Char} (hascii : IsAscii c) : Enclosed ['\\', c] :=
  ⟨List.forall_mem_cons.mpr ⟨by decide, List.forall_mem_singleton.mpr hascii⟩, .escaped c .nil⟩

theorem enclosed_hexDigit {n : Nat} (hn : n < 16) : Enclosed [hexDigit n] := by
  have hall : ∀ k < 16, IsAscii (hexDigit k) ∧ hexDigit k ≠ '"' ∧ hexDigit k ≠ '\\' := by decide
  obtain ⟨hascii, hquote, hslash⟩ := hall n hn
  exact enclosed_plain hascii hquote hslash

theorem enclosed_hex (width n : Nat) : Enclosed (hex width n) := by
  induction width generalizing n with
  | zero => exact enclosed_nil
  | succ width ih => exact (ih _).append (enclosed_hexDigit (Nat.mod_lt n (by decide)))

theorem enclosed_escapedUnit (n : Nat) : Enclosed (escapedUnit n) :=
  (enclosed_escape (c := 'u') (by decide)).append (enclosed_hex 4 n)

theorem enclosed_literalChar (c : Char) : Enclosed (literalChar c) := by
  unfold literalChar
  split_ifs with hquote hslash _ _ _ _ _ hplain
  all_goals try exact enclosed_escape (by decide)
  · simp only [Bool.and_eq_true, decide_eq_true_eq] at hplain
    exact enclosed_plain hplain hquote hslash
  · exact enclosed_escapedUnit _
  · exact (enclosed_escapedUnit _).append (enclosed_escapedUnit _)

theorem enclosed_literal (cs : List Char) : Enclosed (cs.flatMap literalChar) := by
  induction cs with
  | nil => exact enclosed_nil
  | cons c cs ih =>
      rw [List.flatMap_cons]
      exact (enclosed_literalChar c).append ih

/-! ### Reading literals back -/

theorem toList_literal (s : String) :
    (literal s).toList = '"' :: (s.toList.flatMap literalChar ++ ['"']) := by
  rw [literal, String.toList_ofList, List.cons_append]

/-- As a document, a literal is the text that it denotes. -/
theorem read_literal (s : String) : Document.Json.read (literal s) = .ok (.string s) := by
  have hvalue (n : Nat) : Document.Json.value (n + 1) (literal s).toList = .ok (.string s, []) := by
    rw [toList_literal, Document.Json.value, Document.Json.scalar, stringBody_literal]
    · rfl
    all_goals simp
  have hspace : Document.Json.skipSpace (literal s).toList = (literal s).toList := by
    rw [toList_literal]
    rfl
  have hmark : (literal s).toList.head? ≠ some '\ufeff' := by
    rw [toList_literal, List.head?_cons]
    decide
  simp only [Document.Json.read, if_neg hmark, hspace, hvalue]
  rfl

theorem literal_inj {s t : String} : literal s = literal t ↔ s = t := by
  refine ⟨fun h => ?_, congrArg literal⟩
  have hread := (read_literal s).symm.trans ((congrArg _ h).trans (read_literal t))
  exact Document.string.inj (Except.ok.inj hread)

/-- A string is written as one literal: printable ASCII between two quotes, with no other quote that
no backslash stands before. A reader of documents that is past the first quote takes the string off
whatever the literal stands in, and the literal alone for the string. So no other string is written
like it. -/
theorem literal_faithful (s : String) :
    (TypeScript.Term.string s).text = literal s ∧
      (∀ c ∈ (literal s).toList, 0x20 ≤ c.toNat ∧ c.toNat ≤ 0x7e) ∧
      (∃ body, (literal s).toList = '"' :: (body ++ ['"']) ∧ Inside body ∧
        ∀ rest, stringBody (body ++ '"' :: rest) = .ok (s, rest)) ∧
      Document.Json.read (literal s) = .ok (.string s) ∧
      ∀ t, literal t = literal s → t = s := by
  have hbody := enclosed_literal s.toList
  refine ⟨rfl, ?_, ⟨_, toList_literal s, hbody.inside, stringBody_literal s⟩, read_literal s,
    fun t => literal_inj.mp⟩
  rw [toList_literal]
  exact List.forall_mem_cons.mpr ⟨by decide,
    List.forall_mem_append.mpr ⟨hbody.ascii, List.forall_mem_singleton.mpr (by decide)⟩⟩

/-- The backslash, the quote, a control character and a character beyond the basic plane. -/
example : literal "\\\"\n😀" = "\"\\\\\\\"\\n\\ud83d\\ude00\"" := by decide

/-! ### Several literals -/

/-- What follows the first of several literals that are written side by side. -/
def furtherLiterals : List String → List Char
  | [] => []
  | v :: vs => " | ".toList ++ (TypeScript.TypeBody.literals (v :: vs)).text.toList

theorem toList_literals_cons (v : String) (vs : List String) :
    (TypeScript.TypeBody.literals (v :: vs)).text.toList =
      '"' :: (v.toList.flatMap literalChar ++ '"' :: furtherLiterals vs) := by
  cases vs with
  | nil =>
      show (String.intercalate " | " [literal v]).toList = _
      rw [String.intercalate_singleton, toList_literal]
      rfl
  | cons w vs =>
      show (String.intercalate " | " (literal v :: literal w :: vs.map literal)).toList = _
      rw [String.intercalate_cons_cons, String.toList_append, String.toList_append, toList_literal]
      simp only [List.cons_append, List.append_assoc, List.nil_append]
      rfl

theorem furtherLiterals_inj {vs ws : List String} (h : furtherLiterals vs = furtherLiterals ws) :
    vs = ws := by
  induction vs generalizing ws with
  | nil =>
      cases ws with
      | nil => rfl
      | cons w ws => exact absurd h (List.cons_ne_nil _ _).symm
  | cons v vs ih =>
      cases ws with
      | nil => exact absurd h (List.cons_ne_nil _ _)
      | cons w ws =>
          have htexts := List.append_cancel_left h
          rw [toList_literals_cons, toList_literals_cons] at htexts
          have hread := congrArg stringBody (List.cons.inj htexts).2
          rw [stringBody_literal, stringBody_literal] at hread
          obtain ⟨rfl, hmore⟩ := Prod.mk.inj (Except.ok.inj hread)
          rw [ih hmore]

/-- A reader takes the literals of an alias one by one, so aliases of different values differ. -/
theorem literals_text_inj {vs ws : List String} :
    (TypeScript.TypeBody.literals vs).text = (TypeScript.TypeBody.literals ws).text ↔ vs = ws := by
  refine ⟨fun h => ?_, fun h => h ▸ rfl⟩
  have hchars := congrArg String.toList h
  rcases vs with - | ⟨v, vs⟩ <;> rcases ws with - | ⟨w, ws⟩
  · rfl
  · rw [toList_literals_cons] at hchars
    exact absurd hchars (List.cons_ne_nil _ _).symm
  · rw [toList_literals_cons] at hchars
    exact absurd hchars (List.cons_ne_nil _ _)
  · exact furtherLiterals_inj (congrArg (" | ".toList ++ ·) hchars)

end Prosaic.Text
