import Mathlib.Data.List.Chain
import Mathlib.Data.List.ReduceOption
import Prosaic.Proofs.TypeScript.Reader.Lexeme

/-!
Tokens that are written one behind the other, with spaces between some of them, are read as those
tokens if none of them runs into the next one.
-/

namespace Prosaic.TypeScript

/-- The characters with which a mark goes on to a longer one. -/
def continuations (m : String) : List Char :=
  marks.filterMap fun n => if m.toList <+: n.toList then (n.toList.drop m.length).head? else none

namespace Lexeme

/-- How a token is written. -/
def text : Lexeme → List Char
  | number digits => digits.toList
  | string value => (Text.literal value).toList
  | word name => name.toList
  | mark m => m.toList

/-- A token that is written as its sort of tokens is. -/
def Spelled : Lexeme → Prop
  | number digits => IsNumeral digits
  | string _ => True
  | word name => isWord name.toList = true
  | mark m => m ∈ marks

/-- A character that would be taken for a part of a token if it stood right behind it. -/
def GoesOn (c : Char) : Lexeme → Prop
  | number _ => isWordChar c = true ∨ c = '.'
  | string _ => False
  | word _ => isWordChar c = true
  | mark m => (m = "." ∧ Token.isDigit c = true) ∨ c ∈ continuations m

end Lexeme

/-! ### Single tokens -/

section

variable {rest : List Char}

theorem mark?_append {m : String} (hm : m ∈ marks)
    (hrest : ∀ c ∈ rest.head?, c ∉ continuations m) :
    mark? (m.toList ++ rest) = some (.mark m, rest) := by
  have hsorted : marks.Pairwise fun a b => b.length ≤ a.length ∧ a ≠ b := by decide
  have hfind : marks.find? (fun n => n.toList.isPrefixOf (m.toList ++ rest)) = some m := by
    rw [List.find?_eq_some_iff_append]
    obtain ⟨before, after, hmarks⟩ := List.append_of_mem hm
    refine ⟨by simp, before, after, hmarks, fun n hn => ?_⟩
    rw [Bool.not_eq_true', Bool.eq_false_iff]
    intro hprefix
    rw [List.isPrefixOf_iff_prefix] at hprefix
    -- a mark that stands before this one in the list is longer, and goes on behind it
    rw [hmarks, List.pairwise_append] at hsorted
    obtain ⟨hlength, hne⟩ := hsorted.2.2 n hn m List.mem_cons_self
    obtain ⟨more, hmore⟩ : m.toList <+: n.toList :=
      List.prefix_of_prefix_length_le (List.prefix_append _ _) hprefix
        (by simpa only [String.length_toList])
    cases more with
    | nil => exact hne (String.toList_inj.mp (by simpa using hmore.symm))
    | cons c more =>
        rw [← hmore, List.prefix_append_right_inj] at hprefix
        obtain ⟨last, hlast⟩ := hprefix
        refine hrest c (by rw [← hlast]; rfl) (List.mem_filterMap.mpr ⟨n, ?_, ?_⟩)
        · rw [hmarks]
          exact List.mem_append_left _ hn
        · rw [← hmore, if_pos (List.prefix_append _ _), ← String.length_toList, List.drop_left]
          rfl
  simp only [mark?, hfind, Option.map_some, ← String.length_toList, List.drop_left]

/-- A mark starts with a character that nothing else starts with, except for the point. -/
theorem exists_first_of_mark {m : String} (hm : m ∈ marks) :
    ∃ c cs, m.toList = c :: cs ∧ c ≠ '"' ∧ c ≠ ' ' ∧ isWordChar c = false ∧
      (c = '.' → m = "." ∨ '.' ∈ cs.head?) := by
  have hall : ∀ m ∈ marks, (m.toList.head?.any fun c => c ≠ '"' ∧ c ≠ ' ' ∧ isWordChar c = false ∧
      (c = '.' → m = "." ∨ '.' ∈ m.toList.tail.head?)) = true := by
    decide
  obtain ⟨c, hc, hfirst⟩ := (Option.any_eq_true _ _).mp (hall m hm)
  obtain ⟨cs, hcs⟩ := List.head?_eq_some_iff.mp hc
  rw [decide_eq_true_eq, hcs, List.tail_cons] at hfirst
  exact ⟨c, cs, hcs, hfirst⟩

theorem startsNumber_of_mark {m : String} (hm : m ∈ marks)
    (hrest : ∀ c ∈ rest.head?, ¬(m = "." ∧ Token.isDigit c = true)) :
    startsNumber (m.toList ++ rest) = false := by
  obtain ⟨c, cs, hcs, -, -, hword, hpoint⟩ := exists_first_of_mark hm
  have hdigit : Token.isDigit c = false := isDigit_eq_false_of_wordChar hword
  rw [hcs, List.cons_append]
  unfold startsNumber
  split
  · next d more heq =>
      obtain ⟨rfl, hmore⟩ := List.cons.inj heq
      rcases hpoint rfl with rfl | hsecond
      · obtain rfl : cs = [] := (List.cons.inj hcs).2.symm
        rw [List.nil_append] at hmore
        simpa [hmore] using hrest d
      · obtain ⟨more', rfl⟩ := List.head?_eq_some_iff.mp hsecond
        obtain rfl := (List.cons.inj hmore).1
        decide
  · next heq =>
      obtain ⟨rfl, -⟩ := List.cons.inj heq
      exact hdigit
  · rfl

theorem isNumeral_first {s : String} (h : IsNumeral s) :
    ∃ c cs, s.toList = c :: cs ∧ Token.isDigit c = true := by
  obtain ⟨whole, fraction, exponent, rfl, hwhole, -⟩ := h.parts
  rw [String.toList_ofList]
  rcases hwhole with rfl | ⟨d, ds, rfl, -, hdigits⟩
  · exact ⟨'0', _, rfl, by decide⟩
  · exact ⟨d, _, rfl, hdigits d List.mem_cons_self⟩

theorem isWord_first {cs : List Char} (h : isWord cs = true) :
    ∃ d ds, cs = d :: ds ∧ Token.isNameStart d = true ∧ ∀ c ∈ cs, isWordChar c = true := by
  cases cs with
  | nil => cases h
  | cons d ds =>
      rw [isWord, Bool.and_eq_true, List.all_eq_true] at h
      refine ⟨d, ds, rfl, h.1, List.forall_mem_cons.mpr ⟨?_, fun c hc => ?_⟩⟩
      · simp [isWordChar, isWordStart, h.1]
      · have hc := h.2 c hc
        rw [Token.isNameChar, Bool.or_eq_true] at hc
        rcases hc with hc | hc <;> simp [isWordChar, isWordStart, hc]

theorem startsNumber_of_not_digit {c : Char} {cs : List Char} (hpoint : c ≠ '.')
    (hdigit : Token.isDigit c = false) : startsNumber (c :: cs) = false := by
  unfold startsNumber
  split
  · next heq => exact absurd (List.cons.inj heq).1 hpoint
  · next heq => exact (List.cons.inj heq).1 ▸ hdigit
  · rfl

theorem startsNumber_of_digit {c : Char} {cs : List Char} (hdigit : Token.isDigit c = true) :
    startsNumber (c :: cs) = true := by
  unfold startsNumber
  split
  · next heq =>
      obtain ⟨rfl, -⟩ := List.cons.inj heq
      cases hdigit
  · next heq => exact (List.cons.inj heq).1 ▸ hdigit
  · next heq => cases heq

/-- A token is read from its text, if what follows is no part of it. -/
theorem lexeme?_append {t : Lexeme} (ht : t.Spelled) (hrest : ∀ c ∈ rest.head?, ¬t.GoesOn c) :
    lexeme? (t.text ++ rest) = some (t, rest) := by
  cases t with
  | number digits =>
      obtain ⟨c, cs, hcs, hc⟩ := isNumeral_first ht
      have hquote : c ≠ '"' := by
        rintro rfl
        cases hc
      have hread := number?_append ht fun c hc => by simpa [Lexeme.GoesOn] using hrest c hc
      rw [hcs, List.cons_append] at hread
      simp only [Lexeme.text, hcs, List.cons_append, lexeme?, hquote, if_false,
        startsNumber_of_digit hc, if_true, hread]
  | string value =>
      have htext : (Lexeme.string value).text ++ rest =
          '"' :: (value.toList.flatMap Text.literalChar ++ '"' :: rest) := by
        simp [Lexeme.text, Text.literal]
      rw [htext, lexeme?, if_pos rfl, Text.stringBody_literal]
      rfl
  | word name =>
      obtain ⟨c, cs, hcs, hc, hall⟩ := isWord_first ht
      have hquote : c ≠ '"' := by
        rintro rfl
        cases hc
      have hpoint : c ≠ '.' := by
        rintro rfl
        cases hc
      have hstart : isWordStart c = true := by rw [isWordStart, hc, Bool.true_or]
      obtain ⟨htake, hdrop⟩ := takeWhile_append_eq hall fun c hc => by
        simpa [Lexeme.GoesOn] using hrest c hc
      have htext : name.toList ++ rest = c :: (cs ++ rest) := by rw [hcs, List.cons_append]
      rw [htext] at htake hdrop
      simp only [Lexeme.text, htext, lexeme?, hquote, if_false,
        startsNumber_of_not_digit hpoint (Token.isDigit_of_isNameStart hc), hstart,
          if_true, htake, hdrop,
        String.ofList_toList, Bool.false_eq_true]
  | mark m =>
      obtain ⟨c, cs, hcs, hquote, -, hword, -⟩ := exists_first_of_mark ht
      have hstart : isWordStart c = false := by
        rw [isWordChar, Bool.or_eq_false_iff] at hword
        exact hword.1
      have hstartsNumber := startsNumber_of_mark ht fun c hc h => hrest c hc (.inl h)
      have hread := mark?_append ht fun c hc h => hrest c hc (.inr h)
      rw [hcs, List.cons_append] at hstartsNumber hread
      simp only [Lexeme.text, hcs, List.cons_append, lexeme?, hquote, if_false,
        hstartsNumber, hstart, hread, Bool.false_eq_true]

end

/-! ### Rows of tokens -/

/-- A token, or a space. -/
abbrev Piece := Option Lexeme

def Piece.text : Piece → List Char
  | none => [' ']
  | some t => t.text

/-- One piece does not run into the next one. -/
def Apart (a b : Piece) : Prop := ∀ t ∈ a, ∀ c ∈ b.text.head?, ¬t.GoesOn c

theorem exists_first {t : Lexeme} (ht : t.Spelled) : ∃ c cs, t.text = c :: cs ∧ c ≠ ' ' := by
  cases t with
  | number digits =>
      obtain ⟨c, cs, hcs, hc⟩ := isNumeral_first ht
      refine ⟨c, cs, hcs, ?_⟩
      rintro rfl
      cases hc
  | string value => exact ⟨'"', _, by simp [Lexeme.text, Text.literal]; rfl, by decide⟩
  | word name =>
      obtain ⟨c, cs, hcs, hc, -⟩ := isWord_first ht
      refine ⟨c, cs, hcs, ?_⟩
      rintro rfl
      cases hc
  | mark m =>
      obtain ⟨c, cs, hcs, -, hspace, -⟩ := exists_first_of_mark ht
      exact ⟨c, cs, hcs, hspace⟩

theorem exists_piece_first {p : Piece} (hp : ∀ t ∈ p, t.Spelled) : ∃ c cs, p.text = c :: cs := by
  cases p with
  | none => exact ⟨' ', [], rfl⟩
  | some t =>
      obtain ⟨c, cs, hcs, -⟩ := exists_first (hp t rfl)
      exact ⟨c, cs, hcs⟩

/-- Pieces of which none runs into the next one are read as the tokens among them. -/
theorem lexemesUpTo_pieces {ps : List Piece} (hspelled : ∀ p ∈ ps, ∀ t ∈ p, t.Spelled)
    (hapart : ps.IsChain Apart) {n : Nat} (hn : (ps.flatMap Piece.text).length ≤ n) :
    lexemesUpTo n (ps.flatMap Piece.text) = some ps.reduceOption := by
  induction ps generalizing n with
  | nil =>
      rw [List.flatMap_nil, lexemesUpTo]
      rfl
  | cons p ps ih =>
      obtain ⟨hp, hps⟩ := List.forall_mem_cons.mp hspelled
      obtain ⟨hnext, htail⟩ := List.isChain_cons.mp hapart
      rw [List.flatMap_cons, List.length_append] at hn
      cases p with
      | none =>
          simp only [Piece.text, List.length_singleton] at hn
          cases n with
          | zero => omega
          | succ n =>
              have hrest := ih hps htail (n := n) (by omega)
              simpa [Piece.text, lexemesUpTo, List.reduceOption_cons_of_none] using hrest
      | some t =>
          obtain ⟨c, cs, hcs, hspace⟩ := exists_first (hp t rfl)
          have hbehind : ∀ c ∈ (ps.flatMap Piece.text).head?, ¬t.GoesOn c := by
            cases ps with
            | nil => simp
            | cons q qs =>
                obtain ⟨d, ds, hds⟩ := exists_piece_first (hps q List.mem_cons_self)
                intro e he
                rw [List.flatMap_cons, hds, List.cons_append] at he
                exact hnext q rfl t rfl e (by rwa [hds])
          have hread := lexeme?_append (hp t rfl) hbehind
          rw [hcs, List.cons_append] at hread
          simp only [Piece.text, hcs, List.length_cons] at hn
          cases n with
          | zero => omega
          | succ n =>
              have hrest := ih hps htail (n := n) (by omega)
              simp [Piece.text, hcs, lexemesUpTo, hspace, hread, hrest,
                List.reduceOption_cons_of_some]

/-- A text that is made of pieces of which none runs into the next one is read as the tokens among
them. -/
theorem lexemes?_pieces {text : String} {ps : List Piece}
    (htext : text.toList = ps.flatMap Piece.text)
    (hspelled : ∀ p ∈ ps, ∀ t ∈ p, t.Spelled) (hapart : ps.IsChain Apart) :
    lexemes? text = some ps.reduceOption := by
  rw [lexemes?, htext]
  refine lexemesUpTo_pieces hspelled hapart ?_
  rw [← htext, String.length_toList]

end Prosaic.TypeScript
