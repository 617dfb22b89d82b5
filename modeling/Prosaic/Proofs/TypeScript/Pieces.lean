import Prosaic.Proofs.TypeScript.Reader.Lexing
import Prosaic.Proofs.TypeScript.Reader.Tree

/-!
What an expression is printed as, piece by piece. No piece runs into the next one: where two
prefixes would make up another mark there are parentheses between them, and nothing stands before a
point that would take it for a part of a number.

The text of an expression is read as the tokens that it is printed with; no two of them are taken
for one.
-/

namespace Prosaic.TypeScript

namespace Term

/-- Induction over expressions; elements and arguments come with a hypothesis for every member. -/
@[induction_eliminator]
theorem inductionOn {motive : Term → Prop}
    (number : ∀ digits, motive (.number digits))
    (string : ∀ value, motive (.string value))
    (boolean : ∀ b, motive (.boolean b))
    (array : ∀ elements, (∀ e ∈ elements, motive e) → motive (.array elements))
    (var : ∀ x, motive (.variable x))
    (unary : ∀ op e, motive e → motive (.unary op e))
    (binary : ∀ op l r, motive l → motive r → motive (.binary op l r))
    (call : ∀ callee awaited args, (∀ e ∈ args, motive e) → motive (.call callee awaited args))
    (cast : ∀ e t, motive e → motive (.cast e t))
    (member : ∀ e field, motive e → motive (.member e field)) :
    ∀ e, motive e := fun e =>
  @Term.rec motive (fun es => ∀ e ∈ es, motive e)
    number string boolean array var unary binary call cast member
    (fun _ h => nomatch h)
    (fun _ _ hhead htail => List.forall_mem_cons.mpr ⟨hhead, htail⟩)
    e

/-! ### Pieces -/

def word (name : String) : Piece := some (.word name)

def mark (m : String) : Piece := some (.mark m)

def bracketed (needed : Bool) (ps : List Piece) : List Piece :=
  if needed then mark "(" :: (ps ++ [mark ")"]) else ps

mutual

def pieces : Term → List Piece
  | .number digits => [some (.number digits)]
  | .string value => [some (.string value)]
  | .boolean b => [word (if b then "true" else "false")]
  | .array es => mark "[" :: (listed es ++ [mark "]"])
  | .variable x => [word x]
  | .unary op e => mark (unarySymbol op) :: bracketed (e.groupsUnder op) e.pieces
  | .binary op l r =>
    bracketed (l.groupsLeftOf op) l.pieces
      ++ (none :: mark (binarySymbol op) :: none :: bracketed (r.groupsRightOf op) r.pieces)
  | .call callee awaited args =>
    (if awaited then [word "await", none] else [])
      ++ (word (identifier callee.name) :: mark "(" :: (listed args ++ [mark ")"]))
  | .cast e t =>
    mark "(" :: (bracketed e.groupsBefore e.pieces ++
      [none, word "as", none, word t.text, mark ")"])
  | .member e field => bracketed e.groupsBefore e.pieces ++ [mark ".", word field]

/-- Expressions with commas between them. -/
def listed : List Term → List Piece
  | [] => []
  | e :: es => e.pieces ++ continued es

/-- Expressions with a comma before each. -/
def continued : List Term → List Piece
  | [] => []
  | e :: es => mark "," :: none :: (e.pieces ++ continued es)

end

/-- The characters of some pieces. -/
def written (ps : List Piece) : List Char := ps.flatMap Piece.text

theorem written_append (ps qs : List Piece) : written (ps ++ qs) = written ps ++ written qs :=
  List.flatMap_append

theorem written_cons (p : Piece) (ps : List Piece) : written (p :: ps) = p.text ++ written ps :=
  List.flatMap_cons

theorem written_nil : written [] = [] := rfl

theorem text_word (name : String) : (word name).text = name.toList := rfl

theorem text_mark (m : String) : (mark m).text = m.toList := rfl

theorem text_space : Piece.text none = [' '] := rfl

theorem toList_parenthesised {needed : Bool} {text : String} {ps : List Piece}
    (h : text.toList = written ps) :
    (parenthesised needed text).toList = written (bracketed needed ps) := by
  cases needed with
  | false => exact h
  | true =>
      simp [parenthesised, bracketed, written_append, written_cons, written_nil, text_mark, h]

theorem toList_listed {es : List Term} (h : ∀ e ∈ es, e.text.toList = written e.pieces) :
    (", ".intercalate (texts es)).toList = written (listed es) := by
  have hcontinued : ∀ {e : Term} {es : List Term}, e.text.toList = written e.pieces →
      (∀ e ∈ es, e.text.toList = written e.pieces) →
        (", ".intercalate (e.text :: texts es)).toList = written (e.pieces ++ continued es) := by
    intro e es he hes
    induction es generalizing e with
    | nil => simp [texts, continued, he]
    | cons f fs ih =>
        obtain ⟨hf, hfs⟩ := List.forall_mem_cons.mp hes
        rw [texts, String.intercalate_cons_cons, String.toList_append, ih hf hfs, continued]
        simp [written_append, written_cons, text_mark, text_space, he]
  cases es with
  | nil => simp [texts, listed, written]
  | cons e es =>
      obtain ⟨he, hes⟩ := List.forall_mem_cons.mp h
      exact hcontinued he hes

/-- What is printed is made of the pieces. -/
theorem toList_text (e : Term) : e.text.toList = written e.pieces := by
  induction e with
  | number digits => simp [text, pieces, written, Piece.text, Lexeme.text]
  | string value => simp [text, pieces, written, Piece.text, Lexeme.text]
  | boolean b => cases b <;> rfl
  | array es ih =>
      simp [text, pieces, written_append, written_cons, written_nil, text_mark, toList_listed ih]
  | var x => simp [text, pieces, written_cons, written_nil, text_word]
  | unary op e ih =>
      simp [text, pieces, written_cons, text_mark, toList_parenthesised ih]
  | binary op l r ihl ihr =>
      simp [text, pieces, written_append, written_cons, text_mark, text_space,
        toList_parenthesised ihl, toList_parenthesised ihr]
  | call callee awaited args ih =>
      cases awaited <;> simp [text, pieces, written_append, written_cons, written_nil, text_mark,
        text_word, text_space, toList_listed ih]
  | cast e t ih =>
      simp [text, pieces, written_append, written_cons, written_nil, text_mark,
        text_word, text_space, toList_parenthesised ih]
  | member e field ih =>
      simp [text, pieces, written_append, written_cons, written_nil, text_mark, text_word,
        toList_parenthesised ih]

end Term

/-! ### Spelling -/

/-- A word that is no keyword of the target language. -/
structure IsIdentifier (x : String) : Prop where
  word : isWord x.toList = true
  free : x ∉ keywords

namespace Term

mutual

/-- The names in an expression are words, and its numbers are numerals. No number stands before a
point. -/
def Spelled : Term → Prop
  | .number digits => IsNumeral digits
  | .string _ | .boolean _ => True
  | .array es => SpelledAll es
  | .variable x => IsIdentifier x
  | .unary _ e => e.Spelled
  | .binary _ l r => l.Spelled ∧ r.Spelled
  | .call callee _ args => IsIdentifier (identifier callee.name) ∧ SpelledAll args
  | .cast e t => e.Spelled ∧ IsIdentifier t.text
  | .member e field => e.Spelled ∧ isWord field.toList = true ∧ ∀ digits, e ≠ .number digits

def SpelledAll : List Term → Prop
  | [] => True
  | e :: es => e.Spelled ∧ SpelledAll es

end

@[simp] theorem spelledAll_iff {es : List Term} : SpelledAll es ↔ ∀ e ∈ es, e.Spelled := by
  induction es with
  | nil => simp [SpelledAll]
  | cons e es ih => simp [SpelledAll, ih]

end Term

/-! ### What a token can stand next to -/

/-- A token behind which whatever is no part of a word or a number can stand. -/
def Closes (t : Lexeme) : Prop := ∀ c, isWordChar c = false → c ≠ '.' → ¬t.GoesOn c

/-- A token before which every mark can stand that is not the same. -/
def Opens (t : Lexeme) : Prop := ∀ c ∈ t.text.head?, c ≠ '=' ∧ (c = '-' → t = .mark "-")

theorem not_goesOn_solid {m : String} (hm : m ∈ ["(", ")", "[", "]", ","]) (c : Char) :
    ¬(Lexeme.mark m).GoesOn c := by
  have hall : ∀ m ∈ ["(", ")", "[", "]", ","], m ≠ "." ∧ continuations m = [] := by decide
  obtain ⟨hpoint, hnone⟩ := hall m hm
  rintro (⟨rfl, -⟩ | hc)
  · exact hpoint rfl
  · rw [hnone] at hc
    cases hc

theorem not_goesOn_space {t : Lexeme} (ht : t.Spelled) : ¬t.GoesOn ' ' := by
  cases t with
  | number digits => rintro (h | h) <;> cases h
  | string value => exact id
  | word name => exact nofun
  | mark m =>
      have hall : ∀ m ∈ marks, ' ' ∉ continuations m := by decide
      rintro (⟨-, h⟩ | hc)
      · cases h
      · exact hall m ht hc

theorem closes_solid {m : String} (hm : m ∈ ["(", ")", "[", "]", ","]) : Closes (.mark m) :=
  fun c _ _ => not_goesOn_solid hm c

theorem closes_word (name : String) : Closes (.word name) := by
  intro c hc _ hgoes
  exact absurd (hc.symm.trans hgoes) (by decide)

theorem closes_number (digits : String) : Closes (.number digits) := by
  rintro c hc hpoint (hword | rfl)
  · exact absurd (hc.symm.trans hword) (by decide)
  · exact hpoint rfl

theorem opens_word {name : String} (h : isWord name.toList = true) : Opens (.word name) := by
  obtain ⟨d, ds, hds, hd, -⟩ := isWord_first h
  intro c hc
  rw [Lexeme.text, hds] at hc
  obtain rfl := Option.some.inj hc
  constructor <;> rintro rfl <;> cases hd

theorem opens_number {digits : String} (h : IsNumeral digits) : Opens (.number digits) := by
  obtain ⟨d, ds, hds, hd⟩ := isNumeral_first h
  intro c hc
  rw [Lexeme.text, hds] at hc
  obtain rfl := Option.some.inj hc
  constructor <;> rintro rfl <;> cases hd

theorem opens_mark {m : String} (hm : m ∈ ["(", "[", "!", "-"]) : Opens (.mark m) := by
  have hall : ∀ m ∈ ["(", "[", "!", "-"],
      (m.toList.head?.all fun c => c ≠ '=' ∧ (c = '-' → m = "-")) = true := by
    decide
  intro c hc
  obtain ⟨hequals, hminus⟩ := of_decide_eq_true ((Option.all_eq_true _ _).mp (hall m hm) c hc)
  exact ⟨hequals, fun h => congrArg Lexeme.mark (hminus h)⟩

/-- A prefix operator stands before everything but itself. -/
theorem apart_unary (op : UnaryOp) {t : Lexeme} (ht : Opens t) (hne : t ≠ .mark (unarySymbol op)) :
    Apart (Term.mark (unarySymbol op)) (some t) := by
  rintro _ ⟨⟩ c hc hgoes
  obtain ⟨hequals, hminus⟩ := ht c hc
  have hpoint : unarySymbol op ≠ "." := by cases op <;> decide
  have hall : ((continuations (unarySymbol op)).all fun d =>
      d = '=' ∨ unarySymbol op = "-" ∧ d = '-') = true := by
    cases op <;> decide
  rcases hgoes with ⟨h, -⟩ | h
  · exact hpoint h
  · rcases of_decide_eq_true (List.all_eq_true.mp hall c h) with h | ⟨hop, h⟩
    · exact hequals h
    · exact hne ((hminus h).trans (congrArg Lexeme.mark hop.symm))

theorem apart_point {t : Lexeme} (ht : ¬t.GoesOn '.') : Apart (some t) (Term.mark ".") := by
  rintro _ ⟨⟩ c hc
  obtain rfl : '.' = c := Option.some.inj hc
  exact ht

theorem point_apart {name : String} (h : isWord name.toList = true) :
    Apart (Term.mark ".") (Term.word name) := by
  rintro _ ⟨⟩ c hc hgoes
  obtain ⟨d, ds, hds, hd, -⟩ := isWord_first h
  rw [Term.text_word, hds] at hc
  obtain rfl := Option.some.inj hc
  have hcontinuations : continuations "." = ['.'] := by decide
  rcases hgoes with ⟨-, hdigit⟩ | hpoint
  · rw [Token.isDigit_of_isNameStart hd] at hdigit
    cases hdigit
  · rw [hcontinuations, List.mem_singleton] at hpoint
    subst hpoint
    cases hd

theorem space_apart (p : Piece) : Apart none p := nofun

theorem apart_space {t : Lexeme} (ht : t.Spelled) : Apart (some t) none := by
  rintro _ ⟨⟩ c hc
  obtain rfl : ' ' = c := Option.some.inj hc
  exact not_goesOn_space ht

theorem solid_apart {m : String} (hm : m ∈ ["(", ")", "[", "]", ","]) (p : Piece) :
    Apart (Term.mark m) p := by
  rintro _ ⟨⟩ c _
  exact not_goesOn_solid hm c

/-- What closes stands before brackets and commas. -/
theorem apart_solid {t : Lexeme} (ht : Closes t) {m : String} (hm : m ∈ ["(", ")", "[", "]", ","]) :
    Apart (some t) (Term.mark m) := by
  have hall : ∀ m ∈ ["(", ")", "[", "]", ","],
      (m.toList.head?.all fun c => isWordChar c = false ∧ c ≠ '.') = true := by
    decide
  rintro _ ⟨⟩ c hc
  obtain ⟨hword, hpoint⟩ := of_decide_eq_true ((Option.all_eq_true _ _).mp (hall m hm) c hc)
  exact ht c hword hpoint

open Term (word mark bracketed)

/-- Pieces of which none runs into the next one, between a token that opens and one that closes. -/
structure Framed (ps : List Piece) : Prop where
  spelled : ∀ p ∈ ps, ∀ t ∈ p, t.Spelled
  apart : ps.IsChain Apart
  first : ∃ t, ps.head? = some (some t) ∧ Opens t
  last : ∃ t, ps.getLast? = some (some t) ∧ Closes t

namespace Framed

variable {ps qs : List Piece}

theorem single {t : Lexeme} (ht : t.Spelled) (hopens : Opens t) (hcloses : Closes t) :
    Framed [some t] where
  spelled := by
    intro p hp u hu
    obtain rfl := List.mem_singleton.mp hp
    exact Option.some.inj hu ▸ ht
  apart := List.isChain_singleton _
  first := ⟨t, rfl, hopens⟩
  last := ⟨t, rfl, hcloses⟩

/-- A token before framed pieces. -/
theorem cons {t : Lexeme} (h : Framed ps) (ht : t.Spelled) (hopens : Opens t)
    (hapart : ∀ u, ps.head? = some (some u) → Apart (some t) (some u)) : Framed (some t :: ps) := by
  obtain ⟨u, hfirst, -⟩ := h.first
  obtain ⟨v, hlast, hcloses⟩ := h.last
  refine ⟨List.forall_mem_cons.mpr ⟨fun w hw => Option.some.inj hw ▸ ht, h.spelled⟩, ?_,
    ⟨t, rfl, hopens⟩, ⟨v, ?_, hcloses⟩⟩
  · refine List.isChain_cons.mpr ⟨fun p hp => ?_, h.apart⟩
    obtain rfl : some u = p := Option.some.inj (hfirst.symm.trans hp)
    exact hapart u hfirst
  · rw [List.getLast?_cons, hlast]
    rfl

/-- Framed pieces behind others, if these end with something that goes with their first token. -/
theorem append (h : Framed ps) (hspelled : ∀ p ∈ qs, ∀ t ∈ p, t.Spelled) (hapart : qs.IsChain Apart)
    (hlast : ∃ t, qs.getLast? = some (some t) ∧ Closes t)
    (hjoin : ∀ t, ps.getLast? = some (some t) → ∀ q ∈ qs.head?, Apart (some t) q) :
    Framed (ps ++ qs) := by
  obtain ⟨t, hfirst, hopens⟩ := h.first
  obtain ⟨u, hu, hcloses⟩ := hlast
  refine ⟨List.forall_mem_append.mpr ⟨h.spelled, hspelled⟩,
    List.isChain_append.mpr ⟨h.apart, hapart, fun p hp q hq => ?_⟩,
    ⟨t, ?_, hopens⟩, ⟨u, ?_, hcloses⟩⟩
  · obtain ⟨v, hv, -⟩ := h.last
    obtain rfl : some v = p := Option.some.inj (hv.symm.trans hp)
    exact hjoin v hv q hq
  · rw [List.head?_append, hfirst]
    rfl
  · rw [List.getLast?_append, hu]
    rfl

/-- A word and a space before framed pieces. -/
theorem spaceBefore (h : Framed ps) {name : String} (hname : isWord name.toList = true) :
    Framed (word name :: none :: ps) := by
  obtain ⟨v, hlast, hcloses⟩ := h.last
  refine ⟨?_, ?_, ⟨.word name, rfl, opens_word hname⟩, ⟨v, ?_, hcloses⟩⟩
  · refine List.forall_mem_cons.mpr ⟨fun w hw => ?_, List.forall_mem_cons.mpr ⟨nofun, h.spelled⟩⟩
    exact Option.some.inj hw ▸ hname
  · refine List.isChain_cons.mpr ⟨fun p hp => ?_,
      List.isChain_cons.mpr ⟨fun _ _ => space_apart _, h.apart⟩⟩
    obtain rfl := Option.some.inj hp
    exact apart_space hname
  · simp [List.getLast?_cons, hlast]

/-- Two rows of pieces with a token between spaces between them. -/
theorem spaced (h : Framed ps) {t : Lexeme} (ht : t.Spelled) (h' : Framed qs) :
    Framed (ps ++ (none :: some t :: none :: qs)) := by
  obtain ⟨u, hu, hcloses⟩ := h'.last
  refine h.append ?_ ?_ ⟨u, ?_, hcloses⟩ fun v hv q hq => ?_
  · intro p hp w hw
    simp only [List.mem_cons] at hp
    rcases hp with rfl | rfl | rfl | hp
    · cases hw
    · exact Option.some.inj hw ▸ ht
    · cases hw
    · exact h'.spelled p hp w hw
  · refine List.isChain_cons.mpr ⟨fun _ _ => space_apart _, ?_⟩
    refine List.isChain_cons.mpr ⟨fun q hq => ?_,
      List.isChain_cons.mpr ⟨fun _ _ => space_apart _, h'.apart⟩⟩
    obtain rfl := Option.some.inj hq
    exact apart_space ht
  · simp [List.getLast?_cons, hu]
  · obtain rfl := Option.some.inj hq
    exact apart_space (h.spelled _ (List.mem_of_getLast? hv) v rfl)

/-- Two rows of pieces with a comma between them. -/
theorem comma (h : Framed ps) (h' : Framed qs) : Framed (ps ++ (mark "," :: none :: qs)) := by
  obtain ⟨u, hu, hcloses⟩ := h'.last
  obtain ⟨v, hv, hcloses'⟩ := h.last
  refine h.append ?_ ?_ ⟨u, ?_, hcloses⟩ fun w hw q hq => ?_
  · intro p hp w hw
    simp only [List.mem_cons] at hp
    rcases hp with rfl | rfl | hp
    · obtain rfl := Option.some.inj hw
      show "," ∈ marks
      decide
    · cases hw
    · exact h'.spelled p hp w hw
  · refine List.isChain_cons.mpr ⟨fun q _ => solid_apart (by decide) q, ?_⟩
    exact List.isChain_cons.mpr ⟨fun _ _ => space_apart _, h'.apart⟩
  · simp [List.getLast?_cons, hu]
  · obtain rfl := Option.some.inj hq
    obtain rfl : v = w := Option.some.inj (Option.some.inj (hv.symm.trans hw))
    exact apart_solid hcloses' (by decide)

/-- A closing bracket behind. -/
theorem close (h : Framed ps) {m : String} (hm : m ∈ [")", "]"]) : Framed (ps ++ [mark m]) := by
  have hsolid : m ∈ ["(", ")", "[", "]", ","] := by
    simp only [List.mem_cons, List.not_mem_nil, or_false] at hm ⊢
    tauto
  have hspelled : (Lexeme.mark m).Spelled := by
    have hall : ∀ m ∈ [")", "]"], m ∈ marks := by decide
    exact hall m hm
  obtain ⟨v, hv, hcloses⟩ := h.last
  refine h.append ?_ (List.isChain_singleton _) ⟨_, rfl, closes_solid hsolid⟩ fun w hw q hq => ?_
  · intro p hp w hw
    obtain rfl := List.mem_singleton.mp hp
    exact Option.some.inj hw ▸ hspelled
  · obtain rfl := Option.some.inj hq
    obtain rfl : v = w := Option.some.inj (Option.some.inj (hv.symm.trans hw))
    exact apart_solid hcloses hsolid

/-- An opening bracket before. -/
theorem openBefore (h : Framed ps) {m : String} (hm : m ∈ ["(", "["]) : Framed (mark m :: ps) := by
  have hsolid : m ∈ ["(", ")", "[", "]", ","] := by
    simp only [List.mem_cons, List.not_mem_nil, or_false] at hm ⊢
    tauto
  have hall : ∀ m ∈ ["(", "["], m ∈ marks ∧ m ∈ ["(", "[", "!", "-"] := by decide
  exact h.cons (hall m hm).1 (opens_mark (hall m hm).2) fun u _ => solid_apart hsolid _

theorem bracketed {needed : Bool} (h : Framed ps) : Framed (bracketed needed ps) := by
  cases needed with
  | false => exact h
  | true => exact (h.close (by decide)).openBefore (by decide)

end Framed

/-! ### Expressions -/

namespace Term

theorem groupsUnder_of_groupsBefore {e : Term} (op : UnaryOp) (h : e.groupsBefore = false) :
    e.groupsUnder op = false := by
  cases e with
  | binary | unary => cases h
  | _ => rfl

theorem bracketed_ne_nil (e : Term) (needed : Bool) : bracketed needed e.pieces ≠ [] := by
  cases needed with
  | true => exact List.cons_ne_nil _ _
  | false => cases e <;> simp [bracketed, pieces]

/-- What stands behind a prefix does not start with the same one. -/
theorem first_ne_unary (op : UnaryOp) (e : Term) {t : Lexeme}
    (h : (bracketed (e.groupsUnder op) e.pieces).head? = some (some t)) :
    t ≠ .mark (unarySymbol op) := by
  have hparen : ∀ {t : Lexeme}, some (mark "(") = some (some t) → t ≠ .mark (unarySymbol op) := by
    rintro t ht rfl
    have hne : ∀ op, "(" ≠ unarySymbol op := by
      intro op
      cases op <;> decide
    exact hne op (Lexeme.mark.inj (Option.some.inj (Option.some.inj ht)))
  induction e with
  | number | string | boolean | var =>
      obtain rfl := Option.some.inj (Option.some.inj h)
      exact nofun
  | array es ih =>
      obtain rfl := Option.some.inj (Option.some.inj h)
      cases op <;> decide
  | unary inner e ih =>
      by_cases hsame : inner = op
      · have hgroups : (Term.unary inner e).groupsUnder op = true := decide_eq_true hsame
        rw [hgroups] at h
        exact hparen h
      · have hgroups : (Term.unary inner e).groupsUnder op = false := decide_eq_false hsame
        rw [hgroups] at h
        obtain rfl := Option.some.inj (Option.some.inj h)
        cases op <;> cases inner <;> first | exact absurd rfl hsame | decide
  | binary => exact hparen h
  | call callee awaited args ih =>
      cases awaited
      all_goals
        obtain rfl := Option.some.inj (Option.some.inj h)
        exact nofun
  | cast => exact hparen h
  | member e field ih =>
      have hfirst : (bracketed e.groupsBefore e.pieces).head? = some (some t) := by
        obtain ⟨p, ps, hps⟩ := List.exists_cons_of_ne_nil (bracketed_ne_nil e e.groupsBefore)
        have h : (bracketed e.groupsBefore e.pieces ++ [mark ".", word field]).head? = _ := h
        rwa [hps] at h ⊢
      cases hgroups : e.groupsBefore with
      | true =>
          rw [hgroups] at hfirst
          exact hparen hfirst
      | false =>
          rw [hgroups] at hfirst
          exact ih (by rwa [groupsUnder_of_groupsBefore op hgroups])

/-- Nothing stands before a point that would take it for a part of a number. -/
theorem not_goesOn_point {e : Term} (hnumber : ∀ digits, e ≠ .number digits) {t : Lexeme}
    (h : (bracketed e.groupsBefore e.pieces).getLast? = some (some t)) : ¬t.GoesOn '.' := by
  have hclosing : ∀ (ps : List Piece) {m : String}, m ∈ ["(", ")", "[", "]", ","] →
      (ps ++ [mark m]).getLast? = some (some t) → ¬t.GoesOn '.' := by
    intro ps m hm hlast
    rw [List.getLast?_concat] at hlast
    obtain rfl : Lexeme.mark m = t := Option.some.inj (Option.some.inj hlast)
    exact not_goesOn_solid hm '.'
  have hword : ∀ name, ¬(Lexeme.word name).GoesOn '.' := fun name =>
    show ¬isWordChar '.' = true by decide
  cases e with
  | number digits => exact absurd rfl (hnumber digits)
  | string value =>
      obtain rfl := Option.some.inj (Option.some.inj h)
      exact id
  | boolean | «variable» =>
      obtain rfl := Option.some.inj (Option.some.inj h)
      exact hword _
  | array es => exact hclosing (mark "[" :: listed es) (by decide) h
  | unary | binary => exact hclosing (mark "(" :: pieces _) (by decide) h
  | call callee awaited args =>
      cases awaited with
      | true => exact hclosing (mark "(" :: pieces _) (by decide) h
      | false =>
          exact hclosing (word (identifier callee.name) :: mark "(" :: listed args) (by decide) h
  | cast e target =>
      refine hclosing (mark "(" ::
        (bracketed e.groupsBefore e.pieces ++ [none, word "as", none, word target.text]))
        (m := ")") (by decide) ?_
      simpa [bracketed, groupsBefore, pieces] using h
  | member e field =>
      have hlast : (bracketed e.groupsBefore e.pieces ++ [mark ".", word field]).getLast? = _ := h
      rw [List.getLast?_append] at hlast
      obtain rfl := Option.some.inj (Option.some.inj hlast)
      exact hword _

theorem framed_listed {e : Term} {es : List Term} (he : Framed e.pieces)
    (hes : ∀ e ∈ es, Framed e.pieces) : Framed (listed (e :: es)) := by
  induction es generalizing e with
  | nil => simpa [listed, continued] using he
  | cons f fs ih =>
      obtain ⟨hf, hfs⟩ := List.forall_mem_cons.mp hes
      simpa [listed, continued] using he.comma (ih hf hfs)

theorem framed_brackets {es : List Term} (h : ∀ e ∈ es, Framed e.pieces) {first last : String}
    (hfirst : first ∈ ["(", "["]) (hlast : last ∈ [")", "]"]) :
    Framed (mark first :: (listed es ++ [mark last])) := by
  cases es with
  | cons e es =>
      obtain ⟨he, hes⟩ := List.forall_mem_cons.mp h
      exact ((framed_listed he hes).close hlast).openBefore hfirst
  | nil =>
      have hall : ∀ m ∈ ["(", "["], m ∈ marks ∧ m ∈ ["(", "[", "!", "-"] ∧
          m ∈ ["(", ")", "[", "]", ","] := by decide
      have hclosing : ∀ m ∈ [")", "]"], m ∈ marks ∧ m ∈ ["(", ")", "[", "]", ","] := by decide
      obtain ⟨hspelled, hopens, hsolid⟩ := hall first hfirst
      obtain ⟨hspelled', hsolid'⟩ := hclosing last hlast
      refine ⟨?_, ?_, ⟨_, rfl, opens_mark hopens⟩, ⟨_, rfl, closes_solid hsolid'⟩⟩
      · intro p hp t ht
        rcases List.mem_pair.mp hp with rfl | rfl
        · exact Option.some.inj ht ▸ hspelled
        · exact Option.some.inj ht ▸ hspelled'
      · exact List.isChain_cons.mpr ⟨fun q _ => solid_apart hsolid q, List.isChain_singleton _⟩

/-- The pieces of an expression do not run into each other. -/
theorem Spelled.framed {e : Term} (h : e.Spelled) : Framed e.pieces := by
  induction e with
  | number digits => exact .single h (opens_number h) (closes_number digits)
  | string value =>
      refine .single trivial (fun c hc => ?_) fun c _ _ => id
      obtain rfl : '"' = c := by simpa [Lexeme.text, Text.literal] using hc
      exact ⟨by decide, fun h => absurd h (by decide)⟩
  | boolean b =>
      have hword : isWord (if b then "true" else "false").toList = true := by cases b <;> decide
      exact .single hword (opens_word hword) (closes_word _)
  | array es ih =>
      have hes := spelledAll_iff.mp h
      exact framed_brackets (fun e he => ih e he (hes e he)) (by decide) (by decide)
  | var x => exact .single h.word (opens_word h.word) (closes_word _)
  | unary op e ih =>
      have hmark : unarySymbol op ∈ marks ∧ unarySymbol op ∈ ["(", "[", "!", "-"] := by
        cases op <;> decide
      have he : Framed (bracketed (e.groupsUnder op) e.pieces) := (ih h).bracketed
      obtain ⟨u, hu, hopens⟩ := he.first
      refine he.cons hmark.1 (opens_mark hmark.2) fun v hv => ?_
      obtain rfl : u = v := Option.some.inj (Option.some.inj (hu.symm.trans hv))
      exact apart_unary op hopens (first_ne_unary op e hv)
  | binary op l r ihl ihr =>
      have hmark : (Lexeme.mark (binarySymbol op)).Spelled := by
        show binarySymbol op ∈ marks
        cases op <;> decide
      exact (ihl h.1).bracketed.spaced hmark (ihr h.2).bracketed
  | call callee awaited args ih =>
      have hargs := spelledAll_iff.mp h.2
      have hcall : Framed (word (identifier callee.name) :: mark "(" ::
          (listed args ++ [mark ")"])) := by
        refine (framed_brackets (fun e he => ih e he (hargs e he)) (by decide) (by decide)).cons
          h.1.word (opens_word h.1.word) fun u hu => ?_
        obtain rfl : Lexeme.mark "(" = u := Option.some.inj (Option.some.inj hu)
        exact apart_solid (closes_word _) (by decide)
      cases awaited with
      | false => exact hcall
      | true => exact hcall.spaceBefore (show isWord "await".toList = true by decide)
  | cast e t ih =>
      have htype := Framed.single (t := .word t.text) h.2.word (opens_word h.2.word) (closes_word _)
      have hinside : Framed (bracketed e.groupsBefore e.pieces ++
          [none, word "as", none, word t.text]) :=
        (ih h.1).bracketed.spaced (t := .word "as") (show isWord "as".toList = true by decide) htype
      simpa [pieces] using (hinside.close (m := ")") (by decide)).openBefore (m := "(") (by decide)
  | member e field ih =>
      have he : Framed (bracketed e.groupsBefore e.pieces) := (ih h.1).bracketed
      refine he.append ?_ ?_ ⟨.word field, rfl, closes_word _⟩ fun t ht q hq => ?_
      · intro p hp t ht
        rcases List.mem_pair.mp hp with rfl | rfl
        · obtain rfl := Option.some.inj ht
          show "." ∈ marks
          decide
        · exact Option.some.inj ht ▸ h.2.1
      · refine List.isChain_cons.mpr ⟨fun q hq => ?_, List.isChain_singleton _⟩
        obtain rfl := Option.some.inj hq
        exact point_apart h.2.1
      · obtain rfl := Option.some.inj hq
        exact apart_point (not_goesOn_point h.2.2 ht)

/-- The tokens that an expression is printed with. -/
def lexemes (e : Term) : List Lexeme := e.pieces.reduceOption

/-- The text of an expression is read as the tokens that it is printed with. -/
theorem Spelled.lexemes?_text {e : Term} (h : e.Spelled) : lexemes? e.text = some e.lexemes :=
  lexemes?_pieces (toList_text e) h.framed.spelled h.framed.apart

end Term

end Prosaic.TypeScript
