import Prosaic.Proofs.TypeScript.Pieces
import Prosaic.Proofs.TypeScript.Reader.Passing

/-!
The text of an expression is read as the expression, unless something in it can be taken for type
arguments or a cast goes to what can be no type. Parentheses stand wherever the grammar would group
the operands differently, so every operator gets back the operands that it has been printed with.
-/

namespace Prosaic.TypeScript

open Reader (Accepts AcceptsAt SpineAt Stops Tight expressionUpTo)

namespace Term

/-! ### Expressions as they are read -/

mutual

/-- An expression as it should be read. -/
def tree : Term → Tree
  | .number digits => .number digits
  | .string value => .string value
  | .boolean b => .boolean b
  | .array es => .array (trees es)
  | .variable x => .name x
  | .unary op e => .unary op e.tree
  | .binary op l r => .binary op l.tree r.tree
  | .call callee awaited args =>
    let called := Tree.call (.name (identifier callee.name)) (trees args)
    if awaited then .await called else called
  | .cast e t => .cast e.tree t.text
  | .member e field => .member e.tree field

def trees : List Term → List Tree
  | [] => []
  | e :: es => e.tree :: trees es

end

theorem trees_eq (es : List Term) : trees es = es.map tree := by
  induction es with
  | nil => rfl
  | cons e es ih => rw [trees, ih, List.map_cons]

theorem everywhereIn_trees {P : Tree → Prop} {es : List Term} :
    Tree.EverywhereIn P (trees es) ↔ ∀ e ∈ es, e.tree.Everywhere P := by
  rw [Tree.everywhereIn_iff, trees_eq, List.forall_mem_map]

/-- Nothing has type arguments in the expression that should be read. -/
theorem bare_tree (e : Term) : e.tree.Everywhere Tree.Bare := by
  induction e with
  | number | string | boolean | var => trivial
  | array es ih => exact ⟨trivial, everywhereIn_trees.mpr ih⟩
  | unary op e ih | cast e t ih | member e field ih => exact ⟨trivial, ih⟩
  | binary op l r ihl ihr => exact ⟨trivial, ihl, ihr⟩
  | call callee awaited args ih =>
      have hcall := And.intro trivial (And.intro trivial (everywhereIn_trees.mpr ih))
      cases awaited with
      | false => exact hcall
      | true => exact ⟨trivial, hcall⟩

/-- How strongly the outermost operator of an expression binds. -/
def strength : Term → Nat
  | .binary op _ _ => precedence op
  | _ => 7

theorem strength_le (e : Term) : e.strength ≤ 7 := by
  cases e with
  | binary op l r =>
      have hprecedence : precedence op ≤ 7 := by cases op <;> decide
      exact hprecedence
  | _ => exact Nat.le_refl 7

/-! ### Tokens -/

/-- The tokens of an expression with or without parentheses around it. -/
def lexemesIn (needed : Bool) (e : Term) : List Lexeme := (bracketed needed e.pieces).reduceOption

theorem lexemesIn_true (e : Term) : e.lexemesIn true = .mark "(" :: (e.lexemes ++ [.mark ")"]) := by
  simp [lexemesIn, bracketed, lexemes, mark, List.reduceOption_append]

theorem length_lexemesIn (needed : Bool) (e : Term) :
    e.lexemes.length ≤ (e.lexemesIn needed).length := by
  cases needed with
  | false => exact Nat.le_refl _
  | true =>
      rw [lexemesIn_true, List.length_cons, List.length_append]
      omega

theorem reduceOption_continued (es : List Term) :
    (continued es).reduceOption = Reader.commaBefore (es.map lexemes) := by
  induction es with
  | nil => rfl
  | cons e es ih =>
      simp [continued, mark, List.reduceOption_append, ih, Reader.commaBefore, lexemes]

theorem reduceOption_listed (es : List Term) :
    (listed es).reduceOption = Reader.commaBetween (es.map lexemes) := by
  cases es with
  | nil => rfl
  | cons e es =>
      simp [listed, List.reduceOption_append, reduceOption_continued, Reader.commaBetween, lexemes]

theorem lexemes_array (es : List Term) : (Term.array es).lexemes =
    .mark "[" :: (Reader.commaBetween (es.map lexemes) ++ [.mark "]"]) := by
  simp [lexemes, pieces, mark, List.reduceOption_append, reduceOption_listed]

theorem lexemes_unary (op : UnaryOp) (e : Term) :
    (Term.unary op e).lexemes = .mark (unarySymbol op) :: e.lexemesIn (e.groupsUnder op) := by
  simp [lexemes, pieces, mark, lexemesIn]

theorem lexemes_binary (op : BinaryOp) (l r : Term) : (Term.binary op l r).lexemes =
    l.lexemesIn (l.groupsLeftOf op) ++
      .mark (binarySymbol op) :: r.lexemesIn (r.groupsRightOf op) := by
  simp [lexemes, pieces, mark, List.reduceOption_append, lexemesIn]

theorem lexemes_call (callee : Reference) (args : List Term) :
    (Term.call callee false args).lexemes =
    [.word (identifier callee.name)] ++
      .mark "(" :: (Reader.commaBetween (args.map lexemes) ++ [.mark ")"]) := by
  simp [lexemes, pieces, mark, word, List.reduceOption_append, reduceOption_listed]

theorem lexemes_awaited (callee : Reference) (args : List Term) :
    (Term.call callee true args).lexemes =
      .word "await" :: (Term.call callee false args).lexemes := by
  simp [lexemes, pieces, word]

theorem lexemes_cast (e : Term) (t : TypeExpr) : (Term.cast e t).lexemes =
    .mark "(" :: (e.lexemesIn e.groupsBefore ++ [.word "as", .word t.text] ++ [.mark ")"]) := by
  simp [lexemes, pieces, mark, word, List.reduceOption_append, lexemesIn]

theorem lexemes_member (e : Term) (field : String) : (Term.member e field).lexemes =
    e.lexemesIn e.groupsBefore ++ [.mark ".", .word field] := by
  simp [lexemes, pieces, mark, word, List.reduceOption_append, lexemesIn]

theorem lexemes_ne_nil (e : Term) : e.lexemes ≠ [] := by
  cases e with
  | number | string | boolean | «variable» => exact List.cons_ne_nil _ _
  | array => exact lexemes_array _ ▸ List.cons_ne_nil _ _
  | unary => exact lexemes_unary _ _ ▸ List.cons_ne_nil _ _
  | binary => exact lexemes_binary _ _ _ ▸
    List.append_ne_nil_of_right_ne_nil _ (List.cons_ne_nil _ _)
  | call _ awaited =>
      cases awaited with
      | false => exact lexemes_call _ _ ▸ List.cons_ne_nil _ _
      | true => exact lexemes_awaited _ _ ▸ List.cons_ne_nil _ _
  | cast => exact lexemes_cast _ _ ▸ List.cons_ne_nil _ _
  | member => exact lexemes_member _ _ ▸ List.append_ne_nil_of_right_ne_nil _ (List.cons_ne_nil _ _)

/-! ### Groups -/

/-- The tokens of an expression are read as the expression wherever its outermost operator can
stand: before a dot, behind a prefix, or among operators. -/
structure Groups (rules : TypeRules) (inner : Bool → Reader Tree) (casts : Bool) (e : Term) :
    Prop where
  tight : e.groupsBefore = false → Tight rules inner e.lexemes e.tree
  unary : e.strength = 7 → AcceptsAt rules inner casts 0 e.lexemes e.tree
  spine : ∀ k, 7 ≤ e.strength + (k + 1) → SpineAt rules inner casts k e.lexemes e.tree

section

variable {rules : TypeRules} {inner : Bool → Reader Tree} {casts : Bool} {e : Term}

theorem Groups.of_unary (htight : e.groupsBefore = false → Tight rules inner e.lexemes e.tree)
    (hunary : AcceptsAt rules inner casts 0 e.lexemes e.tree) : Groups rules inner casts e where
  tight := htight
  unary _ := hunary
  spine _ _ := (hunary.mono (Nat.zero_le _)).spine

theorem Groups.of_tight (h : Tight rules inner e.lexemes e.tree) : Groups rules inner casts e :=
  .of_unary (fun _ => h) h.acceptsAt_zero

theorem Groups.acceptsAt (h : Groups rules inner casts e) {k : Nat} (hk : 7 ≤ e.strength + k) :
    AcceptsAt rules inner casts k e.lexemes e.tree := by
  cases k with
  | zero => exact h.unary (Nat.le_antisymm e.strength_le hk)
  | succ k => exact (h.spine k hk).acceptsAt

end

/-- An expression is read as itself with brackets nested no deeper than it has tokens. -/
def Grouped (rules : TypeRules) (e : Term) : Prop :=
  ∀ d casts, e.lexemes.length ≤ d + 1 → Groups rules (expressionUpTo rules d) casts e

namespace Grouped

variable {rules : TypeRules} {e : Term} {d : Nat} {casts : Bool}

theorem accepts (h : Grouped rules e) (hd : e.lexemes.length ≤ d) :
    Accepts rules (expressionUpTo rules d casts) (Stops 6) e.lexemes e.tree := by
  have hpos : 0 < e.lexemes.length := List.length_pos_of_ne_nil e.lexemes_ne_nil
  obtain ⟨d, rfl⟩ : ∃ k, d = k + 1 := ⟨d - 1, by omega⟩
  have hstrength : 1 ≤ e.strength := by
    cases e with
    | binary op l r => exact (by cases op <;> decide : 1 ≤ precedence op)
    | _ => exact (by decide : 1 ≤ 7)
  exact (h d casts hd).acceptsAt (by omega)

theorem tight_parentheses (h : Grouped rules e) (hd : (e.lexemesIn true).length ≤ d + 1) :
    Tight rules (expressionUpTo rules d) (e.lexemesIn true) e.tree := by
  rw [lexemesIn_true] at hd ⊢
  simp only [List.length_cons, List.length_append, List.length_nil] at hd
  refine Reader.tight_parentheses ((h.accepts (by omega)).weaken ?_)
  rintro _ rfl
  exact Reader.stops_mark 6 (by decide)

theorem tight_before (h : Grouped rules e) (hd : (e.lexemesIn e.groupsBefore).length ≤ d + 1) :
    Tight rules (expressionUpTo rules d) (e.lexemesIn e.groupsBefore) e.tree := by
  cases hneeded : e.groupsBefore with
  | true => exact h.tight_parentheses (hneeded ▸ hd)
  | false => exact (h d false ((e.length_lexemesIn _).trans hd)).tight hneeded

theorem acceptsAt (h : Grouped rules e) {needed : Bool} {k : Nat}
    (hneeded : needed = false → 7 ≤ e.strength + k) (hd : (e.lexemesIn needed).length ≤ d + 1) :
    AcceptsAt rules (expressionUpTo rules d) casts k (e.lexemesIn needed) e.tree := by
  cases needed with
  | true => exact (h.tight_parentheses hd).acceptsAt_zero.mono (Nat.zero_le k)
  | false => exact (h d casts hd).acceptsAt (hneeded rfl)

theorem spineAt (h : Grouped rules e) {needed : Bool} {k : Nat}
    (hneeded : needed = false → 7 ≤ e.strength + (k + 1))
    (hd : (e.lexemesIn needed).length ≤ d + 1) :
    SpineAt rules (expressionUpTo rules d) casts k (e.lexemesIn needed) e.tree := by
  cases needed with
  | true => exact ((h.tight_parentheses hd).acceptsAt_zero.mono (Nat.zero_le k)).spine
  | false => exact (h d casts hd).spine k (hneeded rfl)

theorem accepts_list {es : List Term} (h : ∀ e ∈ es, Grouped rules e) {close : String}
    (hclose : close ∈ [")", "]"]) (hd : ∀ e ∈ es, e.lexemes.length ≤ d) :
    Accepts rules (Reader.list (expressionUpTo rules d rules.castsAnywhere) close) (fun _ => True)
      (Reader.commaBetween (es.map lexemes) ++ [.mark close]) (trees es) := by
  have hall : ∀ m ∈ [")", "]"], m ∈ [")", "]", ","] ∧ m ≠ "," := by decide
  obtain ⟨hstops, hne⟩ := hall close hclose
  rw [trees_eq]
  refine Reader.accepts_list (Reader.stops_mark 6 hstops) (Reader.stops_mark 6 (by decide)) hne
    (Reader.expressionUpTo_close hclose d _) ?_
  rw [List.forall₂_map_left_iff, List.forall₂_map_right_iff, List.forall₂_same]
  exact fun e he => (h e he).accepts (hd e he)

end Grouped

theorem length_lexemes_le_commaBefore {es : List Term} {e : Term} (he : e ∈ es) :
    e.lexemes.length ≤ (Reader.commaBefore (es.map lexemes)).length := by
  obtain ⟨before, after, rfl⟩ := List.append_of_mem he
  simp only [Reader.commaBefore, List.map_append, List.map_cons, List.flatMap_append,
    List.flatMap_cons, List.length_append, List.length_cons]
  omega

theorem length_lexemes_le_commaBetween {es : List Term} {e : Term} (he : e ∈ es) :
    e.lexemes.length ≤ (Reader.commaBetween (es.map lexemes)).length := by
  cases es with
  | nil => cases he
  | cons f fs =>
      rw [List.map_cons, Reader.commaBetween, List.length_append]
      rcases List.mem_cons.mp he with rfl | he
      · omega
      · have hle := length_lexemes_le_commaBefore he
        omega

section

variable {rules : TypeRules}

theorem tight_name {inner : Bool → Reader Tree} {x : String} (h : x ∉ keywords) :
    Tight rules inner [.word x] (.name x) := by
  have hne : x ≠ "true" ∧ x ≠ "false" ∧ x ≠ "await" := by
    refine ⟨?_, ?_, ?_⟩ <;> rintro rfl <;> exact h (by decide)
  refine .of_operand (fun rest _ _ => ?_) (if_neg hne.2.2)
  simp only [List.cons_append, List.nil_append, Reader.operand, if_neg hne.1,
    if_neg hne.2.1, if_neg h]

/-! ### One rule for each kind of expression -/

namespace Grouped

variable {e : Term}

theorem array {es : List Term} (h : ∀ e ∈ es, Grouped rules e) : Grouped rules (.array es) := by
  intro d casts hd
  refine .of_tight ?_
  rw [lexemes_array] at hd ⊢
  simp only [List.length_append, List.length_cons, List.length_nil] at hd
  refine Reader.tight_brackets (accepts_list h (by decide) fun e he => ?_)
  have hle := length_lexemes_le_commaBetween he
  omega

theorem unary (op : UnaryOp) (h : Grouped rules e) : Grouped rules (.unary op e) := by
  intro d casts hd
  have hprefix : Reader.prefixOf? (.mark (unarySymbol op)) = some (.unary op) := by
    cases op <;> rfl
  refine .of_unary nofun ?_
  rw [lexemes_unary] at hd ⊢
  rw [List.length_cons] at hd
  refine Reader.acceptsAt_prefix (h.acceptsAt (fun hneeded => ?_) (by omega)) hprefix
  cases e with
  | binary => cases hneeded
  | _ => exact Nat.le_refl 7

theorem spineAt_left {op : BinaryOp} {l : Term} {d k : Nat} {casts : Bool} (h : Grouped rules l)
    (hk : precedence op + k = 6) (hd : (l.lexemesIn (l.groupsLeftOf op)).length ≤ d + 1) :
    SpineAt rules (expressionUpTo rules d) casts k (l.lexemesIn (l.groupsLeftOf op)) l.tree := by
  refine h.spineAt (fun hneeded => ?_) hd
  cases l with
  | binary inner _ _ =>
      have hle := of_decide_eq_false hneeded
      show 7 ≤ precedence inner + (k + 1)
      omega
  | _ => exact Nat.le_add_right 7 _

theorem acceptsAt_right {op : BinaryOp} {r : Term} {d k : Nat} {casts : Bool} (h : Grouped rules r)
    (hk : precedence op + k = 6) (hd : (r.lexemesIn (r.groupsRightOf op)).length ≤ d + 1) :
    AcceptsAt rules (expressionUpTo rules d) casts k (r.lexemesIn (r.groupsRightOf op)) r.tree := by
  refine h.acceptsAt (fun hneeded => ?_) hd
  cases r with
  | binary inner _ _ =>
      have hlt := of_decide_eq_false hneeded
      show 7 ≤ precedence inner + k
      omega
  | _ => exact Nat.le_add_right 7 _

theorem binary {op : BinaryOp} {l r : Term} (hl : Grouped rules l) (hr : Grouped rules r) :
    Grouped rules (.binary op l r) := by
  intro d casts hd
  rw [lexemes_binary, List.length_append, List.length_cons] at hd
  have hprecedence : 1 ≤ precedence op ∧ precedence op ≤ 6 := by cases op <;> decide
  -- the two operands stand around the operator on the rung of its precedence
  have hspine : SpineAt rules (expressionUpTo rules d) casts (6 - precedence op)
      (Term.binary op l r).lexemes (Term.binary op l r).tree := by
    have hrung : precedence op + (6 - precedence op) = 6 := by omega
    rw [lexemes_binary]
    exact (hl.spineAt_left hrung (by omega)).binary hrung (hr.acceptsAt_right hrung (by omega))
  refine ⟨nofun, fun hseven => ?_, fun k hk => ?_⟩
  · have hseven : precedence op = 7 := hseven
    omega
  · have hk : 7 ≤ precedence op + (k + 1) := hk
    rcases Nat.eq_or_lt_of_le (by omega : 6 - precedence op ≤ k) with rfl | hlt
    · exact hspine
    · exact (hspine.acceptsAt.mono (by omega)).spine

theorem tight_call {callee : Reference} {args : List Term} {d : Nat}
    (hfree : identifier callee.name ∉ keywords) (h : ∀ e ∈ args, Grouped rules e)
    (hd : (Term.call callee false args).lexemes.length ≤ d + 1) :
    Tight rules (expressionUpTo rules d) (Term.call callee false args).lexemes
      (Term.call callee false args).tree := by
  rw [lexemes_call] at hd ⊢
  simp only [List.length_append, List.length_cons, List.length_nil] at hd
  refine (tight_name hfree).snoc (List.cons_ne_nil _ _) (Reader.accepts_call ?_)
  refine accepts_list h (by decide) fun e he => ?_
  have hle := length_lexemes_le_commaBetween he
  omega

theorem call {callee : Reference} {args : List Term} (hfree : identifier callee.name ∉ keywords)
    (h : ∀ e ∈ args, Grouped rules e) (awaited : Bool) :
    Grouped rules (.call callee awaited args) := by
  intro d casts hd
  cases awaited with
  | false => exact .of_tight (tight_call hfree h hd)
  | true =>
      rw [lexemes_awaited, List.length_cons] at hd
      have hcall := tight_call hfree h (by omega : _ ≤ d + 1)
      have hprefix : Reader.prefixOf? (.word "await") = some .await := by
        simp only [Reader.prefixOf?, if_true]
      refine .of_unary nofun ?_
      rw [lexemes_awaited]
      exact Reader.acceptsAt_prefix hcall.acceptsAt_zero hprefix

theorem cast {t : TypeExpr} (h : Grouped rules e) (hcasts : rules.Casts (.cast e.tree t.text)) :
    Grouped rules (.cast e t) := by
  intro d casts hd
  refine .of_tight ?_
  rw [lexemes_cast] at hd ⊢
  simp only [List.length_append, List.length_cons, List.length_nil] at hd
  obtain ⟨d, rfl⟩ : ∃ k, d = k + 1 := ⟨d - 1, by omega⟩
  have hvalue : SpineAt rules (expressionUpTo rules d) true 2
      (e.lexemesIn e.groupsBefore) e.tree :=
    ((h.tight_before (by omega)).acceptsAt_zero.mono (by omega)).spine
  have hcast := (hvalue.cast hcasts).mono (by omega : 3 ≤ 6)
  refine Reader.tight_parentheses (hcast.weaken ?_)
  rintro _ rfl
  exact Reader.stops_mark 6 (by decide)

theorem member {field : String} (h : Grouped rules e) : Grouped rules (.member e field) := by
  intro d casts hd
  refine .of_tight ?_
  rw [lexemes_member] at hd ⊢
  simp only [List.length_append, List.length_cons, List.length_nil] at hd
  exact (h.tight_before (by omega)).snoc (List.cons_ne_nil _ _) fun rest _ _ => rfl

end Grouped

/-- What is printed groups as the expression does. -/
theorem Spelled.grouped {e : Term} (h : e.Spelled) (hcasts : e.tree.Everywhere rules.Casts) :
    Grouped rules e := by
  induction e with
  | number digits => exact fun _ _ _ => .of_tight (.of_operand (fun rest _ _ => rfl) rfl)
  | string value => exact fun _ _ _ => .of_tight (.of_operand (fun rest _ _ => rfl) rfl)
  | boolean b =>
      cases b <;> exact fun _ _ _ => .of_tight (.of_operand (fun rest _ _ => rfl) (by decide))
  | var x => exact fun _ _ _ => .of_tight (tight_name h.free)
  | array es ih =>
      have hes := spelledAll_iff.mp h
      have hin := everywhereIn_trees.mp hcasts.2
      exact .array fun e he => ih e he (hes e he) (hin e he)
  | unary op e ih => exact (ih h hcasts.2).unary op
  | binary op l r ihl ihr => exact .binary (ihl h.1 hcasts.2.1) (ihr h.2 hcasts.2.2)
  | call callee awaited args ih =>
      have hargs := spelledAll_iff.mp h.2
      have hin : ∀ e ∈ args, e.tree.Everywhere rules.Casts := by
        cases awaited with
        | false => exact everywhereIn_trees.mp hcasts.2.2
        | true => exact everywhereIn_trees.mp hcasts.2.2.2
      exact .call h.1.free (fun e he => ih e he (hargs e he) (hin e he)) awaited
  | cast e t ih => exact (ih h.1 hcasts.2).cast hcasts.1
  | member e field ih => exact (ih h.1 hcasts.2).member

/-- The text of an expression is read as the expression, where no sign for less in it starts type
arguments and everything that it casts to can be a type. -/
theorem Spelled.read_text {e : Term} (h : e.Spelled) (hclear : rules.Clear e.lexemes)
    (hcasts : e.tree.Everywhere rules.Casts) : read rules e.text = some e.tree := by
  have hread : expressionUpTo rules e.lexemes.length rules.castsAnywhere e.lexemes =
      some (e.tree, []) := by
    have haccepts : Accepts rules
        (expressionUpTo rules e.lexemes.length rules.castsAnywhere) (Stops 6) e.lexemes e.tree :=
      (h.grouped hcasts).accepts (Nat.le_refl e.lexemes.length)
    simpa using haccepts [] (by simpa using hclear) (Reader.stops_none 6)
  simp only [read, h.lexemes?_text, hread, Option.bind_eq_bind, Option.bind_some, if_true,
    Option.pure_def]

end

theorem Spelled.casts_plain {e : Term} (h : e.Spelled) :
    e.tree.Everywhere TypeRules.plain.Casts := by
  induction e with
  | number | string | boolean | var => trivial
  | array es ih =>
      have hes := spelledAll_iff.mp h
      exact ⟨trivial, everywhereIn_trees.mpr fun e he => ih e he (hes e he)⟩
  | unary op e ih => exact ⟨trivial, ih h⟩
  | binary op l r ihl ihr => exact ⟨trivial, ihl h.1, ihr h.2⟩
  | call callee awaited args ih =>
      have hargs := spelledAll_iff.mp h.2
      have hcall := And.intro trivial
        (And.intro trivial (everywhereIn_trees.mpr fun e he => ih e he (hargs e he)))
      cases awaited with
      | false => exact hcall
      | true => exact ⟨trivial, hcall⟩
  | cast e t ih => exact ⟨h.2.free, ih h.1⟩
  | member e field ih => exact ⟨trivial, ih h.1⟩

/-- The text of an expression is read as the expression exactly if no sign for less in it starts
type arguments and everything that it casts to can be a type. -/
theorem Spelled.read_text_iff {rules : TypeRules} {e : Term} (h : e.Spelled) :
    read rules e.text = some e.tree ↔ rules.Clear e.lexemes ∧ e.tree.Everywhere rules.Casts := by
  constructor
  · exact fun hread => clear_of_read hread h.lexemes?_text e.bare_tree
  · exact fun hreadable => h.read_text hreadable.1 hreadable.2

/-- Without type arguments, the text of an expression is read as the expression. -/
theorem Spelled.read_text_plain {e : Term} (h : e.Spelled) : read .plain e.text = some e.tree :=
  h.read_text (TypeRules.clear_plain _) h.casts_plain

end Term

end Prosaic.TypeScript
