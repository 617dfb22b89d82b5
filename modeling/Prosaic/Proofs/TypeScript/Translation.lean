import Prosaic.Proofs.Program.WellFormed
import Prosaic.Proofs.TypeScript.Grouping
import Prosaic.Proofs.TypeScript.Lowering
import Prosaic.Proofs.TypeScript.Renaming
import Prosaic.Proofs.TypeScript.Spelling

/-!
Expressions are read back from their text as what they say: the operators, operands and arguments
that they have in the program. A text can also be read otherwise, as the signs for less and greater
in it may enclose type arguments; where they do is told exactly.
-/

namespace Prosaic

open TypeScript

/-! ### Translation -/

/-- A call in the target language: a conversion becomes a cast, and an effectful call is awaited. -/
def calledTree (r : Registry) (callee : Name) (note : CallNote) (args : List Tree) : Tree :=
  match note.target, args with
  | some .conversion, value :: _ => .cast value (typeOfName r callee.text).text
  | _, _ =>
    let called := Tree.call (.name (identifier callee.text)) args
    if note.purity = some .effectful then .await called else called

mutual

/-- An expression in the target language. Names are those under which the locals are in scope. -/
def Expr.translation (r : Registry) (l : Locals) : Expr → Tree
  | .literal (.number n) _ => .number ((numberDigits n).toOption.getD "")
  | .literal (.string s) _ => .string s
  | .literal (.boolean b) _ => .boolean b
  | .list es _ => .array (Expr.translations r l es)
  | .variable x _ => .name (l.resolve x)
  | .unary op e _ => .unary op (e.translation r l)
  | .binary op a b _ => .binary op (a.translation r l) (b.translation r l)
  | .call callee args note => calledTree r callee note (Expr.translations r l args)
  | .field e name _ => .member (e.translation r l) name.text

def Expr.translations (r : Registry) (l : Locals) : List Expr → List Tree
  | [] => []
  | e :: es => e.translation r l :: Expr.translations r l es

end

/-- The text of a term has nothing that can be taken for type arguments, and everything in it is
cast to what can be a type. -/
def TypeScript.Term.Clear (t : Term) : Prop :=
  TypeRules.full.Clear t.lexemes ∧ t.tree.Everywhere TypeRules.full.Casts

/-- An expression that can be lowered, and is read back from the text of its term: without type
arguments always, and by all rules of the language exactly if the text is clear. -/
def Expr.ReadsBack (r : Registry) (l : Locals) (e : Expr) : Prop :=
  ∃ t, lowerExpr r l e = .ok t ∧ read .plain t.text = some (e.translation r l) ∧
    (read .full t.text = some (e.translation r l) ↔ t.Clear)

/-! ### Conditions -/

/-- The condition of a node that makes sense to the type check: nothing is a member of a number, and
no conversion is to a record or to a list. -/
def Expr.Sensible (r : Registry) : Expr → Prop
  | .literal (.number _) note => note.ty = some .number
  | .field base _ _ => base.ty? ≠ some .number
  | .call callee _ note =>
    note.target = some .conversion →
      ∀ t, r.type? callee.text = some t → (∃ b, t = .base b) ∨ ∃ d, t = .domain d
  | _ => True

/-- The condition of a node that can be read back. -/
structure Expr.Legible (r : Registry) (e : Expr) : Prop where
  formed : e.Formed
  sensible : e.Sensible r

theorem Expr.Everywhere.deep {P : Expr → Prop} {e : Expr} (h : e.Everywhere P) :
    e.Everywhere (Expr.Everywhere P) := by
  induction e with
  | literal | var => exact h
  | list es note ih | call f es note ih =>
      refine ⟨h, Expr.everywhereIn_iff.mpr fun e he => ?_⟩
      exact ih e he (Expr.everywhereIn_iff.mp h.2 e he)
  | unary op e note ih | field e name note ih => exact ⟨h, ih h.2⟩
  | binary op l r note ihl ihr => exact ⟨h, ihl h.2.1, ihr h.2.2⟩

/-! ### Lowered expressions -/

section

variable {r : Registry} {l : Locals}

/-- Only the literal of a number is lowered to a number. -/
theorem exists_literal_of_number {e : Expr} {digits : String}
    (h : lowerExpr r l e = .ok (.number digits)) : ∃ n note, e = .literal (.number n) note := by
  cases e with
  | literal value note =>
      obtain ⟨-, h⟩ := lowerExpr_literal.mp h
      cases value with
      | number n => exact ⟨n, note, rfl⟩
      | string s => cases h
      | boolean b => cases h
  | call callee args note =>
      obtain ⟨target, purity, ts, -, -, -, h⟩ := lowerExpr_call.mp h
      unfold callTerm at h
      split at h <;> cases h
  | «variable» => cases (lowerExpr_variable.mp h).2
  | list =>
      obtain ⟨-, ts, -, h⟩ := lowerExpr_list.mp h
      cases h
  | unary =>
      obtain ⟨-, u, -, h⟩ := lowerExpr_unary.mp h
      cases h
  | binary =>
      obtain ⟨-, u, -, v, -, h⟩ := lowerExpr_binary.mp h
      cases h
  | field =>
      obtain ⟨-, u, -, h⟩ := lowerExpr_field.mp h
      cases h

/-- A term that is spelled as it should be and says what the expression says. -/
structure Says (r : Registry) (l : Locals) (e : Expr) (t : Term) : Prop where
  spelled : t.Spelled
  tree : t.tree = e.translation r l

theorem says_all_of {es : List Expr} {ts : List Term} (h : List.Forall₂ (Says r l) es ts) :
    Term.SpelledAll ts ∧ Term.trees ts = Expr.translations r l es := by
  induction h with
  | nil => exact ⟨trivial, rfl⟩
  | cons he _ ih => exact ⟨⟨he.spelled, ih.1⟩, by rw [Term.trees, Expr.translations, he.tree, ih.2]⟩

theorem tree_callTerm {callee : Name} {note : CallNote} {ts : List Term} {target : CallTarget}
    {purity : Purity} (htarget : note.target = some target) (hpurity : note.purity = some purity) :
    (callTerm r callee target purity ts).tree = calledTree r callee note (Term.trees ts) := by
  unfold callTerm calledTree
  rw [htarget, hpurity]
  cases target with
  | conversion => cases ts <;> simp [Term.tree, Term.trees]
  | function | operation | helper => simp [Term.tree]

theorem says_callTerm (hnamed : r.Named) {callee : Name} {args : List Expr} {note : CallNote}
    {ts : List Term} {target : CallTarget} {purity : Purity}
    (h : (Expr.call callee args note).Legible r)
    (htarget : note.target = some target) (hpurity : note.purity = some purity)
    (hargs : List.Forall₂ (Says r l) args ts) :
    Says r l (.call callee args note) (callTerm r callee target purity ts) := by
  obtain ⟨hspelled, htrees⟩ := says_all_of hargs
  refine ⟨?_, by rw [tree_callTerm htarget hpurity, htrees, Expr.translation]⟩
  unfold callTerm
  split
  · exact ⟨hspelled.1, isIdentifier_typeOfName hnamed h.formed.word (h.sensible htarget)⟩
  · exact ⟨isIdentifier_identifier h.formed.word, hspelled⟩

theorem says_lowerExprs_of {es : List Expr} {ts : List Term}
    (h : ∀ e ∈ es, ∀ {t}, e.Everywhere (Expr.Legible r) → lowerExpr r l e = .ok t → Says r l e t)
    (hes : Expr.EverywhereIn (Expr.Legible r) es)
    (hts : List.Forall₂ (fun e t => lowerExpr r l e = .ok t) es ts) :
    List.Forall₂ (Says r l) es ts := by
  rw [Expr.everywhereIn_iff] at hes
  induction hts with
  | nil => exact .nil
  | cons ht _ ih =>
      obtain ⟨he, hrest⟩ := List.forall_mem_cons.mp h
      obtain ⟨hlegible, hes⟩ := List.forall_mem_cons.mp hes
      exact .cons (he hlegible ht) (ih hrest hes)

/-- A lowered expression says what the expression says. -/
theorem says_lowerExpr (hnamed : r.Named) (hl : l.Spelled) {e : Expr} {t : Term}
    (h : e.Everywhere (Expr.Legible r))
    (ht : lowerExpr r l e = .ok t) : Says r l e t := by
  have hnode := h.here
  induction e generalizing t with
  | literal value note =>
      obtain ⟨-, ht⟩ := lowerExpr_literal.mp ht
      cases value with
      | number n =>
          obtain ⟨digits, hdigits, rfl⟩ := lowerLiteral_number.mp ht
          exact ⟨isNumeral_numberDigits hnode.formed hdigits,
            by rw [Expr.translation, hdigits]; rfl⟩
      | string s | boolean b =>
          cases ht
          exact ⟨trivial, rfl⟩
  | var name note =>
      obtain ⟨-, rfl⟩ := lowerExpr_variable.mp ht
      exact ⟨hl.resolve hnode.formed.word, rfl⟩
  | list es note ih =>
      obtain ⟨-, ts, hts, rfl⟩ := lowerExpr_list.mp ht
      obtain ⟨hspelled, htrees⟩ := says_all_of
        (says_lowerExprs_of (fun e he t hall ht => ih e he hall ht hall.here) h.2 hts)
      exact ⟨hspelled, congrArg Tree.array htrees⟩
  | unary op e note ih =>
      obtain ⟨-, u, hu, rfl⟩ := lowerExpr_unary.mp ht
      obtain ⟨hspelled, htree⟩ := ih h.2 hu h.2.here
      exact ⟨hspelled, congrArg (Tree.unary op) htree⟩
  | binary op a b note iha ihb =>
      obtain ⟨-, u, hu, v, hv, rfl⟩ := lowerExpr_binary.mp ht
      have hleft := iha h.2.1 hu h.2.1.here
      have hright := ihb h.2.2 hv h.2.2.here
      exact ⟨⟨hleft.spelled, hright.spelled⟩, congrArg₂ (Tree.binary op) hleft.tree hright.tree⟩
  | call callee args note ih =>
      obtain ⟨target, purity, ts, ⟨htarget, hpurity⟩, -, hts, rfl⟩ := lowerExpr_call.mp ht
      exact says_callTerm hnamed hnode htarget hpurity
        (says_lowerExprs_of (fun e he t hall ht => ih e he hall ht hall.here) h.2 hts)
  | field e name note ih =>
      obtain ⟨-, u, hu, rfl⟩ := lowerExpr_field.mp ht
      obtain ⟨hspelled, htree⟩ := ih h.2 hu h.2.here
      refine ⟨⟨hspelled, hnode.formed.word, ?_⟩, congrArg (Tree.member · name.text) htree⟩
      -- a number has the type of numbers, which has no members
      rintro digits rfl
      obtain ⟨n, note', rfl⟩ := exists_literal_of_number hu
      exact hnode.sensible h.2.sensible

/-- Where all nodes of an expression can be lowered and read back, so can all the expressions in
it. -/
theorem readsBack_everywhere (hnamed : r.Named) (hl : l.Spelled) {e : Expr}
    (h : e.Everywhere (Expr.Legible r))
    (hlowerable : e.Everywhere Lowerable) : e.Everywhere (Expr.ReadsBack r l) := by
  refine (h.deep.and hlowerable.deep).mono fun e he => ?_
  obtain ⟨t, ht⟩ := lowerExpr_ok r l he.2
  have hsays := says_lowerExpr hnamed hl he.1 ht
  have hspelled := hsays.spelled
  refine ⟨t, ht, ?_⟩
  rw [← hsays.tree]
  exact ⟨hspelled.read_text_plain, hspelled.read_text_iff⟩

end

end Prosaic
