import Prosaic.Proofs.Program.Parts
import Prosaic.Proofs.Token.Scan

/-!
What a program looks like when it has been read without findings: its names are names of the
language, its numbers are values of literals, its sets of literals are not empty and list nothing
twice, and nothing has been checked yet.
-/

namespace Prosaic

/-! ### Expressions -/

/-- The condition of a node whose number, if it is one, can be written down. -/
def Expr.Finite : Expr → Prop
  | .literal (.number (.real x)) _ => x.isFinite = true
  | _ => True

/-- The condition of a node with nothing found about it. -/
def Expr.Unnoted : Expr → Prop
  | .call _ _ note => note.ty = none ∧ note.target = none ∧ note.purity = none
  | e => e.ty? = none

/-- The condition of a node that holds no other names and numbers than those of the language. -/
def Expr.Formed : Expr → Prop
  | .literal (.number n) _ => n.IsLiteral
  | .variable name _ => IsName name
  | .call callee _ _ => IsName callee.text
  | .field _ name _ => IsName name.text
  | _ => True

/-- The condition of a node as it is read. -/
structure Expr.Fresh (e : Expr) : Prop where
  unnoted : e.Unnoted
  formed : e.Formed

theorem Expr.Fresh.untyped {e : Expr} (h : e.Fresh) : e.ty? = none := by
  have hnote := h.unnoted
  cases e with
  | call callee args note => exact hnote.1
  | _ => exact hnote

theorem Expr.Fresh.finite {e : Expr} (h : e.Fresh) : e.Finite := by
  have hformed := h.formed
  unfold Expr.Finite
  split
  · obtain ⟨cs, hcs⟩ := hformed
    exact Token.finite_numeral hcs
  · trivial

/-- All nodes of an expression are as they are read. -/
def Expr.AllFresh (e : Expr) : Prop := e.Everywhere Expr.Fresh

/-! ### Statements -/

/-- All nodes of a statement are as they are read. -/
def Stmt.AllFresh (s : Stmt) : Prop := s.Everywhere Expr.Fresh

mutual

/-- A statement as it is read. -/
def Stmt.WellFormed : Stmt → Prop
  | .bind name init _ => IsName name.text ∧ init.AllFresh
  | .branch condition thenBlock none _ => condition.AllFresh ∧ Stmt.AllWellFormed thenBlock
  | .branch condition thenBlock (some otherwise) _ =>
    condition.AllFresh ∧ Stmt.AllWellFormed thenBlock ∧ Stmt.AllWellFormed otherwise
  | .forEach item iterable body _ =>
    IsName item.text ∧ iterable.AllFresh ∧ Stmt.AllWellFormed body
  | .call callee args note _ => (Expr.call callee args note).AllFresh
  | .return none _ => True
  | .return (some value) _ => value.AllFresh
  | .expression value _ => value.AllFresh

def Stmt.AllWellFormed : List Stmt → Prop
  | [] => True
  | s :: ss => s.WellFormed ∧ Stmt.AllWellFormed ss

end

@[simp] theorem Stmt.allWellFormed_iff {ss : List Stmt} :
    Stmt.AllWellFormed ss ↔ ∀ s ∈ ss, s.WellFormed := by
  induction ss with
  | nil => simp [Stmt.AllWellFormed]
  | cons s ss ih => simp [Stmt.AllWellFormed, ih]

theorem Stmt.WellFormed.fresh {s : Stmt} (h : s.WellFormed) : s.AllFresh := by
  have hblock : ∀ ss : List Stmt, (∀ s ∈ ss, s.WellFormed → s.AllFresh) →
      Stmt.AllWellFormed ss → Stmt.EverywhereIn Expr.Fresh ss := by
    intro ss ih hss
    rw [Stmt.allWellFormed_iff] at hss
    exact Stmt.everywhereIn_iff.mpr fun s hs => ih s hs (hss s hs)
  induction s with
  | bind => exact h.2
  | branch c t span iht => exact ⟨h.1, hblock t iht h.2⟩
  | branchOtherwise c t o span iht iho => exact ⟨h.1, hblock t iht h.2.1, hblock o iho h.2.2⟩
  | forEach item e body span ih => exact ⟨h.2.1, hblock body ih h.2.2⟩
  | call | expression => exact h
  | returns value span =>
      cases value with
      | none => trivial
      | some e => exact h

/-! ### Declarations -/

def TypeRef.WellFormed : TypeRef → Prop
  | .named name _ => IsName name
  | .list element _ => element.WellFormed

structure Typed.WellFormed (t : Typed) : Prop where
  name : IsName t.name
  ty : t.ty.WellFormed

structure FunctionDecl.WellFormed (f : FunctionDecl) : Prop where
  name : IsName f.name.text
  parameters : ∀ p ∈ f.parameters, p.WellFormed
  returns : ∀ r ∈ f.returns, r.WellFormed
  body : ∀ s ∈ f.body, s.WellFormed
  unresolved : f.resolved = none

def TypeBody.WellFormed : TypeBody → Prop
  | .reference ty => ty.WellFormed
  | .literals values => values ≠ [] ∧ values.Nodup

structure TypeDecl.WellFormed (t : TypeDecl) : Prop where
  name : IsName t.name
  body : t.body.WellFormed

structure RecordDecl.WellFormed (r : RecordDecl) : Prop where
  name : IsName r.name
  fields : ∀ f ∈ r.fields, f.WellFormed

def Decl.WellFormed : Decl → Prop
  | .function f => f.WellFormed
  | .type t => t.WellFormed
  | .record r => r.WellFormed

theorem Decl.WellFormed.name {d : Decl} (h : d.WellFormed) : IsName d.name := by
  cases d with
  | function f => exact FunctionDecl.WellFormed.name h
  | type t => exact TypeDecl.WellFormed.name h
  | record r => exact RecordDecl.WellFormed.name h

theorem Decl.WellFormed.readable {d : Decl} (h : d.WellFormed) : d.isReadable = true :=
  decide_eq_true h.name.ne_unreadable

/-- The names in a function as it is read, with or without findings. -/
structure FunctionDecl.Named (f : FunctionDecl) : Prop where
  name : IsName f.name.text ∨ f.name.text = unreadableName
  parameters : ∀ p ∈ f.parameters, IsName p.name

def Decl.Named : Decl → Prop
  | .function f => f.Named
  | .type t => IsName t.name
  | .record r => IsName r.name

/-- A program as it is read without findings. -/
def Program.WellFormed (p : Program) : Prop := ∀ d ∈ p.declarations, d.WellFormed

end Prosaic
