import Prosaic.Diagnostic
import Prosaic.Proofs.Program.Bare

/-!
Where the parts of a program start. Of some places in a text it is said that every node, every name
and every reference to a type starts at one of them.
-/

namespace Prosaic

variable (mark : Location → Prop)

/-! ### Expressions -/

/-- The name that is part of a node. A variable is its name. -/
def Expr.name? : Expr → Option Name
  | .call callee _ _ => some callee
  | .field _ name _ => some name
  | _ => none

/-- A node starts at one of some places, and so does its name. -/
structure Expr.Starts (e : Expr) : Prop where
  span : mark e.span.start.location
  name : ∀ n ∈ e.name?, mark n.span.start.location

/-- All nodes of an expression start at some places. -/
def Expr.Placed (e : Expr) : Prop := e.Everywhere (Expr.Starts mark)

/-! ### Statements -/

variable (E : Expr → Prop)

mutual

/-- A statement, the statements in it and their names start at some places, and their expressions
have a property. -/
def Stmt.Placed : Stmt → Prop
  | .bind name init span =>
    mark span.start.location ∧ mark name.span.start.location ∧ E init
  | .branch condition thenBlock none span =>
    mark span.start.location ∧ E condition ∧ Stmt.AllPlaced thenBlock
  | .branch condition thenBlock (some otherwise) span =>
    mark span.start.location ∧ E condition ∧ Stmt.AllPlaced thenBlock ∧ Stmt.AllPlaced otherwise
  | .forEach item iterable body span =>
    mark span.start.location ∧ mark item.span.start.location ∧ E iterable ∧ Stmt.AllPlaced body
  | .call callee args note span => mark span.start.location ∧ E (.call callee args note)
  | .return none span => mark span.start.location
  | .return (some value) span => mark span.start.location ∧ E value
  | .expression value span => mark span.start.location ∧ E value

def Stmt.AllPlaced : List Stmt → Prop
  | [] => True
  | s :: ss => s.Placed ∧ Stmt.AllPlaced ss

end

/-! ### Declarations -/

/-- A reference to a type starts at one of some places, and so do those in it. -/
def TypeRef.Placed : TypeRef → Prop
  | .named _ span => mark span.start.location
  | .list element span => mark span.start.location ∧ element.Placed

/-- A parameter or field starts at one of some places. -/
structure Typed.Placed (t : Typed) : Prop where
  span : mark t.span.start.location
  ty : t.ty.Placed mark

/-- The parts of a function start at some places, and the expressions in its body have a
property. -/
structure FunctionDecl.Placed (f : FunctionDecl) : Prop where
  span : mark f.span.start.location
  name : mark f.name.span.start.location
  parameters : ∀ p ∈ f.parameters, p.Placed mark
  returns : ∀ r ∈ f.returns, r.Placed mark
  body : Stmt.AllPlaced mark E f.body

/-- The reference to a type in a declaration, if it has one. -/
def TypeBody.reference? : TypeBody → Option TypeRef
  | .reference ty => some ty
  | .literals _ => none

/-- The parts of a declaration start at some places, and the expressions in it have a property. -/
def Decl.Placed : Decl → Prop
  | .function f => f.Placed mark E
  | .type t => mark t.span.start.location ∧ ∀ r ∈ t.body.reference?, r.Placed mark
  | .record r => mark r.span.start.location ∧ ∀ f ∈ r.fields, f.Placed mark

/-- The parts of a program start at some places, and the expressions in it have a property. -/
def Program.Placed (p : Program) : Prop := ∀ d ∈ p.declarations, d.Placed mark E

section

variable {mark E}

@[simp] theorem Stmt.allPlaced_iff {ss : List Stmt} :
    Stmt.AllPlaced mark E ss ↔ ∀ s ∈ ss, s.Placed mark E := by
  induction ss with
  | nil => simp [Stmt.AllPlaced]
  | cons s ss ih => simp [Stmt.AllPlaced, ih]

theorem Stmt.Placed.span {s : Stmt} (h : s.Placed mark E) : mark s.span.start.location := by
  cases s with
  | branch c t o span => cases o <;> exact h.1
  | «return» value span =>
      cases value with
      | none => exact h
      | some e => exact h.1
  | _ => exact h.1

theorem TypeRef.Placed.span {r : TypeRef} (h : r.Placed mark) : mark r.span.start.location := by
  cases r with
  | named => exact h
  | list => exact h.1

theorem Decl.Placed.span {d : Decl} (h : d.Placed mark E) : mark d.span.start.location := by
  cases d with
  | function f => exact FunctionDecl.Placed.span h
  | type t => exact h.1
  | record r => exact h.1

theorem Decl.Placed.nameStart {d : Decl} (h : d.Placed mark E) : mark d.nameStart.location := by
  cases d with
  | function f => exact FunctionDecl.Placed.name h
  | type t => exact h.1
  | record r => exact h.1

/-- The expressions of a statement, as the parts they are of one that is placed. -/
theorem Stmt.Placed.everywhere {P : Expr → Prop} (hE : ∀ e, E e → e.Everywhere P) {s : Stmt}
    (h : s.Placed mark E) : s.Everywhere P := by
  have hblock : ∀ ss : List Stmt, (∀ s ∈ ss, s.Placed mark E → s.Everywhere P) →
      Stmt.AllPlaced mark E ss → Stmt.EverywhereIn P ss := by
    intro ss ih hss
    rw [Stmt.allPlaced_iff] at hss
    exact Stmt.everywhereIn_iff.mpr fun s hs => ih s hs (hss s hs)
  induction s with
  | bind name e span => exact hE e h.2.2
  | branch c t span iht => exact ⟨hE c h.2.1, hblock t iht h.2.2⟩
  | branchOtherwise c t o span iht iho =>
      exact ⟨hE c h.2.1, hblock t iht h.2.2.1, hblock o iho h.2.2.2⟩
  | forEach item e body span ih => exact ⟨hE e h.2.2.1, hblock body ih h.2.2.2⟩
  | call f args note span => exact hE _ h.2
  | returns value span =>
      cases value with
      | none => trivial
      | some e => exact hE e h.2
  | expression e span => exact hE e h.2

theorem Stmt.Placed.mono {E' : Expr → Prop} (hE : ∀ e, E e → E' e) {s : Stmt}
    (h : s.Placed mark E) : s.Placed mark E' := by
  have hblock : ∀ ss : List Stmt, (∀ s ∈ ss, s.Placed mark E → s.Placed mark E') →
      Stmt.AllPlaced mark E ss → Stmt.AllPlaced mark E' ss := by
    intro ss ih hss
    rw [Stmt.allPlaced_iff] at hss ⊢
    exact fun s hs => ih s hs (hss s hs)
  induction s with
  | bind name e span => exact ⟨h.1, h.2.1, hE e h.2.2⟩
  | branch c t span iht => exact ⟨h.1, hE c h.2.1, hblock t iht h.2.2⟩
  | branchOtherwise c t o span iht iho =>
      exact ⟨h.1, hE c h.2.1, hblock t iht h.2.2.1, hblock o iho h.2.2.2⟩
  | forEach item e body span ih => exact ⟨h.1, h.2.1, hE e h.2.2.1, hblock body ih h.2.2.2⟩
  | call f args note span => exact ⟨h.1, hE _ h.2⟩
  | returns value span =>
      cases value with
      | none => exact h
      | some e => exact ⟨h.1, hE e h.2⟩
  | expression e span => exact ⟨h.1, hE e h.2⟩

theorem Program.Placed.mono {E' : Expr → Prop} (hE : ∀ e, E e → E' e) {p : Program}
    (h : p.Placed mark E) : p.Placed mark E' := by
  intro d hd
  have hplaced := h d hd
  cases d with
  | function f =>
      have hbody := Stmt.allPlaced_iff.mp (FunctionDecl.Placed.body hplaced)
      exact { hplaced with body := Stmt.allPlaced_iff.mpr fun s hs => (hbody s hs).mono hE }
  | type t => exact hplaced
  | record r => exact hplaced

/-! ### Everything somewhere -/

section

variable (hmark : ∀ l, mark l)

include hmark

theorem Expr.placed_anywhere (e : Expr) : e.Placed mark := by
  have hstarts : ∀ e : Expr, e.Starts mark := fun e => ⟨hmark _, fun _ _ => hmark _⟩
  induction e with
  | literal | var => exact hstarts _
  | list es note ih | call f es note ih => exact ⟨hstarts _, Expr.everywhereIn_iff.mpr ih⟩
  | unary op e note ih | field e name note ih => exact ⟨hstarts _, ih⟩
  | binary op l r note ihl ihr => exact ⟨hstarts _, ihl, ihr⟩

theorem Stmt.placed_anywhere (hE : ∀ e, E e) (s : Stmt) : s.Placed mark E := by
  induction s with
  | bind name e span => exact ⟨hmark _, hmark _, hE e⟩
  | branch c t span iht => exact ⟨hmark _, hE c, Stmt.allPlaced_iff.mpr iht⟩
  | branchOtherwise c t o span iht iho =>
      exact ⟨hmark _, hE c, Stmt.allPlaced_iff.mpr iht, Stmt.allPlaced_iff.mpr iho⟩
  | forEach item e body span ih => exact ⟨hmark _, hmark _, hE e, Stmt.allPlaced_iff.mpr ih⟩
  | call f args note span => exact ⟨hmark _, hE _⟩
  | returns value span =>
      cases value with
      | none => exact hmark _
      | some e => exact ⟨hmark _, hE e⟩
  | expression e span => exact ⟨hmark _, hE e⟩

theorem TypeRef.placed_anywhere (r : TypeRef) : r.Placed mark := by
  induction r with
  | named name span => exact hmark _
  | list element span ih => exact ⟨hmark _, ih⟩

theorem Program.placed_anywhere (hE : ∀ e, E e) (p : Program) : p.Placed mark E := by
  have htyped : ∀ t : Typed, t.Placed mark := fun t => ⟨hmark _, t.ty.placed_anywhere hmark⟩
  intro d hd
  cases d with
  | function f =>
      exact ⟨hmark _, hmark _, fun p _ => htyped p, fun r _ => r.placed_anywhere hmark,
        Stmt.allPlaced_iff.mpr fun s _ => s.placed_anywhere hmark hE⟩
  | type t => exact ⟨hmark _, fun r _ => r.placed_anywhere hmark⟩
  | record r => exact ⟨hmark _, fun f _ => htyped f⟩

end

/-! ### Bare trees -/

/-- Where a node starts does not depend on the notes. -/
theorem Expr.placed_bare (e : Expr) : e.bare.Placed mark ↔ e.Placed mark :=
  Expr.everywhere_bare (fun e => by cases e <;> exact ⟨fun h => ⟨h.1, h.2⟩, fun h => ⟨h.1, h.2⟩⟩) e

section

variable (hE : ∀ e, E e.bare ↔ E e)

include hE

theorem Stmt.placed_bare (s : Stmt) : s.bare.Placed mark E ↔ s.Placed mark E := by
  induction s with
  | bind name e span => simp [Stmt.bare, Stmt.Placed, hE]
  | branch c t span iht =>
      have ht : (∀ s ∈ t, s.bare.Placed mark E) ↔ ∀ s ∈ t, s.Placed mark E := forall₂_congr iht
      simp [Stmt.bare, Stmt.Placed, hE, ht]
  | branchOtherwise c t o span iht iho =>
      have ht : (∀ s ∈ t, s.bare.Placed mark E) ↔ ∀ s ∈ t, s.Placed mark E := forall₂_congr iht
      have ho : (∀ s ∈ o, s.bare.Placed mark E) ↔ ∀ s ∈ o, s.Placed mark E := forall₂_congr iho
      simp [Stmt.bare, Stmt.Placed, hE, ht, ho]
  | forEach item e body span ih =>
      have hb : (∀ s ∈ body, s.bare.Placed mark E) ↔ ∀ s ∈ body, s.Placed mark E :=
        forall₂_congr ih
      simp [Stmt.bare, Stmt.Placed, hE, hb]
  | call f es note span => exact and_congr_right fun _ => hE (.call f es note)
  | returns value span =>
      cases value with
      | none => exact Iff.rfl
      | some e => exact and_congr_right fun _ => hE e
  | expression e span => exact and_congr_right fun _ => hE e

theorem Decl.placed_bare (d : Decl) : d.bare.Placed mark E ↔ d.Placed mark E := by
  cases d with
  | function f =>
      have hbody : Stmt.AllPlaced mark E (Stmt.bareAll f.body) ↔ Stmt.AllPlaced mark E f.body := by
        simp [Stmt.placed_bare hE]
      exact ⟨fun h => { h with body := hbody.mp h.body },
        fun h => { h with body := hbody.mpr h.body }⟩
  | type t => exact Iff.rfl
  | record r => exact Iff.rfl

/-- What the checks write into a program leaves its parts where they are. -/
theorem Program.SameBare.placed {p q : Program} (h : p.SameBare q) (hq : q.Placed mark E) :
    p.Placed mark E := by
  intro d hd
  have hmem : d.bare ∈ q.declarations.map Decl.bare := h ▸ List.mem_map_of_mem hd
  obtain ⟨d', hd', heq⟩ := List.mem_map.mp hmem
  rw [← Decl.placed_bare hE, ← heq, Decl.placed_bare hE]
  exact hq d' hd'

end

end

end Prosaic
