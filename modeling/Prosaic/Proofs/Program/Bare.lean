import Prosaic.Program.Tree
import Prosaic.Proofs.Program.Parts

/-!
Trees without what the checks write into them, and trees without places. The checks change the notes
of a tree and nothing else, so whatever does not depend on the notes can be read off the bare tree.
Two programs that differ in nothing but where their nodes stand have the same tree without places.
-/

namespace Prosaic

mutual

/-- An expression without types, targets and labels. -/
def Expr.bare : Expr → Expr
  | .literal value note => .literal value ⟨note.span, none⟩
  | .list elements note => .list (Expr.bareAll elements) ⟨note.span, none⟩
  | .variable name note => .variable name ⟨note.span, none⟩
  | .unary op operand note => .unary op operand.bare ⟨note.span, none⟩
  | .binary op left right note => .binary op left.bare right.bare ⟨note.span, none⟩
  | .call callee args note => .call callee (Expr.bareAll args) ⟨note.span, none, none, none⟩
  | .field base name note => .field base.bare name ⟨note.span, none⟩

def Expr.bareAll : List Expr → List Expr
  | [] => []
  | e :: es => e.bare :: Expr.bareAll es

end

mutual

/-- A statement without types, targets and labels. -/
def Stmt.bare : Stmt → Stmt
  | .bind name init span => .bind name init.bare span
  | .branch condition thenBlock none span =>
    .branch condition.bare (Stmt.bareAll thenBlock) none span
  | .branch condition thenBlock (some otherwise) span =>
    .branch condition.bare (Stmt.bareAll thenBlock) (some (Stmt.bareAll otherwise)) span
  | .forEach item iterable body span => .forEach item iterable.bare (Stmt.bareAll body) span
  | .call callee args note span =>
    .call callee (Expr.bareAll args) ⟨note.span, none, none, none⟩ span
  | .return none span => .return none span
  | .return (some value) span => .return (some value.bare) span
  | .expression value span => .expression value.bare span

def Stmt.bareAll : List Stmt → List Stmt
  | [] => []
  | s :: ss => s.bare :: Stmt.bareAll ss

end

/-- A function without what the checks say about it. -/
def FunctionDecl.bare (f : FunctionDecl) : FunctionDecl :=
  { f with body := Stmt.bareAll f.body, resolved := none }

def Decl.bare : Decl → Decl
  | .function f => .function f.bare
  | d => d

@[simp] theorem Expr.bareAll_eq (es : List Expr) : Expr.bareAll es = es.map Expr.bare := by
  induction es with
  | nil => rfl
  | cons e es ih => rw [Expr.bareAll, ih, List.map_cons]

@[simp] theorem Stmt.bareAll_eq (ss : List Stmt) : Stmt.bareAll ss = ss.map Stmt.bare := by
  induction ss with
  | nil => rfl
  | cons s ss ih => rw [Stmt.bareAll, ih, List.map_cons]

/-! ### What does not depend on the notes -/

section

variable {P : Expr → Prop} (hP : ∀ e, P e.bare ↔ P e)

include hP

/-- A property of nodes that does not depend on the notes holds everywhere in a tree if it does in
the bare one. -/
theorem Expr.everywhere_bare (e : Expr) : e.bare.Everywhere P ↔ e.Everywhere P := by
  induction e with
  | literal value note => exact hP (.literal value note)
  | var name note => exact hP (.variable name note)
  | list es note ih =>
      have hes : (∀ e ∈ es, e.bare.Everywhere P) ↔ ∀ e ∈ es, e.Everywhere P :=
        forall₂_congr ih
      simpa [Expr.bare, Expr.Everywhere, hes] using fun _ => hP (.list es note)
  | unary op e note ih =>
      simpa [Expr.bare, Expr.Everywhere, ih] using fun _ => hP (.unary op e note)
  | binary op l r note ihl ihr =>
      simpa [Expr.bare, Expr.Everywhere, ihl, ihr] using fun _ _ => hP (.binary op l r note)
  | call f es note ih =>
      have hes : (∀ e ∈ es, e.bare.Everywhere P) ↔ ∀ e ∈ es, e.Everywhere P :=
        forall₂_congr ih
      simpa [Expr.bare, Expr.Everywhere, hes] using fun _ => hP (.call f es note)
  | field e name note ih =>
      simpa [Expr.bare, Expr.Everywhere, ih] using fun _ => hP (.field e name note)

theorem Stmt.everywhere_bare (s : Stmt) : s.bare.Everywhere P ↔ s.Everywhere P := by
  induction s with
  | bind name e span => exact Expr.everywhere_bare hP e
  | branch c t span iht =>
      have ht : (∀ s ∈ t, s.bare.Everywhere P) ↔ ∀ s ∈ t, s.Everywhere P := forall₂_congr iht
      simp [Stmt.bare, Stmt.Everywhere, Expr.everywhere_bare hP, ht]
  | branchOtherwise c t o span iht iho =>
      have ht : (∀ s ∈ t, s.bare.Everywhere P) ↔ ∀ s ∈ t, s.Everywhere P := forall₂_congr iht
      have ho : (∀ s ∈ o, s.bare.Everywhere P) ↔ ∀ s ∈ o, s.Everywhere P := forall₂_congr iho
      simp [Stmt.bare, Stmt.Everywhere, Expr.everywhere_bare hP, ht, ho]
  | forEach item e body span ih =>
      have hb : (∀ s ∈ body, s.bare.Everywhere P) ↔ ∀ s ∈ body, s.Everywhere P :=
        forall₂_congr ih
      simp [Stmt.bare, Stmt.Everywhere, Expr.everywhere_bare hP, hb]
  | call f es note span => exact Expr.everywhere_bare hP (.call f es note)
  | returns value span =>
      cases value with
      | none => exact Iff.rfl
      | some e => exact Expr.everywhere_bare hP e
  | expression e span => exact Expr.everywhere_bare hP e

end

/-! ### Programs with the same bare declarations -/

namespace Program

/-- Two programs that differ in nothing but what the checks write into them. -/
def SameBare (p q : Program) : Prop := p.declarations.map Decl.bare = q.declarations.map Decl.bare

variable {p q : Program}

theorem SameBare.length_eq (h : p.SameBare q) : p.declarations.length = q.declarations.length := by
  simpa only [List.length_map] using congrArg List.length h

theorem SameBare.filterMap {α : Type} {pick : Decl → Option α}
    (hpick : ∀ d, pick d.bare = pick d) (h : p.SameBare q) :
    p.declarations.filterMap pick = q.declarations.filterMap pick := by
  have := congrArg (List.filterMap pick) h
  simpa only [List.filterMap_map, Function.comp_def, hpick] using this

theorem SameBare.types (h : p.SameBare q) : p.types = q.types := by
  rw [types_eq, types_eq]
  exact h.filterMap fun d => by cases d <;> rfl

theorem SameBare.records (h : p.SameBare q) : p.records = q.records := by
  rw [records_eq, records_eq]
  exact h.filterMap fun d => by cases d <;> rfl

theorem SameBare.functions (h : p.SameBare q) :
    p.functions.map FunctionDecl.bare = q.functions.map FunctionDecl.bare := by
  have hpick : Decl.function? ∘ Decl.bare =
      fun d => (Decl.function? d).map FunctionDecl.bare := by
    funext d
    cases d <;> rfl
  have := congrArg (List.filterMap Decl.function?) h
  simpa only [List.filterMap_map, hpick, ← List.map_filterMap, ← functions_eq] using this

theorem SameBare.functionNames (h : p.SameBare q) :
    (p.functions.map fun f => f.name.text) = q.functions.map fun f => f.name.text := by
  have := congrArg (List.map fun f => f.name.text) h.functions
  rwa [List.map_map, List.map_map] at this

theorem SameBare.readable (h : p.SameBare q) : p.readable.SameBare q.readable := by
  have hreadable : Decl.isReadable ∘ Decl.bare = Decl.isReadable := by
    funext d
    cases d <;> rfl
  have := congrArg (List.filter Decl.isReadable) h
  rw [List.filter_map, List.filter_map, hreadable] at this
  exact this

end Program

/-! ### Trees without places -/

def Name.spanless (n : Name) : Name := ⟨n.text, default⟩

def ExprNote.spanless (n : ExprNote) : ExprNote := { n with span := default }

def CallNote.spanless (n : CallNote) : CallNote := { n with span := default }

mutual

def Expr.spanless : Expr → Expr
  | .literal value note => .literal value note.spanless
  | .list elements note => .list (Expr.allSpanless elements) note.spanless
  | .variable name note => .variable name note.spanless
  | .unary op operand note => .unary op operand.spanless note.spanless
  | .binary op left right note => .binary op left.spanless right.spanless note.spanless
  | .call callee args note => .call callee.spanless (Expr.allSpanless args) note.spanless
  | .field base name note => .field base.spanless name.spanless note.spanless

def Expr.allSpanless : List Expr → List Expr
  | [] => []
  | e :: es => e.spanless :: Expr.allSpanless es

end

mutual

def Stmt.spanless : Stmt → Stmt
  | .bind name init _ => .bind name.spanless init.spanless default
  | .branch condition thenBlock none _ =>
    .branch condition.spanless (Stmt.allSpanless thenBlock) none default
  | .branch condition thenBlock (some otherwise) _ =>
    .branch condition.spanless (Stmt.allSpanless thenBlock) (some (Stmt.allSpanless otherwise))
      default
  | .forEach item iterable body _ =>
    .forEach item.spanless iterable.spanless (Stmt.allSpanless body) default
  | .call callee args note _ =>
    .call callee.spanless (Expr.allSpanless args) note.spanless default
  | .return none _ => .return none default
  | .return (some value) _ => .return (some value.spanless) default
  | .expression value _ => .expression value.spanless default

def Stmt.allSpanless : List Stmt → List Stmt
  | [] => []
  | s :: ss => s.spanless :: Stmt.allSpanless ss

end

def TypeRef.spanless : TypeRef → TypeRef
  | .named name _ => .named name default
  | .list element _ => .list element.spanless default

def Typed.spanless (t : Typed) : Typed := ⟨t.name, t.ty.spanless, default⟩

/-- A function without places; that of its closer is one, too. -/
def FunctionDecl.spanless (f : FunctionDecl) : FunctionDecl :=
  ⟨f.name.spanless, f.parameters.map Typed.spanless, f.returns.map TypeRef.spanless, f.purity,
    Stmt.allSpanless f.body, none, default, f.resolved⟩

def TypeBody.spanless : TypeBody → TypeBody
  | .reference ty => .reference ty.spanless
  | .literals values => .literals values

def TypeDecl.spanless (t : TypeDecl) : TypeDecl := ⟨t.name, t.body.spanless, default⟩

def RecordDecl.spanless (r : RecordDecl) : RecordDecl :=
  ⟨r.name, r.fields.map Typed.spanless, default⟩

def Decl.spanless : Decl → Decl
  | .function f => .function f.spanless
  | .type t => .type t.spanless
  | .record r => .record r.spanless

def Program.spanless (p : Program) : Program := ⟨p.declarations.map Decl.spanless, default⟩

end Prosaic
