import Mathlib.Data.List.Nodup
import Prosaic.Program.Tree

/-!
Declarations by their kind, and the references to types in them.

Induction over expressions and statements, properties that hold at every node of a tree, and the
height of an expression: the number of nodes on the longest way down from its root. A call that
stands as a statement counts as the expression that it would be elsewhere, so that one property of
expressions speaks about all of a body.

The size of a program is the number of its nodes. There a call that stands as a statement is two:
the expression and the statement around it.
-/

namespace Prosaic

/-- The name in a reference. -/
def TypeRef.base : TypeRef → String
  | .named name _ => name
  | .list element _ => element.base

namespace Decl

def function? : Decl → Option FunctionDecl
  | function f => some f
  | _ => none

def type? : Decl → Option TypeDecl
  | type t => some t
  | _ => none

def record? : Decl → Option RecordDecl
  | record r => some r
  | _ => none

/-- The references to types in a declaration. -/
def typeRefs : Decl → List TypeRef
  | .type ⟨_, .literals _, _⟩ => []
  | .type ⟨_, .reference ref, _⟩ => [ref]
  | .record r => r.fields.map Typed.ty
  | .function f => f.parameters.map Typed.ty ++ f.returns.toList

/-- Whether the name of a declaration could be read. -/
def isReadable (d : Decl) : Bool := d.name ≠ unreadableName

end Decl

namespace Program

theorem functions_eq (p : Program) : p.functions = p.declarations.filterMap Decl.function? := rfl

theorem types_eq (p : Program) : p.types = p.declarations.filterMap Decl.type? := rfl

theorem records_eq (p : Program) : p.records = p.declarations.filterMap Decl.record? := rfl

theorem mem_functions {p : Program} {f : FunctionDecl} :
    f ∈ p.functions ↔ .function f ∈ p.declarations := by
  rw [functions_eq, List.mem_filterMap]
  constructor
  · rintro ⟨d, hd, hf⟩
    cases d <;> simp_all [Decl.function?]
  · exact fun hf => ⟨_, hf, rfl⟩

theorem mem_types {p : Program} {t : TypeDecl} : t ∈ p.types ↔ .type t ∈ p.declarations := by
  rw [types_eq, List.mem_filterMap]
  constructor
  · rintro ⟨d, hd, ht⟩
    cases d <;> simp_all [Decl.type?]
  · exact fun ht => ⟨_, ht, rfl⟩

theorem mem_records {p : Program} {r : RecordDecl} :
    r ∈ p.records ↔ .record r ∈ p.declarations := by
  rw [records_eq, List.mem_filterMap]
  constructor
  · rintro ⟨d, hd, hr⟩
    cases d <;> simp_all [Decl.record?]
  · exact fun hr => ⟨_, hr, rfl⟩

/-- The names of declarations of one kind are among the names of all, in order. -/
theorem names_sublist {α : Type} {pick : Decl → Option α} {name : α → String}
    (hpick : ∀ d a, pick d = some a → name a = d.name) (ds : List Decl) :
    ((ds.filterMap pick).map name).Sublist (ds.map Decl.name) := by
  induction ds with
  | nil => exact .slnil
  | cons d ds ih =>
      rw [List.filterMap_cons, List.map_cons]
      cases hd : pick d with
      | none => exact ih.cons _
      | some a =>
          rw [← hpick d a hd]
          exact ih.cons_cons _

section

variable {p : Program} (h : (p.declarations.map Decl.name).Nodup)

include h

theorem nodup_typeNames : (p.types.map TypeDecl.name).Nodup := by
  refine List.Sublist.nodup (names_sublist ?_ _) h
  rintro (f | t | r) _ ⟨⟩
  rfl

theorem nodup_recordNames : (p.records.map RecordDecl.name).Nodup := by
  refine List.Sublist.nodup (names_sublist ?_ _) h
  rintro (f | t | r) _ ⟨⟩
  rfl

theorem nodup_functionNames : (p.functions.map fun f => f.name.text).Nodup := by
  refine List.Sublist.nodup (names_sublist ?_ _) h
  rintro (f | t | r) _ ⟨⟩
  rfl

theorem recordName_ne_typeName {r : RecordDecl} (hr : r ∈ p.records) {t : TypeDecl}
    (ht : t ∈ p.types) : r.name ≠ t.name := by
  intro heq
  cases List.inj_on_of_nodup_map h (mem_records.mp hr) (mem_types.mp ht) heq

end

/-- The declarations of a program that have a readable name. -/
def readable (p : Program) : Program :=
  { p with declarations := p.declarations.filter Decl.isReadable }

section

variable {p q : Program} (h : p.declarations.Perm q.declarations)

include h

theorem functions_perm : p.functions.Perm q.functions := h.filterMap _

theorem types_perm : p.types.Perm q.types := h.filterMap _

theorem records_perm : p.records.Perm q.records := h.filterMap _

theorem readable_perm : p.readable.declarations.Perm q.readable.declarations := h.filter _

end

theorem readable_eq {p : Program} (h : ∀ d ∈ p.declarations, d.isReadable = true) :
    p.readable = p := by
  rw [readable, List.filter_eq_self.mpr h]

end Program

/-! ### Induction -/

/-- Induction over expressions; lists and arguments come with a hypothesis for every member. -/
@[induction_eliminator]
theorem Expr.inductionOn {motive : Expr → Prop}
    (literal : ∀ value note, motive (.literal value note))
    (list : ∀ elements note, (∀ e ∈ elements, motive e) → motive (.list elements note))
    (var : ∀ name note, motive (.variable name note))
    (unary : ∀ op operand note, motive operand → motive (.unary op operand note))
    (binary : ∀ op left right note, motive left → motive right →
      motive (.binary op left right note))
    (call : ∀ callee args note, (∀ e ∈ args, motive e) → motive (.call callee args note))
    (field : ∀ base name note, motive base → motive (.field base name note)) :
    ∀ e, motive e := fun e =>
  @Expr.rec motive (fun es => ∀ e ∈ es, motive e)
    literal list var unary binary call field
    (fun _ h => nomatch h)
    (fun _ _ hhead htail => List.forall_mem_cons.mpr ⟨hhead, htail⟩)
    e

/-- Induction over statements; blocks come with a hypothesis for every statement. -/
@[induction_eliminator]
theorem Stmt.inductionOn {motive : Stmt → Prop}
    (bind : ∀ name init span, motive (.bind name init span))
    (branch : ∀ condition thenBlock span, (∀ s ∈ thenBlock, motive s) →
      motive (.branch condition thenBlock none span))
    (branchOtherwise : ∀ condition thenBlock otherwise span, (∀ s ∈ thenBlock, motive s) →
      (∀ s ∈ otherwise, motive s) → motive (.branch condition thenBlock (some otherwise) span))
    (forEach : ∀ item iterable body span, (∀ s ∈ body, motive s) →
      motive (.forEach item iterable body span))
    (call : ∀ callee args note span, motive (.call callee args note span))
    (returns : ∀ value span, motive (.return value span))
    (expression : ∀ value span, motive (.expression value span)) :
    ∀ s, motive s := fun s =>
  @Stmt.rec motive (fun ss => ∀ s ∈ ss, motive s)
    (fun o => ∀ ss, o = some ss → ∀ s ∈ ss, motive s)
    bind
    (fun condition thenBlock otherwise span ht ho => by
      cases otherwise with
      | none => exact branch condition thenBlock span ht
      | some o => exact branchOtherwise condition thenBlock o span ht (ho o rfl))
    forEach call returns expression
    (fun _ h => nomatch h)
    (fun _ _ hhead htail => List.forall_mem_cons.mpr ⟨hhead, htail⟩)
    (fun _ h => nomatch h)
    (fun _ hss _ h => Option.some.inj h ▸ hss)
    s

/-! ### Every node -/

mutual

/-- A property holds of an expression and of all expressions in it. -/
def Expr.Everywhere (P : Expr → Prop) : Expr → Prop
  | .literal value note => P (.literal value note)
  | .list elements note => P (.list elements note) ∧ Expr.EverywhereIn P elements
  | .variable name note => P (.variable name note)
  | .unary op operand note => P (.unary op operand note) ∧ operand.Everywhere P
  | .binary op left right note =>
    P (.binary op left right note) ∧ left.Everywhere P ∧ right.Everywhere P
  | .call callee args note => P (.call callee args note) ∧ Expr.EverywhereIn P args
  | .field base name note => P (.field base name note) ∧ base.Everywhere P

def Expr.EverywhereIn (P : Expr → Prop) : List Expr → Prop
  | [] => True
  | e :: es => e.Everywhere P ∧ Expr.EverywhereIn P es

end

mutual

/-- A property holds of all expressions in a statement. -/
def Stmt.Everywhere (P : Expr → Prop) : Stmt → Prop
  | .bind _ init _ => init.Everywhere P
  | .branch condition thenBlock none _ => condition.Everywhere P ∧ Stmt.EverywhereIn P thenBlock
  | .branch condition thenBlock (some otherwise) _ =>
    condition.Everywhere P ∧ Stmt.EverywhereIn P thenBlock ∧ Stmt.EverywhereIn P otherwise
  | .forEach _ iterable body _ => iterable.Everywhere P ∧ Stmt.EverywhereIn P body
  | .call callee args note _ => (Expr.call callee args note).Everywhere P
  | .return none _ => True
  | .return (some value) _ => value.Everywhere P
  | .expression value _ => value.Everywhere P

def Stmt.EverywhereIn (P : Expr → Prop) : List Stmt → Prop
  | [] => True
  | s :: ss => s.Everywhere P ∧ Stmt.EverywhereIn P ss

end

/-- A property holds of all expressions in the functions of a program. -/
def Program.Everywhere (P : Expr → Prop) (p : Program) : Prop :=
  ∀ f ∈ p.functions, Stmt.EverywhereIn P f.body

section

variable {P Q : Expr → Prop}

@[simp] theorem Expr.everywhereIn_iff {es : List Expr} :
    Expr.EverywhereIn P es ↔ ∀ e ∈ es, e.Everywhere P := by
  induction es with
  | nil => simp [Expr.EverywhereIn]
  | cons e es ih => simp [Expr.EverywhereIn, ih]

@[simp] theorem Stmt.everywhereIn_iff {ss : List Stmt} :
    Stmt.EverywhereIn P ss ↔ ∀ s ∈ ss, s.Everywhere P := by
  induction ss with
  | nil => simp [Stmt.EverywhereIn]
  | cons s ss ih => simp [Stmt.EverywhereIn, ih]

theorem Expr.Everywhere.here {e : Expr} (h : e.Everywhere P) : P e := by
  induction e with
  | literal | var => exact h
  | list | unary | binary | call | field => exact h.1

theorem Expr.Everywhere.mono (hPQ : ∀ e, P e → Q e) {e : Expr} (h : e.Everywhere P) :
    e.Everywhere Q := by
  induction e with
  | literal | var => exact hPQ _ h
  | list es note ih | call f es note ih =>
      refine ⟨hPQ _ h.1, Expr.everywhereIn_iff.mpr fun e he => ?_⟩
      exact ih e he (Expr.everywhereIn_iff.mp h.2 e he)
  | unary op e note ih | field e name note ih => exact ⟨hPQ _ h.1, ih h.2⟩
  | binary op l r note ihl ihr => exact ⟨hPQ _ h.1, ihl h.2.1, ihr h.2.2⟩

theorem Stmt.Everywhere.mono (hPQ : ∀ e, P e → Q e) {s : Stmt} (h : s.Everywhere P) :
    s.Everywhere Q := by
  induction s with
  | bind | call => exact Expr.Everywhere.mono hPQ h
  | branch c t span iht =>
      refine ⟨h.1.mono hPQ, Stmt.everywhereIn_iff.mpr fun s hs => ?_⟩
      exact iht s hs (Stmt.everywhereIn_iff.mp h.2 s hs)
  | branchOtherwise c t o span iht iho =>
      refine ⟨h.1.mono hPQ, Stmt.everywhereIn_iff.mpr fun s hs => ?_,
        Stmt.everywhereIn_iff.mpr fun s hs => ?_⟩
      · exact iht s hs (Stmt.everywhereIn_iff.mp h.2.1 s hs)
      · exact iho s hs (Stmt.everywhereIn_iff.mp h.2.2 s hs)
  | forEach item e body span ih =>
      refine ⟨h.1.mono hPQ, Stmt.everywhereIn_iff.mpr fun s hs => ?_⟩
      exact ih s hs (Stmt.everywhereIn_iff.mp h.2 s hs)
  | returns value span =>
      cases value with
      | none => trivial
      | some e => exact Expr.Everywhere.mono hPQ h
  | expression => exact Expr.Everywhere.mono hPQ h

theorem Expr.Everywhere.and {e : Expr} (hP : e.Everywhere P) (hQ : e.Everywhere Q) :
    e.Everywhere fun e => P e ∧ Q e := by
  induction e with
  | literal | var => exact ⟨hP, hQ⟩
  | list es note ih | call f es note ih =>
      refine ⟨⟨hP.1, hQ.1⟩, Expr.everywhereIn_iff.mpr fun e he => ?_⟩
      exact ih e he (Expr.everywhereIn_iff.mp hP.2 e he) (Expr.everywhereIn_iff.mp hQ.2 e he)
  | unary op e note ih | field e name note ih => exact ⟨⟨hP.1, hQ.1⟩, ih hP.2 hQ.2⟩
  | binary op l r note ihl ihr =>
      exact ⟨⟨hP.1, hQ.1⟩, ihl hP.2.1 hQ.2.1, ihr hP.2.2 hQ.2.2⟩

theorem Stmt.Everywhere.and {s : Stmt} (hP : s.Everywhere P) (hQ : s.Everywhere Q) :
    s.Everywhere fun e => P e ∧ Q e := by
  have hblock : ∀ ss : List Stmt, (∀ s ∈ ss, s.Everywhere P → s.Everywhere Q →
      s.Everywhere fun e => P e ∧ Q e) → Stmt.EverywhereIn P ss → Stmt.EverywhereIn Q ss →
      Stmt.EverywhereIn (fun e => P e ∧ Q e) ss := by
    intro ss ih hP hQ
    rw [Stmt.everywhereIn_iff] at hP hQ ⊢
    exact fun s hs => ih s hs (hP s hs) (hQ s hs)
  induction s with
  | bind | call => exact Expr.Everywhere.and hP hQ
  | branch c t span iht => exact ⟨hP.1.and hQ.1, hblock t iht hP.2 hQ.2⟩
  | branchOtherwise c t o span iht iho =>
      exact ⟨hP.1.and hQ.1, hblock t iht hP.2.1 hQ.2.1, hblock o iho hP.2.2 hQ.2.2⟩
  | forEach item e body span ih => exact ⟨hP.1.and hQ.1, hblock body ih hP.2 hQ.2⟩
  | returns value span =>
      cases value with
      | none => trivial
      | some e => exact Expr.Everywhere.and hP hQ
  | expression => exact Expr.Everywhere.and hP hQ

/-- What holds of every expression holds everywhere in one. -/
theorem Expr.everywhere_of_forall (h : ∀ e, P e) (e : Expr) : e.Everywhere P := by
  induction e with
  | literal | var => exact h _
  | list es note ih | call f es note ih => exact ⟨h _, Expr.everywhereIn_iff.mpr ih⟩
  | unary op e note ih | field e name note ih => exact ⟨h _, ih⟩
  | binary op l r note ihl ihr => exact ⟨h _, ihl, ihr⟩

theorem Stmt.everywhere_of_forall (h : ∀ e, P e) (s : Stmt) : s.Everywhere P := by
  induction s with
  | bind | call | expression => exact Expr.everywhere_of_forall h _
  | branch c t span iht => exact ⟨c.everywhere_of_forall h, Stmt.everywhereIn_iff.mpr iht⟩
  | branchOtherwise c t o span iht iho =>
      exact ⟨c.everywhere_of_forall h, Stmt.everywhereIn_iff.mpr iht, Stmt.everywhereIn_iff.mpr iho⟩
  | forEach item e body span ih =>
      exact ⟨e.everywhere_of_forall h, Stmt.everywhereIn_iff.mpr ih⟩
  | returns value span =>
      cases value with
      | none => trivial
      | some e => exact e.everywhere_of_forall h

end

/-! ### Height -/

mutual

/-- The length of the longest chain of nested nodes in an expression. -/
def Expr.height : Expr → Nat
  | .literal .. | .variable .. => 1
  | .list elements _ => Expr.heightIn elements + 1
  | .unary _ operand _ => operand.height + 1
  | .binary _ left right _ => max left.height right.height + 1
  | .call _ args _ => Expr.heightIn args + 1
  | .field base _ _ => base.height + 1

/-- The greatest height in a list. -/
def Expr.heightIn : List Expr → Nat
  | [] => 0
  | e :: es => max e.height (Expr.heightIn es)

end

theorem Expr.heightIn_le {es : List Expr} {h : Nat} :
    Expr.heightIn es ≤ h ↔ ∀ e ∈ es, e.height ≤ h := by
  induction es with
  | nil => simp [heightIn]
  | cons e es ih => rw [heightIn, Nat.max_le, ih, List.forall_mem_cons]

/-- No expression is higher than one that it is part of. -/
theorem Expr.everywhere_height_le {e : Expr} {h : Nat} (he : e.height ≤ h) :
    e.Everywhere fun e => e.height ≤ h := by
  induction e with
  | literal | var => exact he
  | list es note ih | call f es note ih =>
      refine ⟨he, Expr.everywhereIn_iff.mpr fun e hmem => ih e hmem ?_⟩
      exact Expr.heightIn_le.mp (Nat.le_of_succ_le he) e hmem
  | unary op e note ih | field e name note ih => exact ⟨he, ih (Nat.le_of_succ_le he)⟩
  | binary op l r note ihl ihr =>
      have hboth := Nat.max_le.mp (Nat.le_of_succ_le he)
      exact ⟨he, ihl hboth.1, ihr hboth.2⟩

/-! ### Size -/

mutual

/-- The number of nodes of an expression. -/
def Expr.size : Expr → Nat
  | .literal .. | .variable .. => 1
  | .list elements _ => Expr.sizeAll elements + 1
  | .unary _ operand _ => operand.size + 1
  | .binary _ left right _ => left.size + right.size + 1
  | .call _ args _ => Expr.sizeAll args + 1
  | .field base _ _ => base.size + 1

def Expr.sizeAll : List Expr → Nat
  | [] => 0
  | e :: es => e.size + Expr.sizeAll es

end

mutual

/-- The number of nodes of a statement, with those of all that is in it. -/
def Stmt.size : Stmt → Nat
  | .bind _ init _ => init.size + 1
  | .branch condition thenBlock none _ => condition.size + Stmt.sizeAll thenBlock + 1
  | .branch condition thenBlock (some otherwise) _ =>
    condition.size + Stmt.sizeAll thenBlock + Stmt.sizeAll otherwise + 1
  | .forEach _ iterable body _ => iterable.size + Stmt.sizeAll body + 1
  | .call callee args note _ => (Expr.call callee args note).size + 1
  | .return none _ => 1
  | .return (some value) _ => value.size + 1
  | .expression value _ => value.size + 1

def Stmt.sizeAll : List Stmt → Nat
  | [] => 0
  | s :: ss => s.size + Stmt.sizeAll ss

end

section

variable (e l r : Expr) (es : List Expr) (note : ExprNote) (s : Stmt) (ss : List Stmt)
  (name : Name) (span : Span)

@[simp] theorem Expr.size_list : (Expr.list es note).size = sizeAll es + 1 := rfl

@[simp] theorem Expr.size_unary (op : UnaryOp) : (Expr.unary op e note).size = e.size + 1 := rfl

@[simp] theorem Expr.size_binary (op : BinaryOp) :
    (Expr.binary op l r note).size = l.size + r.size + 1 := rfl

@[simp] theorem Expr.size_call (callee : Name) (note : CallNote) :
    (Expr.call callee es note).size = sizeAll es + 1 := rfl

@[simp] theorem Expr.size_field : (Expr.field e name note).size = e.size + 1 := rfl

@[simp] theorem Expr.sizeAll_cons : sizeAll (e :: es) = e.size + sizeAll es := rfl

@[simp] theorem Stmt.size_bind : (Stmt.bind name e span).size = e.size + 1 := rfl

@[simp] theorem Stmt.size_branch (o : Option (List Stmt)) :
    (Stmt.branch e ss o span).size = e.size + sizeAll ss + o.elim 0 sizeAll + 1 := by
  cases o <;> rfl

@[simp] theorem Stmt.size_forEach :
    (Stmt.forEach name e ss span).size = e.size + sizeAll ss + 1 := rfl

@[simp] theorem Stmt.size_call (note : CallNote) :
    (Stmt.call name es note span).size = (Expr.call name es note).size + 1 := rfl

@[simp] theorem Stmt.size_return (value : Option Expr) :
    (Stmt.return value span).size = Expr.sizeAll value.toList + 1 := by
  cases value <;> rfl

@[simp] theorem Stmt.size_expression : (Stmt.expression e span).size = e.size + 1 := rfl

@[simp] theorem Stmt.sizeAll_singleton : sizeAll [s] = s.size := rfl

end

/-- The number of nodes of a declaration. -/
def Decl.size : Decl → Nat
  | .function f => Stmt.sizeAll f.body + 1
  | .type _ | .record _ => 1

def Decl.sizeAll : List Decl → Nat
  | [] => 0
  | d :: ds => d.size + Decl.sizeAll ds

/-- The number of expressions, statements and declarations of a program. -/
def Program.size (p : Program) : Nat := Decl.sizeAll p.declarations

theorem Stmt.sizeAll_append (ss ss' : List Stmt) :
    Stmt.sizeAll (ss ++ ss') = Stmt.sizeAll ss + Stmt.sizeAll ss' := by
  induction ss with
  | nil => simp [Stmt.sizeAll]
  | cons s ss ih => simp only [List.cons_append, Stmt.sizeAll, ih, Nat.add_assoc]

theorem Decl.sizeAll_append (ds ds' : List Decl) :
    Decl.sizeAll (ds ++ ds') = Decl.sizeAll ds + Decl.sizeAll ds' := by
  induction ds with
  | nil => simp [Decl.sizeAll]
  | cons d ds ih => simp only [List.cons_append, Decl.sizeAll, ih, Nat.add_assoc]

end Prosaic
