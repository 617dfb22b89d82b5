import Mathlib.Data.List.Forall2
import Prosaic.Proofs.Program.Parts
import Prosaic.Proofs.Table

/-!
Programs that differ in their references to types only. What the references in one place have to do
with each other is left open.
-/

namespace Prosaic

section

variable (R : TypeRef → TypeRef → Prop)

/-- Two parameters or fields that are the same but for their types. -/
structure Typed.UpTo (a b : Typed) : Prop where
  name : a.name = b.name
  ty : R a.ty b.ty
  span : a.span = b.span

/-- Two functions that are the same but for the types in their heads. -/
inductive FunctionDecl.UpTo : FunctionDecl → FunctionDecl → Prop
  | intro {f : FunctionDecl} {parameters : List Typed} {returns : Option TypeRef}
      (hparameters : List.Forall₂ (Typed.UpTo R) f.parameters parameters)
      (hreturns : Option.Rel R f.returns returns) : UpTo f { f with parameters, returns }

/-- What two type declarations that are the same but for a reference say. -/
inductive TypeBody.UpTo : TypeBody → TypeBody → Prop
  | reference {a b : TypeRef} (h : R a b) : UpTo (.reference a) (.reference b)
  | literals (values : List String) : UpTo (.literals values) (.literals values)

structure TypeDecl.UpTo (t u : TypeDecl) : Prop where
  name : t.name = u.name
  body : t.body.UpTo R u.body
  span : t.span = u.span

structure RecordDecl.UpTo (r s : RecordDecl) : Prop where
  name : r.name = s.name
  fields : List.Forall₂ (Typed.UpTo R) r.fields s.fields
  span : r.span = s.span

inductive Decl.UpTo : Decl → Decl → Prop
  | function {f g : FunctionDecl} (h : f.UpTo R g) : UpTo (.function f) (.function g)
  | type {t u : TypeDecl} (h : t.UpTo R u) : UpTo (.type t) (.type u)
  | record {r s : RecordDecl} (h : r.UpTo R s) : UpTo (.record r) (.record s)

/-- Two programs that are the same but for their references to types, wherever they stand. -/
structure Program.UpTo (p q : Program) : Prop where
  declarations : List.Forall₂ (Decl.UpTo R) p.declarations q.declarations
  span : p.span = q.span

end

section

variable {R S : TypeRef → TypeRef → Prop}

/-! ### Functions -/

namespace FunctionDecl.UpTo

variable {f g : FunctionDecl} (h : f.UpTo R g)

include h

theorem parameters : List.Forall₂ (Typed.UpTo R) f.parameters g.parameters := by
  obtain ⟨hparameters, -⟩ := h
  exact hparameters

theorem returns : Option.Rel R f.returns g.returns := by
  obtain ⟨-, hreturns⟩ := h
  exact hreturns

theorem name : f.name = g.name := by cases h; rfl

theorem purity : f.purity = g.purity := by cases h; rfl

theorem body : f.body = g.body := by cases h; rfl

theorem span : f.span = g.span := by cases h; rfl

end FunctionDecl.UpTo

/-! ### Declarations -/

namespace Decl.UpTo

variable {d e : Decl} (h : d.UpTo R e)

include h

theorem name : d.name = e.name := by
  cases h with
  | function h => exact congrArg Name.text h.name
  | type h => exact h.name
  | record h => exact h.name

theorem span : d.span = e.span := by
  cases h with
  | function h => exact h.span
  | type h => exact h.span
  | record h => exact h.span

theorem nameStart : d.nameStart = e.nameStart := by
  cases h with
  | function h => exact congrArg (fun n : Name => n.span.start) h.name
  | type h => exact congrArg Span.start h.span
  | record h => exact congrArg Span.start h.span

end Decl.UpTo

/-! ### Weaker relations -/

section

variable (hRS : ∀ a b, R a b → S a b)

include hRS

theorem Typed.UpTo.mono {a b : Typed} (h : a.UpTo R b) : a.UpTo S b :=
  ⟨h.name, hRS _ _ h.ty, h.span⟩

theorem FunctionDecl.UpTo.mono {f g : FunctionDecl} (h : f.UpTo R g) : f.UpTo S g := by
  obtain ⟨hparameters, hreturns⟩ := h
  refine .intro (hparameters.imp fun _ _ => Typed.UpTo.mono hRS) ?_
  generalize f.returns = a at hreturns ⊢
  cases hreturns with
  | none => exact .none
  | some hR => exact .some (hRS _ _ hR)

theorem Decl.UpTo.mono {d e : Decl} (h : d.UpTo R e) : d.UpTo S e := by
  cases h with
  | function h => exact .function (h.mono hRS)
  | @type t u h =>
      refine .type ⟨h.name, ?_, h.span⟩
      obtain ⟨-, hbody, -⟩ := h
      generalize t.body = a, u.body = b at hbody ⊢
      cases hbody with
      | reference hR => exact .reference (hRS _ _ hR)
      | literals values => exact .literals values
  | record h => exact .record ⟨h.name, h.fields.imp fun _ _ => Typed.UpTo.mono hRS, h.span⟩

theorem Program.UpTo.mono {p q : Program} (h : p.UpTo R q) : p.UpTo S q :=
  ⟨h.declarations.imp fun _ _ => Decl.UpTo.mono hRS, h.span⟩

end

/-! ### The declarations of each kind -/

namespace Program.UpTo

variable {p q : Program} (h : p.UpTo R q)

include h

theorem functions : List.Forall₂ (FunctionDecl.UpTo R) p.functions q.functions := by
  rw [functions_eq, functions_eq]
  refine List.rel_filterMap (fun d e hde => ?_) h.declarations
  cases hde with
  | function hfg => exact .some hfg
  | type _ | record _ => exact .none

theorem types : List.Forall₂ (TypeDecl.UpTo R) p.types q.types := by
  rw [types_eq, types_eq]
  refine List.rel_filterMap (fun d e hde => ?_) h.declarations
  cases hde with
  | type htu => exact .some htu
  | function _ | record _ => exact .none

theorem records : List.Forall₂ (RecordDecl.UpTo R) p.records q.records := by
  rw [records_eq, records_eq]
  refine List.rel_filterMap (fun d e hde => ?_) h.declarations
  cases hde with
  | record hrs => exact .some hrs
  | function _ | type _ => exact .none

theorem functionNames :
    (p.functions.map fun f => f.name.text) = q.functions.map fun f => f.name.text :=
  map_eq_of_forall₂ (h.functions.imp fun _ _ hfg => congrArg Name.text hfg.name)

theorem typeNames : p.types.map TypeDecl.name = q.types.map TypeDecl.name :=
  map_eq_of_forall₂ (h.types.imp fun _ _ htu => htu.name)

end Program.UpTo

end

end Prosaic
