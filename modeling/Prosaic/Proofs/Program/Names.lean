import Prosaic.Proofs.Program.Parts
import Prosaic.Purity.Calls
import Prosaic.TypeScript.Name

/-!
The names of a program that could also be those of something outside of it: what it declares, which
types it refers to, what it calls, and what its parameters and locals are called.
-/

namespace Prosaic

/-! ### The calls of a tree -/

theorem Expr.callsAll_eq (es : List Expr) : Expr.callsAll es = es.flatMap Expr.calls := by
  induction es with
  | nil => rfl
  | cons e es ih => rw [Expr.callsAll, ih, List.flatMap_cons]

theorem Stmt.callsAll_eq (ss : List Stmt) : Stmt.callsAll ss = ss.flatMap Stmt.calls := by
  induction ss with
  | nil => rfl
  | cons s ss ih => rw [Stmt.callsAll, ih, List.flatMap_cons]

/-! ### Names that occur -/

/-- A call is to a name that occurs. -/
def Expr.CallsWithin (occurs : String → Prop) : Expr → Prop
  | .call callee .. => occurs callee.text
  | _ => True

/-- The names that a statement calls and binds occur. -/
structure Stmt.Within (occurs : String → Prop) (s : Stmt) : Prop where
  calls : s.Everywhere (Expr.CallsWithin occurs)
  binds : ∀ n ∈ TypeScript.bound s, occurs n

/-- The names of a program occur. -/
structure Program.Within (occurs : String → Prop) (p : Program) : Prop where
  declared : ∀ d ∈ p.declarations, occurs d.name
  referred : ∀ d ∈ p.declarations, ∀ ref ∈ d.typeRefs, occurs ref.base
  parameters : ∀ f ∈ p.functions, ∀ q ∈ f.parameters, occurs q.name
  bodies : ∀ f ∈ p.functions, ∀ s ∈ f.body, s.Within occurs

section

variable {occurs : String → Prop}

theorem Stmt.within_true (s : Stmt) : s.Within fun _ => True where
  calls := s.everywhere_of_forall fun e => by cases e <;> trivial
  binds _ _ := trivial

theorem Stmt.Within.of_block {ss : List Stmt}
    (hcalls : Stmt.EverywhereIn (Expr.CallsWithin occurs) ss)
    (hbinds : ∀ n ∈ TypeScript.boundAll ss, occurs n) : ∀ s ∈ ss, s.Within occurs := by
  induction ss with
  | nil => exact List.forall_mem_nil _
  | cons s ss ih =>
      rw [TypeScript.boundAll] at hbinds
      obtain ⟨hs, hss⟩ := List.forall_mem_append.mp hbinds
      exact List.forall_mem_cons.mpr ⟨⟨hcalls.1, hs⟩, ih hcalls.2 hss⟩

theorem Expr.callsWithin_of_calls {e : Expr} (h : ∀ site ∈ e.calls, occurs site.callee.text) :
    e.Everywhere (Expr.CallsWithin occurs) := by
  have hmembers : ∀ es : List Expr, (∀ e ∈ es, (∀ site ∈ e.calls, occurs site.callee.text) →
      e.Everywhere (Expr.CallsWithin occurs)) →
      (∀ site ∈ Expr.callsAll es, occurs site.callee.text) →
      Expr.EverywhereIn (Expr.CallsWithin occurs) es := by
    intro es ih hes
    rw [Expr.callsAll_eq] at hes
    exact Expr.everywhereIn_iff.mpr fun e he => ih e he fun site hsite =>
      hes site (List.mem_flatMap.mpr ⟨e, he, hsite⟩)
  induction e with
  | literal | var => trivial
  | list es note ih => exact ⟨trivial, hmembers es ih h⟩
  | unary op e note ih | field e name note ih => exact ⟨trivial, ih h⟩
  | binary op l r note ihl ihr =>
      obtain ⟨hl, hr⟩ := List.forall_mem_append.mp h
      exact ⟨trivial, ihl hl, ihr hr⟩
  | call callee es note ih =>
      obtain ⟨hcallee, hes⟩ := List.forall_mem_cons.mp h
      exact ⟨hcallee, hmembers es ih hes⟩

theorem Stmt.callsWithin_of_calls {ss : List Stmt}
    (h : ∀ site ∈ Stmt.callsAll ss, occurs site.callee.text) :
    Stmt.EverywhereIn (Expr.CallsWithin occurs) ss := by
  have hblock : ∀ ss : List Stmt, (∀ s ∈ ss, (∀ site ∈ s.calls, occurs site.callee.text) →
      s.Everywhere (Expr.CallsWithin occurs)) →
      (∀ site ∈ Stmt.callsAll ss, occurs site.callee.text) →
      Stmt.EverywhereIn (Expr.CallsWithin occurs) ss := by
    intro ss ih hss
    rw [Stmt.callsAll_eq] at hss
    exact Stmt.everywhereIn_iff.mpr fun s hs => ih s hs fun site hsite =>
      hss site (List.mem_flatMap.mpr ⟨s, hs, hsite⟩)
  refine hblock ss (fun s hmem hs => ?_) h
  clear hmem
  induction s with
  | bind name e span => exact Expr.callsWithin_of_calls hs
  | branch c t span iht =>
      obtain ⟨hc, ht⟩ := List.forall_mem_append.mp hs
      exact ⟨Expr.callsWithin_of_calls hc, hblock t iht ht⟩
  | branchOtherwise c t o span iht iho =>
      obtain ⟨hct, ho⟩ := List.forall_mem_append.mp hs
      obtain ⟨hc, ht⟩ := List.forall_mem_append.mp hct
      exact ⟨Expr.callsWithin_of_calls hc, hblock t iht ht, hblock o iho ho⟩
  | forEach item e body span ih =>
      obtain ⟨he, hbody⟩ := List.forall_mem_append.mp hs
      exact ⟨Expr.callsWithin_of_calls he, hblock body ih hbody⟩
  | call callee args note span => exact Expr.callsWithin_of_calls (e := .call callee args note) hs
  | returns value span =>
      cases value with
      | none => trivial
      | some e => exact Expr.callsWithin_of_calls hs
  | expression e span => exact Expr.callsWithin_of_calls hs

end

/-! ### The names of a program -/

/-- The names in a function, apart from those in references to types. -/
def FunctionDecl.mentions (f : FunctionDecl) : List String :=
  f.parameters.map Typed.name ++ (Stmt.callsAll f.body).map (fun site => site.callee.text)
    ++ TypeScript.boundAll f.body

/-- The names in a declaration, its own one included. -/
def Decl.mentions (d : Decl) : List String :=
  d.name :: d.typeRefs.map TypeRef.base ++ d.function?.toList.flatMap FunctionDecl.mentions

/-- The names that a program declares, refers to types by, calls, and gives to parameters and
locals. -/
def Program.mentions (p : Program) : List String := p.declarations.flatMap Decl.mentions

theorem Program.within_mentions (p : Program) : p.Within (· ∈ p.mentions) := by
  have hdecl : ∀ d ∈ p.declarations, ∀ n ∈ d.mentions, n ∈ p.mentions := fun d hd n hn =>
    List.mem_flatMap.mpr ⟨d, hd, hn⟩
  have hfunction : ∀ f ∈ p.functions, ∀ n ∈ f.mentions, n ∈ p.mentions := by
    intro f hf n hn
    refine hdecl (.function f) (Program.mem_functions.mp hf) n (List.mem_append_right _ ?_)
    simpa [Decl.function?] using hn
  constructor
  case declared => exact fun d hd => hdecl d hd _ List.mem_cons_self
  case referred =>
    intro d hd ref href
    exact hdecl d hd _ (List.mem_append_left _ (List.mem_cons_of_mem _ (List.mem_map_of_mem href)))
  case parameters =>
    intro f hf q hq
    exact hfunction f hf _ (List.mem_append_left _
      (List.mem_append_left _ (List.mem_map_of_mem hq)))
  case bodies =>
    intro f hf
    refine Stmt.Within.of_block (Stmt.callsWithin_of_calls fun site hsite => ?_) fun n hn => ?_
    · exact hfunction f hf _ (List.mem_append_left _ (List.mem_append_right _
        (List.mem_map_of_mem (f := fun site => site.callee.text) hsite)))
    · exact hfunction f hf n (List.mem_append_right _ hn)

end Prosaic
