import Prosaic.Proofs.Purity.Labels
import Prosaic.Proofs.TypeScript.Capture
import Prosaic.Proofs.Typing.Rules

/-!
Names in checked programs. A name that is read is in scope, a callee is declared, and no local is
bound twice in a block or named like something that can be called. Labels do not matter to names.
-/

namespace Prosaic

open TypeScript (Reference)

/-! ### Labels -/

section

variable (label : String → Option Purity)

theorem Expr.usesAll_labelled_of {es : List Expr} (h : ∀ e ∈ es, (e.labelled label).uses = e.uses) :
    Expr.usesAll (es.map (Expr.labelled label)) = Expr.usesAll es := by
  induction es with
  | nil => rfl
  | cons e es ih =>
      obtain ⟨he, hes⟩ := List.forall_mem_cons.mp h
      rw [List.map_cons, Expr.usesAll, Expr.usesAll, he, ih hes]

theorem Expr.uses_labelled (e : Expr) : (e.labelled label).uses = e.uses := by
  induction e with
  | literal | var => rfl
  | list es note ih =>
      simp only [Expr.labelled, labelledAll_eq, Expr.uses, usesAll_labelled_of label ih]
  | unary op e note ih | field e name note ih => simp only [Expr.labelled, Expr.uses, ih]
  | binary op l r note ihl ihr => simp only [Expr.labelled, Expr.uses, ihl, ihr]
  | call f es note ih =>
      simp only [Expr.labelled, labelledAll_eq, Expr.uses, usesAll_labelled_of label ih, calleeUse,
        relabel]

theorem Stmt.namesAll_labelled_of {ss : List Stmt}
    (h : ∀ s ∈ ss, ∀ rest, (s.labelled label).names rest = s.names rest) :
    Stmt.namesAll (ss.map (Stmt.labelled label)) = Stmt.namesAll ss := by
  induction ss with
  | nil => rfl
  | cons s ss ih =>
      obtain ⟨hs, hss⟩ := List.forall_mem_cons.mp h
      rw [List.map_cons, Stmt.namesAll, Stmt.namesAll, hs, ih hss]

theorem Stmt.names_labelled (s : Stmt) (rest : Names Use) :
    (s.labelled label).names rest = s.names rest := by
  induction s generalizing rest with
  | bind name e span => simp only [Stmt.labelled, Stmt.names, Expr.uses_labelled]
  | branch c t span iht =>
      simp only [Stmt.labelled, labelledAll_eq, Stmt.names, Expr.uses_labelled,
        namesAll_labelled_of label iht]
  | branchOtherwise c t o span iht iho =>
      simp only [Stmt.labelled, labelledAll_eq, Stmt.names, Expr.uses_labelled,
        namesAll_labelled_of label iht, namesAll_labelled_of label iho]
  | forEach item e body span ih =>
      simp only [Stmt.labelled, labelledAll_eq, Stmt.names, Expr.uses_labelled,
        namesAll_labelled_of label ih]
  | call f es note span =>
      simp only [Stmt.labelled, Expr.labelledAll_eq, Stmt.names,
        Expr.usesAll_labelled_of label fun e _ => Expr.uses_labelled label e, calleeUse, relabel]
  | returns value span =>
      cases value with
      | none => rfl
      | some e => simp only [Stmt.labelled, Stmt.names, Expr.uses_labelled]
  | expression e span => simp only [Stmt.labelled, Stmt.names, Expr.uses_labelled]

end

/-- Labelling a function leaves its names as they are. -/
theorem LabelledFrom.names_eq {f f' : FunctionDecl} (h : LabelledFrom f f') :
    f'.names = f.names ∧ f'.parameters = f.parameters ∧ f'.name = f.name := by
  obtain ⟨label, rfl, -⟩ := h
  refine ⟨?_, rfl, rfl⟩
  have hbody : Stmt.namesAll (Stmt.labelledAll label f.body) = Stmt.namesAll f.body := by
    rw [Stmt.labelledAll_eq]
    exact Stmt.namesAll_labelled_of label fun s _ => Stmt.names_labelled label s
  rw [FunctionDecl.names, FunctionDecl.names, hbody]

/-! ### Scopes of the check -/

/-- Every local that the check sees is among the names of the blocks around, and the innermost block
has bound nothing else than the innermost frame. -/
structure Covers (scope : Scope) (seen : List (List String)) : Prop where
  visible : ∀ x b, scope.lookup x = some b → ∃ names ∈ seen, x ∈ names
  head : ∀ x ∈ seen.headD [], ∃ b, (scope.headD []).find? x = some b

namespace Covers

variable {scope : Scope} {seen : List (List String)}

theorem block (h : Covers scope seen) : Covers scope ([] :: seen) := by
  refine ⟨fun x b hb => ?_, by simp⟩
  obtain ⟨names, hnames, hx⟩ := h.visible x b hb
  exact ⟨names, List.mem_cons_of_mem [] hnames, hx⟩

theorem child (h : Covers scope seen) : Covers scope.child ([] :: seen) :=
  ⟨h.block.visible, by simp⟩

theorem mem_bindIn {x y : String} :
    (∃ names ∈ bindIn seen x, y ∈ names) ↔ y = x ∨ ∃ names ∈ seen, y ∈ names := by
  cases seen with
  | nil => simp [bindIn]
  | cons names outer => simp [bindIn, or_comm, or_assoc]

theorem headD_bindIn (x : String) : (bindIn seen x).headD [] = seen.headD [] ++ [x] := by
  cases seen <;> rfl

theorem headD_bind {b : Binding} (hfresh : (scope.headD []).find? b.name = none) :
    (scope.bind b).2.headD [] = scope.headD [] ++ [b] := by
  cases scope with
  | nil => rfl
  | cons f rest =>
      have hfresh : f.find? b.name = none := hfresh
      show (f.bind b).2 = f ++ [b]
      rw [Frame.bind, hfresh]

theorem bind (h : Covers scope seen) {b : Binding} (hfresh : (scope.headD []).find? b.name = none) :
    Covers (scope.bind b).2 (bindIn seen b.name) := by
  refine ⟨fun x c hc => ?_, fun x hx => ?_⟩
  · rw [mem_bindIn]
    rw [Scope.lookup_bind hfresh] at hc
    split at hc
    · next heq => exact .inl heq.symm
    · exact .inr (h.visible x c hc)
  · rw [headD_bindIn] at hx
    rw [headD_bind hfresh, Frame.find?, List.find?_append]
    rcases List.mem_append.mp hx with hx | hx
    · obtain ⟨c, hc⟩ := h.head x hx
      rw [Frame.find?] at hc
      exact ⟨c, by rw [hc, Option.some_or]⟩
    · obtain rfl : x = b.name := List.mem_singleton.mp hx
      rw [Frame.find?] at hfresh
      exact ⟨b, by rw [hfresh]; simp⟩

end Covers

/-! ### Accepted trees -/

theorem Names.scoped_uses {callable : Reference → Prop} {seen : List (List String)}
    {us : List Use} {rest : Names Use} :
    (Names.uses us rest).Scoped callable seen ↔
      (∀ u ∈ us, u.Scoped callable seen) ∧ rest.Scoped callable seen := by
  induction us with
  | nil => simp [Names.uses]
  | cons u us ih =>
      rw [List.forall_mem_cons, and_assoc, ← ih]
      rfl

theorem Registry.isSome_callable? {r : Registry} {name : String} :
    (r.callable? name).isSome = true ↔
      name ∈ r.operations.map Prod.fst ∨ name ∈ r.helpers.map Prod.fst := by
  have hkeys : ∀ table : List (String × Signature),
      name ∈ table.map Prod.fst ↔ (table.lookup name).isSome = true := by simp
  rw [hkeys, hkeys, callable?]
  cases r.operations.lookup name <;> simp

namespace TypeEnv

/-- What can be called by name: the functions of a program, and the operations and helpers of the
registry. -/
def Calls (env : TypeEnv) (r : Reference) : Prop :=
  if r.imported then (env.registry.callable? r.name).isSome = true
  else (env.functions.lookup r.name).isSome = true

variable {env : TypeEnv}

/-- No local is named like something that can be called. -/
theorem ne_of_calls {x : String} (hfunction : env.functions.lookup x = none)
    (hcallable : env.registry.callable? x = none) {r : Reference} (hr : env.Calls r) :
    r.name ≠ x := by
  rintro rfl
  unfold Calls at hr
  split at hr
  · rw [hcallable] at hr
    cases hr
  · rw [hfunction] at hr
    cases hr

theorem calls_of_callFits {callee : Name} {note : CallNote} {args : List Expr}
    {returns : Option Ty} (h : env.CallFits callee.text args note.target returns) :
    ∀ r, .call r ∈ calleeUse callee note → env.Calls r := by
  intro r hr
  rcases callFits_cases h with ⟨_, _, _, _, htarget, _⟩ | ⟨kind, _, hknown, htarget, _⟩
  · rw [calleeUse, htarget] at hr
    cases hr
  · rw [calleeUse, htarget] at hr
    cases hknown with
    | function hbase hf =>
        cases List.mem_singleton.mp hr
        simp [Calls, TypeScript.isImported, hf]
    | helper hbase hfunction hs =>
        cases List.mem_singleton.mp hr
        have hmem := List.mem_map_of_mem (f := Prod.fst) (mem_of_lookup hs)
        exact Registry.isSome_callable?.mpr (.inr hmem)
    | operation hbase hfunction hhelper hs =>
        cases List.mem_singleton.mp hr
        have hmem := List.mem_map_of_mem (f := Prod.fst) (mem_of_lookup hs)
        exact Registry.isSome_callable?.mpr (.inl hmem)
    | conversion => cases hr

theorem scoped_of_callFits {seen : List (List String)} {callee : Name} {note : CallNote}
    {args : List Expr} {returns : Option Ty}
    (h : env.CallFits callee.text args note.target returns) :
    ∀ u ∈ calleeUse callee note, u.Scoped env.Calls seen := by
  intro u hu
  cases u with
  | read x =>
      unfold calleeUse at hu
      split at hu
      · cases hu
      · cases hu
      · cases List.mem_singleton.mp hu
  | call r => exact calls_of_callFits h r hu

theorem mem_usesAll {u : Use} {es : List Expr} : u ∈ Expr.usesAll es ↔ ∃ e ∈ es, u ∈ e.uses := by
  induction es with
  | nil => simp [Expr.usesAll]
  | cons e es ih => simp [Expr.usesAll, ih]

section

variable {scope : Scope} {seen : List (List String)} (hcovers : Covers scope seen)

include hcovers

/-- All places in an accepted expression are as they should be. -/
theorem scoped_of_accepts {e : Expr} (h : e.Everywhere (env.Accepts scope)) :
    ∀ u ∈ e.uses, u.Scoped env.Calls seen := by
  induction e with
  | literal value note => exact List.forall_mem_nil _
  | var name note =>
      obtain ⟨b, hb, -⟩ : ∃ b, scope.lookup name = some b ∧ note.ty = some b.ty := h
      rintro u hu
      obtain rfl := List.mem_singleton.mp hu
      exact hcovers.visible name b hb
  | list es note ih =>
      intro u hu
      obtain ⟨e, he, hu⟩ := mem_usesAll.mp hu
      exact ih e he (Expr.everywhereIn_iff.mp h.2 e he) u hu
  | unary op e note ih | field e name note ih => exact ih h.2
  | binary op l r note ihl ihr => exact List.forall_mem_append.mpr ⟨ihl h.2.1, ihr h.2.2⟩
  | call f es note ih =>
      obtain ⟨⟨t, -, hfits⟩, hes⟩ := h
      refine List.forall_mem_append.mpr ⟨scoped_of_callFits hfits, fun u hu => ?_⟩
      obtain ⟨e, he, hu⟩ := mem_usesAll.mp hu
      exact ih e he (Expr.everywhereIn_iff.mp hes e he) u hu

theorem scoped_of_acceptsUnused {e : Expr} (h : env.AcceptsUnused scope e) :
    ∀ u ∈ e.uses, u.Scoped env.Calls seen := by
  cases e with
  | call f es note =>
      obtain ⟨hes, returns, hfits⟩ := h
      refine List.forall_mem_append.mpr ⟨scoped_of_callFits hfits, fun u hu => ?_⟩
      obtain ⟨e, he, hu⟩ := mem_usesAll.mp hu
      exact scoped_of_accepts hcovers (hes e he) u hu
  | _ => exact scoped_of_accepts hcovers h

end

theorem scoped_of_acceptsBlock_of {fn : Enclosing} {ss : List Stmt}
    (hss : ∀ s ∈ ss, ∀ {scope : Scope} {seen : List (List String)} {rest : Names Use},
      Covers scope seen → env.AcceptsStmt fn scope s →
      (∀ seen, Covers (after scope s) seen → rest.Scoped env.Calls seen) →
      (s.names rest).Scoped env.Calls seen)
    {scope : Scope} {seen : List (List String)} (hcovers : Covers scope seen)
    (h : env.AcceptsBlock fn scope ss) : (Stmt.namesAll ss).Scoped env.Calls seen := by
  induction ss generalizing scope seen with
  | nil => trivial
  | cons s ss ih =>
      obtain ⟨hs, hss⟩ := List.forall_mem_cons.mp hss
      exact hs hcovers h.1 fun seen hnext => ih hss hnext h.2

/-- All places in an accepted statement are as they should be, and so are those behind it if they
are wherever the locals behind it are covered. -/
theorem scoped_of_acceptsStmt {fn : Enclosing} {s : Stmt} {scope : Scope}
    {seen : List (List String)} {rest : Names Use} (hcovers : Covers scope seen)
    (h : env.AcceptsStmt fn scope s)
    (hrest : ∀ seen, Covers (after scope s) seen → rest.Scoped env.Calls seen) :
    (s.names rest).Scoped env.Calls seen := by
  induction s generalizing scope seen rest with
  | bind name e span =>
      obtain ⟨he, hbindable⟩ := h
      have hnew : name.text ∉ seen.headD [] := by
        intro hmem
        obtain ⟨b, hb⟩ := hcovers.head name.text hmem
        rw [hbindable.fresh] at hb
        cases hb
      have hbind := hcovers.bind
        (b := ⟨name.text, e.ty?.getD .error, some name.span⟩) hbindable.fresh
      exact Names.scoped_uses.mpr ⟨scoped_of_accepts hcovers he,
        ⟨hnew, fun r => ne_of_calls hbindable.function hbindable.callable⟩, hrest _ hbind⟩
  | branch c t span iht =>
      obtain ⟨hc, -, ht⟩ := h
      exact Names.scoped_uses.mpr ⟨scoped_of_accepts hcovers hc,
        scoped_of_acceptsBlock_of iht hcovers.child ht, hrest seen hcovers⟩
  | branchOtherwise c t o span iht iho =>
      obtain ⟨hc, -, ht, ho⟩ := h
      exact Names.scoped_uses.mpr ⟨scoped_of_accepts hcovers hc,
        scoped_of_acceptsBlock_of iht hcovers.child ht,
        scoped_of_acceptsBlock_of iho hcovers.child ho, hrest seen hcovers⟩
  | forEach item e body span ih =>
      obtain ⟨he, hbindable, t, -, hbody⟩ := h
      have hbind := hcovers.child.bind (b := ⟨item.text, t, some item.span⟩) hbindable.fresh
      -- the item is alone in its block, and the list is read before it is bound
      refine ⟨Names.scoped_uses.mpr ⟨scoped_of_accepts hcovers.block he, ⟨?_, ?_⟩, ?_, trivial⟩,
        hrest seen hcovers⟩
      · exact List.not_mem_nil
      · exact fun r => ne_of_calls hbindable.function hbindable.callable
      · exact scoped_of_acceptsBlock_of ih hbind.block hbody
  | call f es note span =>
      have hcall : env.AcceptsUnused scope (.call f es note) := h
      exact Names.scoped_uses.mpr ⟨scoped_of_acceptsUnused hcovers hcall, hrest seen hcovers⟩
  | returns value span =>
      cases value with
      | none => exact hrest seen hcovers
      | some e =>
          obtain ⟨t, -, he, -⟩ := h
          exact Names.scoped_uses.mpr ⟨scoped_of_accepts hcovers he, hrest seen hcovers⟩
  | expression e span =>
      exact Names.scoped_uses.mpr ⟨scoped_of_acceptsUnused hcovers h, hrest seen hcovers⟩

end TypeEnv

end Prosaic
