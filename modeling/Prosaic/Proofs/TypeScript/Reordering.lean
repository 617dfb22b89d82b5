import Mathlib.Data.List.Sort
import Mathlib.Data.String.Basic
import Prosaic.Proofs.TypeScript.Resolution
import Prosaic.TypeScript.Print

/-!
Modules of the same declarations in another order. What is declared around a function comes in only
as names that its locals may not have, and what a module imports is sorted; so each declaration
becomes the same item, below the same preamble.
-/

namespace Prosaic

namespace TypeScript

/-! ### Names of locals -/

/-- Locals that differ in the order of the names that are taken at most. -/
structure Locals.Alike (l l' : Locals) : Prop where
  blocks : l.blocks = l'.blocks
  taken : l.taken.Perm l'.taken

theorem freshName_perm {taken taken' : List String} (h : taken.Perm taken') (name : String) :
    freshName taken name = freshName taken' name := by
  have hfree : ∀ fuel k, firstFree taken name fuel k = firstFree taken' name fuel k := by
    intro fuel
    induction fuel with
    | zero => exact fun _ => rfl
    | succ fuel ih =>
        intro k
        simp only [firstFree, List.contains_eq_mem, h.mem_iff, ih]
  rw [freshName, freshName, h.length_eq, hfree]

namespace Locals.Alike

variable {l l' : Locals} (h : l.Alike l')

include h

theorem find?_eq (name : String) : l.find? name = l'.find? name := by
  rw [find?, find?, h.blocks]

theorem resolve_eq (name : String) : l.resolve name = l'.resolve name := by
  rw [resolve, resolve, h.find?_eq]

theorem enter : l.enter.Alike l'.enter := ⟨congrArg (List.cons []) h.blocks, h.taken⟩

theorem leave : l.leave.Alike l'.leave := ⟨congrArg List.tail h.blocks, h.taken⟩

theorem add (name chosen : String) : (l.add name chosen).Alike (l'.add name chosen) := by
  obtain ⟨blocks, taken⟩ := l
  obtain ⟨blocks', taken'⟩ := l'
  obtain ⟨rfl, htaken⟩ := h
  cases blocks <;> exact ⟨rfl, htaken⟩

theorem declare (name : String) :
    (l.declare name).1 = (l'.declare name).1 ∧ (l.declare name).2.Alike (l'.declare name).2 := by
  have hfresh := freshName_perm h.taken name
  simp only [Locals.declare, h.find?_eq, hfresh]
  split
  · have htaken : ({ l with taken := freshName l'.taken name :: l.taken } : Locals).Alike
        { l' with taken := freshName l'.taken name :: l'.taken } := ⟨h.blocks, h.taken.cons _⟩
    exact ⟨rfl, htaken.add name _⟩
  · exact ⟨rfl, h.add name _⟩

end Locals.Alike

/-! ### Bodies -/

section

variable {r : Registry}

theorem lowerExprs_alike_of {l l' : Locals} {es : List Expr}
    (h : ∀ e ∈ es, lowerExpr r l e = lowerExpr r l' e) :
    lowerExprs r l es = lowerExprs r l' es := by
  induction es with
  | nil => rfl
  | cons e es ih =>
      obtain ⟨he, hes⟩ := List.forall_mem_cons.mp h
      simp only [lowerExprs, he, ih hes]

theorem lowerExpr_alike {l l' : Locals} (h : l.Alike l') (e : Expr) :
    lowerExpr r l e = lowerExpr r l' e := by
  induction e with
  | literal value note => rfl
  | var name note => simp only [lowerExpr, h.resolve_eq]
  | list es note ih => simp only [lowerExpr, lowerExprs_alike_of ih]
  | unary op e note ih | field e name note ih => simp only [lowerExpr, ih]
  | binary op a b note iha ihb => simp only [lowerExpr, iha, ihb]
  | call callee args note ih => simp only [lowerExpr, lowerExprs_alike_of ih]

/-- A step that yields the same and leaves the locals alike. -/
def LoweredAlike {α : Type} (x y : Except Defect (α × Locals)) : Prop :=
  ∀ a l, x = .ok (a, l) → ∃ l', y = .ok (a, l') ∧ l.Alike l'

theorem lowerStmts_alike_of {ss : List Stmt}
    (hss : ∀ s ∈ ss, ∀ {l l' : Locals}, l.Alike l' →
      LoweredAlike (lowerStmt r l s) (lowerStmt r l' s)) {l l' : Locals} (h : l.Alike l') :
    LoweredAlike (lowerStmts r l ss) (lowerStmts r l' ss) := by
  induction ss generalizing l l' with
  | nil =>
      intro cs k hcs
      obtain ⟨rfl, rfl⟩ := lowerStmts_nil.mp hcs
      exact ⟨l', lowerStmts_nil.mpr ⟨rfl, rfl⟩, h⟩
  | cons s ss ih =>
      obtain ⟨hs, hss⟩ := List.forall_mem_cons.mp hss
      intro cs k hcs
      obtain ⟨c, l₁, hc, cs, l₂, hrest, rfl, rfl⟩ := lowerStmts_cons.mp hcs
      obtain ⟨l₁', hc', hnext⟩ := hs h c l₁ hc
      obtain ⟨l₂', hrest', hlast⟩ := ih hss hnext cs l₂ hrest
      exact ⟨l₂', lowerStmts_cons.mpr ⟨c, l₁', hc', cs, l₂', hrest', rfl, rfl⟩, hlast⟩

/-- A statement is lowered to the same. -/
theorem lowerStmt_alike {s : Stmt} {l l' : Locals} (h : l.Alike l') :
    LoweredAlike (lowerStmt r l s) (lowerStmt r l' s) := by
  induction s generalizing l l' with
  | bind name e span =>
      intro c k hc
      obtain ⟨t, ht, rfl, rfl⟩ := lowerStmt_bind.mp hc
      rw [lowerExpr_alike h] at ht
      obtain ⟨hname, hnext⟩ := h.declare name.text
      exact ⟨_, lowerStmt_bind.mpr ⟨t, ht, by rw [hname], rfl⟩, hnext⟩
  | branch c t span iht =>
      intro d k hd
      obtain ⟨c', hc, ts, l₁, hts, rfl, rfl⟩ := lowerStmt_branch.mp hd
      rw [lowerExpr_alike h] at hc
      obtain ⟨l₁', hts', hnext⟩ := lowerStmts_alike_of iht h.enter ts l₁ hts
      exact ⟨_, lowerStmt_branch.mpr ⟨c', hc, ts, l₁', hts', rfl, rfl⟩, hnext.leave⟩
  | branchOtherwise c t o span iht iho =>
      intro d k hd
      obtain ⟨c', hc, ts, l₁, hts, os, l₂, hos, rfl, rfl⟩ := lowerStmt_branchOtherwise.mp hd
      rw [lowerExpr_alike h] at hc
      obtain ⟨l₁', hts', hnext⟩ := lowerStmts_alike_of iht h.enter ts l₁ hts
      obtain ⟨l₂', hos', hlast⟩ := lowerStmts_alike_of iho hnext.leave.enter os l₂ hos
      refine ⟨_, lowerStmt_branchOtherwise.mpr ?_, hlast.leave⟩
      exact ⟨c', hc, ts, l₁', hts', os, l₂', hos', rfl, rfl⟩
  | forEach item e body span ih =>
      intro d k hd
      obtain ⟨t, ht, cs, l₁, hcs, rfl, rfl⟩ := lowerStmt_forEach.mp hd
      rw [lowerExpr_alike h] at ht
      obtain ⟨hname, hinner⟩ := h.enter.declare item.text
      obtain ⟨l₁', hcs', hnext⟩ := lowerStmts_alike_of ih hinner cs l₁ hcs
      exact ⟨_, lowerStmt_forEach.mpr ⟨t, ht, cs, l₁', hcs', by rw [hname], rfl⟩, hnext.leave⟩
  | call callee args note span =>
      intro d k hd
      obtain ⟨t, ht, rfl, rfl⟩ := lowerStmt_call.mp hd
      rw [lowerExpr_alike h] at ht
      exact ⟨l', lowerStmt_call.mpr ⟨t, ht, rfl, rfl⟩, h⟩
  | returns value span =>
      intro d k hd
      cases value with
      | none =>
          obtain ⟨rfl, rfl⟩ := lowerStmt_return_none.mp hd
          exact ⟨l', lowerStmt_return_none.mpr ⟨rfl, rfl⟩, h⟩
      | some e =>
          obtain ⟨t, ht, rfl, rfl⟩ := lowerStmt_return_some.mp hd
          rw [lowerExpr_alike h] at ht
          exact ⟨l', lowerStmt_return_some.mpr ⟨t, ht, rfl, rfl⟩, h⟩
  | expression e span =>
      intro d k hd
      obtain ⟨t, ht, rfl, rfl⟩ := lowerStmt_expression.mp hd
      rw [lowerExpr_alike h] at ht
      exact ⟨l', lowerStmt_expression.mpr ⟨t, ht, rfl, rfl⟩, h⟩

/-! ### Declarations -/

variable {names names' : List String} (hnames : names.Perm names')

include hnames

/-- A declaration becomes the same item, in whatever order the names around it come. -/
theorem lowerDecl_perm {d : Decl} {i : Item} (h : lowerDecl r names d = .ok i) :
    lowerDecl r names' d = .ok i := by
  cases d with
  | type t =>
      obtain ⟨name, body, span⟩ := t
      cases body <;> exact h
  | record d => exact h
  | function f =>
      have hlocals : (Locals.ofFunction names f).Alike (Locals.ofFunction names' f) :=
        ⟨rfl, (hnames.append_right _).append_right _⟩
      obtain ⟨purity, hpurity, parameters, hparameters, returns, hreturns, body, l, hbody, rfl⟩ :=
        lowerDecl_function.mp h
      obtain ⟨l', hbody', -⟩ :=
        lowerStmts_alike_of (fun _ _ => lowerStmt_alike) hlocals.enter body l hbody
      exact lowerDecl_function.mpr
        ⟨purity, hpurity, parameters, hparameters, returns, hreturns, body, l', hbody', rfl⟩

end

/-! ### Imports -/

theorem importedNames_congr {rs rs' : List Reference} (h : ∀ r, r ∈ rs ↔ r ∈ rs') :
    importedNames rs = importedNames rs' := by
  have hperm : (importedNames rs).Perm (importedNames rs') := by
    rw [List.perm_ext_iff_of_nodup (nodup_importedNames rs) (nodup_importedNames rs')]
    intro n
    rw [mem_importedNames, mem_importedNames, h]
  exact hperm.eq_of_pairwise' (List.pairwise_mergeSort' (· ≤ ·) _)
    (List.pairwise_mergeSort' (· ≤ ·) _)

theorem References.types_append (rs ss : References) :
    (rs ++ ss).types = rs.types ++ ss.types := rfl

theorem mem_references {m : Module} (r : Reference) :
    (r ∈ m.references.types ↔ ∃ i ∈ m.items, r ∈ i.references.types) ∧
      (r ∈ m.references.values ↔ ∃ i ∈ m.items, r ∈ i.references.values) := by
  rw [Module.references]
  induction m.items with
  | nil => simp [References.none]
  | cons i items ih =>
      simp only [List.foldr_cons, References.values_append, References.types_append,
        List.mem_append, ih, List.exists_mem_cons_iff, and_self]

/-- Modules of the same items have the same preamble. -/
theorem preamble_perm {m m' : Module} (h : m.items.Perm m'.items) (target : Target) :
    m.preamble target = m'.preamble target := by
  have htypes : m.typeImports = m'.typeImports :=
    importedNames_congr fun r => by simp only [mem_references, h.mem_iff]
  have hvalues : m.valueImports = m'.valueImports :=
    importedNames_congr fun r => by simp only [mem_references, h.mem_iff]
  rw [Module.preamble, Module.preamble, htypes, hvalues]

/-! ### Modules -/

theorem length_lower {registry : Registry} {p : Program} {m : Module}
    (h : lower p registry = .ok m) :
    m.items.length = p.declarations.length :=
  (lower_eq_ok.mp h).length_eq.symm

/-- Programs with the same declarations, which came from somewhere, become modules with the same
preamble and the same items, each from where its declaration came from. -/
theorem lower_perm {α : Type} {registry : Registry} {p q : Program} {ds es : List (α × Decl)}
    (hperm : ds.Perm es) (hp : ds.map Prod.snd = p.declarations)
    (hq : es.map Prod.snd = q.declarations) {m : Module} (h : lower p registry = .ok m) :
    ∃ m', lower q registry = .ok m' ∧ (∀ target, m.preamble target = m'.preamble target) ∧
      ((ds.map Prod.fst).zip m.items).Perm ((es.map Prod.fst).zip m'.items) := by
  have hdecls : p.declarations.Perm q.declarations := hp ▸ hq ▸ hperm.map Prod.snd
  have hnames : (moduleNames p registry).Perm (moduleNames q registry) := by
    have hfunctions := (Program.functions_perm hdecls).map fun f => f.name.text
    exact ((hfunctions.append_right _).append_right _).map identifier
  obtain ⟨items⟩ := m
  have hlowered := lower_eq_ok.mp h
  have hlowers : ∀ d ∈ q.declarations, ∃ i,
      lowerDecl registry (moduleNames q registry) d = .ok i := by
    intro d hd
    obtain ⟨i, -, hi⟩ := exists_of_mem_left hlowered d (hdecls.mem_iff.mpr hd)
    exact ⟨i, lowerDecl_perm hnames hi⟩
  obtain ⟨items', hitems'⟩ := mapM_ok hlowers
  have hlowered' := mapM_eq_ok.mp hitems'
  rw [← hp, List.forall₂_map_left_iff] at hlowered
  rw [← hq, List.forall₂_map_left_iff] at hlowered'
  have hzip : (ds.zip items).Perm (es.zip items') :=
    zip_perm_of_forall₂ hperm hlowered hlowered' fun d i i' hi hi' =>
      Except.ok.inj ((lowerDecl_perm hnames hi).symm.trans hi')
  refine ⟨⟨items'⟩, lower_eq_ok.mpr (mapM_eq_ok.mp hitems'), preamble_perm ?_, ?_⟩
  · have hsnd := hzip.map Prod.snd
    rwa [List.map_snd_zip hlowered.length_eq.ge, List.map_snd_zip hlowered'.length_eq.ge] at hsnd
  · simpa only [List.zip_map_left] using hzip.map (Prod.map Prod.fst id)

end TypeScript

end Prosaic
