import Prosaic.Proofs.Except
import Prosaic.Proofs.Origins
import Prosaic.Proofs.TypeScript.Resolution
import Prosaic.Proofs.TypeScript.Spelling

/-!
Where the expressions of a program stand. Every statement is lowered to a command in which its
expressions stand in the same order, each lowered with the locals that are in scope there.
-/

namespace Prosaic

open TypeScript (Locals IsIdentifier)

/-- An expression that stands by itself in a statement, and the locals there. -/
structure Site where
  locals : Locals
  expr : Expr

/-- The walk of the lowering. -/
def TypeScript.Locals.walk : Walk PUnit Locals Site where
  inside p _ := p
  next p := p
  note l _ e := ⟨l, e⟩
  bind _ l name _ := (l.declare name.text).2
  item _ l name _ := (l.enter.declare name.text).2
  enter := Locals.enter
  leave _ inner := inner.leave

/-- The expressions in the body of a function. -/
def FunctionDecl.sites (names : List String) (f : FunctionDecl) : List Site :=
  (Stmt.walkAll Locals.walk ⟨⟩ (Locals.ofFunction names f).enter f.body).1

/-- The expressions in the functions of a program. -/
def Program.sites (registry : Registry) (p : Program) : List Site :=
  p.functions.flatMap (FunctionDecl.sites (TypeScript.moduleNames p registry))

/-! ### Every expression -/

section

variable {P : Expr → Prop} {ρ σ α : Type} {w : Walk ρ σ α} {expr : α → Expr}

theorem Stmt.everywhereIn_iff_walkAll_of {ss : List Stmt}
    (h : ∀ s ∈ ss, ∀ p l, s.Everywhere P ↔ ∀ a ∈ (s.walk w p l).1, (expr a).Everywhere P)
    (p : ρ) (l : σ) :
    Stmt.EverywhereIn P ss ↔ ∀ a ∈ (Stmt.walkAll w p l ss).1, (expr a).Everywhere P := by
  induction ss generalizing p l with
  | nil => exact iff_of_true trivial (List.forall_mem_nil _)
  | cons s ss ih =>
      obtain ⟨hs, hss⟩ := List.forall_mem_cons.mp h
      rw [Stmt.EverywhereIn, Stmt.walkAll, List.forall_mem_append, hs p l, ih hss]

/-- What holds everywhere in a statement is what holds everywhere in its expressions. -/
theorem Stmt.everywhere_iff_walk (hnote : ∀ l r e, expr (w.note l r e) = e) (s : Stmt) (p : ρ)
    (l : σ) :
    s.Everywhere P ↔ ∀ a ∈ (s.walk w p l).1, (expr a).Everywhere P := by
  induction s generalizing p l with
  | bind | call | expression =>
      rw [Stmt.Everywhere, Stmt.walk, List.forall_mem_singleton, hnote]
  | branch c t span iht =>
      rw [Stmt.Everywhere, Stmt.walk, List.forall_mem_cons, hnote]
      exact and_congr_right fun _ => everywhereIn_iff_walkAll_of iht _ _
  | branchOtherwise c t o span iht iho =>
      rw [Stmt.Everywhere, Stmt.walk, List.forall_mem_cons, List.forall_mem_append, hnote]
      exact and_congr_right fun _ => and_congr (everywhereIn_iff_walkAll_of iht _ _)
        (everywhereIn_iff_walkAll_of iho _ _)
  | forEach item e body span ih =>
      rw [Stmt.Everywhere, Stmt.walk, List.forall_mem_cons, hnote]
      exact and_congr_right fun _ => everywhereIn_iff_walkAll_of ih _ _
  | returns value span =>
      cases value with
      | none => exact iff_of_true trivial (List.forall_mem_nil _)
      | some e => rw [Stmt.Everywhere, Stmt.walk, List.forall_mem_singleton, hnote]

/-- What holds everywhere in a program is what holds everywhere in its expressions. -/
theorem Program.everywhere_iff_sites {p : Program} (registry : Registry) :
    p.Everywhere P ↔ ∀ site ∈ p.sites registry, site.expr.Everywhere P := by
  rw [Program.sites, List.forall_mem_flatMap]
  exact forall₂_congr fun f _ =>
    Stmt.everywhereIn_iff_walkAll_of (w := Locals.walk)
      (fun s _ => s.everywhere_iff_walk fun _ _ _ => rfl) _ _

end

/-! ### Locals -/

section

open TypeScript (bound boundAll)

theorem Stmt.spelled_walkAll_of {ss : List Stmt}
    (h : ∀ s ∈ ss, ∀ l : Locals, l.Spelled → (∀ x ∈ bound s, isWord x.toList = true) →
      (∀ site ∈ (s.walk Locals.walk ⟨⟩ l).1, site.locals.Spelled) ∧
        (s.walk Locals.walk ⟨⟩ l).2.Spelled)
    {l : Locals} (hl : l.Spelled) (hbound : ∀ x ∈ boundAll ss, isWord x.toList = true) :
    (∀ site ∈ (Stmt.walkAll Locals.walk ⟨⟩ l ss).1, site.locals.Spelled) ∧
      (Stmt.walkAll Locals.walk ⟨⟩ l ss).2.Spelled := by
  induction ss generalizing l with
  | nil => exact ⟨List.forall_mem_nil _, hl⟩
  | cons s ss ih =>
      obtain ⟨hs, hss⟩ := List.forall_mem_cons.mp h
      obtain ⟨hhere, hbehind⟩ := List.forall_mem_append.mp hbound
      obtain ⟨hsites, hl₁⟩ := hs l hl hhere
      obtain ⟨hrest, hl₂⟩ := ih hss hl₁ hbehind
      exact ⟨List.forall_mem_append.mpr ⟨hsites, hrest⟩, hl₂⟩

/-- Where all that a statement binds are words, the locals in it go by identifiers if those before
it do. -/
theorem Stmt.spelled_walk {s : Stmt} {l : Locals} (hl : l.Spelled)
    (hbound : ∀ x ∈ bound s, isWord x.toList = true) :
    (∀ site ∈ (s.walk Locals.walk ⟨⟩ l).1, site.locals.Spelled) ∧
      (s.walk Locals.walk ⟨⟩ l).2.Spelled := by
  induction s generalizing l with
  | bind name e span =>
      exact ⟨List.forall_mem_singleton.mpr hl, hl.declare (hbound _ List.mem_cons_self)⟩
  | branch c t span iht =>
      obtain ⟨hts, hl₁⟩ := spelled_walkAll_of (fun s hs l => iht s hs) hl.enter hbound
      exact ⟨List.forall_mem_cons.mpr ⟨hl, hts⟩, hl₁.leave⟩
  | branchOtherwise c t o span iht iho =>
      obtain ⟨hthen, hotherwise⟩ := List.forall_mem_append.mp hbound
      obtain ⟨hts, hl₁⟩ := spelled_walkAll_of (fun s hs l => iht s hs) hl.enter hthen
      obtain ⟨hos, hl₂⟩ := spelled_walkAll_of (fun s hs l => iho s hs) hl₁.leave.enter hotherwise
      exact ⟨List.forall_mem_cons.mpr ⟨hl, List.forall_mem_append.mpr ⟨hts, hos⟩⟩, hl₂.leave⟩
  | forEach item e body span ih =>
      obtain ⟨hitem, hbody⟩ := List.forall_mem_cons.mp hbound
      obtain ⟨hss, hl₁⟩ :=
        spelled_walkAll_of (fun s hs l => ih s hs) (hl.enter.declare hitem) hbody
      exact ⟨List.forall_mem_cons.mpr ⟨hl, hss⟩, hl₁.leave⟩
  | call | expression => exact ⟨List.forall_mem_singleton.mpr hl, hl⟩
  | returns value span =>
      cases value with
      | none => exact ⟨List.forall_mem_nil _, hl⟩
      | some e => exact ⟨List.forall_mem_singleton.mpr hl, hl⟩

end

/-! ### Bare trees -/

section

open TypeScript (bound boundAll)

theorem boundAll_bare_of {ss : List Stmt} (h : ∀ s ∈ ss, bound s.bare = bound s) :
    boundAll (ss.map Stmt.bare) = boundAll ss := by
  induction ss with
  | nil => rfl
  | cons s ss ih =>
      obtain ⟨hs, hss⟩ := List.forall_mem_cons.mp h
      rw [List.map_cons, boundAll, boundAll, hs, ih hss]

theorem bound_bare (s : Stmt) : bound s.bare = bound s := by
  induction s with
  | bind | call | expression => rfl
  | branch c t span iht => rw [Stmt.bare, bound, bound, Stmt.bareAll_eq, boundAll_bare_of iht]
  | branchOtherwise c t o span iht iho =>
      rw [Stmt.bare, bound, bound, Stmt.bareAll_eq, Stmt.bareAll_eq, boundAll_bare_of iht,
        boundAll_bare_of iho]
  | forEach item e body span ih => rw [Stmt.bare, bound, bound, Stmt.bareAll_eq,
    boundAll_bare_of ih]
  | returns value span => cases value <;> rfl

end

/-! ### Lowering -/

namespace TypeScript

/-- Induction over commands; blocks come with a hypothesis for every command. -/
@[induction_eliminator]
theorem Command.inductionOn {motive : Command → Prop}
    (const : ∀ x e, motive (.const x e))
    (branch : ∀ c t, (∀ d ∈ t, motive d) → motive (.branch c t none))
    (branchOtherwise : ∀ c t o, (∀ d ∈ t, motive d) → (∀ d ∈ o, motive d) →
      motive (.branch c t (some o)))
    (forOf : ∀ x e body, (∀ d ∈ body, motive d) → motive (.forOf x e body))
    (returns : ∀ value, motive (.return value))
    (expression : ∀ e, motive (.expression e)) : ∀ c, motive c := fun c =>
  @Command.rec motive (fun cs => ∀ c ∈ cs, motive c)
    (fun o => ∀ cs, o = some cs → ∀ c ∈ cs, motive c)
    const
    (fun c t o ht ho => by
      cases o with
      | none => exact branch c t ht
      | some o => exact branchOtherwise c t o ht (ho o rfl))
    forOf returns expression
    (fun _ h => nomatch h)
    (fun _ _ hhead htail => List.forall_mem_cons.mpr ⟨hhead, htail⟩)
    (fun _ h => nomatch h)
    (fun _ hcs _ h => Option.some.inj h ▸ hcs)
    c

mutual

/-- The expressions of a command, in the order in which they are written. -/
def Command.terms : Command → List Term
  | .const _ e => [e]
  | .branch c t none => c :: Command.termsAll t
  | .branch c t (some o) => c :: (Command.termsAll t ++ Command.termsAll o)
  | .forOf _ e body => e :: Command.termsAll body
  | .return none => []
  | .return (some e) => [e]
  | .expression e => [e]

def Command.termsAll : List Command → List Term
  | [] => []
  | c :: cs => c.terms ++ Command.termsAll cs

end

def Item.terms : Item → List Term
  | .function _ _ _ _ body => Command.termsAll body
  | _ => []

/-- The expressions in the functions of a module. -/
def Module.terms (m : Module) : List Term := m.items.flatMap Item.terms

section

variable {r : Registry}

/-- The expressions of a statement and those of a command, lowered one by one. -/
structure LowersSites (r : Registry) (sites : List Site × Locals)
    (terms : List Term) (l' : Locals) :
    Prop where
  terms : List.Forall₂ (fun s t => lowerExpr r s.locals s.expr = .ok t) sites.1 terms
  behind : sites.2 = l'

theorem lowersSites_of {ss : List Stmt}
    (h : ∀ s ∈ ss, ∀ {l l' c}, lowerStmt r l s = .ok (c, l') →
      LowersSites r (s.walk Locals.walk ⟨⟩ l) c.terms l')
    {l l' : Locals} {cs : List Command} (hcs : lowerStmts r l ss = .ok (cs, l')) :
    LowersSites r (Stmt.walkAll Locals.walk ⟨⟩ l ss) (Command.termsAll cs) l' := by
  induction ss generalizing l cs with
  | nil =>
      obtain ⟨rfl, rfl⟩ := lowerStmts_nil.mp hcs
      exact ⟨.nil, rfl⟩
  | cons s ss ih =>
      obtain ⟨hs, hss⟩ := List.forall_mem_cons.mp h
      obtain ⟨c, l₁, hc, cs', l₂, hcs', rfl, rfl⟩ := lowerStmts_cons.mp hcs
      obtain ⟨hhere, rfl⟩ := hs hc
      obtain ⟨hbehind, rfl⟩ := ih hss hcs'
      exact ⟨List.rel_append hhere hbehind, rfl⟩

/-- A statement is lowered expression by expression. -/
theorem lowersSites_lowerStmt {s : Stmt} {l l' : Locals} {c : Command}
    (h : lowerStmt r l s = .ok (c, l')) : LowersSites r (s.walk Locals.walk ⟨⟩ l) c.terms l' := by
  induction s generalizing l l' c with
  | bind name e span =>
      obtain ⟨t, ht, rfl, rfl⟩ := lowerStmt_bind.mp h
      exact ⟨.cons ht .nil, rfl⟩
  | branch c t span iht =>
      obtain ⟨c', hc, ts, l₁, hts, rfl, rfl⟩ := lowerStmt_branch.mp h
      obtain ⟨hthen, rfl⟩ := lowersSites_of iht hts
      exact ⟨.cons hc hthen, rfl⟩
  | branchOtherwise c t o span iht iho =>
      obtain ⟨c', hc, ts, l₁, hts, os, l₂, hos, rfl, rfl⟩ := lowerStmt_branchOtherwise.mp h
      obtain ⟨hthen, rfl⟩ := lowersSites_of iht hts
      obtain ⟨hotherwise, rfl⟩ := lowersSites_of iho hos
      exact ⟨.cons hc (List.rel_append hthen hotherwise), rfl⟩
  | forEach item e body span ih =>
      obtain ⟨t, ht, cs, l₁, hcs, rfl, rfl⟩ := lowerStmt_forEach.mp h
      obtain ⟨hbody, rfl⟩ := lowersSites_of ih hcs
      exact ⟨.cons ht hbody, rfl⟩
  | call callee args note span =>
      obtain ⟨t, ht, rfl, rfl⟩ := lowerStmt_call.mp h
      exact ⟨.cons ht .nil, rfl⟩
  | returns value span =>
      cases value with
      | none =>
          obtain ⟨rfl, rfl⟩ := lowerStmt_return_none.mp h
          exact ⟨.nil, rfl⟩
      | some e =>
          obtain ⟨t, ht, rfl, rfl⟩ := lowerStmt_return_some.mp h
          exact ⟨.cons ht .nil, rfl⟩
  | expression e span =>
      obtain ⟨t, ht, rfl, rfl⟩ := lowerStmt_expression.mp h
      exact ⟨.cons ht .nil, rfl⟩

theorem forall₂_lowerDecl {names : List String} {d : Decl} {i : Item}
    (h : lowerDecl r names d = .ok i) :
    List.Forall₂ (fun s t => lowerExpr r s.locals s.expr = .ok t)
      (d.function?.toList.flatMap (FunctionDecl.sites names)) i.terms := by
  cases d with
  | type t =>
      obtain ⟨name, body, span⟩ := t
      cases body with
      | literals values =>
          obtain rfl := lowerDecl_literals.mp h
          exact .nil
      | reference ref =>
          obtain ⟨a, -, rfl⟩ := lowerDecl_reference.mp h
          exact .nil
  | record d =>
      obtain ⟨fields, -, rfl⟩ := lowerDecl_record.mp h
      exact .nil
  | function f =>
      obtain ⟨purity, parameters, returns, body, l, -, rfl, -, -, hbody⟩ := lowerFunction_cases h
      simpa [Decl.function?, FunctionDecl.sites, Item.terms] using
        (lowersSites_of (fun s _ => lowersSites_lowerStmt) hbody).terms

/-- The expressions of a module are those of the program, lowered one by one. -/
theorem forall₂_lower {p : Program} {m : Module} (h : lower p r = .ok m) :
    List.Forall₂ (fun s t => lowerExpr r s.locals s.expr = .ok t) (p.sites r) m.terms := by
  have hlowered := lower_eq_ok.mp h
  rw [Program.sites, Program.functions_eq, Module.terms]
  generalize moduleNames p r = names at hlowered ⊢
  generalize p.declarations = ds at hlowered ⊢
  generalize m.items = items at hlowered ⊢
  clear h
  induction hlowered with
  | nil => exact .nil
  | @cons d i ds items hdi _ ih =>
      have hsites := List.rel_append (forall₂_lowerDecl hdi) ih
      rw [List.flatMap_cons, List.filterMap_cons]
      cases hd : d.function? with
      | none => simpa [hd] using hsites
      | some f => simpa [hd] using hsites

end

end TypeScript

end Prosaic
