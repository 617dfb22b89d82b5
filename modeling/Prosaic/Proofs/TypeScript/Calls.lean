import Prosaic.Proofs.TypeScript.Sites
import Prosaic.Proofs.TypeScript.Translation

/-!
The calls of a module. A term has the calls of the expression that it is lowered from, except for
the conversions, and its text is read with an `await` directly around each call that is awaited and
nowhere else.
-/

namespace Prosaic

open TypeScript (Reference Locals Command Term lowerStmts)

/-- A call in a module: what it refers to, and whether it is awaited. -/
structure TypeScript.Call where
  callee : Reference
  awaited : Bool
  deriving DecidableEq, Repr

/-- A call of a program as one of a module. A conversion is none. -/
def CallSite.lowered (site : CallSite) : Option TypeScript.Call :=
  match site.note.target with
  | none | some .conversion => none
  | some target =>
    some ⟨⟨site.callee.text, TypeScript.isImported target⟩, site.note.purity = some .effectful⟩

namespace TypeScript

/-! ### Calls -/

mutual

/-- The calls in a term; a call comes before those in its arguments. -/
def Term.calls : Term → List Call
  | .number _ | .string _ | .boolean _ | .variable _ => []
  | .array es => Term.callsAll es
  | .unary _ e => e.calls
  | .binary _ l r => l.calls ++ r.calls
  | .call callee awaited args => ⟨callee, awaited⟩ :: Term.callsAll args
  | .cast e _ => e.calls
  | .member e _ => e.calls

def Term.callsAll : List Term → List Call
  | [] => []
  | e :: es => e.calls ++ Term.callsAll es

end

mutual

/-- The calls in a tree that stands under some `await`s: the callees, each with the number of
`await`s directly around the call. -/
def Tree.callsUnder (awaits : Nat) : Tree → List (Tree × Nat)
  | .number _ | .string _ | .boolean _ | .name _ => []
  | .array es => Tree.callsAll es
  | .unary _ e => e.callsUnder 0
  | .await e => e.callsUnder (awaits + 1)
  | .binary _ l r => l.callsUnder 0 ++ r.callsUnder 0
  | .call callee args => (callee, awaits) :: callee.callsUnder 0 ++ Tree.callsAll args
  | .instantiated e _ => e.callsUnder 0
  | .cast e _ => e.callsUnder 0
  | .member e _ => e.callsUnder 0

def Tree.callsAll : List Tree → List (Tree × Nat)
  | [] => []
  | e :: es => e.callsUnder 0 ++ Tree.callsAll es

end

mutual

/-- The number of `await`s in a tree. -/
def Tree.awaits : Tree → Nat
  | .number _ | .string _ | .boolean _ | .name _ => 0
  | .array es => Tree.awaitsAll es
  | .unary _ e => e.awaits
  | .await e => e.awaits + 1
  | .binary _ l r => l.awaits + r.awaits
  | .call callee args => callee.awaits + Tree.awaitsAll args
  | .instantiated e _ => e.awaits
  | .cast e _ => e.awaits
  | .member e _ => e.awaits

def Tree.awaitsAll : List Tree → Nat
  | [] => 0
  | e :: es => e.awaits + Tree.awaitsAll es

end

/-- A call as it is read: with the identifier of its callee, and one `await` around it if it is
awaited. -/
def Call.shown (c : Call) : Tree × Nat :=
  (.name (identifier c.callee.name), if c.awaited then 1 else 0)

/-! ### Reading -/

/-- What a term calls can be seen in its tree, where an `await` stands around the awaited calls
only. -/
structure Shows (calls : List Call) (shown : List (Tree × Nat)) (awaits : Nat) : Prop where
  shown : shown = calls.map Call.shown
  awaits : awaits = calls.countP Call.awaited

namespace Shows

theorem append {cs ds : List Call} {ts us : List (Tree × Nat)} {m n : Nat} (h : Shows cs ts m)
    (h' : Shows ds us n) : Shows (cs ++ ds) (ts ++ us) (m + n) :=
  ⟨by rw [h.shown, h'.shown, List.map_append], by rw [h.awaits, h'.awaits, List.countP_append]⟩

theorem ofAll {es : List Term}
    (h : ∀ e ∈ es, Shows e.calls (e.tree.callsUnder 0) e.tree.awaits) :
    Shows (Term.callsAll es) (Tree.callsAll (Term.trees es)) (Tree.awaitsAll (Term.trees es)) := by
  induction es with
  | nil => exact ⟨rfl, rfl⟩
  | cons e es ih =>
      obtain ⟨he, hes⟩ := List.forall_mem_cons.mp h
      exact he.append (ih hes)

end Shows

/-- The tree of a term shows the calls of the term. -/
theorem Term.shows_tree (t : Term) : Shows t.calls (t.tree.callsUnder 0) t.tree.awaits := by
  induction t with
  | number | string | boolean | var => exact ⟨rfl, rfl⟩
  | array es ih => exact .ofAll ih
  | unary op e ih | cast e t ih | member e field ih => exact ih
  | binary op l r ihl ihr => exact ihl.append ihr
  | call callee awaited args ih =>
      obtain ⟨hshown, hawaits⟩ := Shows.ofAll ih
      cases awaited with
      | false | true =>
          constructor
          · simp [Term.tree, Tree.callsUnder, Term.calls, Call.shown, hshown]
          · simp [Term.tree, Tree.awaits, Term.calls, hawaits]

/-! ### Lowering -/

section

variable {r : Registry} {l : Locals}

theorem calls_lowerExprs_of {es : List Expr} {ts : List Term}
    (h : ∀ e ∈ es, ∀ {t}, lowerExpr r l e = .ok t → t.calls = e.calls.filterMap CallSite.lowered)
    (hts : List.Forall₂ (fun e t => lowerExpr r l e = .ok t) es ts) :
    Term.callsAll ts = (Expr.callsAll es).filterMap CallSite.lowered := by
  induction hts with
  | nil => rfl
  | cons ht _ ih =>
      obtain ⟨he, hes⟩ := List.forall_mem_cons.mp h
      rw [Term.callsAll, Expr.callsAll, List.filterMap_append, he ht, ih hes]

/-- A call that is no conversion is lowered to a call of its arguments, a conversion to a cast. -/
theorem calls_callTerm {callee : Name} {note : CallNote} {target : CallTarget} {purity : Purity}
    {ts : List Term} (htarget : note.target = some target) (hpurity : note.purity = some purity)
    (hone : target = .conversion → ts.length = 1) :
    (callTerm r callee target purity ts).calls =
      (CallSite.lowered ⟨callee, note⟩).toList ++ Term.callsAll ts := by
  cases target with
  | function | operation | helper =>
      simp [callTerm, CallSite.lowered, htarget, hpurity, Term.calls]
  | conversion =>
      obtain ⟨t, rfl⟩ := List.length_eq_one_iff.mp (hone rfl)
      simp [callTerm, CallSite.lowered, htarget, Term.calls, Term.callsAll]

/-- A term has the calls of the expression that it is lowered from, without the conversions. -/
theorem calls_lowerExpr {e : Expr} {t : Term} (h : lowerExpr r l e = .ok t) :
    t.calls = e.calls.filterMap CallSite.lowered := by
  induction e generalizing t with
  | literal value note =>
      obtain ⟨-, h⟩ := lowerExpr_literal.mp h
      cases value with
      | number n =>
          obtain ⟨digits, -, rfl⟩ := lowerLiteral_number.mp h
          rfl
      | string s | boolean b =>
          cases h
          rfl
  | var name note =>
      obtain ⟨-, rfl⟩ := lowerExpr_variable.mp h
      rfl
  | list es note ih =>
      obtain ⟨-, ts, hts, rfl⟩ := lowerExpr_list.mp h
      exact calls_lowerExprs_of ih hts
  | unary op e note ih =>
      obtain ⟨-, u, hu, rfl⟩ := lowerExpr_unary.mp h
      rw [Term.calls, Expr.calls, ih hu]
  | binary op a b note iha ihb =>
      obtain ⟨-, u, hu, v, hv, rfl⟩ := lowerExpr_binary.mp h
      rw [Term.calls, Expr.calls, List.filterMap_append, iha hu, ihb hv]
  | call callee args note ih =>
      obtain ⟨target, purity, ts, ⟨htarget, hpurity⟩, hone, hts, rfl⟩ := lowerExpr_call.mp h
      rw [calls_callTerm htarget hpurity hone, calls_lowerExprs_of ih hts, Expr.calls,
        List.filterMap_cons]
      cases CallSite.lowered ⟨callee, note⟩ <;> rfl
  | field e name note ih =>
      obtain ⟨-, u, hu, rfl⟩ := lowerExpr_field.mp h
      rw [Term.calls, Expr.calls, ih hu]

end

end TypeScript

/-! ### Bodies -/

section

variable {ρ σ α : Type} {w : Walk ρ σ α} {expr : α → Expr}

theorem Stmt.callsAll_walk_of {ss : List Stmt}
    (h : ∀ s ∈ ss, ∀ p l, s.calls = (s.walk w p l).1.flatMap fun a => (expr a).calls)
    (p : ρ) (l : σ) :
    Stmt.callsAll ss = (Stmt.walkAll w p l ss).1.flatMap fun a => (expr a).calls := by
  induction ss generalizing p l with
  | nil => rfl
  | cons s ss ih =>
      obtain ⟨hs, hss⟩ := List.forall_mem_cons.mp h
      rw [Stmt.callsAll, Stmt.walkAll, List.flatMap_append, hs p l, ih hss]

/-- The calls in a statement are those in its expressions. -/
theorem Stmt.calls_walk (hnote : ∀ l r e, expr (w.note l r e) = e) (s : Stmt) (p : ρ) (l : σ) :
    s.calls = (s.walk w p l).1.flatMap fun a => (expr a).calls := by
  induction s generalizing p l with
  | bind | call | expression => simp [Stmt.calls, Stmt.walk, Expr.calls, hnote]
  | branch c t span iht =>
      rw [Stmt.calls, Stmt.walk, List.flatMap_cons, hnote, callsAll_walk_of iht]
  | branchOtherwise c t o span iht iho =>
      rw [Stmt.calls, Stmt.walk, List.flatMap_cons, List.flatMap_append, List.append_assoc, hnote,
        callsAll_walk_of iht, callsAll_walk_of iho]
  | forEach item e body span ih =>
      rw [Stmt.calls, Stmt.walk, List.flatMap_cons, hnote, callsAll_walk_of ih]
  | returns value span => cases value <;> simp [Stmt.calls, Stmt.walk, hnote]

end

open TypeScript (Locals) in
theorem Stmt.callsAll_sites (ss : List Stmt) (l : Locals) :
    Stmt.callsAll ss =
      (Stmt.walkAll Locals.walk ⟨⟩ l ss).1.flatMap fun site => site.expr.calls :=
  callsAll_walk_of (fun s _ => s.calls_walk fun _ _ _ => rfl) _ _

/-- The calls in the terms of a function are those in its body, without the conversions. -/
theorem TypeScript.calls_lowerStmts {r : Registry} {l l' : Locals} {ss : List Stmt}
    {cs : List Command}
    (h : lowerStmts r l ss = .ok (cs, l')) :
    (Command.termsAll cs).flatMap Term.calls = (Stmt.callsAll ss).filterMap CallSite.lowered := by
  rw [Stmt.callsAll_sites ss l, List.filterMap_flatMap]
  have hsites := (lowersSites_of (fun s _ => lowersSites_lowerStmt) h).terms
  generalize (Stmt.walkAll Locals.walk ⟨⟩ l ss).1 = sites at hsites ⊢
  generalize Command.termsAll cs = terms at hsites ⊢
  induction hsites with
  | nil => rfl
  | cons ht _ ih => rw [List.flatMap_cons, List.flatMap_cons, calls_lowerExpr ht, ih]

end Prosaic
