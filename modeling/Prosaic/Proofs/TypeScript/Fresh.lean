import Prosaic.Proofs.Except
import Prosaic.Proofs.Program.Parts
import Prosaic.Proofs.TypeScript.Resolution

/-!
The identifiers that are made up for locals. A function is gone through once, and every local is
told with the identifier chosen for it; what is made up on the way is taken from there on.

`Chosen` relates the locals to what is taken before and behind them, one local after the other. All
that is claimed of made-up identifiers is read off it: they are new to everything that was taken at
the start, which includes what the body binds further down, and to each other.
-/

namespace Prosaic

open TypeScript (Locals Command bound boundAll identifier numbered freshName)

/-! ### The locals of a function -/

/-- A local where it is declared: its name, the identifier chosen for it, and whether another local
of that name is in scope there, so that the identifier is made up. -/
structure Local where
  name : String
  identifier : String
  shadows : Bool
  deriving DecidableEq, Repr

/-- The next local of a name. -/
def TypeScript.Locals.next (l : Locals) (name : String) : Local :=
  ⟨name, (l.declare name).1, (l.find? name).isSome⟩

mutual

/-- The locals that a statement declares, in the order in which that happens, and the scopes behind
it. -/
def Stmt.locals (l : Locals) : Stmt → List Local × Locals
  | .bind name _ _ => ([l.next name.text], (l.declare name.text).2)
  | .branch _ t none _ =>
    let (ts, l₁) := Stmt.localsAll l.enter t
    (ts, l₁.leave)
  | .branch _ t (some o) _ =>
    let (ts, l₁) := Stmt.localsAll l.enter t
    let (os, l₂) := Stmt.localsAll l₁.leave.enter o
    (ts ++ os, l₂.leave)
  | .forEach item _ body _ =>
    let (ss, l₁) := Stmt.localsAll (l.enter.declare item.text).2 body
    (l.enter.next item.text :: ss, l₁.leave)
  | .call .. | .return .. | .expression .. => ([], l)

def Stmt.localsAll (l : Locals) : List Stmt → List Local × Locals
  | [] => ([], l)
  | s :: ss =>
    let (here, l₁) := s.locals l
    let (behind, l₂) := Stmt.localsAll l₁ ss
    (here ++ behind, l₂)

end

/-- The locals in the body of a function. -/
def FunctionDecl.locals (names : List String) (f : FunctionDecl) : List Local :=
  (Stmt.localsAll (Locals.ofFunction names f).enter f.body).1

/-! ### Every local that is bound, and as it is lowered -/

theorem Stmt.map_name_localsAll_of {ss : List Stmt}
    (h : ∀ s ∈ ss, ∀ l, (s.locals l).1.map Local.name = bound s) (l : Locals) :
    (Stmt.localsAll l ss).1.map Local.name = boundAll ss := by
  induction ss generalizing l with
  | nil => rfl
  | cons s ss ih =>
      obtain ⟨hs, hss⟩ := List.forall_mem_cons.mp h
      rw [Stmt.localsAll, List.map_append, hs l, ih hss, boundAll]

/-- Every binding of a statement is gone through, in its order. -/
theorem Stmt.map_name_locals (s : Stmt) (l : Locals) :
    (s.locals l).1.map Local.name = bound s := by
  induction s generalizing l with
  | bind => rfl
  | branch c t span iht => exact map_name_localsAll_of (fun s hs l => iht s hs l) _
  | branchOtherwise c t o span iht iho =>
      rw [Stmt.locals, List.map_append, bound, map_name_localsAll_of (fun s hs l => iht s hs l),
        map_name_localsAll_of (fun s hs l => iho s hs l)]
  | forEach item e body span ih =>
      rw [Stmt.locals, List.map_cons, bound, map_name_localsAll_of (fun s hs l => ih s hs l)]
      rfl
  | call | expression => rfl
  | returns value span => cases value <;> rfl

namespace TypeScript

mutual

/-- The identifiers that a command declares, at whatever depth, in the order in which they are
written. -/
def Command.declared : Command → List String
  | .const x _ => [x]
  | .branch _ t none => Command.declaredAll t
  | .branch _ t (some o) => Command.declaredAll t ++ Command.declaredAll o
  | .forOf x _ body => x :: Command.declaredAll body
  | .return _ | .expression _ => []

def Command.declaredAll : List Command → List String
  | [] => []
  | c :: cs => c.declared ++ Command.declaredAll cs

end

/-- What is declared when something is lowered are its locals, under the identifiers chosen for
them. -/
structure Declares (locals : List Local × Locals) (declared : List String) (l' : Locals) :
    Prop where
  declared : declared = locals.1.map Local.identifier
  behind : locals.2 = l'

variable {r : Registry}

theorem declares_of {ss : List Stmt}
    (h : ∀ s ∈ ss, ∀ {l l' c}, lowerStmt r l s = .ok (c, l') → Declares (s.locals l) c.declared l')
    {l l' : Locals} {cs : List Command} (hcs : lowerStmts r l ss = .ok (cs, l')) :
    Declares (Stmt.localsAll l ss) (Command.declaredAll cs) l' := by
  induction ss generalizing l cs with
  | nil =>
      obtain ⟨rfl, rfl⟩ := lowerStmts_nil.mp hcs
      exact ⟨rfl, rfl⟩
  | cons s ss ih =>
      obtain ⟨hs, hss⟩ := List.forall_mem_cons.mp h
      obtain ⟨c, l₁, hc, cs', l₂, hcs', rfl, rfl⟩ := lowerStmts_cons.mp hcs
      obtain ⟨hhere, rfl⟩ := hs hc
      obtain ⟨hbehind, rfl⟩ := ih hss hcs'
      refine ⟨?_, rfl⟩
      rw [Command.declaredAll, hhere, hbehind, Stmt.localsAll, List.map_append]

theorem declares_lowerStmt {s : Stmt} {l l' : Locals} {c : Command}
    (h : lowerStmt r l s = .ok (c, l')) : Declares (s.locals l) c.declared l' := by
  induction s generalizing l l' c with
  | bind name e span =>
      obtain ⟨t, -, rfl, rfl⟩ := lowerStmt_bind.mp h
      exact ⟨rfl, rfl⟩
  | branch c t span iht =>
      obtain ⟨c', -, ts, l₁, hts, rfl, rfl⟩ := lowerStmt_branch.mp h
      obtain ⟨hthen, rfl⟩ := declares_of iht hts
      exact ⟨hthen, rfl⟩
  | branchOtherwise c t o span iht iho =>
      obtain ⟨c', -, ts, l₁, hts, os, l₂, hos, rfl, rfl⟩ := lowerStmt_branchOtherwise.mp h
      obtain ⟨hthen, rfl⟩ := declares_of iht hts
      obtain ⟨hotherwise, rfl⟩ := declares_of iho hos
      refine ⟨?_, rfl⟩
      rw [Command.declared, hthen, hotherwise, Stmt.locals, List.map_append]
  | forEach item e body span ih =>
      obtain ⟨t, -, cs, l₁, hcs, rfl, rfl⟩ := lowerStmt_forEach.mp h
      obtain ⟨hbody, rfl⟩ := declares_of ih hcs
      refine ⟨?_, rfl⟩
      rw [Command.declared, hbody]
      rfl
  | call callee args note span =>
      obtain ⟨t, -, rfl, rfl⟩ := lowerStmt_call.mp h
      exact ⟨rfl, rfl⟩
  | returns value span =>
      cases value with
      | none =>
          obtain ⟨rfl, rfl⟩ := lowerStmt_return_none.mp h
          exact ⟨rfl, rfl⟩
      | some e =>
          obtain ⟨t, -, rfl, rfl⟩ := lowerStmt_return_some.mp h
          exact ⟨rfl, rfl⟩
  | expression e span =>
      obtain ⟨t, -, rfl, rfl⟩ := lowerStmt_expression.mp h
      exact ⟨rfl, rfl⟩

end TypeScript

/-! ### One local after the other -/

/-- How locals come to their identifiers, between what is taken before them and behind them: one
that shadows nothing keeps its own, and any other one gets an identifier that is new and taken from
there on. -/
inductive Chosen : List String → List Local → List String → Prop
  | nil (taken : List String) : Chosen taken [] taken
  | keeps {taken taken' : List String} {ds : List Local} (name : String)
      (rest : Chosen taken ds taken') : Chosen taken (⟨name, identifier name, false⟩ :: ds) taken'
  | invents {taken taken' : List String} {ds : List Local} (name : String)
      (rest : Chosen (freshName taken name :: taken) ds taken') :
      Chosen taken (⟨name, freshName taken name, true⟩ :: ds) taken'

namespace Chosen

variable {taken taken' taken'' : List String} {ds es : List Local}

theorem append (h : Chosen taken ds taken') (h' : Chosen taken' es taken'') :
    Chosen taken (ds ++ es) taken'' := by
  induction h with
  | nil => exact h'
  | keeps name rest ih => exact .keeps name (ih h')
  | invents name rest ih => exact .invents name (ih h')

/-- The step: what the next local does to what is taken. -/
theorem declare (l : Locals) (name : String) :
    Chosen l.taken [l.next name] (l.declare name).2.taken := by
  have htaken : ∀ (l' : Locals) (chosen : String), (l'.add name chosen).taken = l'.taken := by
    rintro ⟨blocks, taken⟩ chosen
    cases blocks <;> rfl
  unfold Locals.next Locals.declare
  by_cases hname : (l.find? name).isSome = true
  · rw [if_pos hname, hname, htaken]
    exact .invents name (.nil _)
  · have hnone : (l.find? name).isSome = false := Bool.eq_false_iff.mpr hname
    rw [if_neg hname, hnone, htaken]
    exact .keeps name (.nil _)

theorem localsAll_of {ss : List Stmt}
    (h : ∀ s ∈ ss, ∀ l : Locals, Chosen l.taken (s.locals l).1 (s.locals l).2.taken) (l : Locals) :
    Chosen l.taken (Stmt.localsAll l ss).1 (Stmt.localsAll l ss).2.taken := by
  induction ss generalizing l with
  | nil => exact .nil _
  | cons s ss ih =>
      obtain ⟨hs, hss⟩ := List.forall_mem_cons.mp h
      exact (hs l).append (ih hss _)

/-- The run: a statement is gone through local by local, whatever its blocks are. -/
theorem locals (s : Stmt) (l : Locals) : Chosen l.taken (s.locals l).1 (s.locals l).2.taken := by
  induction s generalizing l with
  | bind name e span => exact declare l name.text
  | branch c t span iht => exact localsAll_of (fun s hs l => iht s hs l) l.enter
  | branchOtherwise c t o span iht iho =>
      have hthen := localsAll_of (fun s hs l => iht s hs l) l.enter
      have hotherwise :=
        localsAll_of (fun s hs l => iho s hs l) (Stmt.localsAll l.enter t).2.leave.enter
      exact hthen.append hotherwise
  | forEach item e body span ih =>
      have hbody := localsAll_of (fun s hs l => ih s hs l) (l.enter.declare item.text).2
      exact (declare l.enter item.text).append hbody
  | call | expression => exact .nil _
  | returns value span => cases value <;> exact .nil _

/-- What is made up is new to what was taken before. -/
theorem not_mem (h : Chosen taken ds taken') :
    ∀ d ∈ ds, d.shadows = true → d.identifier ∉ taken := by
  induction h with
  | nil => exact List.forall_mem_nil _
  | keeps name rest ih => exact List.forall_mem_cons.mpr ⟨nofun, ih⟩
  | @invents taken _ _ name rest ih =>
      refine List.forall_mem_cons.mpr ⟨fun _ => TypeScript.freshName_not_mem taken name, ?_⟩
      exact fun d hd hshadows hmem => ih d hd hshadows (List.mem_cons_of_mem _ hmem)

theorem eq_identifier (h : Chosen taken ds taken') :
    ∀ d ∈ ds, d.shadows = false → d.identifier = identifier d.name := by
  induction h with
  | nil => exact List.forall_mem_nil _
  | keeps name rest ih => exact List.forall_mem_cons.mpr ⟨fun _ => rfl, ih⟩
  | invents name rest ih => exact List.forall_mem_cons.mpr ⟨nofun, ih⟩

/-- Where the identifiers that the names have by themselves are taken, no two locals of which one is
made up have the same identifier. -/
theorem pairwise_ne (h : Chosen taken ds taken') (hnames : ∀ d ∈ ds, identifier d.name ∈ taken) :
    ds.Pairwise fun d e => d.shadows = true ∨ e.shadows = true → d.identifier ≠ e.identifier := by
  induction h with
  | nil => exact .nil
  | keeps name rest ih =>
      obtain ⟨hname, hnames⟩ := List.forall_mem_cons.mp hnames
      refine .cons (fun e he hor heq => ?_) (ih hnames)
      have hshadows : e.shadows = true := hor.resolve_left nofun
      exact rest.not_mem e he hshadows (heq ▸ hname)
  | @invents taken _ ds name rest ih =>
      obtain ⟨-, hnames⟩ := List.forall_mem_cons.mp hnames
      refine .cons (fun e he _ heq => ?_) (ih fun e he => List.mem_cons_of_mem _ (hnames e he))
      have hnew := TypeScript.freshName_not_mem taken name
      have hhere : freshName taken name = e.identifier := heq
      cases hshadows : e.shadows with
      | false =>
          rw [hhere, rest.eq_identifier e he hshadows] at hnew
          exact hnew (hnames e he)
      | true => exact rest.not_mem e he hshadows (hhere ▸ List.mem_cons_self)

/-- A made-up identifier has the first number with which it is neither taken at the start nor made
up before. -/
theorem first {before after : List Local} {d : Local} (h : Chosen taken ds taken')
    (hds : ds = before ++ d :: after) (hshadows : d.shadows = true) :
    ∃ k, 1 ≤ k ∧ k ≤ taken.length + before.length + 1 ∧ d.identifier = numbered d.name k ∧
      ∀ j, 1 ≤ j → j < k → numbered d.name j ∈ taken ∨
        ∃ e ∈ before, e.shadows = true ∧ e.identifier = numbered d.name j := by
  induction h generalizing before with
  | nil => simp at hds
  | keeps name rest ih =>
      cases before with
      | nil =>
          obtain ⟨rfl, -⟩ := List.cons.inj hds
          cases hshadows
      | cons e before =>
          obtain ⟨k, hk, hle, heq, hall⟩ := ih (List.cons.inj hds).2
          refine ⟨k, hk, by rw [List.length_cons]; omega, heq, fun j hj hlt => ?_⟩
          rcases hall j hj hlt with hmem | ⟨e', he', hmade⟩
          · exact .inl hmem
          · exact .inr ⟨e', List.mem_cons_of_mem _ he', hmade⟩
  | @invents taken _ _ name rest ih =>
      cases before with
      | nil =>
          obtain ⟨rfl, -⟩ := List.cons.inj hds
          obtain ⟨k, hk, hle, heq, hall, -⟩ := TypeScript.firstFree_spec taken name taken.length 1
          exact ⟨k, hk, by rw [List.length_nil]; omega, heq, fun j hj hlt => .inl (hall j hj hlt)⟩
      | cons e before =>
          obtain ⟨rfl, hrest⟩ := List.cons.inj hds
          obtain ⟨k, hk, hle, heq, hall⟩ := ih hrest
          rw [List.length_cons] at hle
          refine ⟨k, hk, by rw [List.length_cons]; omega, heq, fun j hj hlt => ?_⟩
          rcases hall j hj hlt with hmem | ⟨e', he', hmade⟩
          · rcases List.mem_cons.mp hmem with hfresh | hmem
            · exact .inr ⟨_, List.mem_cons_self, rfl, hfresh.symm⟩
            · exact .inl hmem
          · exact .inr ⟨e', List.mem_cons_of_mem _ he', hmade⟩

end Chosen

/-! ### Functions -/

namespace FunctionDecl

variable {names : List String} {f : FunctionDecl}

theorem chosen_locals (names : List String) (f : FunctionDecl) :
    ∃ taken', Chosen (Locals.ofFunction names f).taken (f.locals names) taken' :=
  ⟨_, Chosen.localsAll_of (fun s _ => Chosen.locals s) (Locals.ofFunction names f).enter⟩

theorem map_name_locals (names : List String) (f : FunctionDecl) :
    (f.locals names).map Local.name = boundAll f.body :=
  Stmt.map_name_localsAll_of (fun s _ => s.map_name_locals) _

/-- What is made up in a function is new to what is taken at its start. -/
theorem not_mem_taken {d : Local} (hd : d ∈ f.locals names) (hshadows : d.shadows = true) :
    d.identifier ∉ names ∧ d.identifier ∉ f.parameters.map (fun q => identifier q.name) ∧
      d.identifier ∉ (boundAll f.body).map identifier := by
  obtain ⟨taken', hchosen⟩ := f.chosen_locals names
  have hnew := hchosen.not_mem d hd hshadows
  rw [Locals.ofFunction, List.mem_append, List.mem_append, not_or, not_or] at hnew
  obtain ⟨⟨hnames, hparameters⟩, hbound⟩ := hnew
  rw [List.map_map] at hparameters
  exact ⟨hnames, hparameters, hbound⟩

end FunctionDecl

/-- The identifiers that are made up in a function. The locals of a function are all that its body
binds, and they are declared under the identifiers chosen for them. One that shadows another local
has the first number with which its identifier is not taken; this is the identifier of no function,
operation or helper, of no parameter, of nothing that the body binds, and of no other local. -/
theorem Program.made_up_fresh (p : Program) (r : Registry) (f : FunctionDecl) :
    let names := TypeScript.moduleNames p r
    let locals := f.locals names
    (locals.map Local.name = boundAll f.body ∧
      ∀ item, TypeScript.lowerFunction r names f = .ok item → ∃ isAsync parameters returns body,
        item = .function f.name.text isAsync parameters returns body ∧
          parameters.map Prod.fst = f.parameters.map (fun q => identifier q.name) ∧
          Command.declaredAll body = locals.map Local.identifier) ∧
    (∀ before d after, locals = before ++ d :: after → d.shadows = true →
      ∃ k, 1 ≤ k ∧ d.identifier = numbered d.name k ∧
        ∀ j, 1 ≤ j → j < k → numbered d.name j ∈ (Locals.ofFunction names f).taken ∨
          ∃ e ∈ before, e.shadows = true ∧ e.identifier = numbered d.name j) ∧
    (∀ d ∈ locals, d.shadows = true →
      (∀ g ∈ p.functions, d.identifier ≠ identifier g.name.text) ∧
        (∀ o ∈ r.operations, d.identifier ≠ identifier o.1) ∧
        (∀ h ∈ r.helpers, d.identifier ≠ identifier h.1) ∧
        (∀ q ∈ f.parameters, d.identifier ≠ identifier q.name) ∧
        ∀ x ∈ boundAll f.body, d.identifier ≠ identifier x) ∧
    locals.Pairwise fun d e => d.shadows = true ∨ e.shadows = true →
      d.identifier ≠ e.identifier := by
  intro names locals
  obtain ⟨taken', hchosen⟩ := f.chosen_locals names
  have hnames := f.map_name_locals names
  refine ⟨⟨hnames, fun item hitem => ?_⟩, fun before d after hlocals hshadows => ?_, ?_, ?_⟩
  · obtain ⟨purity, parameters, returns, body, l, -, rfl, hparameters, -, hbody⟩ :=
      lowerFunction_cases hitem
    rw [List.map_map] at hparameters
    have hdeclares :=
      TypeScript.declares_of (fun s _ {_ _ _} => TypeScript.declares_lowerStmt) hbody
    exact ⟨_, parameters, returns, body, rfl, hparameters, hdeclares.declared⟩
  · obtain ⟨k, hk, -, heq, hall⟩ := hchosen.first hlocals hshadows
    exact ⟨k, hk, heq, hall⟩
  · intro d hd hshadows
    obtain ⟨hmodule, hparameters, hbound⟩ := FunctionDecl.not_mem_taken hd hshadows
    have hvalues : ∀ x ∈ p.functions.map (fun g => g.name.text) ++ r.operations.map Prod.fst
        ++ r.helpers.map Prod.fst, d.identifier ≠ identifier x := fun x hx heq =>
      hmodule (List.mem_map.mpr ⟨x, hx, heq.symm⟩)
    obtain ⟨hcallable, hhelpers⟩ := List.forall_mem_append.mp hvalues
    obtain ⟨hfunctions, hoperations⟩ := List.forall_mem_append.mp hcallable
    refine ⟨fun g hg => ?_, fun o ho => ?_, fun h hh => ?_, fun q hq heq => ?_, fun x hx heq => ?_⟩
    · exact hfunctions _ (List.mem_map_of_mem hg)
    · exact hoperations _ (List.mem_map_of_mem ho)
    · exact hhelpers _ (List.mem_map_of_mem hh)
    · exact hparameters (List.mem_map.mpr ⟨q, hq, heq.symm⟩)
    · exact hbound (List.mem_map.mpr ⟨x, hx, heq.symm⟩)
  · refine hchosen.pairwise_ne fun d hd => ?_
    have hbound : d.name ∈ boundAll f.body := hnames ▸ List.mem_map_of_mem hd
    exact List.mem_append_right _ (List.mem_map_of_mem hbound)

/-- A loop over `x` in a function that takes `x`: `x_1` is bound further down, so the item is
`x_2`. -/
example : (FunctionDecl.locals ["f"] ⟨⟨"f", default⟩, [⟨"x", default, default⟩], none, .pure,
    [.forEach ⟨"x", default⟩ (.list [] default)
      [.bind ⟨"x_1", default⟩ (.variable "x" default) default,
        .branch (.variable "x" default) [.bind ⟨"x", default⟩ (.variable "x_1" default) default]
          none default] default],
    none, default, none⟩).map Local.identifier = ["x_2", "x_1", "x_3"] := by decide +kernel

end Prosaic
