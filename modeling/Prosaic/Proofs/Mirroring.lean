import Prosaic.Proofs.TypeScript.Origins
import Prosaic.Proofs.Typing.Check
import Prosaic.Proofs.Typing.Origins

/-!
The locals of the lowering mirror the scopes of the check. The two walk over a program on their own:
the check keeps parameters and body of a function in one frame and leaves a block by going back to
its scope, the lowering has a block more and takes the innermost one off. In a program in which the
check finds nothing, a name that is read leads in both to a local that was made for the same
parameter or by the same statement.
-/

namespace Prosaic

open TypeScript (Locals TracedLocals Term moduleNames lower lowerExpr identifier)

/-! ### Reads -/

theorem Expr.read_mem_usesAll_bare_of {es : List Expr} {x : String}
    (h : ∀ e ∈ es, Use.read x ∈ e.bare.uses ↔ Use.read x ∈ e.uses) :
    Use.read x ∈ Expr.usesAll (es.map Expr.bare) ↔ Use.read x ∈ Expr.usesAll es := by
  simp only [TypeEnv.mem_usesAll, List.mem_map, exists_exists_and_eq_and]
  exact exists_congr fun e => and_congr_right fun he => h e he

theorem read_not_mem_calleeUse (callee : Name) (note : CallNote) (x : String) :
    Use.read x ∉ calleeUse callee note := by
  unfold calleeUse
  split <;> simp

/-- What an expression reads does not depend on what the checks write into it. -/
theorem Expr.read_mem_uses_bare (e : Expr) (x : String) :
    Use.read x ∈ e.bare.uses ↔ Use.read x ∈ e.uses := by
  induction e with
  | literal | var => rfl
  | list es note ih => simpa only [bare, uses, bareAll_eq] using read_mem_usesAll_bare_of ih
  | unary op e note ih | field e name note ih => exact ih
  | binary op l r note ihl ihr => simp only [bare, uses, List.mem_append, ihl, ihr]
  | call f es note ih =>
      simp only [bare, uses, bareAll_eq, List.mem_append, read_not_mem_calleeUse, false_or,
        read_mem_usesAll_bare_of ih]

namespace TypeEnv

variable {env : TypeEnv}

theorem lookup_of_usesAll {scope : Scope} {es : List Expr}
    (h : ∀ e ∈ es, ∀ x, Use.read x ∈ e.uses → ∃ b, scope.lookup x = some b) :
    ∀ x, Use.read x ∈ Expr.usesAll es → ∃ b, scope.lookup x = some b := by
  intro x hx
  obtain ⟨e, he, hx⟩ := mem_usesAll.mp hx
  exact h e he x hx

/-- The check finds every name that an accepted expression reads. -/
theorem lookup_of_accepts {scope : Scope} {e : Expr} (h : e.Everywhere (env.Accepts scope)) :
    ∀ x, Use.read x ∈ e.uses → ∃ b, scope.lookup x = some b := by
  induction e with
  | literal value note => exact fun x hx => nomatch hx
  | var name note =>
      obtain ⟨b, hb, -⟩ : ∃ b, scope.lookup name = some b ∧ note.ty = some b.ty := h
      rintro x hx
      obtain rfl : x = name := by simpa [Expr.uses] using hx
      exact ⟨b, hb⟩
  | list es note ih =>
      exact lookup_of_usesAll fun e he => ih e he (Expr.everywhereIn_iff.mp h.2 e he)
  | unary op e note ih | field e name note ih => exact ih h.2
  | binary op l r note ihl ihr =>
      exact fun x hx => (List.mem_append.mp hx).elim (ihl h.2.1 x) (ihr h.2.2 x)
  | call f es note ih =>
      intro x hx
      have hx := (List.mem_append.mp hx).resolve_left (read_not_mem_calleeUse f note x)
      exact lookup_of_usesAll (fun e he => ih e he (Expr.everywhereIn_iff.mp h.2 e he)) x hx

theorem lookup_of_acceptsUnused {scope : Scope} {e : Expr} (h : env.AcceptsUnused scope e) :
    ∀ x, Use.read x ∈ e.uses → ∃ b, scope.lookup x = some b := by
  cases e with
  | call f es note =>
      intro x hx
      have hx := (List.mem_append.mp hx).resolve_left (read_not_mem_calleeUse f note x)
      exact lookup_of_usesAll (fun e he => lookup_of_accepts (h.1 e he)) x hx
  | _ => exact lookup_of_accepts h

/-- The check finds every name that an expression reads about which it has no findings. -/
theorem lookup_of_checkSite {c : CheckSite} (h : (env.checkSite c).2 = []) :
    ∀ x, Use.read x ∈ c.expr.uses → ∃ b, Scope.lookup c.scope.erase x = some b := by
  obtain ⟨scope, wanted, e⟩ := c
  intro x hx
  rw [← Expr.read_mem_uses_bare] at hx
  cases wanted with
  | value expected =>
      have hbare : (env.infer scope.erase expected e).expr.bare = e.bare := bare_infer env expected
      rw [← hbare, Expr.read_mem_uses_bare] at hx
      exact lookup_of_accepts (infer_accepts env _ h) x hx
  | effect =>
      rw [← bare_checkUnused env scope.erase, Expr.read_mem_uses_bare] at hx
      exact lookup_of_acceptsUnused (checkUnused_eq_nil env h) x hx

/-! ### Both walks -/

/-- A scope of the check and locals of the lowering find locals of the same origins. -/
def SameOrigins (t : Traced Binding) (l : TracedLocals) : Prop :=
  ∀ x, (t.find? Binding.name x).map Prod.fst = (l.blocks.find? Prod.fst x).map Prod.fst

/-- A place where both walks stop: with the same expression, in which the check finds nothing. -/
structure Meets (env : TypeEnv) (c : CheckSite) (s : TracedSite) : Prop where
  expr : c.expr = s.expr
  origins : SameOrigins c.scope s.locals
  clean : (env.checkSite c).2 = []

section

variable {t : Traced Binding} {l : TracedLocals}

/-- A name that may be bound is bound as it is. -/
theorem Bindable.traceBind {name : Name} (h : env.Bindable t.erase name.text) (origin : Origin)
    (ty : Ty) :
    env.traceBind t origin name ty = t.bind origin ⟨name.text, ty, some name.span⟩ := by
  have hfree : env.taken name.text = false := by rw [taken, h.function, h.callable]; rfl
  rw [TypeEnv.traceBind, hfree]
  rfl

theorem SameOrigins.enter (h : SameOrigins t l) : SameOrigins t.child l.enter := h

theorem SameOrigins.leave (h : SameOrigins t l) {inner : TracedLocals}
    (hinner : inner.blocks.tail = l.blocks) : SameOrigins t inner.leave := by
  intro x
  rw [TracedLocals.leave, hinner]
  exact h x

/-- A name that the check can bind leads to the new local in both. -/
theorem SameOrigins.bind (h : SameOrigins t l) {name : Name}
    (hbindable : env.Bindable t.erase name.text) (origin : Origin) (ty : Ty) :
    SameOrigins (env.traceBind t origin name ty) (l.declare origin name.text) := by
  intro x
  rw [hbindable.traceBind, Traced.find?_bind hbindable.fresh, l.find?_declare, ← h x]
  split <;> rfl

theorem meets_walkAll_of {fn : Enclosing} {ss : List Stmt}
    (hss : ∀ s ∈ ss, ∀ (p : Spot) {t : Traced Binding} {l : TracedLocals} {timer : Timer},
      (env.checkStmt fn t.erase timer s).found = [] →
      (env.checkStmt fn t.erase timer s).timer.exceeded = none → SameOrigins t l →
      List.Forall₂ (Meets env) (s.walk (env.walk fn) p t).1 (s.walk TracedLocals.walk p l).1 ∧
        SameOrigins (s.walk (env.walk fn) p t).2 (s.walk TracedLocals.walk p l).2)
    {t : Traced Binding} {l : TracedLocals} {p : Spot} {timer : Timer}
    (h : (env.checkBlock fn t.erase timer ss).found = [])
    (htime : (env.checkBlock fn t.erase timer ss).timer.exceeded = none) (hsame : SameOrigins t l) :
    List.Forall₂ (Meets env) (Stmt.walkAll (env.walk fn) p t ss).1
      (Stmt.walkAll TracedLocals.walk p l ss).1 := by
  induction ss generalizing t l p timer with
  | nil => exact .nil
  | cons s ss ih =>
      obtain ⟨hs, hss⟩ := List.forall_mem_cons.mp hss
      simp only [checkBlock] at h htime
      split at htime
      · next e he => rw [he] at htime; cases htime
      · next htimer =>
          simp only [htimer, List.append_eq_nil_iff] at h
          obtain ⟨hhere, hbehind⟩ := hs p h.1 (exceeded_of_checkBlock env htime) hsame
          rw [← erase_walk env fn t p] at h htime
          exact List.rel_append hhere (ih hss h.2 htime hbehind)

/-- Where the check of a statement finds nothing in time, both walks stop at the same places with
locals of the same origins, and leave such. -/
theorem meets_walk {fn : Enclosing} {s : Stmt} {p : Spot} {timer : Timer}
    (h : (env.checkStmt fn t.erase timer s).found = [])
    (htime : (env.checkStmt fn t.erase timer s).timer.exceeded = none) (hsame : SameOrigins t l) :
    List.Forall₂ (Meets env) (s.walk (env.walk fn) p t).1 (s.walk TracedLocals.walk p l).1 ∧
      SameOrigins (s.walk (env.walk fn) p t).2 (s.walk TracedLocals.walk p l).2 := by
  induction s generalizing t l p timer with
  | bind name e span =>
      simp only [checkStmt, List.append_eq_nil_iff] at h
      -- the initial value is looked at before the name is bound
      exact ⟨.cons ⟨rfl, hsame, h.1⟩ .nil, hsame.bind (bind_eq_nil env h.2).1 _ _⟩
  | branch c ts span iht =>
      simp only [checkStmt, List.append_eq_nil_iff, ← Traced.erase_child] at h htime
      exact ⟨.cons ⟨rfl, hsame, h.1.1⟩
          (meets_walkAll_of (fun s hs _ => iht s hs) h.2 htime hsame.enter),
        hsame.leave (Stmt.tail_walkAll ts _ l.enter)⟩
  | branchOtherwise c ts os span iht iho =>
      simp only [checkStmt, List.append_eq_nil_iff, ← Traced.erase_child] at h htime
      have hmiddle := hsame.leave (Stmt.tail_walkAll ts (p.inside 0) l.enter)
      refine ⟨.cons ⟨rfl, hsame, h.1.1.1⟩ (List.rel_append ?_ ?_), ?_⟩
      · exact meets_walkAll_of (fun s hs _ => iht s hs) h.1.2
          (exceeded_of_checkBlock env htime) hsame.enter
      · exact meets_walkAll_of (fun s hs _ => iho s hs) h.2 htime hmiddle.enter
      · exact hmiddle.leave (Stmt.tail_walkAll os _ _)
  | forEach item e body span ih =>
      simp only [checkStmt, List.append_eq_nil_iff, ← Traced.erase_child] at h htime
      have hbindable := (bind_eq_nil env h.1.2).1
      rw [← erase_traceBind env _ (.statement p.path) item] at h htime
      refine ⟨.cons ⟨rfl, hsame, h.1.1.1⟩ ?_, hsame.leave ?_⟩
      · exact meets_walkAll_of (fun s hs _ => ih s hs) h.2 htime
          (hsame.enter.bind hbindable _ _)
      · exact (Stmt.tail_walkAll body _ _).trans (l.enter.tail_declare ..)
  | call name args note span => exact ⟨.cons ⟨rfl, hsame, h⟩ .nil, hsame⟩
  | returns value span =>
      cases value with
      | none => exact ⟨.nil, hsame⟩
      | some e =>
          have hvalue : (env.infer t.erase fn.returns e).found = [] := by
            simp only [checkStmt, checkReturn] at h
            cases hreturns : fn.returns <;> simp_all
          exact ⟨.cons ⟨rfl, hsame, hvalue⟩ .nil, hsame⟩
  | expression e span => exact ⟨.cons ⟨rfl, hsame, h⟩ .nil, hsame⟩

/-! ### Functions -/

/-- Parameters about which the check finds nothing are bound in order. -/
theorem traceParameters_eq {block : List (Origin × Binding)} {i : Nat} {ps : List (Typed × Ty)}
    (h : (env.bindParameters (Traced.erase [block]) ps).2 = []) :
    env.traceParameters [block] i ps =
      [block ++ (ps.zipIdx i).map fun (p, k) => (.parameter k, parameterBinding p)] := by
  induction ps generalizing block i with
  | nil => simp [traceParameters]
  | cons p ps ih =>
      simp only [bindParameters, List.append_eq_nil_iff] at h
      have hbindable : env.Bindable (Traced.erase [block]) p.1.binder.text :=
        (bind_eq_nil env h.1).1
      have hfresh : Frame.find? (block.map Prod.snd) p.1.name = none := hbindable.fresh
      have hbind : env.traceBind [block] (.parameter i) p.1.binder p.2 =
          [block ++ [(.parameter i, parameterBinding p)]] :=
        (hbindable.traceBind _ _).trans (Traced.bind_cons hfresh _ _)
      have hscope := env.erase_traceBind [block] (.parameter i) p.1.binder p.2
      rw [← show _ = (env.bind _ p.1.name p.2 p.1.span).1 from hscope, hbind] at h
      rw [traceParameters, hbind, ih h.2, List.zipIdx_cons, List.map_cons, List.append_assoc]
      rfl

/-- At the start of a function that is checked without findings, both walks have the parameters. -/
theorem sameOrigins_parameters {f : FunctionDecl} {s : Signature} (names : List String)
    (hlength : f.parameters.length = s.parameters.length)
    (h : (env.bindParameters [[]] (f.parameters.zip (s.parameters.map Prod.snd))).2 = []) :
    SameOrigins (env.traceParameters [[]] 0 (f.parameters.zip (s.parameters.map Prod.snd)))
      (TracedLocals.ofFunction names f) := by
  intro x
  rw [traceParameters_eq h, TracedLocals.ofFunction, List.nil_append, Traced.find?_cons,
    Traced.find?_cons, Traced.find?_nil, Traced.find?_nil, Option.or_none, Option.or_none]
  refine Traced.map_fst_find? ?_ x
  -- the walks number the same parameters
  have hparameters : (f.parameters.zip (s.parameters.map Prod.snd)).map Prod.fst = f.parameters :=
    List.map_fst_zip (by rw [List.length_map, hlength])
  conv_rhs => rw [← hparameters, List.zipIdx_map]
  simp only [List.map_map]
  rfl

/-- Both walks over a function stop at the same places. -/
theorem meets_traceFunction {timer : Timer} {f : FunctionDecl} {s : Signature}
    (names : List String) (hlength : f.parameters.length = s.parameters.length)
    (h : (env.checkFunction timer f s).2.1 = [])
    (htime : (env.checkFunction timer f s).2.2.exceeded = none) :
    List.Forall₂ (Meets env) (env.traceFunction f s) (f.trace names) := by
  have hscope := env.erase_traceParameters [[]] 0 (f.parameters.zip (s.parameters.map Prod.snd))
  simp only [checkFunction, List.append_eq_nil_iff] at h htime
  have hstart := sameOrigins_parameters names hlength h.1.1
  rw [← show _ = (env.bindParameters [[]] _).1 from hscope] at h htime
  exact meets_walkAll_of (fun s _ _ => meets_walk) h.1.2 htime hstart.enter

end

end TypeEnv

open TypeEnv (CheckSite)

/-! ### Names that are read -/

/-- A place in a function where the check looks at an expression and the lowering translates it, up
to what the checks write into it: each name that is read there is found by both, as locals that were
made for the same parameter or by the same statement, which binds the name. -/
structure Mirrors (f : FunctionDecl) (c : CheckSite) (s : TracedSite) : Prop where
  expr : c.expr.bare = s.expr.bare
  reads : ∀ x, Use.read x ∈ s.expr.uses → ∃ origin name b chosen,
    f.binder? origin = some name ∧ name.text = x ∧
      c.scope.find? Binding.name x = some (origin, b) ∧ b.span = some name.span ∧
      Scope.lookup c.scope.erase x = some b ∧
      s.locals.find? x = some (origin, chosen) ∧ s.locals.erase.find? x = some chosen

section

variable {env : TypeEnv} {f : FunctionDecl} {c : CheckSite} {s : TracedSite}

theorem TypeEnv.Meets.mirrors (h : env.Meets c s) (hrooted : Rooted f.binder? c.scope) :
    Mirrors f c s where
  expr := congrArg Expr.bare h.expr
  reads x hx := by
    obtain ⟨b, hb⟩ := lookup_of_checkSite h.clean x (h.expr ▸ hx)
    have hlookup : Scope.lookup c.scope.erase x = (c.scope.find? Binding.name x).map Prod.snd :=
      c.scope.find?_erase Binding.name x
    obtain ⟨⟨origin, b'⟩, hfound, rfl⟩ := Option.map_eq_some_iff.mp (hlookup.symm.trans hb)
    -- the lowering finds a local, as the check does
    have horigin := (h.origins x).symm
    rw [hfound, Option.map_some] at horigin
    obtain ⟨⟨origin', x', chosen⟩, hlocal, rfl⟩ := Option.map_eq_some_iff.mp horigin
    obtain ⟨name, hname, htext, hspan⟩ := hrooted.find? hfound
    have hlowered : s.locals.find? x = some (origin', chosen) := by
      rw [TracedLocals.find?, hlocal]
      rfl
    refine ⟨origin', name, b', chosen, hname, htext, hfound, hspan, hb, hlowered, ?_⟩
    rw [TracedLocals.find?_erase, hlowered]
    rfl

/-- What the checks write into an expression makes no difference. -/
theorem Mirrors.of_bare_eq (h : Mirrors f c s) {s' : TracedSite} (hs : s.bare = s'.bare) :
    Mirrors f c s' := by
  obtain ⟨locals, e⟩ := s
  obtain ⟨locals', e'⟩ := s'
  obtain ⟨rfl, hexpr⟩ := TracedSite.mk.inj hs
  refine ⟨h.expr.trans hexpr, fun x hx => h.reads x ?_⟩
  rwa [← Expr.read_mem_uses_bare, hexpr, Expr.read_mem_uses_bare]

end

theorem forall₂_mirrors_of_bare_eq {f : FunctionDecl} {cs : List CheckSite}
    {ss ss' : List TracedSite} (h : List.Forall₂ (Mirrors f) cs ss)
    (hss : ss.map TracedSite.bare = ss'.map TracedSite.bare) :
    List.Forall₂ (Mirrors f) cs ss' := by
  induction h generalizing ss' with
  | nil =>
      rw [List.map_eq_nil_iff.mp hss.symm]
      exact .nil
  | cons hcs _ ih =>
      obtain ⟨s', ss', rfl, hs, hss⟩ := List.map_eq_cons_iff.mp hss.symm
      exact .cons (hcs.of_bare_eq hs.symm) (ih hss.symm)

/-! ### Programs -/

/-- The expressions in the functions of a program, with traced locals. -/
def Program.trace (registry : Registry) (p : Program) : List TracedSite :=
  p.functions.flatMap (FunctionDecl.trace (moduleNames p registry))

theorem Program.erase_trace (registry : Registry) (p : Program) :
    (p.trace registry).map TracedSite.erase = p.sites registry := by
  rw [trace, sites, List.map_flatMap]
  simp only [FunctionDecl.erase_trace]

section

variable {p : Program} {registry : Registry} {budget : Budget}
  (h : (p.checkTypes registry budget).result = .ok [])

include h

/-- What holds of every function that is checked in time and without findings holds of those of such
a program. -/
theorem Program.forall₂_checkTypes {P : FunctionDecl → Signature → FunctionDecl → Prop}
    (hP : ∀ timer f s, f.parameters.length = s.parameters.length →
      ((Declared.of registry p).env.checkFunction timer f s).2.1 = [] →
      ((Declared.of registry p).env.checkFunction timer f s).2.2.exceeded = none →
      P f s ((Declared.of registry p).env.checkFunction timer f s).1) :
    List.Forall₂ (fun fs g => P fs.1 fs.2 g)
      (p.functions.zip (Declared.of registry p).signatures)
      (p.checkTypes registry budget).program.functions := by
  obtain ⟨htime, hnone⟩ := checkTypes_eq_ok.mp h
  obtain ⟨hdeclared, hfound⟩ := List.append_eq_nil_iff.mp hnone.symm
  obtain ⟨-, hsignatures⟩ := Declared.of_reflects hdeclared
  have hlengths : ∀ fs ∈ p.functions.zip (Declared.of registry p).signatures,
      fs.1.parameters.length = fs.2.parameters.length :=
    fun fs hfs => (List.forall₂_zip hsignatures hfs).parameters.length_eq
  rw [functions_eq] at hsignatures hlengths ⊢
  rw [functions_eq]
  have hchecked := TypeEnv.forall₂_checkDecls _
    (P := fun f s g => f.parameters.length = s.parameters.length → P f s g)
    (fun timer f s hfound htime hlength => hP timer f s hlength hfound htime)
    hsignatures.length_eq.symm hfound htime
  exact ((List.forall₂_and_left _ _).mpr ⟨hlengths, hchecked⟩).imp fun _ _ both => both.2 both.1

/-- Both walks over a function of a program in which the check finds nothing find the same
locals. -/
theorem Program.mirrors_functions (names : List String) :
    ∀ fs ∈ p.functions.zip (Declared.of registry p).signatures,
      List.Forall₂ (Mirrors fs.1) ((Declared.of registry p).env.traceFunction fs.1 fs.2)
        (fs.1.trace names) := by
  intro fs hfs
  have hmeets := p.forall₂_checkTypes h
    (P := fun f s _ => List.Forall₂ (Declared.of registry p).env.Meets
      ((Declared.of registry p).env.traceFunction f s) (f.trace names))
    fun _ _ _ hlength => TypeEnv.meets_traceFunction names hlength
  obtain ⟨_, -, hmeets⟩ := exists_of_mem_left hmeets fs hfs
  have hrooted := (Declared.of registry p).env.rooted_traceFunction fs.1 fs.2
  exact ((List.forall₂_and_left _ _).mpr ⟨hrooted, hmeets⟩).imp fun _ _ both =>
    both.2.mirrors both.1

end

/-- In a program in which the type check finds nothing, lowering it finds every name that is read
among its locals, as one that was made for the same parameter or by the same statement as the local
that the check finds. This is so of the program that was checked and of each that differs in nothing
but what the checks write into it. The walks with origins are those of the check and of the
lowering: the expressions of the checked program are what the check makes of the expressions where
the first one stops, in the scopes there; those of a module are lowered with the locals of the
second one. -/
theorem scopes_mirror {p : Program} {registry : Registry} {budget : Budget}
    (h : (p.checkTypes registry budget).result = .ok []) {q : Program} (hq : q.SameBare p) :
    let declared := Declared.of registry p
    let functions := p.functions.zip declared.signatures
    List.Forall₂ (fun (fs : FunctionDecl × Signature) g =>
        List.Forall₂ (Mirrors fs.1) (declared.env.traceFunction fs.1 fs.2)
          (g.trace (moduleNames q registry)))
        functions q.functions ∧
      List.Forall₂ (fun (fs : FunctionDecl × Signature) g => ∀ names,
        (g.sites names).map Site.expr =
          (declared.env.traceFunction fs.1 fs.2).map fun c => (declared.env.checkSite c).1)
        functions (p.checkTypes registry budget).program.functions ∧
      ∀ m, lower q registry = .ok m →
        List.Forall₂ (fun s t => lowerExpr registry s.locals.erase s.expr = .ok t)
          (q.trace registry) m.terms := by
  intro declared functions
  refine ⟨?_, ?_, fun m hm => ?_⟩
  · have hpairs : functions.map Prod.fst = p.functions := by
      refine List.map_fst_zip (Nat.le_of_eq ?_)
      simp only [declared, Declared.of_eq, TypeEnv.signatures_eq, List.length_map]
    have hbare : functions.map (fun fs => fs.1.bare) = q.functions.map FunctionDecl.bare := by
      rw [hq.functions, ← hpairs, List.map_map]
      rfl
    have hmirrors := Program.mirrors_functions h (moduleNames q registry)
    have hboth := (List.forall₂_and_left _ _).mpr ⟨hmirrors, forall₂_of_map_eq hbare⟩
    refine hboth.imp fun fs g both => forall₂_mirrors_of_bare_eq both.1 ?_
    rw [← FunctionDecl.trace_bare, both.2, FunctionDecl.trace_bare]
  · exact p.forall₂_checkTypes h
      (P := fun f s g => ∀ names, (g.sites names).map Site.expr =
        (declared.env.traceFunction f s).map fun c => (declared.env.checkSite c).1)
      fun _ _ _ _ _ htime names => declared.env.sites_checkFunction names htime
  · have hlowered := TypeScript.forall₂_lower hm
    rw [← Program.erase_trace, List.forall₂_map_left_iff] at hlowered
    exact hlowered

/-- A function whose parameter `x` is hidden by a loop item and by a local that is made from it. -/
def hidesItsParameter : FunctionDecl :=
  let nowhere : Span := ⟨.first, .first⟩
  let number : TypeRef := .named "Number" nowhere
  let x : Expr := .variable "x" ⟨nowhere, none⟩
  { name := ⟨"f", nowhere⟩
    parameters := [⟨"x", number, nowhere⟩, ⟨"xs", .list number nowhere, nowhere⟩]
    returns := some number
    purity := .pure
    body :=
      [.forEach ⟨"x", nowhere⟩ (.variable "xs" ⟨nowhere, none⟩)
          [.bind ⟨"y", nowhere⟩ x nowhere] nowhere,
        .branch (.literal (.boolean true) ⟨nowhere, none⟩)
          [.bind ⟨"x", nowhere⟩ x nowhere, .bind ⟨"y", nowhere⟩ x nowhere] none nowhere,
        .return (some x) nowhere]
    closer := none
    span := nowhere
    resolved := none }

/-- The locals to which `x` leads at the expressions of that function. -/
def xInHidesItsParameter : List (Option (Origin × String)) :=
  [some (.parameter 0, "x"), some (.statement [0], "x_1"), some (.parameter 0, "x"),
    some (.parameter 0, "x"), some (.statement [1, 0, 0], "x_2"), some (.parameter 0, "x")]

theorem scopes_mirror_hidesItsParameter :
    let p : Program := ⟨[.function hidesItsParameter], ⟨.first, .first⟩⟩
    (p.checkTypes .empty (.start .standard .still)).result = .ok [] ∧ p.SameBare p ∧
      ∃ s, (Declared.of .empty p).signatures = [s] ∧
        List.Forall₂ (Mirrors hidesItsParameter)
          ((Declared.of .empty p).env.traceFunction hidesItsParameter s)
          (hidesItsParameter.trace (moduleNames p .empty)) ∧
        (hidesItsParameter.trace (moduleNames p .empty)).map (fun site => site.locals.find? "x") =
          xInHidesItsParameter := by
  intro p
  have hcheck : (p.checkTypes .empty (.start .standard .still)).result.toOption = some [] := by
    decide +kernel
  rw [toOption_eq_some] at hcheck
  obtain ⟨hmirrors, -, -⟩ := scopes_mirror hcheck (q := p) rfl
  refine ⟨hcheck, rfl, _, rfl, ?_, by decide +kernel⟩
  exact (List.forall₂_cons.mp hmirrors).1

end Prosaic
