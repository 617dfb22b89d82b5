import Prosaic.Proofs.Origins
import Prosaic.Proofs.TypeScript.Sites
import Prosaic.Proofs.Typing.Statement

/-!
The origins of the locals that the type check sees. A walk with traced scopes stops at the same
expressions as the check, and the scopes without origins are those in which the check looks up the
names there.
-/

namespace Prosaic

open TypeScript (Locals)

/-! ### Traced scopes -/

namespace Traced

/-- Binds in the innermost frame, as the check does. -/
def bind (t : Traced Binding) (origin : Origin) (b : Binding) : Traced Binding :=
  match t with
  | [] => [[(origin, b)]]
  | block :: rest =>
    match block.find? fun e => e.2.name == b.name with
    | some _ => block :: rest
    | none => (block ++ [(origin, b)]) :: rest

@[simp] theorem erase_bind (t : Traced Binding) (origin : Origin) (b : Binding) :
    (t.bind origin b).erase = (Scope.bind t.erase b).2 := by
  cases t with
  | nil => rfl
  | cons block rest =>
      have hfind : Frame.find? (block.map Prod.snd) b.name =
          (block.find? fun e => e.2.name == b.name).map Prod.snd := List.find?_map ..
      rw [erase_cons, Scope.bind, Frame.bind, hfind, bind]
      cases block.find? (fun e : Origin × Binding => e.2.name == b.name) <;> simp

@[simp] theorem erase_child (t : Traced Binding) : t.child.erase = Scope.child t.erase := rfl

theorem bind_cons {block : List (Origin × Binding)} {b : Binding}
    (hfresh : Frame.find? (block.map Prod.snd) b.name = none) (rest : Traced Binding)
    (origin : Origin) : bind (block :: rest) origin b = (block ++ [(origin, b)]) :: rest := by
  rw [Frame.find?, List.find?_map, Option.map_eq_none_iff] at hfresh
  rw [bind, show block.find? (fun e => e.2.name == b.name) = none from hfresh]

/-- A name that is new in the innermost frame is bound there, and no other name changes. -/
theorem find?_bind {t : Traced Binding} {origin : Origin} {b : Binding}
    (hfresh : Frame.find? (t.erase.headD []) b.name = none) (x : String) :
    (t.bind origin b).find? Binding.name x =
      if b.name = x then some (origin, b) else t.find? Binding.name x := by
  cases t with
  | nil => by_cases hx : b.name = x <;> simp [bind, hx]
  | cons block rest =>
      rw [bind_cons hfresh, find?_cons, find?_cons, List.find?_append]
      by_cases hx : b.name = x
      · subst hx
        have hnone : (block.map Prod.snd).find? (fun c => c.name == b.name) = none := hfresh
        rw [List.find?_map, Option.map_eq_none_iff] at hnone
        simp [show block.find? (fun e => e.2.name == b.name) = none from hnone]
      · simp [hx]

end Traced

namespace TypeEnv

/-! ### The walk of the check -/

/-- What an expression is checked for: its value, where some type may be expected, or what it
does. -/
inductive Wanted
  | value (expected : Option Ty)
  | effect

/-- An expression where the check looks at it, and the scope there. -/
structure CheckSite where
  scope : Traced Binding
  wanted : Wanted
  expr : Expr

/-- What the check of an expression in its scope makes of it, and what it finds. -/
def checkSite (env : TypeEnv) (c : CheckSite) : Expr × List Diagnostic :=
  match c.wanted with
  | .value expected =>
    let t := env.infer c.scope.erase expected c.expr
    (t.expr, t.found)
  | .effect => env.checkUnused c.scope.erase c.expr

/-- A name of something that can be called. -/
def taken (env : TypeEnv) (name : String) : Bool :=
  (env.functions.lookup name).isSome || (env.registry.callable? name).isSome

/-- Binds a local name. -/
def traceBind (env : TypeEnv) (t : Traced Binding) (origin : Origin) (name : Name) (ty : Ty) :
    Traced Binding :=
  t.bind origin ⟨name.text, if env.taken name.text then .error else ty, some name.span⟩

/-- What the check wants of an expression in a statement. -/
def Enclosing.wanted (fn : Enclosing) : Role → Wanted
  | .value => .value none
  | .condition => .value (some .boolean)
  | .returned => .value fn.returns
  | .unused => .effect

/-- The walk of the check. -/
def walk (env : TypeEnv) (fn : Enclosing) : Walk Spot (Traced Binding) CheckSite where
  inside := Spot.inside
  next := Spot.next
  note t role e := ⟨t, Enclosing.wanted fn role, e⟩
  bind p t name e := env.traceBind t (.statement p.path) name (env.infer t.erase none e).ty
  item p t name e :=
    env.traceBind t.child (.statement p.path) name
      (itemType name.text (env.infer t.erase none e)).1
  enter := Traced.child
  leave t _ := t

/-- Binds parameters, from a number on. -/
def traceParameters (env : TypeEnv) (t : Traced Binding) (i : Nat) :
    List (Typed × Ty) → Traced Binding
  | [] => t
  | (p, ty) :: rest =>
    env.traceParameters (env.traceBind t (.parameter i) p.binder ty) (i + 1) rest

/-- The expressions in the body of a function with a signature. -/
def traceFunction (env : TypeEnv) (f : FunctionDecl) (s : Signature) : List CheckSite :=
  (Stmt.walkAll (env.walk ⟨f.name.text, s.returns⟩) ⟨[], 0⟩
    (env.traceParameters [[]] 0 (f.parameters.zip (s.parameters.map Prod.snd))) f.body).1

/-! ### It is the walk of the check -/

variable (env : TypeEnv)

theorem erase_traceBind (t : Traced Binding) (origin : Origin) (name : Name) (ty : Ty) :
    (env.traceBind t origin name ty).erase = (env.bind t.erase name.text ty name.span).1 := by
  rw [traceBind, Traced.erase_bind, bind, taken]
  cases env.functions.lookup name.text <;> cases env.registry.callable? name.text <;> rfl

theorem erase_traceParameters (t : Traced Binding) (i : Nat) (ps : List (Typed × Ty)) :
    (env.traceParameters t i ps).erase = (env.bindParameters t.erase ps).1 := by
  induction ps generalizing t i with
  | nil => rfl
  | cons p ps ih =>
      rw [traceParameters, ih, erase_traceBind]
      rfl

theorem erase_walk (fn : Enclosing) (t : Traced Binding) (p : Spot) (timer : Timer) (s : Stmt) :
    (s.walk (env.walk fn) p t).2.erase = (env.checkStmt fn t.erase timer s).scope := by
  cases s with
  | bind name init span =>
      rw [checkStmt]
      exact env.erase_traceBind ..
  | branch c t o span => cases o <;> rw [checkStmt] <;> rfl
  | «return» value span => cases value <;> rw [checkStmt] <;> rfl
  | _ =>
      rw [checkStmt]
      rfl

theorem checkReturn_expr (fn : Enclosing) (scope : Scope) (value : Expr) (span : Span) :
    (env.checkReturn fn scope (some value) span).1 =
      some (env.infer scope fn.returns value).expr := by
  unfold checkReturn
  cases fn.returns <;> rfl

/-- The expressions of a checked block are what the check makes of those where the walk stops. -/
theorem sites_checkBlock_of {fn : Enclosing} {ss : List Stmt}
    (hss : ∀ s ∈ ss, ∀ (p : Spot) {t : Traced Binding} {timer : Timer} (l : Locals),
      (env.checkStmt fn t.erase timer s).timer.exceeded = none →
      ((env.checkStmt fn t.erase timer s).stmt.walk Locals.walk ⟨⟩ l).1.map Site.expr =
        (s.walk (env.walk fn) p t).1.map fun c => (env.checkSite c).1)
    {t : Traced Binding} {p : Spot} {timer : Timer} (l : Locals)
    (htime : (env.checkBlock fn t.erase timer ss).timer.exceeded = none) :
    (Stmt.walkAll Locals.walk ⟨⟩ l (env.checkBlock fn t.erase timer ss).stmts).1.map Site.expr =
      (Stmt.walkAll (env.walk fn) p t ss).1.map fun c => (env.checkSite c).1 := by
  induction ss generalizing t p timer l with
  | nil => simp [checkBlock, Stmt.walkAll]
  | cons s ss ih =>
      obtain ⟨hs, hss⟩ := List.forall_mem_cons.mp hss
      simp only [checkBlock] at htime ⊢
      split at htime
      · next e he => rw [he] at htime; cases htime
      · next htimer =>
          have hhere := hs p l (exceeded_of_checkBlock env htime)
          rw [← erase_walk env fn t p] at htime ⊢
          rw [Stmt.walkAll, Stmt.walkAll, List.map_append, List.map_append, hhere,
            ih hss _ htime]

theorem sites_checkStmt {fn : Enclosing} {s : Stmt} {t : Traced Binding} {p : Spot}
    {timer : Timer} (l : Locals)
    (htime : (env.checkStmt fn t.erase timer s).timer.exceeded = none) :
    ((env.checkStmt fn t.erase timer s).stmt.walk Locals.walk ⟨⟩ l).1.map Site.expr =
      (s.walk (env.walk fn) p t).1.map fun c => (env.checkSite c).1 := by
  induction s generalizing t p timer l with
  | bind | call => rfl
  | branch c ts span iht =>
      simp only [checkStmt, ← Traced.erase_child] at htime ⊢
      rw [Stmt.walk, Stmt.walk, List.map_cons, List.map_cons]
      exact congrArg (_ :: ·) (sites_checkBlock_of env (fun s hs _ => iht s hs) _ htime)
  | branchOtherwise c ts os span iht iho =>
      simp only [checkStmt, ← Traced.erase_child] at htime ⊢
      rw [Stmt.walk, Stmt.walk, List.map_cons, List.map_cons, List.map_append, List.map_append]
      exact congrArg (_ :: ·) (congrArg₂ (· ++ ·)
        (sites_checkBlock_of env (fun s hs _ => iht s hs) _ (exceeded_of_checkBlock env htime))
        (sites_checkBlock_of env (fun s hs _ => iho s hs) _ htime))
  | forEach item e body span ih =>
      simp only [checkStmt, ← Traced.erase_child, ← erase_traceBind env _ (.statement p.path)]
        at htime ⊢
      rw [Stmt.walk, Stmt.walk, List.map_cons, List.map_cons]
      exact congrArg (_ :: ·) (sites_checkBlock_of env (fun s hs _ => ih s hs) _ htime)
  | returns value span =>
      cases value with
      | none =>
          simp only [checkStmt, checkReturn]
          cases fn.returns <;> rfl
      | some e =>
          simp only [checkStmt]
          rw [checkReturn_expr]
          rfl
  | expression e span => rfl

/-- What the check makes of the expressions of a function that it gets through in time. -/
theorem sites_checkFunction {timer : Timer} {f : FunctionDecl} {s : Signature}
    (names : List String) (htime : (env.checkFunction timer f s).2.2.exceeded = none) :
    ((env.checkFunction timer f s).1.sites names).map Site.expr =
      (env.traceFunction f s).map fun c => (env.checkSite c).1 := by
  have hscope := env.erase_traceParameters [[]] 0 (f.parameters.zip (s.parameters.map Prod.snd))
  simp only [checkFunction, FunctionDecl.sites, traceFunction] at htime ⊢
  rw [← show _ = (env.bindParameters [[]] _).1 from hscope] at htime ⊢
  exact sites_checkBlock_of env (fun s _ _ => sites_checkStmt env) _ htime

/-! ### The binders of a function -/

/-- Every local has the name for which it was made, and its place. -/
def Rooted (binder? : Origin → Option Name) (t : Traced Binding) : Prop :=
  ∀ block ∈ t, ∀ e ∈ block, ∃ name, binder? e.1 = some name ∧
    e.2.name = name.text ∧ e.2.span = some name.span

section

variable {env} {binder? : Origin → Option Name} {t : Traced Binding}

theorem Rooted.find? (h : Rooted binder? t) {x : String} {origin : Origin} {b : Binding}
    (hfind : t.find? Binding.name x = some (origin, b)) :
    ∃ name, binder? origin = some name ∧ name.text = x ∧ b.span = some name.span := by
  obtain ⟨block, hblock, he⟩ := List.exists_of_findSome?_eq_some hfind
  obtain ⟨name, hname, htext, hspan⟩ := h block hblock _ (List.mem_of_find?_eq_some he)
  have hx : b.name = x := by simpa using List.find?_some he
  exact ⟨name, hname, htext.symm.trans hx, hspan⟩

theorem Rooted.child (h : Rooted binder? t) : Rooted binder? t.child :=
  List.forall_mem_cons.mpr ⟨List.forall_mem_nil _, h⟩

theorem Rooted.traceBind (h : Rooted binder? t) {origin : Origin} {name : Name} {ty : Ty}
    (horigin : binder? origin = some name) : Rooted binder? (env.traceBind t origin name ty) := by
  unfold TypeEnv.traceBind Traced.bind
  cases t with
  | nil => simp [Rooted, horigin]
  | cons block rest =>
      dsimp only
      split
      · exact h
      · obtain ⟨hblock, hrest⟩ := List.forall_mem_cons.mp h
        refine List.forall_mem_cons.mpr ⟨List.forall_mem_append.mpr ⟨hblock, ?_⟩, hrest⟩
        exact List.forall_mem_singleton.mpr ⟨name, horigin, rfl, rfl⟩

theorem rooted_walkAll_of {fn : Enclosing} {ss : List Stmt} {p : Spot}
    (hss : ∀ s ∈ ss, ∀ (p : Spot) {t : Traced Binding}, Rooted binder? t →
      (∀ inside, binder? (.statement (p.path ++ inside)) = s.binder? inside) →
      (∀ c ∈ (s.walk (env.walk fn) p t).1, Rooted binder? c.scope) ∧
        Rooted binder? (s.walk (env.walk fn) p t).2)
    {t : Traced Binding} (h : Rooted binder? t)
    (hpath : ∀ m inside, binder? (.statement (p.block ++ (p.number + m) :: inside)) =
      Stmt.binderIn? ss (m :: inside)) :
    ∀ c ∈ (Stmt.walkAll (env.walk fn) p t ss).1, Rooted binder? c.scope := by
  induction ss generalizing t p with
  | nil => exact List.forall_mem_nil _
  | cons s ss ih =>
      obtain ⟨hs, hss⟩ := List.forall_mem_cons.mp hss
      obtain ⟨hhere, hbehind⟩ := hs p h fun inside => by
        simpa [Spot.path, Stmt.binderIn?] using hpath 0 inside
      refine List.forall_mem_append.mpr ⟨hhere, ih hss hbehind fun m inside => ?_⟩
      have := hpath (m + 1) inside
      rwa [Nat.add_comm m 1, ← Nat.add_assoc, Nat.add_comm 1 m] at this

/-- Where the paths in a statement lead to what it binds, the locals in it have the names for which
they were made. -/
theorem rooted_walk {fn : Enclosing} {s : Stmt} {p : Spot} (h : Rooted binder? t)
    (hpath : ∀ inside, binder? (.statement (p.path ++ inside)) = s.binder? inside) :
    (∀ c ∈ (s.walk (env.walk fn) p t).1, Rooted binder? c.scope) ∧
      Rooted binder? (s.walk (env.walk fn) p t).2 := by
  -- paths that go on in a block lead to what the block binds
  have hblock : ∀ {s : Stmt} {p : Spot},
      (∀ inside, binder? (.statement (p.path ++ inside)) = s.binder? inside) → ∀ b m inside,
        binder? (.statement ((p.inside b).block ++ ((p.inside b).number + m) :: inside)) =
          s.binder? (b :: m :: inside) := by
    intro s p hpath b m inside
    rw [Spot.inside, Nat.zero_add, List.append_assoc, List.singleton_append, hpath]
  induction s generalizing t p with
  | bind name e span =>
      have hself : binder? (.statement p.path) = some name := by
        simpa [Stmt.binder?] using hpath []
      exact ⟨List.forall_mem_singleton.mpr h, h.traceBind hself⟩
  | branch c ts span iht =>
      have hts := rooted_walkAll_of (fun s hs _ => iht s hs) h.child (hblock hpath 0)
      exact ⟨List.forall_mem_cons.mpr ⟨h, hts⟩, h⟩
  | branchOtherwise c ts os span iht iho =>
      have hts := rooted_walkAll_of (fun s hs _ => iht s hs) h.child (hblock hpath 0)
      have hos := rooted_walkAll_of (fun s hs _ => iho s hs) h.child (hblock hpath 1)
      exact ⟨List.forall_mem_cons.mpr ⟨h, List.forall_mem_append.mpr ⟨hts, hos⟩⟩, h⟩
  | forEach item e body span ih =>
      have hself : binder? (.statement p.path) = some item := by
        simpa [Stmt.binder?] using hpath []
      exact ⟨List.forall_mem_cons.mpr ⟨h, rooted_walkAll_of (fun s hs _ => ih s hs)
        (h.child.traceBind hself) (hblock hpath 0)⟩, h⟩
  | call | expression => exact ⟨List.forall_mem_singleton.mpr h, h⟩
  | returns value span =>
      cases value with
      | none => exact ⟨List.forall_mem_nil _, h⟩
      | some e => exact ⟨List.forall_mem_singleton.mpr h, h⟩

theorem Rooted.traceParameters {i : Nat} {ps : List (Typed × Ty)} (h : Rooted binder? t)
    (hps : ∀ m p ty, ps[m]? = some (p, ty) → binder? (.parameter (i + m)) = some p.binder) :
    Rooted binder? (env.traceParameters t i ps) := by
  induction ps generalizing t i with
  | nil => exact h
  | cons p ps ih =>
      refine ih (h.traceBind (hps 0 p.1 p.2 rfl)) fun m q ty hq => ?_
      have := hps (m + 1) q ty hq
      rwa [Nat.add_comm m 1, ← Nat.add_assoc] at this

variable (env) in
/-- All locals that the check of a function sees have the names for which they were made. -/
theorem rooted_traceFunction (f : FunctionDecl) (s : Signature) :
    ∀ c ∈ env.traceFunction f s, Rooted f.binder? c.scope := by
  have hstart : Rooted f.binder? [[]] := List.forall_mem_singleton.mpr (List.forall_mem_nil _)
  refine rooted_walkAll_of (fun s _ _ => rooted_walk) (hstart.traceParameters ?_) ?_
  · intro m p ty hp
    rw [List.getElem?_zip_eq_some] at hp
    rw [Nat.zero_add, FunctionDecl.binder?, hp.1]
    rfl
  · intro m inside
    rw [Nat.zero_add]
    rfl

end

end TypeEnv

end Prosaic
