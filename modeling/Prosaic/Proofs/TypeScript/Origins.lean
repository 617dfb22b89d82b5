import Prosaic.Proofs.Origins
import Prosaic.Proofs.TypeScript.Sites

/-!
The origins of the locals that the lowering sees. Its walk with traced blocks stops at the same
expressions, and without origins its locals are those with which the expressions are lowered. It
depends on nothing that the checks write into a tree.
-/

namespace Prosaic

open TypeScript (Locals identifier)

/-! ### Traced locals -/

/-- Locals with their origins. -/
structure TypeScript.TracedLocals where
  blocks : Traced (String × String)
  taken : List String

namespace TypeScript.TracedLocals

/-- The locals alone. -/
def erase (l : TracedLocals) : Locals := ⟨l.blocks.erase, l.taken⟩

/-- The locals at the start of a function. -/
def ofFunction (moduleNames : List String) (f : FunctionDecl) : TracedLocals :=
  ⟨[f.parameters.zipIdx.map fun (p, i) => (.parameter i, p.name, identifier p.name)],
    (Locals.ofFunction moduleNames f).taken⟩

/-- A block inside. -/
def enter (l : TracedLocals) : TracedLocals := { l with blocks := l.blocks.child }

/-- Back to the block around. -/
def leave (l : TracedLocals) : TracedLocals := { l with blocks := l.blocks.tail }

/-- Adds a name to the innermost block. -/
def add (l : TracedLocals) (origin : Origin) (name chosen : String) : TracedLocals :=
  match l.blocks with
  | [] => { l with blocks := [[(origin, name, chosen)]] }
  | block :: rest => { l with blocks := ((origin, name, chosen) :: block) :: rest }

/-- Declares a local in the innermost block. -/
def declare (l : TracedLocals) (origin : Origin) (name : String) : TracedLocals :=
  let declared := l.erase.declare name
  { l with taken := declared.2.taken }.add origin name declared.1

/-- The innermost identifier of a name, with its origin. -/
def find? (l : TracedLocals) (name : String) : Option (Origin × String) :=
  (l.blocks.find? Prod.fst name).map fun e => (e.1, e.2.2)

/-! ### Without origins -/

theorem erase_ofFunction (moduleNames : List String) (f : FunctionDecl) :
    (ofFunction moduleNames f).erase = Locals.ofFunction moduleNames f := by
  have hparameters : (f.parameters.zipIdx.map fun (p, i) =>
      (Origin.parameter i, p.name, identifier p.name)).map Prod.snd =
        f.parameters.map fun p => (p.name, identifier p.name) := by
    rw [List.map_map]
    conv_rhs => rw [← List.zipIdx_map_fst 0 f.parameters, List.map_map]
    rfl
  rw [erase, ofFunction, Traced.erase_cons, hparameters]
  rfl

@[simp] theorem erase_enter (l : TracedLocals) : l.enter.erase = l.erase.enter := rfl

@[simp] theorem erase_leave (l : TracedLocals) : l.leave.erase = l.erase.leave := by
  rw [erase, leave, Locals.leave, erase, Traced.erase, List.map_tail]
  rfl

theorem erase_add (l : TracedLocals) (origin : Origin) (name chosen : String) :
    (l.add origin name chosen).erase = l.erase.add name chosen := by
  unfold add Locals.add erase
  cases l.blocks <;> rfl

@[simp] theorem erase_declare (l : TracedLocals) (origin : Origin) (name : String) :
    (l.declare origin name).erase = (l.erase.declare name).2 := by
  have htaken : ∀ (l : Locals) (name chosen : String), (l.add name chosen).taken = l.taken := by
    intro l name chosen
    unfold Locals.add
    cases l.blocks <;> rfl
  rw [declare, erase_add, Locals.declare]
  split <;> simp only [htaken] <;> rfl

/-- What is found is found among the locals alone. -/
theorem find?_erase (l : TracedLocals) (name : String) :
    l.erase.find? name = (l.find? name).map Prod.snd := by
  have hlookup : ∀ block : List (String × String),
      block.lookup name = (block.find? fun e => e.1 == name).map Prod.snd := by
    intro block
    induction block with
    | nil => rfl
    | cons e block ih =>
        rw [List.lookup_cons, List.find?_cons, ih, BEq.comm]
        cases e.1 == name <;> rfl
  rw [find?, Option.map_map, Locals.find?, erase]
  simp only [hlookup]
  have hfind := congrArg (Option.map Prod.snd) (l.blocks.find?_erase Prod.fst name)
  rwa [List.map_findSome?, Option.map_map] at hfind

/-! ### What a walk keeps -/

theorem find?_declare (l : TracedLocals) (origin : Origin) (name x : String) :
    ((l.declare origin name).blocks.find? Prod.fst x).map Prod.fst =
      if name = x then some origin else (l.blocks.find? Prod.fst x).map Prod.fst := by
  unfold declare add
  by_cases hx : name = x <;> cases hblocks : l.blocks <;> simp [hx]

theorem tail_declare (l : TracedLocals) (origin : Origin) (name : String) :
    (l.declare origin name).blocks.tail = l.blocks.tail := by
  unfold declare add
  cases l.blocks <;> rfl

end TypeScript.TracedLocals

open TypeScript (TracedLocals)

/-! ### The walk of the lowering -/

/-- An expression where it is lowered, and the locals there. -/
structure TracedSite where
  locals : TracedLocals
  expr : Expr

/-- The site alone. -/
def TracedSite.erase (s : TracedSite) : Site := ⟨s.locals.erase, s.expr⟩

/-- The walk of the lowering, with origins. -/
def TypeScript.TracedLocals.walk : Walk Spot TracedLocals TracedSite where
  inside := Spot.inside
  next := Spot.next
  note l _ e := ⟨l, e⟩
  bind p l name _ := l.declare (.statement p.path) name.text
  item p l name _ := l.enter.declare (.statement p.path) name.text
  enter := TracedLocals.enter
  leave _ inner := inner.leave

/-- The expressions in the body of a function. -/
def FunctionDecl.trace (names : List String) (f : FunctionDecl) : List TracedSite :=
  (Stmt.walkAll TracedLocals.walk ⟨[], 0⟩ (TracedLocals.ofFunction names f).enter f.body).1

theorem TypeScript.TracedLocals.hom_walk :
    walk.Hom Locals.walk TracedLocals.erase TracedSite.erase where
  note _ _ _ := rfl
  bind _ _ l _ _ := l.erase_declare ..
  item _ _ l _ _ := l.enter.erase_declare ..
  enter _ := rfl
  leave _ inner := inner.erase_leave

/-- Without origins, the walk comes to the expressions of the function. -/
theorem FunctionDecl.erase_trace (names : List String) (f : FunctionDecl) :
    (f.trace names).map TracedSite.erase = f.sites names := by
  rw [trace, sites, (Walk.Hom.walkAll_of (fun s _ => TracedLocals.hom_walk.walk s) _ ⟨⟩ _).1,
    TracedLocals.erase_enter, TracedLocals.erase_ofFunction]

/-! ### Blocks around -/

theorem Stmt.tail_walkAll_of {ss : List Stmt}
    (h : ∀ s ∈ ss, ∀ (p : Spot) (l : TracedLocals),
      (s.walk TracedLocals.walk p l).2.blocks.tail = l.blocks.tail)
    (p : Spot) (l : TracedLocals) :
    (Stmt.walkAll TracedLocals.walk p l ss).2.blocks.tail = l.blocks.tail := by
  induction ss generalizing p l with
  | nil => rfl
  | cons s ss ih =>
      obtain ⟨hs, hss⟩ := List.forall_mem_cons.mp h
      exact (ih hss _ _).trans (hs _ _)

/-- A statement declares nothing in the blocks around the innermost one. -/
theorem Stmt.tail_walk (s : Stmt) (p : Spot) (l : TracedLocals) :
    (s.walk TracedLocals.walk p l).2.blocks.tail = l.blocks.tail := by
  induction s generalizing p l with
  | bind name e span => exact l.tail_declare ..
  | branch c t span iht => exact congrArg List.tail (tail_walkAll_of iht _ l.enter)
  | branchOtherwise c t o span iht iho =>
      refine congrArg List.tail ((tail_walkAll_of iho _ _).trans ?_)
      exact tail_walkAll_of iht _ l.enter
  | forEach item e body span ih =>
      refine congrArg List.tail ((tail_walkAll_of ih _ _).trans ?_)
      exact l.enter.tail_declare ..
  | call | expression => rfl
  | returns value span => cases value <;> rfl

theorem Stmt.tail_walkAll (ss : List Stmt) (p : Spot) (l : TracedLocals) :
    (Stmt.walkAll TracedLocals.walk p l ss).2.blocks.tail = l.blocks.tail :=
  tail_walkAll_of (fun s _ => s.tail_walk) p l

/-! ### Bare trees -/

/-- The site of the bare expression. -/
def TracedSite.bare (s : TracedSite) : TracedSite := ⟨s.locals, s.expr.bare⟩

theorem Stmt.walkAll_bare_of {ss : List Stmt}
    (h : ∀ s ∈ ss, ∀ (p : Spot) (l : TracedLocals), s.bare.walk TracedLocals.walk p l =
      ((s.walk TracedLocals.walk p l).1.map TracedSite.bare, (s.walk TracedLocals.walk p l).2))
    (p : Spot) (l : TracedLocals) :
    Stmt.walkAll TracedLocals.walk p l (ss.map Stmt.bare) =
      ((Stmt.walkAll TracedLocals.walk p l ss).1.map TracedSite.bare,
        (Stmt.walkAll TracedLocals.walk p l ss).2) := by
  induction ss generalizing p l with
  | nil => rfl
  | cons s ss ih =>
      obtain ⟨hs, hss⟩ := List.forall_mem_cons.mp h
      rw [List.map_cons, walkAll, walkAll, hs]
      dsimp only
      rw [ih hss, List.map_append]

theorem Stmt.walk_bare (s : Stmt) (p : Spot) (l : TracedLocals) :
    s.bare.walk TracedLocals.walk p l =
      ((s.walk TracedLocals.walk p l).1.map TracedSite.bare,
        (s.walk TracedLocals.walk p l).2) := by
  induction s generalizing p l with
  | bind => rfl
  | branch c t span iht =>
      rw [bare, walk, walk, bareAll_eq, walkAll_bare_of iht]
      rfl
  | branchOtherwise c t o span iht iho =>
      rw [bare, walk, walk, bareAll_eq, bareAll_eq, walkAll_bare_of iht]
      dsimp only
      rw [walkAll_bare_of iho, List.map_cons, List.map_append]
      rfl
  | forEach item e body span ih =>
      rw [bare, walk, walk, bareAll_eq, walkAll_bare_of ih]
      rfl
  | call | expression => rfl
  | returns value span => cases value <;> rfl

/-- The walk stops at the same places in functions that differ in nothing but what the checks write
into them. -/
theorem FunctionDecl.trace_bare (names : List String) (f : FunctionDecl) :
    f.bare.trace names = (f.trace names).map TracedSite.bare := by
  have hbound : TypeScript.boundAll (f.body.map Stmt.bare) = TypeScript.boundAll f.body :=
    boundAll_bare_of fun s _ => bound_bare s
  have hstart : TracedLocals.ofFunction names f.bare = TracedLocals.ofFunction names f := by
    simp only [TracedLocals.ofFunction, Locals.ofFunction, bare, Stmt.bareAll_eq, hbound]
  rw [trace, trace, hstart, bare, Stmt.bareAll_eq,
    Stmt.walkAll_bare_of fun s (_ : s ∈ f.body) => s.walk_bare]

end Prosaic
