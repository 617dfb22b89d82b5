import Prosaic.Proofs.Program.Parts

/-!
Walks through the statements of a function, and where the locals come from that they meet. A walk
stops at every expression that stands by itself; it is given by what it keeps in scope and by what
it notes there.

A local of a function is made for a parameter or by a statement, and the numbers of the statements
and blocks that lead to the statement tell it from all others. A walk that notes the origin of every
local it makes keeps traced blocks; without the origins they are the blocks of the walk without
them.
-/

namespace Prosaic

/-- What a local of a function was made for: a parameter, told by its number, or a statement, told
by its number in the body, or else by the numbers of a statement around it, of a block there, and so
on. -/
inductive Origin
  | parameter (index : Nat)
  | statement (path : List Nat)
  deriving DecidableEq, Repr

mutual

/-- The name that the statement at a path inside a statement binds. The empty path leads nowhere
else. -/
def Stmt.binder? : Stmt → List Nat → Option Name
  | .bind name _ _, [] => some name
  | .forEach item _ _ _, [] => some item
  | .branch _ t _ _, 0 :: path => Stmt.binderIn? t path
  | .branch _ _ (some o) _, 1 :: path => Stmt.binderIn? o path
  | .forEach _ _ body _, 0 :: path => Stmt.binderIn? body path
  | _, _ => none

/-- The name that the statement at a path inside a block binds. -/
def Stmt.binderIn? : List Stmt → List Nat → Option Name
  | s :: _, 0 :: path => s.binder? path
  | _ :: ss, (n + 1) :: path => Stmt.binderIn? ss (n :: path)
  | _, _ => none

end

/-- The name of a parameter, where it stands. -/
def Typed.binder (p : Typed) : Name := ⟨p.name, p.span⟩

/-- The name for which a local of some origin was made. -/
def FunctionDecl.binder? (f : FunctionDecl) : Origin → Option Name
  | .parameter i => f.parameters[i]?.map Typed.binder
  | .statement path => Stmt.binderIn? f.body path

/-- Blocks of locals, innermost first, each local with its origin. -/
abbrev Traced (α : Type) := List (List (Origin × α))

namespace Traced

variable {α : Type}

/-- The blocks alone. -/
def erase (t : Traced α) : List (List α) := t.map (List.map Prod.snd)

@[simp] theorem erase_nil : erase ([] : Traced α) = [] := rfl

@[simp] theorem erase_cons (block : List (Origin × α)) (t : Traced α) :
    erase (block :: t) = block.map Prod.snd :: t.erase := rfl

/-- A block inside. -/
def child (t : Traced α) : Traced α := [] :: t

variable (name : α → String)

/-- The innermost local of a name. -/
def find? (t : Traced α) (x : String) : Option (Origin × α) :=
  t.findSome? fun block => block.find? fun e => name e.2 == x

@[simp] theorem find?_nil (x : String) : find? name [] x = none := rfl

@[simp] theorem find?_cons (block : List (Origin × α)) (t : Traced α) (x : String) :
    find? name (block :: t) x = (block.find? fun e => name e.2 == x).or (t.find? name x) := by
  rw [find?, List.findSome?_cons]
  cases block.find? fun e => name e.2 == x <;> rfl

/-- What is found in the blocks is found in them alone. -/
theorem find?_erase (t : Traced α) (x : String) :
    t.erase.findSome? (fun block => block.find? fun a => name a == x) =
      (t.find? name x).map Prod.snd := by
  induction t with
  | nil => rfl
  | cons block t ih =>
      rw [erase_cons, List.findSome?_cons, ih, find?_cons, List.find?_map]
      show (match (block.find? fun e => name e.2 == x).map Prod.snd with
        | some a => some a
        | none => _) = _
      cases block.find? fun e => name e.2 == x <;> rfl

/-- The origins that a name finds depend on nothing but origins and names. -/
theorem map_fst_find? {β : Type} {name : α → String} {name' : β → String}
    {block : List (Origin × α)} {block' : List (Origin × β)}
    (h : (block.map fun e => (e.1, name e.2)) = block'.map fun e => (e.1, name' e.2))
    (x : String) :
    (block.find? fun e => name e.2 == x).map Prod.fst =
      (block'.find? fun e => name' e.2 == x).map Prod.fst := by
  have hfind : ∀ {γ : Type} (label : γ → String) (b : List (Origin × γ)),
      (b.find? fun e => label e.2 == x).map Prod.fst =
        ((b.map fun e => (e.1, label e.2)).find? fun e => e.2 == x).map Prod.fst := by
    intro γ label b
    rw [List.find?_map, Option.map_map]
    rfl
  rw [hfind, hfind, h]

end Traced

/-! ### Walks -/

/-- What an expression in a statement is there for. -/
inductive Role
  | value
  | condition
  | returned
  | unused

/-- A walk through statements at positions in `ρ`, with what is in scope in `σ`. What it notes of an
expression is in `α`. -/
structure Walk (ρ σ α : Type) where
  /-- The position of the first statement in a block of a statement. -/
  inside : ρ → Nat → ρ
  next : ρ → ρ
  note : σ → Role → Expr → α
  /-- What is in scope behind a `Let`. -/
  bind : ρ → σ → Name → Expr → σ
  /-- What is in scope in the block of a loop. -/
  item : ρ → σ → Name → Expr → σ
  enter : σ → σ
  /-- What is in scope behind a block, of what is before it and what is at its end. -/
  leave : σ → σ → σ

section

variable {ρ ρ' σ σ' α α' : Type}

mutual

/-- What is noted in a statement, and what is in scope behind it. -/
def Stmt.walk (w : Walk ρ σ α) (p : ρ) (l : σ) : Stmt → List α × σ
  | .bind name e _ => ([w.note l .value e], w.bind p l name e)
  | .branch c t none _ =>
    let (ts, inner) := Stmt.walkAll w (w.inside p 0) (w.enter l) t
    (w.note l .condition c :: ts, w.leave l inner)
  | .branch c t (some o) _ =>
    let (ts, inner) := Stmt.walkAll w (w.inside p 0) (w.enter l) t
    let l₁ := w.leave l inner
    let (os, inner) := Stmt.walkAll w (w.inside p 1) (w.enter l₁) o
    (w.note l .condition c :: (ts ++ os), w.leave l₁ inner)
  | .forEach name e body _ =>
    let (ss, inner) := Stmt.walkAll w (w.inside p 0) (w.item p l name e) body
    (w.note l .value e :: ss, w.leave l inner)
  | .call callee args note _ => ([w.note l .unused (.call callee args note)], l)
  | .return none _ => ([], l)
  | .return (some e) _ => ([w.note l .returned e], l)
  | .expression e _ => ([w.note l .unused e], l)

def Stmt.walkAll (w : Walk ρ σ α) (p : ρ) (l : σ) : List Stmt → List α × σ
  | [] => ([], l)
  | s :: ss =>
    let (here, l₁) := s.walk w p l
    let (behind, l₂) := Stmt.walkAll w (w.next p) l₁ ss
    (here ++ behind, l₂)

end

/-- One walk is another one that notes and keeps more. -/
structure Walk.Hom (w : Walk ρ σ α) (w' : Walk ρ' σ' α') (scope : σ → σ') (noted : α → α') :
    Prop where
  note : ∀ l r e, noted (w.note l r e) = w'.note (scope l) r e
  bind : ∀ p p' l x e, scope (w.bind p l x e) = w'.bind p' (scope l) x e
  item : ∀ p p' l x e, scope (w.item p l x e) = w'.item p' (scope l) x e
  enter : ∀ l, scope (w.enter l) = w'.enter (scope l)
  leave : ∀ l inner, scope (w.leave l inner) = w'.leave (scope l) (scope inner)

namespace Walk.Hom

variable {w : Walk ρ σ α} {w' : Walk ρ' σ' α'} {scope : σ → σ'} {noted : α → α'}

theorem walkAll_of {ss : List Stmt}
    (hss : ∀ s ∈ ss, ∀ p p' l, (s.walk w p l).1.map noted = (s.walk w' p' (scope l)).1 ∧
      scope (s.walk w p l).2 = (s.walk w' p' (scope l)).2) (p : ρ) (p' : ρ') (l : σ) :
    (Stmt.walkAll w p l ss).1.map noted = (Stmt.walkAll w' p' (scope l) ss).1 ∧
      scope (Stmt.walkAll w p l ss).2 = (Stmt.walkAll w' p' (scope l) ss).2 := by
  induction ss generalizing p p' l with
  | nil => exact ⟨rfl, rfl⟩
  | cons s ss ih =>
      obtain ⟨hs, hss⟩ := List.forall_mem_cons.mp hss
      obtain ⟨hhere, hbehind⟩ := hs p p' l
      obtain ⟨hrest, hend⟩ := ih hss (w.next p) (w'.next p') (s.walk w p l).2
      rw [hbehind] at hrest hend
      rw [Stmt.walkAll, Stmt.walkAll, List.map_append, hhere, hrest]
      exact ⟨rfl, hend⟩

/-- The one walk stops where the other one does. -/
theorem walk (h : w.Hom w' scope noted) (s : Stmt) (p : ρ) (p' : ρ') (l : σ) :
    (s.walk w p l).1.map noted = (s.walk w' p' (scope l)).1 ∧
      scope (s.walk w p l).2 = (s.walk w' p' (scope l)).2 := by
  induction s generalizing p p' l with
  | bind name e span => exact ⟨congrArg ([·]) (h.note ..), h.bind ..⟩
  | branch c t span iht =>
      obtain ⟨hthen, hend⟩ := walkAll_of iht (w.inside p 0) (w'.inside p' 0) (w.enter l)
      rw [h.enter] at hthen hend
      rw [Stmt.walk, Stmt.walk, List.map_cons, h.note, hthen, h.leave, hend]
      exact ⟨rfl, rfl⟩
  | branchOtherwise c t o span iht iho =>
      obtain ⟨hthen, hmiddle⟩ := walkAll_of iht (w.inside p 0) (w'.inside p' 0) (w.enter l)
      obtain ⟨hotherwise, hend⟩ := walkAll_of iho (w.inside p 1) (w'.inside p' 1)
        (w.enter (w.leave l (Stmt.walkAll w (w.inside p 0) (w.enter l) t).2))
      rw [h.enter] at hthen hmiddle
      rw [h.enter, h.leave, hmiddle] at hotherwise hend
      rw [Stmt.walk, Stmt.walk, List.map_cons, List.map_append, h.note, hthen, hotherwise, h.leave,
        h.leave, hmiddle, hend]
      exact ⟨rfl, rfl⟩
  | forEach item e body span ih =>
      obtain ⟨hbody, hend⟩ := walkAll_of ih (w.inside p 0) (w'.inside p' 0) (w.item p l item e)
      rw [h.item p p'] at hbody hend
      rw [Stmt.walk, Stmt.walk, List.map_cons, h.note, hbody, h.leave, hend]
      exact ⟨rfl, rfl⟩
  | call | expression => exact ⟨congrArg ([·]) (h.note ..), rfl⟩
  | returns value span =>
      cases value with
      | none => exact ⟨rfl, rfl⟩
      | some e => exact ⟨congrArg ([·]) (h.note ..), rfl⟩

end Walk.Hom

end

/-- Where a statement stands: the numbers that lead to its block, and its number there. -/
structure Spot where
  block : List Nat
  number : Nat

namespace Spot

def path (p : Spot) : List Nat := p.block ++ [p.number]

def inside (p : Spot) (block : Nat) : Spot := ⟨p.path ++ [block], 0⟩

def next (p : Spot) : Spot := ⟨p.block, p.number + 1⟩

end Spot

end Prosaic
