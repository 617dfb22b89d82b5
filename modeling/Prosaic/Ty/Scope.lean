import Prosaic.Source.Position
import Prosaic.Ty.Basic

/-!
Scopes. Within one frame a name is bound at most once, and the first binding stays; a frame shadows
the frames around it and never changes them. A chain lists the frames that a place sees, innermost
first. A forest keeps the frames of a whole program, each with the frames around it, so that
bindings can still be added to any of them.
-/

namespace Prosaic

structure Binding where
  name : String
  ty : Ty
  span : Option Span
  deriving DecidableEq, Repr, Inhabited

/-- The bindings of one block, in the order in which they were made. -/
abbrev Frame := List Binding

namespace Frame

def find? (f : Frame) (name : String) : Option Binding :=
  List.find? (fun b => b.name == name) f

/-- Adds a binding unless the name is bound; tells the binding that was there. -/
def bind (f : Frame) (b : Binding) : Option Binding × Frame :=
  match f.find? b.name with
  | some existing => (some existing, f)
  | none => (none, f ++ [b])

end Frame

/-- The frames that a place sees, innermost first. -/
abbrev Scope := List Frame

namespace Scope

def lookup (s : Scope) (name : String) : Option Binding :=
  s.findSome? fun f => f.find? name

def child (s : Scope) : Scope := [] :: s

def bind (s : Scope) (b : Binding) : Option Binding × Scope :=
  match s with
  | [] => (none, [[b]])
  | f :: rest =>
    let (existing, f) := f.bind b
    (existing, f :: rest)

/-- The names that can be looked up, each once: the innermost frame first, and within a frame in the
order of binding. -/
def visible (s : Scope) : List String :=
  (s.flatten.map Binding.name).eraseDups

end Scope

/-! ### Forests of scopes -/

/-- A frame and the numbers of the frames around it, innermost first. -/
structure Scope.Node where
  outer : List Nat
  frame : Frame
  deriving Repr, Inhabited

structure Scope.Forest where
  nodes : List Scope.Node
  deriving Repr, Inhabited

namespace Scope.Forest

def root : Forest := ⟨[⟨[], []⟩]⟩

def frame (t : Forest) (i : Nat) : Frame := (t.nodes[i]?.map Node.frame).getD []

def scope? (t : Forest) (i : Nat) : Option Scope :=
  t.nodes[i]?.map fun n => n.frame :: n.outer.map t.frame

def child? (t : Forest) (i : Nat) : Option (Nat × Forest) :=
  t.nodes[i]?.map fun n => (t.nodes.length, ⟨t.nodes ++ [⟨i :: n.outer, []⟩]⟩)

def bind? (t : Forest) (i : Nat) (b : Binding) : Option (Option Binding × Forest) :=
  t.nodes[i]?.map fun n =>
    let (existing, f) := n.frame.bind b
    (existing, ⟨t.nodes.set i ⟨n.outer, f⟩⟩)

end Scope.Forest

end Prosaic
