import Prosaic.Program.Tree

/-!
The calls of a program, in the order of the text, and the tree with the labels of its calls set.
-/

namespace Prosaic

structure CallSite where
  callee : Name
  note : CallNote
  deriving Repr, Inhabited

mutual

/-- The calls in an expression; a call comes before those in its arguments. -/
def Expr.calls : Expr → List CallSite
  | .literal .. | .variable .. => []
  | .list elements _ => Expr.callsAll elements
  | .unary _ e _ => e.calls
  | .binary _ l r _ => l.calls ++ r.calls
  | .call callee args note => ⟨callee, note⟩ :: Expr.callsAll args
  | .field e _ _ => e.calls

def Expr.callsAll : List Expr → List CallSite
  | [] => []
  | e :: es => e.calls ++ Expr.callsAll es

end

mutual

def Stmt.calls : Stmt → List CallSite
  | .bind _ e _ => e.calls
  | .branch c t none _ => c.calls ++ Stmt.callsAll t
  | .branch c t (some o) _ => c.calls ++ Stmt.callsAll t ++ Stmt.callsAll o
  | .forEach _ e b _ => e.calls ++ Stmt.callsAll b
  | .call callee args note _ => ⟨callee, note⟩ :: Expr.callsAll args
  | .return none _ => []
  | .return (some e) _ => e.calls
  | .expression e _ => e.calls

def Stmt.callsAll : List Stmt → List CallSite
  | [] => []
  | s :: ss => s.calls ++ Stmt.callsAll ss

end

/-! ### Labels -/

/-- The label of a call whose name has one; otherwise the call keeps what it has. -/
def relabel (label : String → Option Purity) (callee : Name) (note : CallNote) : CallNote :=
  { note with purity := (label callee.text).or note.purity }

mutual

def Expr.labelled (label : String → Option Purity) : Expr → Expr
  | .literal v note => .literal v note
  | .variable x note => .variable x note
  | .list es note => .list (Expr.labelledAll label es) note
  | .unary op e note => .unary op (e.labelled label) note
  | .binary op l r note => .binary op (l.labelled label) (r.labelled label) note
  | .call callee args note =>
    .call callee (Expr.labelledAll label args) (relabel label callee note)
  | .field e name note => .field (e.labelled label) name note

def Expr.labelledAll (label : String → Option Purity) : List Expr → List Expr
  | [] => []
  | e :: es => e.labelled label :: Expr.labelledAll label es

end

mutual

def Stmt.labelled (label : String → Option Purity) : Stmt → Stmt
  | .bind x e span => .bind x (e.labelled label) span
  | .branch c t none span => .branch (c.labelled label) (Stmt.labelledAll label t) none span
  | .branch c t (some o) span =>
    .branch (c.labelled label) (Stmt.labelledAll label t) (some (Stmt.labelledAll label o)) span
  | .forEach x e b span => .forEach x (e.labelled label) (Stmt.labelledAll label b) span
  | .call callee args note span =>
    .call callee (Expr.labelledAll label args) (relabel label callee note) span
  | .return none span => .return none span
  | .return (some e) span => .return (some (e.labelled label)) span
  | .expression e span => .expression (e.labelled label) span

def Stmt.labelledAll (label : String → Option Purity) : List Stmt → List Stmt
  | [] => []
  | s :: ss => s.labelled label :: Stmt.labelledAll label ss

end

end Prosaic
