import Prosaic.Proofs.Program.Parts
import Prosaic.Proofs.TypeScript.Lowering
import Prosaic.Proofs.TypeScript.Scoping

/-!
What lowering does to the names of a block: it writes each of them under an identifier and changes
nothing else. A local that hides another one gets an identifier that is not taken.

Identifiers that are made up. The identifiers that the names of a function have by themselves are
taken from the start; whatever else is bound in the function is bound once.
-/

namespace Prosaic

open TypeScript (Term Command Locals identifier freshName)

/-! ### Identifiers for names -/

/-- The identifiers of the locals in scope, and those that no new local may have. -/
structure Naming where
  find? : String → Option String
  taken : List String

namespace Naming

/-- The identifier that a place is written with. -/
def spell (n : Naming) : Use → String
  | .read x => (n.find? x).getD (identifier x)
  | .call callee => identifier callee.name

/-- The identifier of a new local. -/
def choose (n : Naming) (x : String) : String :=
  if (n.find? x).isSome then freshName n.taken x else identifier x

/-- Behind a new local. Only an identifier that was made up is taken by it. -/
def bind (n : Naming) (x : String) : Naming where
  find? y := if y = x then some (n.choose x) else n.find? y
  taken := if (n.find? x).isSome then n.choose x :: n.taken else n.taken

/-- The names of a block as they are written, and what is taken behind it. -/
def rename (n : Naming) : Names Use → Names String × List String
  | .nil => (.nil, n.taken)
  | .use u rest => (.use (n.spell u) (n.rename rest).1, (n.rename rest).2)
  | .bind x rest => (.bind (n.choose x) ((n.bind x).rename rest).1, ((n.bind x).rename rest).2)
  | .block inner rest =>
    let behind : Naming := { n with taken := (n.rename inner).2 }
    (.block (n.rename inner).1 (behind.rename rest).1, (behind.rename rest).2)

/-- Behind a block inside, more is taken. -/
def behind (n : Naming) (inner : Names Use) : Naming := { n with taken := (n.rename inner).2 }

theorem rename_block (n : Naming) (inner rest : Names Use) :
    n.rename (.block inner rest) =
      (.block (n.rename inner).1 ((n.behind inner).rename rest).1,
        ((n.behind inner).rename rest).2) := rfl

theorem rename_uses (n : Naming) (us : List Use) (rest : Names Use) :
    n.rename (.uses us rest) = (.uses (us.map n.spell) (n.rename rest).1, (n.rename rest).2) := by
  induction us with
  | nil => rfl
  | cons u us ih =>
      rw [Names.uses, List.foldr_cons, rename]
      rw [Names.uses] at ih
      rw [ih]
      rfl

end Naming

@[simp] theorem Names.used_uses {α : Type} (us : List α) (rest : Names α) :
    (Names.uses us rest).used = us ++ rest.used := by
  induction us with
  | nil => rfl
  | cons u us ih => exact congrArg (u :: ·) ih

namespace TypeScript

open Naming

/-! ### Locals -/

namespace Locals

/-- The identifiers that some locals have. -/
def naming (l : Locals) : Naming := ⟨l.find?, l.taken⟩

theorem naming_enter (l : Locals) : l.enter.naming = l.naming := rfl

theorem find?_add (l : Locals) (x chosen y : String) :
    (l.add x chosen).find? y = if y = x then some chosen else l.find? y := by
  have hlookup : ∀ b : List (String × String),
      ((x, chosen) :: b).lookup y = if y = x then some chosen else b.lookup y := by
    intro b
    rw [List.lookup_cons]
    by_cases hy : y = x
    · simp [hy]
    · rw [if_neg hy, beq_false_of_ne hy]
  obtain ⟨blocks, taken⟩ := l
  cases blocks with
  | nil =>
      rw [find?, add, List.findSome?_cons, hlookup]
      by_cases hy : y = x
      · simp [hy]
      · simp [hy, find?]
  | cons b rest =>
      rw [find?, add, List.findSome?_cons, hlookup]
      by_cases hy : y = x
      · simp [hy]
      · simp [hy, find?, List.findSome?_cons]

theorem tail_add (l : Locals) (x chosen : String) :
    (l.add x chosen).blocks.tail = l.blocks.tail := by
  obtain ⟨blocks, taken⟩ := l
  cases blocks <;> rfl

theorem declare_spec (l : Locals) (x : String) :
    (l.declare x).1 = l.naming.choose x ∧ (l.declare x).2.naming = l.naming.bind x ∧
      (l.declare x).2.blocks.tail = l.blocks.tail := by
  have hfind : ∀ (l' : Locals) (chosen : String),
      (l'.add x chosen).find? = fun y => if y = x then some chosen else l'.find? y :=
    fun l' chosen => funext (find?_add l' x chosen)
  have htaken : ∀ (l' : Locals) (chosen : String), (l'.add x chosen).taken = l'.taken := by
    rintro ⟨blocks, taken⟩ chosen
    cases blocks <;> rfl
  unfold declare
  by_cases hx : (l.find? x).isSome = true
  · rw [if_pos hx]
    have hsome : (l.naming.find? x).isSome = true := hx
    have hchoose : l.naming.choose x = freshName l.taken x := if_pos hx
    refine ⟨hchoose.symm, ?_, tail_add _ _ _⟩
    rw [Naming.bind, hchoose, if_pos hsome, naming, hfind, htaken]
    rfl
  · rw [if_neg hx]
    have hnone : ¬(l.naming.find? x).isSome = true := hx
    have hchoose : l.naming.choose x = identifier x := if_neg hx
    refine ⟨hchoose.symm, ?_, tail_add _ _ _⟩
    rw [Naming.bind, hchoose, if_neg hnone, naming, hfind, htaken]
    rfl

/-- Behind a block the locals are those before it, but for what was taken inside. -/
theorem leave_spec {l inner : Locals} (h : inner.blocks.tail = l.blocks) :
    inner.leave.naming = { l.naming with taken := inner.taken } ∧
      inner.leave.blocks = l.blocks := by
  refine ⟨?_, h⟩
  have hfind : inner.leave.find? = l.find? := by
    funext x
    show inner.blocks.tail.findSome? _ = l.blocks.findSome? _
    rw [h]
  rw [naming, hfind]
  rfl

end Locals

/-! ### Expressions -/

@[simp] theorem References.values_append (rs ss : References) :
    (rs ++ ss).values = rs.values ++ ss.values := rfl

/-- A term is what some uses of names are written as. -/
structure Written (n : Naming) (us : List Use) (xs : List String) (rs : References) : Prop where
  uses : xs = us.map n.spell
  callees : rs.values = us.filterMap Use.callee?

namespace Written

variable {n : Naming} {us vs : List Use} {xs ys : List String} {rs ss : References}

theorem nil : Written n [] [] .none := ⟨rfl, rfl⟩

theorem append (h : Written n us xs rs) (h' : Written n vs ys ss) :
    Written n (us ++ vs) (xs ++ ys) (rs ++ ss) := by
  refine ⟨by rw [h.uses, h'.uses, List.map_append], ?_⟩
  rw [References.values_append, h.callees, h'.callees, List.filterMap_append]

end Written

variable {r : Registry} {l : Locals}

/-- A call is written as the name of its callee, unless it is a conversion, and the arguments. -/
theorem written_callTerm {n : Naming} {callee : Name} {note : CallNote} {target : CallTarget}
    {purity : Purity} {us : List Use} {args : List Term}
    (htarget : note.target = some target) (hone : target = .conversion → args.length = 1)
    (hargs : Written n us (Term.usesAll args) (Term.referencesAll args)) :
    Written n (calleeUse callee note ++ us) (callTerm r callee target purity args).uses
      (callTerm r callee target purity args).references := by
  unfold calleeUse
  rw [htarget]
  cases target with
  | conversion =>
      -- a cast keeps the argument alone, and nothing of the callee
      obtain ⟨value, rfl⟩ := List.length_eq_one_iff.mp (hone rfl)
      refine ⟨?_, ?_⟩
      · have huses := hargs.uses
        rwa [Term.usesAll, Term.usesAll, List.append_nil] at huses
      · have hcallees := hargs.callees
        rw [Term.referencesAll, Term.referencesAll, References.values_append] at hcallees
        rw [callTerm, Term.references, References.values_append]
        exact hcallees
  | function | operation | helper =>
      have hcallee : ∀ called : Reference, Written n [.call called] [identifier called.name]
          ⟨[], [called]⟩ := fun _ => ⟨rfl, rfl⟩
      exact (hcallee _).append hargs

theorem written_lowerExprs_of {es : List Expr} {ts : List Term}
    (hes : ∀ e ∈ es, ∀ {t}, lowerExpr r l e = .ok t → Written l.naming e.uses t.uses t.references)
    (h : List.Forall₂ (fun e t => lowerExpr r l e = .ok t) es ts) :
    Written l.naming (Expr.usesAll es) (Term.usesAll ts) (Term.referencesAll ts) := by
  induction h with
  | nil => exact .nil
  | cons ht _ ih =>
      obtain ⟨he, hes⟩ := List.forall_mem_cons.mp hes
      exact (he ht).append (ih hes)

/-- A lowered expression is what the uses of names in it are written as. -/
theorem written_lowerExpr {e : Expr} {t : Term} (h : lowerExpr r l e = .ok t) :
    Written l.naming e.uses t.uses t.references := by
  induction e generalizing t with
  | literal value note =>
      obtain ⟨-, h⟩ := lowerExpr_literal.mp h
      cases value with
      | number n =>
          obtain ⟨digits, -, rfl⟩ := lowerLiteral_number.mp h
          exact .nil
      | string s | boolean b =>
          cases h
          exact .nil
  | var name note =>
      obtain ⟨-, rfl⟩ := lowerExpr_variable.mp h
      exact ⟨rfl, rfl⟩
  | list es note ih =>
      obtain ⟨-, ts, hts, rfl⟩ := lowerExpr_list.mp h
      exact written_lowerExprs_of ih hts
  | unary op e note ih =>
      obtain ⟨-, u, hu, rfl⟩ := lowerExpr_unary.mp h
      have hbelow := ih hu
      exact hbelow
  | binary op a b note iha ihb =>
      obtain ⟨-, u, hu, v, hv, rfl⟩ := lowerExpr_binary.mp h
      exact (iha hu).append (ihb hv)
  | call callee args note ih =>
      obtain ⟨target, purity, ts, ⟨htarget, -⟩, hone, hts, rfl⟩ := lowerExpr_call.mp h
      exact written_callTerm htarget hone (written_lowerExprs_of ih hts)
  | field e name note ih =>
      obtain ⟨-, u, hu, rfl⟩ := lowerExpr_field.mp h
      have hbelow := ih hu
      exact hbelow

/-! ### Statements -/

/-- A lowered statement is what the names of the statement are written as. Around the block that it
stands in no local changes. -/
structure Stmt.Written (l l' : Locals) (s : Stmt) (c : Command) : Prop where
  rename : ∀ rest, l.naming.rename (s.names rest) =
    (c.names (l'.naming.rename rest).1, (l'.naming.rename rest).2)
  callees : ∀ rest : Names Use, (s.names rest).used.filterMap Use.callee? =
    c.references.values ++ rest.used.filterMap Use.callee?
  outer : l'.blocks.tail = l.blocks.tail

/-- The same for the statements of a block. -/
structure BlockWritten (l l' : Locals) (ss : List Stmt) (cs : List Command) : Prop where
  rename : l.naming.rename (Stmt.namesAll ss) = (Command.namesAll cs, l'.taken)
  callees : (Stmt.namesAll ss).used.filterMap Use.callee? = (Command.referencesAll cs).values
  outer : l'.blocks.tail = l.blocks.tail

/-- A block inside is written with the locals around it, and behind it nothing but what is taken has
changed. -/
theorem BlockWritten.inside {l l' : Locals} {ss : List Stmt} {cs : List Command}
    (h : BlockWritten l.enter l' ss cs) (rest : Names Use) :
    l.naming.rename (.block (Stmt.namesAll ss) rest) =
        (.block (Command.namesAll cs) (l'.leave.naming.rename rest).1,
          (l'.leave.naming.rename rest).2) ∧
      l'.leave.blocks = l.blocks := by
  obtain ⟨hnaming, hblocks⟩ := Locals.leave_spec h.outer
  refine ⟨?_, hblocks⟩
  have hinner := h.rename
  rw [Locals.naming_enter] at hinner
  rw [Naming.rename, hinner, hnaming]

theorem blockWritten_of {ss : List Stmt}
    (hss : ∀ s ∈ ss, ∀ {l l' : Locals} {c : Command}, lowerStmt r l s = .ok (c, l') →
      Stmt.Written l l' s c)
    {l l' : Locals} {cs : List Command} (h : lowerStmts r l ss = .ok (cs, l')) :
    BlockWritten l l' ss cs := by
  induction ss generalizing l cs with
  | nil =>
      obtain ⟨rfl, rfl⟩ := lowerStmts_nil.mp h
      exact ⟨rfl, rfl, rfl⟩
  | cons s ss ih =>
      obtain ⟨hs, hss⟩ := List.forall_mem_cons.mp hss
      obtain ⟨c, l₁, hc, cs', l₂, hcs, rfl, rfl⟩ := lowerStmts_cons.mp h
      have hhead := hs hc
      have htail := ih hss hcs
      refine ⟨?_, ?_, htail.outer.trans hhead.outer⟩
      · rw [Stmt.namesAll, hhead.rename, htail.rename]
        rfl
      · rw [Stmt.namesAll, hhead.callees, htail.callees]
        rfl

/-- A statement that only uses names is written as what the uses are written as. -/
theorem written_uses {l : Locals} {s : Stmt} {c : Command} {us : List Use} {xs : List String}
    (hs : ∀ rest, s.names rest = .uses us rest) (hc : ∀ rest, c.names rest = .uses xs rest)
    (h : Written l.naming us xs c.references) : Stmt.Written l l s c where
  rename rest := by rw [hs, rename_uses, hc, h.uses]
  callees rest := by rw [hs, Names.used_uses, List.filterMap_append, h.callees]
  outer := rfl

/-- A lowered statement is what the names of the statement are written as. -/
theorem written_lowerStmt {s : Stmt} {l l' : Locals} {c : Command}
    (h : lowerStmt r l s = .ok (c, l')) : Stmt.Written l l' s c := by
  induction s generalizing l l' c with
  | bind name e span =>
      obtain ⟨t, ht, rfl, rfl⟩ := lowerStmt_bind.mp h
      obtain ⟨hchoose, hbind, houter⟩ := l.declare_spec name.text
      have he := written_lowerExpr ht
      refine ⟨fun rest => ?_, fun rest => ?_, houter⟩
      · rw [Stmt.names, rename_uses, Naming.rename, ← hbind, Command.names, ← he.uses, ← hchoose]
      · rw [Stmt.names, Names.used_uses, List.filterMap_append, ← he.callees]
        rfl
  | branch c t span iht =>
      obtain ⟨c', hc, ts, l₁, hts, rfl, rfl⟩ := lowerStmt_branch.mp h
      have hcondition := written_lowerExpr hc
      have hthen := blockWritten_of iht hts
      refine ⟨fun rest => ?_, fun rest => ?_, congrArg List.tail (hthen.inside .nil).2⟩
      · rw [Stmt.names, rename_uses, (hthen.inside rest).1, Command.names, ← hcondition.uses]
      · rw [Stmt.names, Names.used_uses, List.filterMap_append, ← hcondition.callees, Names.used,
          List.filterMap_append, hthen.callees, ← List.append_assoc]
        rfl
  | branchOtherwise c t o span iht iho =>
      obtain ⟨c', hc, ts, l₁, hts, os, l₂, hos, rfl, rfl⟩ := lowerStmt_branchOtherwise.mp h
      have hcondition := written_lowerExpr hc
      have hthen := blockWritten_of iht hts
      have hotherwise := blockWritten_of iho hos
      refine ⟨fun rest => ?_, fun rest => ?_, congrArg List.tail
        ((hotherwise.inside .nil).2.trans (hthen.inside .nil).2)⟩
      · rw [Stmt.names, rename_uses, (hthen.inside _).1, (hotherwise.inside rest).1, Command.names,
          ← hcondition.uses]
      · rw [Stmt.names, Names.used_uses, List.filterMap_append, ← hcondition.callees, Names.used,
          List.filterMap_append, hthen.callees, Names.used, List.filterMap_append,
          hotherwise.callees, ← List.append_assoc, ← List.append_assoc]
        rfl
  | forEach item e body span ih =>
      obtain ⟨t, ht, cs, l₂, hcs, rfl, rfl⟩ := lowerStmt_forEach.mp h
      obtain ⟨hchoose, hbind, houter⟩ := l.enter.declare_spec item.text
      have he := written_lowerExpr ht
      have hbody := blockWritten_of ih hcs
      obtain ⟨hnaming, hblocks⟩ := Locals.leave_spec (hbody.outer.trans houter)
      refine ⟨fun rest => ?_, fun rest => ?_, congrArg List.tail hblocks⟩
      · -- the item and the body are in one block of locals, but in two blocks of names
        have hinner := hbody.rename
        rw [hbind, Locals.naming_enter] at hinner
        rw [Locals.naming_enter] at hchoose
        rw [Stmt.names, Naming.rename, rename_uses, Naming.rename, Naming.rename, hinner, hnaming,
          ← he.uses, ← hchoose]
        rfl
      · rw [Stmt.names, Names.used, List.filterMap_append, Names.used_uses, List.filterMap_append,
          ← he.callees, Names.used, Names.used, List.filterMap_append, hbody.callees,
          Names.used, List.filterMap_nil, List.append_nil]
        rfl
  | call callee args note span =>
      obtain ⟨t, ht, rfl, rfl⟩ := lowerStmt_call.mp h
      exact written_uses (fun _ => rfl) (fun _ => rfl) (written_lowerExpr ht)
  | returns value span =>
      cases value with
      | none =>
          obtain ⟨rfl, rfl⟩ := lowerStmt_return_none.mp h
          exact ⟨fun rest => rfl, fun rest => rfl, rfl⟩
      | some e =>
          obtain ⟨t, ht, rfl, rfl⟩ := lowerStmt_return_some.mp h
          exact written_uses (fun _ => rfl) (fun _ => rfl) (written_lowerExpr ht)
  | expression e span =>
      obtain ⟨t, ht, rfl, rfl⟩ := lowerStmt_expression.mp h
      exact written_uses (fun _ => rfl) (fun _ => rfl) (written_lowerExpr ht)

end TypeScript

open TypeScript (identifier freshName_not_mem)

namespace Naming

/-! ### One local -/

/-- A new local has the identifier of its name, or one that is not taken. -/
theorem choose_cases (n : Naming) (x : String) :
    (n.find? x = none ∧ n.choose x = identifier x ∧ (n.bind x).taken = n.taken) ∨
      ((n.find? x).isSome = true ∧ n.choose x ∉ n.taken ∧
        (n.bind x).taken = n.choose x :: n.taken) := by
  cases hx : n.find? x with
  | none =>
      have hnone : ¬(n.find? x).isSome = true := by simp [hx]
      exact .inl ⟨rfl, if_neg hnone, if_neg hnone⟩
  | some y =>
      have hsome : (n.find? x).isSome = true := by simp [hx]
      refine .inr ⟨rfl, ?_, if_pos hsome⟩
      rw [choose, if_pos hsome]
      exact freshName_not_mem n.taken x

theorem find?_bind_self (n : Naming) (x : String) : (n.bind x).find? x = some (n.choose x) :=
  if_pos rfl

theorem find?_bind_of_ne (n : Naming) {x y : String} (h : y ≠ x) :
    (n.bind x).find? y = n.find? y := if_neg h

theorem taken_subset_bind (n : Naming) (x : String) : n.taken ⊆ (n.bind x).taken := by
  rcases n.choose_cases x with ⟨-, -, h⟩ | ⟨-, -, h⟩
  · exact h ▸ List.Subset.refl _
  · exact h ▸ List.subset_cons_self _ _

theorem taken_subset_rename (n : Naming) (block : Names Use) :
    n.taken ⊆ (n.rename block).2 := by
  induction block generalizing n with
  | nil => exact List.Subset.refl _
  | use u rest ih => exact ih n
  | bind x rest ih => exact List.Subset.trans (n.taken_subset_bind x) (ih _)
  | block inner rest ihinner ih =>
      exact List.Subset.trans (ihinner n) (ih (n.behind inner))

/-! ### All locals -/

section

variable {kept : List String}

/-- An identifier that no name has by itself is bound at most once, and only where it is not taken
before and is taken behind. -/
theorem count_rename {n : Naming} {block : Names Use} (hkept : kept ⊆ n.taken)
    (hnames : ∀ x ∈ block.bound ++ block.boundInside, identifier x ∈ kept) {y : String}
    (hy : y ∉ kept) {k : Nat}
    (hk : k = (n.rename block).1.bound.count y + (n.rename block).1.boundInside.count y) :
    k ≤ 1 ∧ (y ∈ n.taken → k = 0) ∧ (y ∉ (n.rename block).2 → k = 0) := by
  induction block generalizing n k with
  | nil =>
      obtain rfl : k = 0 := hk
      simp
  | use u rest ih => exact ih hkept hnames hk
  | bind x rest ih =>
      have hrest : ∀ z ∈ rest.bound ++ rest.boundInside, identifier z ∈ kept :=
        fun z hz => hnames z (List.mem_cons_of_mem x hz)
      obtain ⟨hone, hbefore, hbehind⟩ :=
        ih (List.Subset.trans hkept (n.taken_subset_bind x)) hrest rfl
      rw [rename, Names.bound, Names.boundInside, List.count_cons] at hk
      rcases n.choose_cases x with ⟨-, hchoose, htaken⟩ | ⟨-, hchoose, htaken⟩
      -- the identifier of a name by itself is kept, so it is another one
      · have hne : (n.choose x == y) = false := by
          apply beq_false_of_ne
          rintro rfl
          exact hy (hchoose ▸ hnames x List.mem_cons_self)
        rw [htaken] at hbefore
        rw [hne] at hk
        subst hk
        exact ⟨hone, hbefore, hbehind⟩
      · rw [htaken] at hbefore
        by_cases heq : n.choose x = y
        · -- this is the one place, as the identifier is taken from here on
          subst heq
          have hnone := hbefore List.mem_cons_self
          have hmem : n.choose x ∈ ((n.bind x).rename rest).2 :=
            (n.bind x).taken_subset_rename rest (htaken ▸ List.mem_cons_self)
          rw [beq_self_eq_true, if_pos rfl] at hk
          refine ⟨by omega, fun hmem => absurd hmem hchoose, fun hnot => absurd hmem hnot⟩
        · rw [beq_false_of_ne heq] at hk
          subst hk
          exact ⟨hone, fun hmem => hbefore (List.mem_cons_of_mem _ hmem), hbehind⟩
  | block inner rest ihinner ih =>
      have hinner : ∀ z ∈ inner.bound ++ inner.boundInside, identifier z ∈ kept := by
        intro z hz
        exact hnames z (List.mem_append_right _ (List.mem_append_left _ hz))
      have hrest : ∀ z ∈ rest.bound ++ rest.boundInside, identifier z ∈ kept := by
        intro z hz
        rcases List.mem_append.mp hz with hz | hz
        · exact hnames z (List.mem_append_left _ hz)
        · exact hnames z (List.mem_append_right _ (List.mem_append_right _ hz))
      obtain ⟨honeI, hbeforeI, hbehindI⟩ := ihinner hkept hinner rfl
      obtain ⟨hone, hbefore, hbehind⟩ := ih (n := n.behind inner)
        (List.Subset.trans hkept (n.taken_subset_rename inner)) hrest rfl
      rw [rename_block, Names.bound, Names.boundInside, List.count_append, List.count_append] at hk
      -- made up inside it is taken behind; else only what is behind can make it up
      by_cases hmem : y ∈ (n.rename inner).2
      · have hnone := hbefore hmem
        refine ⟨by omega, fun htaken => ?_, fun hnot => ?_⟩
        · have := hbeforeI htaken
          omega
        · exact absurd ((n.behind inner).taken_subset_rename rest hmem) hnot
      · have hnone := hbehindI hmem
        refine ⟨by omega, fun htaken => ?_, fun hnot => ?_⟩
        · exact absurd (n.taken_subset_rename inner htaken) hmem
        · have := hbehind hnot
          omega

/-- What a block binds is written under identifiers of its own where it hides nothing, and else
under ones that were made up. -/
theorem bound_rename {n : Naming} {block : Names Use} (hkept : kept ⊆ n.taken)
    (hdistinct : block.bound.Nodup) :
    List.Forall₂ (fun x y => ((n.find? x).isSome = true → y ∉ kept) ∧
      (n.find? x = none → y = identifier x)) block.bound (n.rename block).1.bound := by
  induction block generalizing n with
  | nil => exact .nil
  | use u rest ih => exact ih hkept hdistinct
  | bind x rest ih =>
      obtain ⟨hx, hrest⟩ := List.nodup_cons.mp hdistinct
      refine .cons ⟨fun hsome => ?_, fun hnone => ?_⟩ ?_
      · rcases n.choose_cases x with ⟨hnone, -, -⟩ | ⟨-, hchoose, -⟩
        · rw [hnone] at hsome
          cases hsome
        · exact fun hmem => hchoose (hkept hmem)
      · rcases n.choose_cases x with ⟨-, hchoose, -⟩ | ⟨hsome, -, -⟩
        · exact hchoose
        · rw [hnone] at hsome
          cases hsome
      · -- the rest binds other names, for which nothing has changed
        have htail := ih (List.Subset.trans hkept (n.taken_subset_bind x)) hrest
        have hboth := (List.forall₂_and_left _ _).mpr ⟨fun z hz => hz, htail⟩
        refine hboth.imp fun z y hzy => ?_
        have hne : z ≠ x := fun heq => hx (heq ▸ hzy.1)
        have hspelled := hzy.2
        rwa [n.find?_bind_of_ne hne] at hspelled
  | block inner rest ihinner ih =>
      exact ih (n := n.behind inner)
        (List.Subset.trans hkept (n.taken_subset_rename inner)) hdistinct

end

end Naming

end Prosaic
