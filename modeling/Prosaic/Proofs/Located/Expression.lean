import Mathlib.Order.Monotone.Basic
import Mathlib.Tactic.Ring
import Prosaic.Proofs.Located.Basic

/-!
Where expressions start, and how high they can be. An operator of a chain, a prefix and a field
selection hold a level each until their chain is complete, so a chain adds at most as much height as
there are levels left. All of these levels are free again for the next rung of the ladder, and for
the operands; only parentheses, lists and arguments keep one. With `n` levels left the five rungs
that chain, the comparison, and the call or list at the bottom add `5 * (n - 1) + 2` nodes to what
fits one level deeper.
-/

namespace Prosaic.Parser.Frame

variable {c : Frame} {k : Int}

/-! ### Trees -/

/-- An expression that starts at the places of a frame throughout, and is not too high. -/
structure Fits (c : Frame) (h : Nat) (e : Expr) : Prop where
  placed : e.Placed c.mark
  height : e.height ≤ h

section

variable {h h' : Nat} {e : Expr} {es : List Expr}

theorem Fits.mono (he : c.Fits h e) (hle : h ≤ h') : c.Fits h' e :=
  ⟨he.placed, he.height.trans hle⟩

theorem placed_all (hes : ∀ e ∈ es, c.Fits h e) : Expr.EverywhereIn (Expr.Starts c.mark) es :=
  Expr.everywhereIn_iff.mpr fun e he => (hes e he).placed

theorem heightIn_le (hes : ∀ e ∈ es, c.Fits h e) : Expr.heightIn es ≤ h :=
  Expr.heightIn_le.mpr fun e he => (hes e he).height

variable {span : Span} (hspan : c.mark span.start.location)

include hspan

theorem fits_literal (value : Literal) : c.Fits 1 (.literal value ⟨span, none⟩) :=
  ⟨⟨hspan, nofun⟩, Nat.le_refl 1⟩

theorem fits_variable (name : String) : c.Fits 1 (.variable name ⟨span, none⟩) :=
  ⟨⟨hspan, nofun⟩, Nat.le_refl 1⟩

theorem fits_list (hes : ∀ e ∈ es, c.Fits h e) : c.Fits (h + 1) (.list es ⟨span, none⟩) :=
  ⟨⟨⟨hspan, nofun⟩, placed_all hes⟩, Nat.succ_le_succ (heightIn_le hes)⟩

theorem fits_unary (op : UnaryOp) (he : c.Fits h e) : c.Fits (h + 1) (.unary op e ⟨span, none⟩) :=
  ⟨⟨⟨hspan, nofun⟩, he.placed⟩, Nat.succ_le_succ he.height⟩

theorem fits_binary (op : BinaryOp) {l r : Expr} (hl : c.Fits h l) (hr : c.Fits h r) :
    c.Fits (h + 1) (.binary op l r ⟨span, none⟩) :=
  ⟨⟨⟨hspan, nofun⟩, hl.placed, hr.placed⟩, Nat.succ_le_succ (Nat.max_le.mpr ⟨hl.height, hr.height⟩)⟩

theorem fits_call {callee : Token} (hcallee : c.At callee) (hes : ∀ e ∈ es, c.Fits h e) :
    c.Fits (h + 1) (.call (nameOf callee) es ⟨span, none, none, none⟩) :=
  ⟨⟨⟨hspan, fun _ hn => Option.some.inj hn ▸ hcallee⟩, placed_all hes⟩,
    Nat.succ_le_succ (heightIn_le hes)⟩

theorem fits_field {name : Token} (hname : c.At name) (he : c.Fits h e) :
    c.Fits (h + 1) (.field e (nameOf name) ⟨span, none⟩) :=
  ⟨⟨⟨hspan, fun _ hn => Option.some.inj hn ▸ hname⟩, he.placed⟩, Nat.succ_le_succ he.height⟩

end

/-! ### Chains -/

/-- Wherever a parser starts at a level or deeper, it yields expressions up to a height. -/
def Builds (c : Frame) (k : Int) (p : Parser Expr) (h : Nat) : Prop :=
  ∀ j, k ≤ j → c.Stays j j p (c.Fits h)

theorem Builds.here {p : Parser Expr} {h : Nat} (hp : c.Builds k p h) : c.Stays k k p (c.Fits h) :=
  hp k le_rfl

theorem Builds.deeper {p : Parser Expr} {h : Nat} (hp : c.Builds k p h) {j : Int} (hj : k ≤ j) :
    c.Builds j p h := fun i hi => hp i (hj.trans hi)

theorem stays_binary (op : BinaryOp) {left right : Expr} {start : Token} {h : Nat}
    (hstart : c.At start) (hleft : c.Fits h left) (hright : c.Fits h right) :
    c.Stays k k (binary op left right start) (c.Fits (h + 1)) :=
  stays_finish hstart fun _ hspan => fits_binary hspan op hleft hright

section

variable {operand : Parser Expr} {h : Nat} (hoperand : c.Builds k operand h)

include hoperand

/-- Each operator behind a first operand takes a level and adds one to the height. -/
theorem stays_chainRest (operator : Token → Option BinaryOp) {start : Token} (hstart : c.At start)
    (fuel : Nat) {j : Int} (hj : k ≤ j) {left : Expr} {h' : Nat} (hleft : c.Fits h' left)
    (hle : h ≤ h') :
    c.Stays j j (chainRest operator operand start fuel left) (c.Fits (h' + c.room j)) := by
  induction fuel generalizing j left h' with
  | zero => exact .pure (hleft.mono (Nat.le_add_right _ _))
  | succ fuel ih =>
      refine stays_current.bind fun t ht => ?_
      cases operator t with
      | none => exact .pure (hleft.mono (Nat.le_add_right _ _))
      | some op =>
          refine stays_advance.step fun _ => .nested ht fun hroom => ?_
          refine (hoperand (j + 1) (by omega)).bind fun right hright => ?_
          refine (stays_binary op hstart hleft (hright.mono hle)).bind fun node hnode => ?_
          have hrest := ih (j := j + 1) (by omega) hnode (hle.trans (Nat.le_succ h'))
          rw [room_eq_succ hroom]
          exact hrest.mono fun e he => he.mono (by omega)

theorem builds_chain (operator : Token → Option BinaryOp) :
    c.Builds k (chain operator operand) (h + c.room k) := by
  intro j hj
  refine stays_current.bind fun start hstart => (hoperand j hj).bind fun left hleft => ?_
  refine stays_remaining.step fun fuel => ?_
  have hrest := stays_chainRest hoperand operator hstart fuel hj hleft le_rfl
  exact hrest.mono fun e he => he.mono (Nat.add_le_add_left (room_le hj) h)

end

/-- Prefixes share their levels with the selections behind them. -/
theorem stays_prefixed {operand : Parser Expr} {h : Nat}
    (hoperand : ∀ j, k ≤ j → c.Stays j j operand (c.Fits (h + c.room j))) (fuel : Nat) {j : Int}
    (hj : k ≤ j) : c.Stays j j (prefixed operand fuel) (c.Fits (h + c.room j)) := by
  induction fuel generalizing j with
  | zero => exact hoperand j hj
  | succ fuel ih =>
      refine stays_current.bind fun t ht => ?_
      cases prefixOp? t with
      | none => exact hoperand j hj
      | some op =>
          refine stays_advance.step fun _ => ?_
          have hnested : c.Stays j j (nested t (prefixed operand fuel)) fun e =>
              ∀ span : Span, c.mark span.start.location →
                c.Fits (h + c.room j) (.unary op e ⟨span, none⟩) := by
            refine .nested ht fun hroom => (ih (by omega)).mono fun e he span hspan => ?_
            rw [room_eq_succ hroom]
            exact fits_unary hspan op he
          exact hnested.bind fun e he => stays_finish ht fun span hspan => he span hspan

/-! ### The rungs -/

theorem stays_leaf {t : Token} (ht : c.At t) {node : ExprNote → Expr} {h : Nat}
    (hnode : ∀ span : Span, c.mark span.start.location → c.Fits h (node ⟨span, none⟩)) :
    c.Stays k k (leaf t node) (c.Fits h) :=
  stays_advance.step fun _ => (stays_countNode ht).step fun _ => .pure (hnode t.span ht)

theorem stays_noExpression {Q : Expr → Prop} : c.Stays k k noExpression Q :=
  stays_current.bind fun _ ht => stays_fail ht

section

variable {inner : Parser Expr} {h : Nat} (hinner : c.Builds k inner h)

include hinner

theorem stays_argumentsRest (fuel : Nat) :
    c.Stays k k (argumentsRest inner fuel) fun es => ∀ e ∈ es, c.Fits h e := by
  induction fuel with
  | zero => exact .pure (List.forall_mem_nil _)
  | succ fuel ih =>
      refine (stays_acceptSign .comma).step fun more => .ite ?_ (.pure (List.forall_mem_nil _))
      refine hinner.here.bind fun e he => ih.bind fun es hes => ?_
      exact .pure (List.forall_mem_cons.mpr ⟨he, hes⟩)

theorem stays_arguments : c.Stays k k (arguments inner) fun es => ∀ e ∈ es, c.Fits h e := by
  refine hinner.here.bind fun e he => stays_remaining.step fun fuel => ?_
  exact (stays_argumentsRest hinner fuel).bind fun es hes =>
    .pure (List.forall_mem_cons.mpr ⟨he, hes⟩)

theorem stays_callWith :
    c.Stays k k (callWith inner) fun v => c.Fits (h + 1) (.call v.1 v.2.1 v.2.2) := by
  refine stays_advance.bind fun start hstart => ?_
  refine (stays_expectIdentifier _ _).bind fun callee hcallee => ?_
  refine (stays_acceptKeyword .with_).step fun passes => ?_
  extract_lets rest
  have hrest : ∀ args, (∀ e ∈ args, c.Fits h e) →
      c.Stays k k (rest args) fun v => c.Fits (h + 1) (.call v.1 v.2.1 v.2.2) :=
    fun args hargs => stays_finish hstart fun span hspan => fits_call hspan hcallee hargs
  refine .ite ((stays_arguments hinner).bind hrest) (stays_current.bind fun t ht => .ite ?_ ?_)
  · exact Stays.bind (Q := fun _ => False) (stays_fail ht) fun _ hfalse => hfalse.elim
  · exact Stays.bind (.pure (List.forall_mem_nil _)) hrest

theorem builds_primary : c.Builds k (primary inner) (h + 1) := by
  intro j hj
  have hlow : 1 ≤ h + 1 := Nat.le_add_left 1 h
  have hinner := hinner.deeper hj
  refine stays_current.bind fun t ht => ?_
  split
  · exact stays_leaf ht fun _ hspan => (fits_literal hspan _).mono hlow
  · exact stays_leaf ht fun _ hspan => (fits_literal hspan _).mono hlow
  · exact stays_leaf ht fun _ hspan => (fits_literal hspan _).mono hlow
  · exact stays_leaf ht fun _ hspan => (fits_literal hspan _).mono hlow
  · exact stays_leaf ht fun _ hspan => (fits_variable hspan _).mono hlow
  · refine stays_advance.step fun _ => hinner.here.bind fun e he => ?_
    exact (stays_expectSign _ _ _).step fun _ => .pure (he.mono (Nat.le_succ h))
  · refine stays_advance.step fun _ => stays_current.step fun next => ?_
    extract_lets rest
    have hrest : ∀ elements, (∀ e ∈ elements, c.Fits h e) →
        c.Stays j j (rest elements) (c.Fits (h + 1)) := fun elements helements =>
      (stays_expectSign _ _ _).step fun _ =>
        stays_finish ht fun span hspan => fits_list hspan helements
    exact .ite (Stays.bind (.pure (List.forall_mem_nil _)) hrest)
      ((stays_arguments hinner).bind hrest)
  · exact stays_noExpression

omit hinner in
/-- Each selection takes a level and adds one to the height. -/
theorem stays_selectionRest {start : Token} (hstart : c.At start) (fuel : Nat) {j : Int}
    {base : Expr} {h : Nat} (hbase : c.Fits h base) :
    c.Stays j j (selectionRest start fuel base) (c.Fits (h + c.room j)) := by
  induction fuel generalizing j base h with
  | zero => exact .pure (hbase.mono (Nat.le_add_right _ _))
  | succ fuel ih =>
      refine stays_current.bind fun t ht =>
        .ite ?_ (.pure (hbase.mono (Nat.le_add_right _ _)))
      refine stays_advance.step fun _ => .nested ht fun hroom => ?_
      refine (stays_expectIdentifier _ _).bind fun name hname => ?_
      refine (stays_spanFrom hstart).bind fun span hspan =>
        (stays_countNode hstart).step fun _ => ?_
      rw [room_eq_succ hroom]
      exact (ih (fits_field hspan hname hbase)).mono fun e he => he.mono (by omega)

theorem stays_selection {j : Int} (hj : k ≤ j) :
    c.Stays j j (selection inner) (c.Fits (h + 1 + c.room j)) := by
  refine stays_current.bind fun start hstart => ?_
  refine (builds_primary hinner j hj).bind fun base hbase => ?_
  exact stays_remaining.step fun fuel => stays_selectionRest hstart fuel hbase

theorem stays_application {j : Int} (hj : k ≤ j) :
    c.Stays j j (application inner) (c.Fits (h + 1 + c.room j)) := by
  have hinnerj := hinner.deeper hj
  refine stays_current.bind fun t ht => stays_second.step fun next => ?_
  split
  · refine (stays_callWith hinnerj).bind fun v hv => ?_
    exact .pure (hv.mono (Nat.le_add_right _ _))
  · refine stays_advance.step fun _ => stays_advance.step fun _ => ?_
    refine (stays_arguments hinnerj).bind fun args hargs => ?_
    exact stays_finish ht fun span hspan =>
      (fits_call hspan ht hargs).mono (Nat.le_add_right _ _)
  · exact stays_selection hinner hj

theorem builds_unaryRung : c.Builds k (unaryRung inner) (h + 1 + c.room k) := by
  intro j hj
  refine stays_remaining.step fun fuel => ?_
  have hprefixed := stays_prefixed (fun i hi => stays_application hinner hi) fuel hj
  exact hprefixed.mono fun e he => he.mono (Nat.add_le_add_left (room_le hj) _)

theorem builds_additiveRung :
    c.Builds k (additiveRung inner) (h + 1 + c.room k + c.room k + c.room k) :=
  builds_chain (builds_chain (builds_unaryRung hinner) _) _

omit hinner in
theorem stays_acceptComparison : c.Stays k k acceptComparison fun _ => True := by
  refine (stays_acceptKeyword .is).step fun _ => .ite ?_ ?_
  · exact (stays_acceptKeyword .not).step fun _ => .ite (.pure trivial) (.pure trivial)
  · refine stays_current.step fun t => ?_
    cases orderOp? t with
    | none => exact .pure trivial
    | some op => exact stays_advance.step fun _ => .pure trivial

theorem builds_comparisonRung :
    c.Builds k (comparisonRung inner) (h + 1 + c.room k + c.room k + c.room k + 1) := by
  intro j hj
  have hsum := builds_additiveRung hinner j hj
  refine stays_current.bind fun start hstart => hsum.bind fun left hleft => ?_
  refine stays_acceptComparison.step fun op? => ?_
  cases op? with
  | none => exact .pure (hleft.mono (Nat.le_succ _))
  | some op =>
      refine hsum.bind fun right hright => ?_
      refine (stays_binary op hstart hleft hright).bind fun node hnode => ?_
      exact stays_current.bind fun t ht => .ite (stays_fail ht) (.pure hnode)

end

/-! ### Expressions -/

/-- The greatest height of an expression for which so many levels are left. -/
def tallest (n : Nat) : Nat := n * (5 * n - 1) / 2

theorem tallest_succ (n : Nat) : tallest (n + 1) = tallest n + 5 * n + 2 := by
  have hstep : (n + 1) * (5 * (n + 1) - 1) = n * (5 * n - 1) + 2 * (5 * n + 2) := by
    cases n with
    | zero => rfl
    | succ m =>
        have hhere : 5 * (m + 1 + 1) - 1 = 5 * m + 9 := by omega
        have hbelow : 5 * (m + 1) - 1 = 5 * m + 4 := by omega
        rw [hhere, hbelow]
        ring
  unfold tallest
  rw [hstep, Nat.add_mul_div_left _ _ Nat.two_pos, Nat.add_assoc]

theorem tallest_mono : Monotone tallest :=
  monotone_nat_of_le_succ fun n => by
    rw [tallest_succ]
    omega

/-- An expression takes one level, and what is nested in it has the ones below. -/
theorem builds_expressionWith {inner : Parser Expr}
    (hinner : ∀ k, c.Builds k inner (tallest (c.room k))) (k : Int) :
    c.Builds k (expressionWith inner) (tallest (c.room k)) := by
  intro j hj
  have hhere : c.Stays j j (expressionWith inner) (c.Fits (tallest (c.room j))) := by
    refine stays_current.bind fun start hstart => .nested hstart fun hroom => ?_
    have hladder :=
      builds_chain (builds_chain (builds_comparisonRung (hinner (j + 1))) andOp?) orOp?
    rw [room_eq_succ hroom, tallest_succ]
    exact hladder.here.mono fun e he => he.mono (by omega)
  exact hhere.mono fun e he => he.mono (tallest_mono (room_le hj))

theorem builds_expressionUpTo (fuel : Nat) (k : Int) :
    c.Builds k (expressionUpTo fuel) (tallest (c.room k)) := by
  induction fuel generalizing k with
  | zero => exact builds_expressionWith (fun _ _ _ => stays_noExpression) k
  | succ fuel ih => exact builds_expressionWith ih k

theorem stays_expression : c.Stays k k expression (c.Fits (tallest (c.room k))) :=
  stays_remaining.step fun fuel => (builds_expressionUpTo fuel k).here

/-- A call that starts with `Call` takes no level itself. -/
theorem stays_call :
    c.Stays k k call fun v => c.Fits (tallest (c.room k) + 1) (.call v.1 v.2.1 v.2.2) :=
  stays_remaining.step fun fuel => stays_callWith (builds_expressionUpTo fuel k)

end Prosaic.Parser.Frame
