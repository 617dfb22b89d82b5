import Prosaic.Proofs.Printing.Tokens
import Prosaic.Proofs.Spanning.Basic

/-!
The tokens of an expression, rule by rule of the grammar. Parentheses around an expression belong to
what it is a part of: they start a chain of operators or of field selections with it, but the
expression itself keeps its own text.
-/

namespace Prosaic

open Prosaic.Parser (nameOf)

/-! ### The tokens of an expression -/

mutual

/-- An expression is made of exactly these tokens, and its text is theirs. So it is with every
expression in it. -/
inductive Expr.Spans : Expr → List Token → Prop
  | literal {value : Literal} {note : ExprNote} {t : Token} (ht : t.kind = value.kind)
      (hspan : note.span.Over [t]) : Expr.Spans (.literal value note) [t]
  | variable {note : ExprNote} {t : Token} (ht : t.kind.isName = true)
      (hspan : note.span.Over [t]) : Expr.Spans (.variable t.lexeme note) [t]
  | empty {note : ExprNote} {o c : Token} (ho : o.kind = .sign .openBracket)
      (hc : c.kind = .sign .closeBracket) (hspan : note.span.Over [o, c]) :
      Expr.Spans (.list [] note) [o, c]
  | list {es : List Expr} {note : ExprNote} {o c : Token} {run : List Token}
      (ho : o.kind = .sign .openBracket) (hes : Expr.Listed es run)
      (hc : c.kind = .sign .closeBracket) (hspan : note.span.Over (o :: (run ++ [c]))) :
      Expr.Spans (.list es note) (o :: (run ++ [c]))
  | unary {op : UnaryOp} {e : Expr} {note : ExprNote} {t : Token} {run : List Token}
      (ht : t.kind = op.kind) (he : Expr.Enclosed e run) (hspan : note.span.Over (t :: run)) :
      Expr.Spans (.unary op e note) (t :: run)
  | binary {op : BinaryOp} {l r : Expr} {note : ExprNote} {left ops right : List Token}
      (hl : Expr.Enclosed l left) (hops : ops.map Token.kind = op.kinds)
      (hr : Expr.Enclosed r right) (hspan : note.span.Over (left ++ ops ++ right)) :
      Expr.Spans (.binary op l r note) (left ++ ops ++ right)
  | call {note : CallNote} {t n : Token} (ht : t.kind = .keyword .call)
      (hn : n.kind.isName = true) (hspan : note.span.Over [t, n]) :
      Expr.Spans (.call (nameOf n) [] note) [t, n]
  | callWith {es : List Expr} {note : CallNote} {t n w : Token} {run : List Token}
      (ht : t.kind = .keyword .call) (hn : n.kind.isName = true) (hw : w.kind = .keyword .with_)
      (hes : Expr.Listed es run) (hspan : note.span.Over (t :: n :: w :: run)) :
      Expr.Spans (.call (nameOf n) es note) (t :: n :: w :: run)
  | callOf {es : List Expr} {note : CallNote} {n o : Token} {run : List Token}
      (hn : n.kind.isName = true) (ho : o.kind = .keyword .of) (hes : Expr.Listed es run)
      (hspan : note.span.Over (n :: o :: run)) :
      Expr.Spans (.call (nameOf n) es note) (n :: o :: run)
  | field {b : Expr} {note : ExprNote} {d n : Token} {run : List Token}
      (hb : Expr.Enclosed b run) (hd : d.kind = .sign .dot) (hn : n.kind.isName = true)
      (hspan : note.span.Over (run ++ [d, n])) :
      Expr.Spans (.field b (nameOf n) note) (run ++ [d, n])

/-- An expression in parentheses, any number of them. -/
inductive Expr.Enclosed : Expr → List Token → Prop
  | bare {e : Expr} {ts : List Token} (h : Expr.Spans e ts) : Expr.Enclosed e ts
  | enclosed {e : Expr} {o c : Token} {ts : List Token} (ho : o.kind = .sign .openParen)
      (h : Expr.Enclosed e ts) (hc : c.kind = .sign .closeParen) :
      Expr.Enclosed e (o :: (ts ++ [c]))

/-- Expressions with commas between them. -/
inductive Expr.Listed : List Expr → List Token → Prop
  | intro {e : Expr} {es : List Expr} {run rest : List Token} (he : Expr.Enclosed e run)
      (hes : Expr.Continued es rest) : Expr.Listed (e :: es) (run ++ rest)

/-- Expressions with a comma before each. -/
inductive Expr.Continued : List Expr → List Token → Prop
  | nil : Expr.Continued [] []
  | cons {e : Expr} {es : List Expr} {k : Token} {run rest : List Token}
      (hk : k.kind = .sign .comma) (he : Expr.Enclosed e run) (hes : Expr.Continued es rest) :
      Expr.Continued (e :: es) (k :: (run ++ rest))

end

section

variable {e : Expr} {es : List Expr} {ts : List Token}

theorem part_nameOf (n : Token) : Laid Span.Over [(nameOf n).span] [n] :=
  .single (Span.over_singleton n)

theorem Expr.Spans.over (h : e.Spans ts) : e.span.Over ts := by cases h <;> assumption

/-- The tokens of the expression itself. -/
theorem Expr.Enclosed.inside {ts : List Token} :
    e.Enclosed ts → ∃ run, run <:+: ts ∧ e.Spans run
  | .bare h => ⟨ts, List.infix_rfl, h⟩
  | .enclosed _ h _ =>
    have ⟨run, hrun, h⟩ := h.inside
    ⟨run, hrun.trans (List.infix_append [_] _ [_]), h⟩

theorem Expr.Enclosed.part (h : e.Enclosed ts) : Laid Span.Over [e.span] ts := by
  obtain ⟨run, ⟨before, behind, rfl⟩, hrun⟩ := h.inside
  exact .cons hrun.over .nil

theorem Expr.Continued.parts {ts : List Token} :
    {es : List Expr} → Expr.Continued es ts → Laid Span.Over (es.map Expr.span) ts
  | _, .nil => .nil
  | _, .cons _ he hes => (he.part.append hes.parts).skip [_]

theorem Expr.Listed.parts (h : Expr.Listed es ts) : Laid Span.Over (es.map Expr.span) ts := by
  cases h with
  | intro he hes => exact he.part.append hes.parts

theorem Expr.Enclosed.ne_nil (h : e.Enclosed ts) : ts ≠ [] := by
  obtain ⟨run, hrun, hspans⟩ := h.inside
  rintro rfl
  exact hspans.over.ne_nil (List.infix_nil.mp hrun)

end

/-! ### Nodes -/

mutual

/-- The nodes of an expression. -/
def Expr.extents : Expr → List Extent
  | .literal _ note | .variable _ note => [⟨note.span, []⟩]
  | .list es note => ⟨note.span, es.map Expr.span⟩ :: Expr.extentsIn es
  | .unary _ e note => ⟨note.span, [e.span]⟩ :: e.extents
  | .binary _ l r note => ⟨note.span, [l.span, r.span]⟩ :: (l.extents ++ r.extents)
  | .call callee es note => ⟨note.span, callee.span :: es.map Expr.span⟩ :: Expr.extentsIn es
  | .field b name note => ⟨note.span, [b.span, name.span]⟩ :: b.extents

def Expr.extentsIn : List Expr → List Extent
  | [] => []
  | e :: es => e.extents ++ Expr.extentsIn es

end

mutual

theorem Expr.Spans.within {ts : List Token} :
    {e : Expr} → e.Spans ts → Extent.AllIn ts e.extents
  | _, .literal _ hspan => .leaf hspan
  | _, .variable _ hspan => .leaf hspan
  | _, .empty _ _ hspan => .leaf hspan
  | _, .list _ hes _ hspan =>
    .node hspan ((hes.parts.skip [_]).extend [_]) ((hes.within.skip [_]).extend [_])
  | _, .unary _ he hspan => .node hspan (he.part.skip [_]) (he.within.skip [_])
  | _, .binary hl _ hr hspan =>
    .node hspan ((hl.part.extend _).append hr.part)
      (((hl.within.extend _).extend _).append (hr.within.skip _))
  | _, .call _ _ hspan => .node hspan ((part_nameOf _).skip [_]) .nil
  | _, .callWith _ _ _ hes hspan =>
    .node hspan (((part_nameOf _).append (hes.parts.skip [_])).skip [_])
      (hes.within.skip [_, _, _])
  | _, .callOf _ _ hes hspan =>
    .node hspan ((part_nameOf _).append (hes.parts.skip [_])) (hes.within.skip [_, _])
  | _, .field hb _ _ hspan =>
    .node hspan (hb.part.append ((part_nameOf _).skip [_])) (hb.within.extend _)

theorem Expr.Enclosed.within {ts : List Token} :
    {e : Expr} → e.Enclosed ts → Extent.AllIn ts e.extents
  | _, .bare h => h.within
  | _, .enclosed _ h _ => (h.within.extend [_]).skip [_]

theorem Expr.Listed.within {ts : List Token} :
    {es : List Expr} → Expr.Listed es ts → Extent.AllIn ts (Expr.extentsIn es)
  | _, .intro he hes => (he.within.extend _).append (hes.within.skip _)

theorem Expr.Continued.within {ts : List Token} :
    {es : List Expr} → Expr.Continued es ts → Extent.AllIn ts (Expr.extentsIn es)
  | _, .nil => .nil
  | _, .cons _ he hes => ((he.within.extend _).append (hes.within.skip _)).skip [_]

end

namespace Parser

variable {c : Lead} {ts run : List Token} {t start : Token}

/-! ### Operators -/

section

variable {op : BinaryOp}

theorem ne_eof_of_kinds {k : Token.Kind} (h : op.kinds = [k]) : k ≠ .eof := by
  rintro rfl
  cases op <;> cases h

/-- The operators of a rung are single tokens. -/
theorem kinds_of_operator : ∀ operator ∈ [orOp?, andOp?, orderOp?, additiveOp?, multiplicativeOp?],
    ∀ t op, operator t = some op → op.kinds = [t.kind] := by
  simp only [List.forall_mem_cons]
  refine ⟨?_, ?_, ?_, ?_, ?_, List.forall_mem_nil _⟩
  all_goals
    intro t op h
    simp only [orOp?, andOp?, orderOp?, additiveOp?, multiplicativeOp?] at h
    split at h <;> cases h
  all_goals
    next hkind =>
      rw [hkind]
      rfl

theorem kind_of_prefixOp? {op : UnaryOp} (h : prefixOp? t = some op) : t.kind = op.kind := by
  unfold prefixOp? at h
  split at h <;> cases h
  all_goals
    next hkind =>
      rw [hkind]
      rfl

theorem begins_acceptComparison : Begins acceptComparison fun run op? =>
    run.map Token.kind = op?.elim [] BinaryOp.kinds := by
  refine fun c => (begins_acceptKeyword .is).then fun run takes his =>
    .ite (fun h => ?_) fun h => ?_
  · obtain ⟨i, rfl, hi⟩ := his.yes h
    refine (begins_acceptKeyword .not).then fun run takes hnot => .ite (fun h => ?_) fun h => ?_
    · obtain ⟨n, rfl, hn⟩ := hnot.yes h
      exact .pure (by simp [hi, hn, BinaryOp.kinds])
    · obtain rfl := hnot.no h
      exact .pure (by simp [hi, BinaryOp.kinds])
  · obtain rfl := his.no h
    refine .current fun t ht => ?_
    cases hop : orderOp? t with
    | none => exact .pure rfl
    | some op =>
        have hkinds := kinds_of_operator orderOp? (by simp) t op hop
        obtain ⟨later, hlater⟩ := ht.here rfl (ne_eof_of_kinds hkinds)
        exact .advance hlater (.pure hkinds.symm)

end

/-! ### Chains -/

theorem consumes_binary {op : BinaryOp} {l r : Expr} {left ops right : List Token}
    (hl : l.Enclosed left) (hops : ops.map Token.kind = op.kinds) (hr : r.Enclosed right)
    (hstart : start ∈ left.head?) :
    Consumes c (left ++ ops ++ right) (binary op l r start) fun us e =>
      e.Enclosed us ∧ start ∈ us.head? := by
  have hhead : start ∈ (left ++ ops ++ right).head? :=
    List.mem_head?_append_of_mem_head? (List.mem_head?_append_of_mem_head? hstart)
  exact consumes_finish hhead fun span hspan => ⟨.bare (.binary hl hops hr hspan), hhead⟩

section

variable {operator : Token → Option BinaryOp} {operand : Parser Expr}
  (hoperator : ∀ t op, operator t = some op → op.kinds = [t.kind])
  (hoperand : Begins operand fun run e => e.Enclosed run)

include hoperator hoperand

theorem consumes_chainRest (fuel : Nat) {left : Expr} (hleft : left.Enclosed ts)
    (hstart : start ∈ ts.head?) :
    Consumes c ts (chainRest operator operand start fuel left) fun us e => e.Enclosed us := by
  induction fuel generalizing left ts with
  | zero => exact .pure hleft
  | succ fuel ih =>
      refine .current fun t ht => ?_
      cases hop : operator t with
      | none => exact .pure hleft
      | some op =>
          -- the node made here stands on all tokens so far, and is the left operand of the rest
          have hkinds := hoperator t op hop
          obtain ⟨later, hlater⟩ := ht.here rfl (ne_eof_of_kinds hkinds)
          refine .advance hlater (.nested (hoperand.then fun run right hright => ?_) t)
          have hops : [t].map Token.kind = op.kinds := hkinds.symm
          refine (consumes_binary hleft hops hright hstart).bind fun us node hnode => ?_
          exact ih hnode.1 hnode.2

theorem begins_chain : Begins (chain operator operand) fun run e => e.Enclosed run := by
  refine fun c => .current fun start hstart => hoperand.then fun run left hleft => ?_
  refine .look fun fuel => .taken fun later hlater => ?_
  exact consumes_chainRest hoperator hoperand fuel hleft (hstart.head hlater hleft.ne_nil)

omit hoperator in
/-- Prefixes are read from the first one on, and each is put around what follows it. -/
theorem begins_prefixed (fuel : Nat) :
    Begins (prefixed operand fuel) fun run e => e.Enclosed run := by
  induction fuel with
  | zero => exact hoperand
  | succ fuel ih =>
      refine fun c => .current fun t ht => ?_
      cases hop : prefixOp? t with
      | none => exact hoperand c
      | some op =>
          have hkind := kind_of_prefixOp? hop
          obtain ⟨later, hlater⟩ := ht.here hkind (by cases op <;> nofun)
          refine .advance hlater ((ih.nested t).then fun run e he => ?_)
          exact consumes_finish rfl fun span hspan => .bare (.unary hkind he hspan)

end

/-! ### Primaries -/

theorem consumes_leaf {later : List Token} (ht : c.tokens = t :: later) {node : ExprNote → Expr}
    (hnode : (node ⟨t.span, none⟩).Spans [t]) :
    Consumes c [] (leaf t node) fun us e => e.Enclosed us :=
  .advance ht (.spend (.pure (.bare hnode)))

theorem consumes_noExpression {Q : List Token → Expr → Prop} : Consumes c ts noExpression Q :=
  .current fun _ _ => consumes_fail _

section

variable {inner : Parser Expr} (hinner : Begins inner fun run e => e.Enclosed run)

include hinner

theorem begins_argumentsRest (fuel : Nat) :
    Begins (argumentsRest inner fuel) fun run es => Expr.Continued es run := by
  induction fuel with
  | zero => exact fun c => .pure .nil
  | succ fuel ih =>
      refine fun c => (begins_acceptSign .comma).then fun run takes hcomma =>
        .ite (fun h => ?_) fun h => ?_
      · obtain ⟨k, rfl, hk⟩ := hcomma.yes h
        refine hinner.then fun run e he => ih.then fun rest es hes => .pure ?_
        exact .cons hk he hes
      · obtain rfl := hcomma.no h
        exact .pure .nil

theorem begins_arguments : Begins (arguments inner) fun run es => Expr.Listed es run := by
  refine fun c => hinner.then fun run e he => .look fun fuel => ?_
  exact (begins_argumentsRest hinner fuel).then fun rest es hes => .pure (.intro he hes)

theorem consumes_callWith {later : List Token} (ht : c.tokens = t :: later)
    (hcall : t.kind = .keyword .call) :
    Consumes c [] (callWith inner) fun us v => (Expr.call v.1 v.2.1 v.2.2).Spans us := by
  refine .advance ht ((begins_expectIdentifier _ _).then ?_)
  rintro _ n ⟨rfl, hn⟩
  refine (begins_acceptKeyword .with_).then fun run takes hwith => ?_
  extract_lets rest
  refine .ite (fun h => ?_) fun h => ?_
  · obtain ⟨w, rfl, hw⟩ := hwith.yes h
    refine (begins_arguments hinner).then fun run es hes => ?_
    exact consumes_finish rfl fun span hspan => .callWith hcall hn hw hes hspan
  · obtain rfl := hwith.no h
    refine .current fun u _ => .ite (fun _ => ?_) fun _ => ?_
    · exact (consumes_fail (Q := fun _ _ => False) _).bind fun _ _ hfalse => hfalse.elim
    · change Consumes c [t, n] (rest []) _
      exact consumes_finish rfl fun span hspan => .call hcall hn hspan

theorem begins_primary : Begins (primary inner) fun run e => e.Enclosed run := by
  refine fun c => .current fun t ht => ?_
  have hleaf : ∀ {k : Token.Kind} {node : ExprNote → Expr}, t.kind = k → k ≠ .eof →
      (node ⟨t.span, none⟩).Spans [t] →
      Consumes c [] (leaf t node) fun us e => e.Enclosed us := by
    intro k node hkind hk hnode
    obtain ⟨later, hlater⟩ := ht.here hkind hk
    exact consumes_leaf hlater hnode
  have hspan := Span.over_singleton t
  split
  · next n hkind => exact hleaf hkind nofun (.literal hkind hspan)
  · next s hkind => exact hleaf hkind nofun (.literal hkind hspan)
  · next hkind => exact hleaf hkind nofun (.literal hkind hspan)
  · next hkind => exact hleaf hkind nofun (.literal hkind hspan)
  · next name hkind => exact hleaf hkind nofun (.variable (by rw [hkind]; rfl) hspan)
  · next hopen =>
      obtain ⟨later, hlater⟩ := ht.here hopen nofun
      refine .advance hlater (hinner.then fun run e he => (begins_expectSign _ _ _).then ?_)
      rintro _ k ⟨rfl, hk⟩
      exact .pure (.enclosed hopen he hk)
  · next hopen =>
      obtain ⟨later, hlater⟩ := ht.here hopen nofun
      refine .advance hlater (.current fun next _ => ?_)
      extract_lets rest
      refine .ite (fun _ => (begins_expectSign _ _ _).then ?_) fun _ =>
        (begins_arguments hinner).then fun run es hes => (begins_expectSign _ _ _).then ?_
      · rintro _ k ⟨rfl, hk⟩
        exact consumes_finish rfl fun span hspan => .bare (.empty hopen hk hspan)
      · rintro _ k ⟨rfl, hk⟩
        exact consumes_finish rfl fun span hspan => .bare (.list hopen hes hk hspan)
  · exact consumes_noExpression

omit hinner in
theorem consumes_selectionRest (fuel : Nat) {base : Expr} (hbase : base.Enclosed ts)
    (hstart : start ∈ ts.head?) :
    Consumes c ts (selectionRest start fuel base) fun us e => e.Enclosed us := by
  induction fuel generalizing base ts with
  | zero => exact .pure hbase
  | succ fuel ih =>
      refine .current fun d hd => .ite (fun h => ?_) fun _ => .pure hbase
      have hdot : d.kind = .sign .dot := of_decide_eq_true h
      obtain ⟨later, hlater⟩ := hd.here hdot nofun
      refine .advance hlater (.nested ((begins_expectIdentifier _ _).then ?_) d)
      rintro _ n ⟨rfl, hn⟩
      rw [List.append_assoc]
      have hhead : start ∈ (ts ++ ([d] ++ [n])).head? := List.mem_head?_append_of_mem_head? hstart
      refine .spanFrom hhead fun span hspan => .spend ?_
      exact ih (.bare (.field hbase hdot hn hspan)) hhead

theorem begins_selection : Begins (selection inner) fun run e => e.Enclosed run := by
  refine fun c => .current fun start hstart => (begins_primary hinner).then fun run base hbase => ?_
  refine .look fun fuel => .taken fun later hlater => ?_
  exact consumes_selectionRest fuel hbase (hstart.head hlater hbase.ne_nil)

theorem begins_application : Begins (application inner) fun run e => e.Enclosed run := by
  refine fun c => .current fun t ht => .second fun next hnext => ?_
  split
  · next hcall =>
      obtain ⟨later, hlater⟩ := ht.here hcall nofun
      refine (consumes_callWith hinner hlater hcall).bind fun us v hv => ?_
      exact .pure (.bare hv)
  · next name hname hof =>
      obtain ⟨later, hlater⟩ := ht.here hname nofun
      obtain ⟨rest, hrest⟩ := (hnext t later hlater).here hof nofun
      refine .advance hlater (.advance hrest ((begins_arguments hinner).then fun run es hes => ?_))
      refine consumes_finish rfl fun span hspan => .bare (.callOf ?_ hof hes hspan)
      rw [hname]
      rfl
  · exact begins_selection hinner c

/-! ### The rungs -/

theorem begins_unaryRung : Begins (unaryRung inner) fun run e => e.Enclosed run :=
  fun c => .look fun fuel => begins_prefixed (begins_application hinner) fuel c

theorem begins_additiveRung : Begins (additiveRung inner) fun run e => e.Enclosed run :=
  begins_chain (kinds_of_operator additiveOp? (by simp))
    (begins_chain (kinds_of_operator multiplicativeOp? (by simp)) (begins_unaryRung hinner))

theorem begins_comparisonRung : Begins (comparisonRung inner) fun run e => e.Enclosed run := by
  have hsum := begins_additiveRung hinner
  refine fun c => .current fun start hstart => hsum.then fun run left hleft => ?_
  refine .taken fun later hlater => begins_acceptComparison.then fun ops op? hops => ?_
  have hhead : start ∈ run.head? := hstart.head hlater hleft.ne_nil
  cases op? with
  | none =>
      obtain rfl := List.map_eq_nil_iff.mp hops
      exact .pure (by simpa using hleft)
  | some op =>
      refine hsum.then fun run' right hright => ?_
      refine (consumes_binary hleft hops hright hhead).bind fun us node hnode => ?_
      exact .current fun _ _ => .ite (fun _ => consumes_fail _) fun _ => .pure hnode.1

/-! ### Expressions -/

theorem begins_expressionWith : Begins (expressionWith inner) fun run e => e.Enclosed run :=
  fun c => .current fun start _ => .nested
    (begins_chain (kinds_of_operator orOp? (by simp))
      (begins_chain (kinds_of_operator andOp? (by simp)) (begins_comparisonRung hinner)) c) start

end

theorem begins_expressionUpTo (fuel : Nat) :
    Begins (expressionUpTo fuel) fun run e => e.Enclosed run := by
  induction fuel with
  | zero => exact begins_expressionWith fun _ => consumes_noExpression
  | succ fuel ih => exact begins_expressionWith ih

/-- An expression is read from its own tokens, and from parentheses around them. -/
theorem begins_expression : Begins expression fun run e => e.Enclosed run :=
  fun c => .look fun fuel => begins_expressionUpTo fuel c

theorem consumes_call {later : List Token} (ht : c.tokens = t :: later)
    (hcall : t.kind = .keyword .call) :
    Consumes c [] call fun us v => (Expr.call v.1 v.2.1 v.2.2).Spans us :=
  .look fun fuel => consumes_callWith (begins_expressionUpTo fuel) ht hcall

end Parser

end Prosaic
