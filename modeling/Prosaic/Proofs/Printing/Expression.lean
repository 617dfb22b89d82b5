import Prosaic.Proofs.Printing.Tokens
import Prosaic.Proofs.Program.Bare

/-!
Printed expressions are read back. An expression in parentheses is an operand of every rung, in
front of anything that binds less tightly than that rung's operators; without its parentheses it is
read by the rung of its operator, and so by the whole ladder, in front of anything that cannot
continue it.
-/

namespace Prosaic

open Token (Kind)

/-- How tightly the operator binds that a token is; zero if it is none. -/
def Token.Kind.rank : Kind → Nat
  | .keyword .or => 1
  | .keyword .and => 2
  | .keyword .is | .sign .less | .sign .greater | .sign .lessEqual | .sign .greaterEqual => 3
  | .sign .plus | .sign .minus => 4
  | .sign .star | .sign .slash => 5
  | .sign .dot => 6
  | _ => 0

/-- What cannot continue an expression or a list of arguments. -/
structure Token.Kind.Ends (k : Kind) : Prop where
  rank : k.rank = 0
  comma : k ≠ .sign .comma
  of : k ≠ .keyword .of
  with_ : k ≠ .keyword .with_

theorem Token.Kind.Ends.rank_ne {k : Kind} (h : k.Ends) {r : Nat} (hr : 0 < r) : k.rank ≠ r := by
  rw [h.rank]
  omega

/-- Two expressions that differ in nothing but where they stand. -/
def Expr.Like (e e' : Expr) : Prop := e'.spanless = e.spanless

namespace Parser

variable {α : Type}

/-- A parser takes some tokens in front of anything that `F` holds of. -/
def Accepts (c : Nat) (p : Parser α) (F : Kind → Prop) (ks : List Kind) (R : α → Prop) : Prop :=
  ∀ follow bs, F (follow.headD .eof) → Goes c p (ks ++ follow) bs R follow bs

variable {c c₁ c₂ r : Nat} {F : Kind → Prop} {ks ks₁ ks₂ : List Kind} {bs : List Block}

theorem Accepts.weaken {p : Parser α} {G : Kind → Prop} {R : α → Prop} (h : Accepts c p F ks R)
    (hF : ∀ k, G k → F k) : Accepts c p G ks R :=
  fun follow bs hfollow => h follow bs (hF _ hfollow)

/-! ### Chains of operators -/

/-- The operators of a rung all bind equally tightly. -/
def OfRank (r : Nat) (operator : Token → Option BinaryOp) : Prop :=
  ∀ t op, operator t = some op → t.kind.rank = r

theorem orOp?_ofRank : OfRank 1 orOp? := by
  intro t op h
  unfold orOp? at h
  split at h
  · next hkind => rw [hkind]; rfl
  · cases h

theorem andOp?_ofRank : OfRank 2 andOp? := by
  intro t op h
  unfold andOp? at h
  split at h
  · next hkind => rw [hkind]; rfl
  · cases h

theorem orderOp?_ofRank : OfRank 3 orderOp? := by
  intro t op h
  unfold orderOp? at h
  split at h
  iterate 4
    · next hkind => rw [hkind]; rfl
  · cases h

theorem additiveOp?_ofRank : OfRank 4 additiveOp? := by
  intro t op h
  unfold additiveOp? at h
  split at h
  iterate 2
    · next hkind => rw [hkind]; rfl
  · cases h

theorem multiplicativeOp?_ofRank : OfRank 5 multiplicativeOp? := by
  intro t op h
  unfold multiplicativeOp? at h
  split at h
  iterate 2
    · next hkind => rw [hkind]; rfl
  · cases h

theorem OfRank.eq_none {operator : Token → Option BinaryOp} (h : OfRank r operator) {t : Token}
    (ht : t.kind.rank ≠ r) : operator t = none := by
  cases hop : operator t with
  | none => rfl
  | some op => exact absurd (h t op hop) ht

section

variable {operator : Token → Option BinaryOp} {operand : Parser Expr} {R : Expr → Prop}

/-- Where no operator of its rung comes next, a chain ends. -/
theorem goes_chainRest (hoperator : OfRank r operator) (hks : (ks.headD .eof).rank ≠ r)
    (start : Token) (fuel : Nat) {left : Expr} (hleft : R left) :
    Goes 0 (chainRest operator operand start fuel left) ks bs R ks bs := by
  cases fuel with
  | zero => exact .pure hleft
  | succ fuel =>
      refine goes_current.step fun t ht => ?_
      rw [hoperator.eq_none (ht.1 ▸ hks)]
      exact .pure hleft

theorem accepts_chain (hoperator : OfRank r operator) (hF : ∀ k, F k → k.rank ≠ r)
    (h : Accepts c operand F ks R) : Accepts c (chain operator operand) F ks R := by
  intro follow bs hfollow
  refine goes_current.step fun start _ => (h follow bs hfollow).last fun left hleft => ?_
  exact goes_remaining.step fun fuel _ => goes_chainRest hoperator (hF _ hfollow) start fuel hleft

theorem goes_binary (op : BinaryOp) {left right l r : Expr} (hleft : l.Like left)
    (hright : r.Like right) (start : Token) {note : ExprNote} (hnote : note.ty = none) :
    Goes 1 (binary op left right start) ks bs (Expr.binary op l r note).Like ks bs := by
  refine goes_finish start fun span => ?_
  unfold Expr.Like at *
  simp [Expr.spanless, ExprNote.spanless, hleft, hright, hnote]

theorem accepts_chain_binary (hoperator : OfRank r operator) (hF : ∀ k, F k → k.rank ≠ r)
    {op : BinaryOp} {k : Kind} (hop : ∀ t, t.kind = k → operator t = some op) {left right : Expr}
    {note : ExprNote} (hnote : note.ty = none)
    (hleft : Accepts c₁ operand (·.rank ≤ r) ks₁ left.Like)
    (hright : Accepts c₂ operand F ks₂ right.Like) :
    Accepts (c₁ + (1 + (c₂ + 1))) (chain operator operand) F (ks₁ ++ (k :: ks₂))
      (Expr.binary op left right note).Like := by
  intro follow bs hfollow
  have hrank : k.rank ≤ r := Nat.le_of_eq (hoperator ⟨k, "", default⟩ op (hop _ rfl))
  rw [List.append_assoc, List.cons_append]
  refine goes_current.step fun start _ => ?_
  refine (hleft (k :: (ks₂ ++ follow)) bs hrank).bind fun e he => ?_
  refine goes_remaining.step fun fuel hfuel => ?_
  rw [hfuel, List.length_cons]
  refine goes_current.step fun t ht => ?_
  rw [hop t ht.1]
  refine goes_advance.step fun _ _ => .nested ?_ t
  refine (hright follow bs hfollow).bind fun e' he' => ?_
  refine (goes_binary op he he' start hnote).last fun node hnode => ?_
  exact goes_chainRest hoperator (hF _ hfollow) start _ hnode

end

/-! ### Prefixes and comparisons -/

/-- A token that starts an operand without a prefix. -/
def Unprefixed (k : Kind) : Prop := k ≠ .keyword .not ∧ k ≠ .sign .minus

theorem Unprefixed.prefixOp? {k : Kind} (h : Unprefixed k) {t : Token} (ht : t.kind = k) :
    prefixOp? t = none := by
  unfold Parser.prefixOp?
  split
  · next hkind => exact absurd (ht.symm.trans hkind) h.1
  · next hkind => exact absurd (ht.symm.trans hkind) h.2
  · rfl

section

variable {operand : Parser Expr} {R : Expr → Prop}

theorem accepts_prefixed {k : Kind} (hk : Unprefixed k)
    (h : Accepts c operand F (k :: ks) R) (fuel : Nat) :
    Accepts c (prefixed operand fuel) F (k :: ks) R := by
  cases fuel with
  | zero => exact h
  | succ fuel =>
      intro follow bs hfollow
      refine goes_current.step fun t ht => ?_
      rw [hk.prefixOp? ht.1]
      exact h follow bs hfollow

theorem accepts_prefixed_unary {op : UnaryOp} {k : Kind} (hk : Unprefixed k) {e : Expr}
    {note : ExprNote} (hnote : note.ty = none) (h : Accepts c operand F (k :: ks) e.Like)
    (fuel : Nat) :
    Accepts (1 + c + 1) (prefixed operand (fuel + 1)) F (op.kind :: k :: ks)
      (Expr.unary op e note).Like := by
  intro follow bs hfollow
  refine goes_current.step fun t ht => ?_
  have hop : prefixOp? t = some op := by
    have hkind : t.kind = op.kind := ht.1
    unfold Parser.prefixOp?
    cases op <;> rw [hkind] <;> rfl
  rw [hop]
  refine goes_advance.step fun _ _ => ?_
  refine ((accepts_prefixed hk h fuel follow bs hfollow).nested t).bind fun e' he' => ?_
  refine goes_finish t fun span => ?_
  unfold Expr.Like at *
  simp [Expr.spanless, ExprNote.spanless, he', hnote]

end

/-- A comparison operator, in front of an operand in parentheses. -/
theorem goes_acceptComparison {op : BinaryOp}
    (hop : op ∈ [.is, .isNot, .less, .greater, .lessEqual, .greaterEqual]) :
    Goes 0 acceptComparison (op.kinds ++ enclose ks ++ ks₁) bs (· = some op)
      (enclose ks ++ ks₁) bs := by
  have hparen : ∀ word, (enclose ks ++ ks₁).headD .eof ≠ .keyword word := by simp [enclose]
  have horder : ∀ k : Kind, (∀ t : Token, t.kind = k → orderOp? t = some op) →
      k ≠ .keyword .is → Goes 0 acceptComparison (k :: (enclose ks ++ ks₁)) bs (· = some op)
        (enclose ks ++ ks₁) bs := by
    intro k hk his
    have hnext : (k :: (enclose ks ++ ks₁)).headD .eof ≠ .keyword .is := his
    refine (goes_acceptKeyword_other hnext).step fun found hfound => ?_
    subst hfound
    refine goes_current.step fun t ht => ?_
    rw [hk t ht.1]
    exact goes_advance.step fun _ _ => .pure rfl
  simp only [List.mem_cons, List.not_mem_nil, or_false] at hop
  rcases hop with rfl | rfl | rfl | rfl | rfl | rfl
  · refine (goes_acceptKeyword .is).step fun found hfound => ?_
    subst hfound
    refine (goes_acceptKeyword_other (hparen .not)).step fun found hfound => ?_
    subst hfound
    exact .pure rfl
  · refine (goes_acceptKeyword .is).step fun found hfound => ?_
    subst hfound
    refine (goes_acceptKeyword .not).step fun found hfound => ?_
    subst hfound
    exact .pure rfl
  · exact horder (.sign .less) (fun t ht => by rw [orderOp?, ht]) (by simp)
  · exact horder (.sign .greater) (fun t ht => by rw [orderOp?, ht]) (by simp)
  · exact horder (.sign .lessEqual) (fun t ht => by rw [orderOp?, ht]) (by simp)
  · exact horder (.sign .greaterEqual) (fun t ht => by rw [orderOp?, ht]) (by simp)

/-- Where no comparison operator comes next, none is taken. -/
theorem goes_acceptComparison_none (h : (ks.headD .eof).rank ≠ 3) :
    Goes 0 acceptComparison ks bs (· = none) ks bs := by
  have his : ks.headD .eof ≠ .keyword .is := fun heq => h (by rw [heq]; rfl)
  refine (goes_acceptKeyword_other his).step fun found hfound => ?_
  subst hfound
  refine goes_current.step fun t ht => ?_
  rw [orderOp?_ofRank.eq_none (ht.1 ▸ h)]
  exact .pure rfl

/-! ### Rungs -/

section

variable {inner : Parser Expr} {R : Expr → Prop}

theorem accepts_unaryRung {k : Kind} (hk : Unprefixed k)
    (h : Accepts c (application inner) F (k :: ks) R) :
    Accepts c (unaryRung inner) F (k :: ks) R := fun follow bs hfollow =>
  goes_remaining.step fun fuel _ => accepts_prefixed hk h fuel follow bs hfollow

theorem accepts_termRung (hF : ∀ k, F k → k.rank ≠ 5) (h : Accepts c (unaryRung inner) F ks R) :
    Accepts c (termRung inner) F ks R := accepts_chain multiplicativeOp?_ofRank hF h

theorem accepts_additiveRung (hF : ∀ k, F k → k.rank ≠ 4) (h : Accepts c (termRung inner) F ks R) :
    Accepts c (additiveRung inner) F ks R := accepts_chain additiveOp?_ofRank hF h

theorem accepts_comparisonRung (hF : ∀ k, F k → k.rank ≠ 3)
    (h : Accepts c (additiveRung inner) F ks R) : Accepts c (comparisonRung inner) F ks R := by
  intro follow bs hfollow
  refine goes_current.step fun start _ => (h follow bs hfollow).last fun left hleft => ?_
  refine (goes_acceptComparison_none (hF _ hfollow)).step fun op hop => ?_
  subst hop
  exact .pure hleft

theorem accepts_comparisonRung_binary (hF : ∀ k, F k → k.rank ≠ 3) {op : BinaryOp}
    (hop : op ∈ [.is, .isNot, .less, .greater, .lessEqual, .greaterEqual]) {left right : Expr}
    {note : ExprNote} (hnote : note.ty = none)
    (hleft : Accepts c₁ (additiveRung inner) (·.rank ≤ 3) ks₁ left.Like)
    (hright : Accepts c₂ (additiveRung inner) F (enclose ks₂) right.Like) :
    Accepts (c₁ + (c₂ + 1)) (comparisonRung inner) F (ks₁ ++ (op.kinds ++ enclose ks₂))
      (Expr.binary op left right note).Like := by
  intro follow bs hfollow
  have hrank : ((op.kinds ++ enclose ks₂ ++ follow).headD .eof).rank ≤ 3 := by
    simp only [List.mem_cons, List.not_mem_nil, or_false] at hop
    rcases hop with rfl | rfl | rfl | rfl | rfl | rfl <;> exact Nat.le_refl 3
  rw [List.append_assoc]
  refine goes_current.step fun start _ => (hleft _ bs hrank).bind fun e he => ?_
  refine (goes_acceptComparison hop).step fun found hfound => ?_
  subst hfound
  refine (hright follow bs hfollow).bind fun e' he' => ?_
  refine (goes_binary op he he' start hnote).last fun node hnode => goes_current.step fun t ht => ?_
  have hnext : ¬(t.isKeyword .is || (orderOp? t).isSome) = true := by
    have hrank : t.kind.rank ≠ 3 := ht.1 ▸ hF _ hfollow
    have his : t.kind ≠ .keyword .is := fun heq => hrank (by rw [heq]; rfl)
    rw [orderOp?_ofRank.eq_none hrank, Option.isSome_none, Bool.or_false]
    simpa [Token.isKeyword] using his
  rw [if_neg hnext]
  exact .pure hnode

theorem accepts_andRung (hF : ∀ k, F k → k.rank ≠ 2) (h : Accepts c (comparisonRung inner) F ks R) :
    Accepts c (andRung inner) F ks R := accepts_chain andOp?_ofRank hF h

theorem accepts_orRung (hF : ∀ k, F k → k.rank ≠ 1) (h : Accepts c (andRung inner) F ks R) :
    Accepts c (chain orOp? (andRung inner)) F ks R := accepts_chain orOp?_ofRank hF h

theorem accepts_expressionWith (h : Accepts c (chain orOp? (andRung inner)) F ks R) :
    Accepts (1 + c) (expressionWith inner) F ks R := fun follow bs hfollow =>
  goes_current.step fun start _ => (h follow bs hfollow).nested start

end

/-! ### Operands in parentheses -/

section

variable {inner : Parser Expr} {R : Expr → Prop}

theorem goes_selectionRest (start : Token) (fuel : Nat) (hks : (ks.headD .eof).rank ≠ 6)
    {base : Expr} (hbase : R base) : Goes 0 (selectionRest start fuel base) ks bs R ks bs := by
  have hdot : ks.headD .eof ≠ .sign .dot := fun heq => hks (by rw [heq]; rfl)
  cases fuel with
  | zero => exact .pure hbase
  | succ fuel =>
      refine goes_current.step fun t ht => ?_
      rw [if_neg (by simpa [ht.isSign] using hdot)]
      exact .pure hbase

theorem accepts_primary_enclosed {follow : List Kind} (h : Accepts c inner Kind.Ends ks R) :
    Goes c (primary inner) (enclose ks ++ follow) bs R follow bs := by
  have hends : Kind.Ends (.sign .closeParen) := ⟨rfl, by simp, by simp, by simp⟩
  have hks : enclose ks ++ follow = .sign .openParen :: (ks ++ .sign .closeParen :: follow) := by
    simp [enclose]
  rw [hks]
  refine goes_current.step fun t ht => ?_
  have hkind : t.kind = .sign .openParen := ht.1
  simp only [hkind]
  refine goes_advance.step fun _ _ => ?_
  refine (h (.sign .closeParen :: follow) bs hends).last fun e he => ?_
  exact (goes_expectSign .closeParen _ _).step fun _ _ => .pure he

/-- A selection that starts with a parenthesis is no call. -/
theorem accepts_application_of_selection
    (h : Accepts c (selection inner) F (.sign .openParen :: ks) R) :
    Accepts c (application inner) F (.sign .openParen :: ks) R := by
  intro follow bs hfollow
  refine goes_current.step fun t ht => goes_second.step fun next _ => ?_
  have hkind : t.kind = .sign .openParen := ht.1
  simp only [hkind]
  exact h follow bs hfollow

theorem unprefixed_openParen : Unprefixed (.sign .openParen) := ⟨by simp, by simp⟩

/-! What the whole ladder reads without parentheses, every rung reads in parentheses. -/

variable (h : Accepts c inner Kind.Ends ks R)

include h

theorem enclosed_application : Accepts c (application inner) (·.rank < 6) (enclose ks) R := by
  refine accepts_application_of_selection fun follow bs hfollow => ?_
  refine goes_current.step fun start _ => (accepts_primary_enclosed h).last fun e he => ?_
  exact goes_remaining.step fun fuel _ => goes_selectionRest start fuel (by omega) he

theorem enclosed_unaryRung : Accepts c (unaryRung inner) (·.rank < 6) (enclose ks) R :=
  accepts_unaryRung unprefixed_openParen (enclosed_application h)

theorem enclosed_termRung : Accepts c (termRung inner) (·.rank < 5) (enclose ks) R :=
  accepts_termRung (fun _ hk => by omega) ((enclosed_unaryRung h).weaken fun _ hk => by omega)

theorem enclosed_additiveRung : Accepts c (additiveRung inner) (·.rank < 4) (enclose ks) R :=
  accepts_additiveRung (fun _ hk => by omega) ((enclosed_termRung h).weaken fun _ hk => by omega)

theorem enclosed_comparisonRung : Accepts c (comparisonRung inner) (·.rank < 3) (enclose ks) R :=
  accepts_comparisonRung (fun _ hk => by omega)
    ((enclosed_additiveRung h).weaken fun _ hk => by omega)

theorem enclosed_andRung : Accepts c (andRung inner) (·.rank < 2) (enclose ks) R :=
  accepts_andRung (fun _ hk => by omega) ((enclosed_comparisonRung h).weaken fun _ hk => by omega)

theorem enclosed_expressionWith :
    Accepts (1 + c) (expressionWith inner) (·.rank < 1) (enclose ks) R :=
  accepts_expressionWith (accepts_orRung (fun _ hk => by omega)
    ((enclosed_andRung h).weaken fun _ hk => by omega))

end

/-! ### Up the ladder -/

section

variable {inner : Parser Expr} {R : Expr → Prop}

theorem ladder_of_orRung (h : Accepts c (chain orOp? (andRung inner)) Kind.Ends ks R) :
    Accepts (1 + c) (expressionWith inner) Kind.Ends ks R := accepts_expressionWith h

theorem ladder_of_andRung (h : Accepts c (andRung inner) Kind.Ends ks R) :
    Accepts (1 + c) (expressionWith inner) Kind.Ends ks R :=
  ladder_of_orRung (accepts_orRung (fun _ hk => hk.rank_ne (by omega)) h)

theorem ladder_of_comparisonRung (h : Accepts c (comparisonRung inner) Kind.Ends ks R) :
    Accepts (1 + c) (expressionWith inner) Kind.Ends ks R :=
  ladder_of_andRung (accepts_andRung (fun _ hk => hk.rank_ne (by omega)) h)

theorem ladder_of_additiveRung (h : Accepts c (additiveRung inner) Kind.Ends ks R) :
    Accepts (1 + c) (expressionWith inner) Kind.Ends ks R :=
  ladder_of_comparisonRung (accepts_comparisonRung (fun _ hk => hk.rank_ne (by omega)) h)

theorem ladder_of_termRung (h : Accepts c (termRung inner) Kind.Ends ks R) :
    Accepts (1 + c) (expressionWith inner) Kind.Ends ks R :=
  ladder_of_additiveRung (accepts_additiveRung (fun _ hk => hk.rank_ne (by omega)) h)

theorem ladder_of_unaryRung (h : Accepts c (unaryRung inner) Kind.Ends ks R) :
    Accepts (1 + c) (expressionWith inner) Kind.Ends ks R :=
  ladder_of_termRung (accepts_termRung (fun _ hk => hk.rank_ne (by omega)) h)

theorem ladder_of_application {k : Kind} (hk : Unprefixed k)
    (h : Accepts c (application inner) Kind.Ends (k :: ks) R) :
    Accepts (1 + c) (expressionWith inner) Kind.Ends (k :: ks) R :=
  ladder_of_unaryRung (accepts_unaryRung hk h)

end

/-! ### Literals and variables -/

section

variable {inner : Parser Expr}

theorem goes_leaf {k : Kind} (t : Token) {node : ExprNote → Expr} {e : Expr}
    (h : ∀ span, e.Like (node ⟨span, none⟩)) :
    Goes 1 (leaf t node) (k :: ks) bs e.Like ks bs :=
  goes_advance.step fun _ _ => (goes_countNode t).bind fun _ _ => .pure (h _)

/-- A primary is a selection and an application in front of what ends an expression. -/
theorem accepts_application_of_primary {k : Kind} (hcall : k ≠ .keyword .call) {e : Expr}
    (h : ∀ follow bs, Kind.Ends (follow.headD .eof) →
      Goes c (primary inner) (k :: ks ++ follow) bs e.Like follow bs)
    (hof : ∀ name, k = .identifier name → ks = []) :
    Accepts c (application inner) Kind.Ends (k :: ks) e.Like := by
  intro follow bs hfollow
  refine goes_current.step fun t ht => goes_second.step fun next hnext => ?_
  have hselection : Goes c (selection inner) (k :: ks ++ follow) bs e.Like follow bs := by
    refine goes_current.step fun start _ => (h follow bs hfollow).last fun e' he' => ?_
    have hrank : (follow.headD .eof).rank ≠ 6 := hfollow.rank_ne (by omega)
    exact goes_remaining.step fun fuel _ => goes_selectionRest start fuel hrank he'
  have hkind : t.kind = k := ht.1
  split
  · next hword => exact absurd (hkind.symm.trans hword) hcall
  · next name hname hword =>
      -- a name in front of `of` would be a call, but nothing like it follows
      rw [hof name (hkind.symm.trans hname)] at hnext
      have hnext : next.kind = follow.headD .eof := hnext
      exact absurd (hnext.symm.trans hword) hfollow.of
  · exact hselection

theorem accepts_literal (value : Literal) {note : ExprNote} (hnote : note.ty = none) :
    Accepts 1 (application inner) Kind.Ends [value.kind] (Expr.literal value note).Like := by
  have hlike : ∀ span, (Expr.literal value note).Like (.literal value ⟨span, none⟩) := by
    intro span
    simp [Expr.Like, Expr.spanless, ExprNote.spanless, hnote]
  refine accepts_application_of_primary ?_ (fun follow bs _ => ?_) ?_
  · rcases value with n | s | b | b <;> simp [Literal.kind]
  · refine goes_current.step fun t ht => ?_
    have hkind : t.kind = value.kind := ht.1
    rcases value with n | s | b | b <;> simp only [hkind, Literal.kind] <;>
      exact goes_leaf t hlike
  · intro _ _
    rfl

theorem accepts_variable (name : String) {note : ExprNote} (hnote : note.ty = none) :
    Accepts 1 (application inner) Kind.Ends [.identifier name] (Expr.variable name note).Like := by
  refine accepts_application_of_primary (by simp) (fun follow bs _ => ?_) fun _ _ => rfl
  refine goes_current.step fun t ht => ?_
  have hkind : t.kind = .identifier name := ht.1
  have hlexeme : t.lexeme = name := ht.lexeme
  simp only [hkind, hlexeme]
  refine goes_leaf t fun span => ?_
  simp [Expr.Like, Expr.spanless, ExprNote.spanless, hnote]

/-! ### Fields -/

theorem accepts_field {base : Expr} (h : Accepts c inner Kind.Ends base.inside base.Like)
    (name : Name) {note : ExprNote} (hnote : note.ty = none) :
    Accepts (c + (1 + 1)) (application inner) Kind.Ends
      (enclose base.inside ++ [.sign .dot, .identifier name.text])
      (Expr.field base name note).Like := by
  refine accepts_application_of_selection fun follow bs hfollow => ?_
  have hks : enclose base.inside ++ [.sign .dot, .identifier name.text] ++ follow =
      enclose base.inside ++ (.sign .dot :: .identifier name.text :: follow) := by simp
  refine goes_current.step fun start _ => ?_
  change Goes _ _ (enclose base.inside ++ [.sign .dot, .identifier name.text] ++ follow) _ _ _ _
  rw [hks]
  refine (accepts_primary_enclosed h).bind fun e he => ?_
  refine goes_remaining.step fun fuel hfuel => ?_
  rw [hfuel, List.length_cons]
  refine goes_current.step fun t ht => ?_
  rw [if_pos (by simp [ht.isSign])]
  refine goes_advance.step fun _ _ => .nested ?_ t
  refine (goes_expectIdentifier name.text _ _).step fun field hfield => ?_
  refine (goes_spanFrom start).step fun span _ => (goes_countNode start).last fun _ _ => ?_
  refine goes_selectionRest start _ (hfollow.rank_ne (by omega)) ?_
  unfold Expr.Like at *
  simp [Expr.spanless, ExprNote.spanless, Name.spanless, nameOf, he, hfield, hnote]

end

/-! ### Arguments -/

/-- With so much room, an expression in parentheses is read wherever it may be nested deep
enough. -/
def Reread (c : Nat) (e : Expr) : Prop :=
  ∀ n, e.inside.length < n → Accepts c (expressionUpTo n) (·.rank < 1) e.kinds e.Like

/-- What ends a list of expressions. -/
def EndsList (k : Kind) : Prop := k.rank < 1 ∧ k ≠ .sign .comma

theorem goes_argumentsRest {es : List Expr} (hes : ∀ e ∈ es, ∃ c, Reread c e) :
    ∃ c, ∀ n fuel, (∀ e ∈ es, e.inside.length < n) → es.length ≤ fuel →
      Accepts c (argumentsRest (expressionUpTo n) fuel) EndsList (Expr.continued es)
        fun es' => Expr.allSpanless es' = Expr.allSpanless es := by
  induction es with
  | nil =>
      refine ⟨0, fun n fuel _ _ follow bs hfollow => ?_⟩
      cases fuel with
      | zero => exact .pure rfl
      | succ fuel =>
          refine (goes_acceptSign_other hfollow.2).step fun more hmore => ?_
          subst hmore
          exact .pure rfl
  | cons e es ih =>
      obtain ⟨hfirst, hrest⟩ := List.forall_mem_cons.mp hes
      obtain ⟨c₁, hfirst⟩ := hfirst
      obtain ⟨c₂, hrest⟩ := ih hrest
      refine ⟨c₁ + c₂, fun n fuel hn hfuel follow bs hfollow => ?_⟩
      obtain ⟨hn₁, hn₂⟩ := List.forall_mem_cons.mp hn
      cases fuel with
      | zero => simp at hfuel
      | succ fuel =>
          have hnext : ((Expr.continued es ++ follow).headD .eof).rank < 1 := by
            cases es with
            | nil => exact hfollow.1
            | cons e' es => exact Nat.zero_lt_one
          have hks : Expr.continued (e :: es) ++ follow =
              .sign .comma :: (enclose e.inside ++ (Expr.continued es ++ follow)) := by
            simp [Expr.continued]
          rw [hks]
          refine (goes_acceptSign .comma).step fun more hmore => ?_
          rw [if_pos hmore]
          refine (hfirst n hn₁ _ bs hnext).bind fun e' he' => ?_
          have hlength : es.length ≤ fuel := by simpa using hfuel
          refine (hrest n fuel hn₂ hlength follow bs hfollow).last fun es' hes' => .pure ?_
          exact congrArg₂ List.cons he' hes'

theorem goes_arguments {e : Expr} {es : List Expr} (hes : ∀ x ∈ e :: es, ∃ c, Reread c x) :
    ∃ c, ∀ n, (∀ x ∈ e :: es, x.inside.length < n) →
      Accepts c (arguments (expressionUpTo n)) EndsList (Expr.listed (e :: es))
        fun es' => Expr.allSpanless es' = Expr.allSpanless (e :: es) := by
  obtain ⟨hfirst, hrest⟩ := List.forall_mem_cons.mp hes
  obtain ⟨c₁, hfirst⟩ := hfirst
  obtain ⟨c₂, hrest⟩ := goes_argumentsRest hrest
  refine ⟨c₁ + c₂, fun n hn follow bs hfollow => ?_⟩
  obtain ⟨hn₁, hn₂⟩ := List.forall_mem_cons.mp hn
  have hnext : ((Expr.continued es ++ follow).headD .eof).rank < 1 := by
    cases es with
    | nil => exact hfollow.1
    | cons e' es => exact Nat.zero_lt_one
  change Goes _ _ (enclose e.inside ++ Expr.continued es ++ follow) _ _ _ _
  rw [List.append_assoc]
  refine (hfirst n hn₁ _ bs hnext).bind fun e' he' => ?_
  refine goes_remaining.step fun fuel hfuel => ?_
  have hlength : es.length ≤ fuel := by
    have hcontinued : es.length ≤ (Expr.continued es).length := by
      clear * -
      induction es with
      | nil => exact Nat.le_refl _
      | cons e es ih =>
          simp only [Expr.continued, List.length_cons, List.length_append]
          omega
    rw [hfuel, List.length_append]
    omega
  refine (hrest n fuel hn₂ hlength follow bs hfollow).last fun es' hes' => .pure ?_
  exact congrArg₂ List.cons he' hes'

/-! ### Lists and calls -/

theorem accepts_list {es : List Expr} (hes : ∀ e ∈ es, ∃ c, Reread c e) {note : ExprNote}
    (hnote : note.ty = none) :
    ∃ c, ∀ n, (∀ e ∈ es, e.inside.length < n) →
      Accepts c (application (expressionUpTo n)) Kind.Ends
        (.sign .openBracket :: (Expr.listed es ++ [.sign .closeBracket]))
        (Expr.list es note).Like := by
  have hlike : ∀ es' span, Expr.allSpanless es' = Expr.allSpanless es →
      (Expr.list es note).Like (.list es' ⟨span, none⟩) := by
    intro es' span hes'
    simp [Expr.Like, Expr.spanless, ExprNote.spanless, hes', hnote]
  have hend : ∀ {es' : List Expr} {start : Token} {follow : List Kind} {bs : List Block},
      Expr.allSpanless es' = Expr.allSpanless es → Goes 1 (do
        let _ ← expectSign .closeBracket "list literal"
          (some "Separate list elements with ',' and close with ']'.")
        let span ← spanFrom start
        countNode start
        return Expr.list es' ⟨span, none⟩) (.sign .closeBracket :: follow) bs
        (Expr.list es note).Like follow bs := fun hes' =>
    (goes_expectSign .closeBracket _ _).step fun _ _ =>
      goes_finish _ fun span => hlike _ span hes'
  cases es with
  | nil =>
      refine ⟨1, fun n _ => accepts_application_of_primary (by simp) (fun follow bs _ => ?_) ?_⟩
      · refine goes_current.step fun t ht => ?_
        have hkind : t.kind = .sign .openBracket := ht.1
        simp only [hkind]
        refine goes_advance.step fun _ _ => goes_current.step fun next hnext => ?_
        have hclose : next.isSign .closeBracket = true := by simp [hnext.isSign, Expr.listed]
        rw [if_pos hclose]
        exact Goes.step (.pure (Q := (· = [])) rfl) fun es' hes' => hend (hes' ▸ rfl)
      · simp
  | cons e es =>
      obtain ⟨c, hargs⟩ := goes_arguments hes
      refine ⟨c + 1,
        fun n hn => accepts_application_of_primary (by simp) (fun follow bs _ => ?_) ?_⟩
      · refine goes_current.step fun t ht => ?_
        have hkind : t.kind = .sign .openBracket := ht.1
        simp only [hkind]
        have hks : Kind.sign .openBracket ::
            (Expr.listed (e :: es) ++ [.sign .closeBracket]) ++ follow =
            .sign .openBracket :: (Expr.listed (e :: es) ++ (.sign .closeBracket :: follow)) := by
          simp
        rw [hks]
        refine goes_advance.step fun _ _ => goes_current.step fun next hnext => ?_
        have hopen : ¬next.isSign .closeBracket = true := by
          simp [hnext.isSign, Expr.listed, enclose]
        rw [if_neg hopen]
        have hlist : EndsList (.sign .closeBracket) := ⟨Nat.zero_lt_one, by simp⟩
        exact (hargs n hn (.sign .closeBracket :: follow) bs hlist).bind fun es' hes' => hend hes'
      · simp

theorem goes_callWith {callee : Name} {args : List Expr} (hargs : ∀ e ∈ args, ∃ c, Reread c e)
    {note : CallNote} (hnote : note.ty = none ∧ note.target = none ∧ note.purity = none) :
    ∃ c, ∀ n, (∀ e ∈ args, e.inside.length < n) →
      Accepts c (callWith (expressionUpTo n)) Kind.Ends (Expr.call callee args note).inside
        fun r => (Expr.call callee args note).Like (.call r.1 r.2.1 r.2.2) := by
  have hlike : ∀ {name : Token} {args' : List Expr} {span : Span}, name.lexeme = callee.text →
      Expr.allSpanless args' = Expr.allSpanless args →
      (Expr.call callee args note).Like (.call (nameOf name) args' ⟨span, none, none, none⟩) := by
    intro name args' span hname hargs'
    obtain ⟨hty, htarget, hpurity⟩ := hnote
    simp [Expr.Like, Expr.spanless, Name.spanless, CallNote.spanless, nameOf, hname, hargs', hty,
      htarget, hpurity]
  cases args with
  | nil =>
      refine ⟨1, fun n _ follow bs hfollow => ?_⟩
      refine goes_advance.step fun start _ => ?_
      refine (goes_expectIdentifier callee.text _ _).step fun name hname => ?_
      refine (goes_acceptKeyword_other hfollow.with_).step fun passes hpasses => ?_
      subst hpasses
      refine goes_current.step fun t ht => ?_
      rw [if_neg (by simpa [ht.isKeyword] using hfollow.of)]
      refine Goes.step (.pure (Q := (· = [])) rfl) fun args' hargs' => ?_
      exact goes_finish start fun span => hlike hname (hargs' ▸ rfl)
  | cons e es =>
      obtain ⟨c, hargs⟩ := goes_arguments hargs
      refine ⟨c + 1, fun n hn follow bs hfollow => ?_⟩
      have hks : (Expr.call callee (e :: es) note).inside ++ follow =
          .keyword .call :: .identifier callee.text :: .keyword .with_ ::
            (Expr.listed (e :: es) ++ follow) := by
        simp [Expr.inside, Expr.listed]
      rw [hks]
      refine goes_advance.step fun start _ => ?_
      refine (goes_expectIdentifier callee.text _ _).step fun name hname => ?_
      refine (goes_acceptKeyword .with_).step fun passes hpasses => ?_
      subst hpasses
      have hlist : EndsList (follow.headD .eof) :=
        ⟨by rw [hfollow.rank]; exact Nat.zero_lt_one, hfollow.comma⟩
      refine (hargs n hn follow bs hlist).bind fun args' hargs' => ?_
      exact goes_finish start fun span => hlike hname hargs'

theorem accepts_call {callee : Name} {args : List Expr} (hargs : ∀ e ∈ args, ∃ c, Reread c e)
    {note : CallNote} (hnote : note.ty = none ∧ note.target = none ∧ note.purity = none) :
    ∃ c, ∀ n, (∀ e ∈ args, e.inside.length < n) →
      Accepts c (application (expressionUpTo n)) Kind.Ends (Expr.call callee args note).inside
        (Expr.call callee args note).Like := by
  obtain ⟨c, hcall⟩ := @goes_callWith callee args hargs note hnote
  refine ⟨c, fun n hn follow bs hfollow => ?_⟩
  obtain ⟨ks, hks⟩ : ∃ ks, (Expr.call callee args note).inside = .keyword .call :: ks := by
    cases args with
    | nil => exact ⟨_, rfl⟩
    | cons e es => exact ⟨_, rfl⟩
  refine goes_current.step fun t ht => goes_second.step fun next _ => ?_
  have hkind : t.kind = .keyword .call := by
    have hhead := ht.1
    rw [hks] at hhead
    exact hhead
  simp only [hkind]
  exact (hcall n hn follow bs hfollow).last fun r hr => .pure hr

/-! ### Expressions -/

/-- With so much room, an expression without its parentheses is read wherever it may be nested deep
enough. -/
def RereadInside (c : Nat) (e : Expr) : Prop :=
  ∀ n, e.inside.length ≤ n → Accepts c (expressionUpTo n) Kind.Ends e.inside e.Like

theorem RereadInside.reread {e : Expr} (h : RereadInside c e) : Reread (1 + c) e := by
  intro n hn
  cases n with
  | zero => omega
  | succ n => exact enclosed_expressionWith (h n (Nat.le_of_lt_succ hn))

theorem length_enclose (ks : List Kind) : (enclose ks).length = ks.length + 2 := by
  simp [enclose]

theorem length_lt_continued {e : Expr} {es : List Expr} (h : e ∈ es) :
    e.inside.length + 2 < (Expr.continued es).length := by
  induction es with
  | nil => cases h
  | cons e' es ih =>
      simp only [Expr.continued, List.length_cons, List.length_append, length_enclose]
      rcases List.mem_cons.mp h with rfl | h
      · omega
      · have := ih h
        omega

theorem length_lt_listed {e : Expr} {es : List Expr} (h : e ∈ es) :
    e.inside.length + 1 < (Expr.listed es).length := by
  cases es with
  | nil => cases h
  | cons e' es =>
      simp only [Expr.listed, List.length_append, length_enclose]
      rcases List.mem_cons.mp h with rfl | h
      · omega
      · have := length_lt_continued h
        omega

theorem length_lt_call (callee : Name) {e : Expr} {args : List Expr} (h : e ∈ args)
    (note : CallNote) : e.inside.length + 4 < (Expr.call callee args note).inside.length := by
  cases args with
  | nil => cases h
  | cons e' es =>
      have := length_lt_listed h
      simp only [Expr.inside, Expr.listed, List.length_cons, List.length_append] at this ⊢
      omega

theorem rereadInside_unary {op : UnaryOp} {e : Expr} {note : ExprNote} (hnote : note.ty = none)
    (h : RereadInside c e) : RereadInside (1 + (1 + c + 1)) (.unary op e note) := by
  intro n hn
  simp only [Expr.inside, List.length_cons, length_enclose] at hn
  cases n with
  | zero => omega
  | succ n =>
      have hoperand := enclosed_application (h n (by omega))
      refine ladder_of_unaryRung fun follow bs hfollow => ?_
      refine goes_remaining.step fun fuel hfuel => ?_
      rw [hfuel]
      have hends := hoperand.weaken fun k (hk : Kind.Ends k) => by rw [hk.rank]; omega
      exact accepts_prefixed_unary unprefixed_openParen hnote hends _ follow bs hfollow

theorem rereadInside_binary {op : BinaryOp} {left right : Expr} {note : ExprNote}
    (hnote : note.ty = none) (hleft : RereadInside c₁ left) (hright : RereadInside c₂ right) :
    ∃ c, RereadInside c (.binary op left right note) := by
  suffices h : ∃ c, ∀ inner, Accepts c₁ inner Kind.Ends left.inside left.Like →
      Accepts c₂ inner Kind.Ends right.inside right.Like →
      Accepts c (expressionWith inner) Kind.Ends (Expr.binary op left right note).inside
        (Expr.binary op left right note).Like by
    obtain ⟨c, h⟩ := h
    refine ⟨c, fun n hn => ?_⟩
    simp only [Expr.inside, List.length_append, length_enclose] at hn
    cases n with
    | zero => omega
    | succ n => exact h _ (hleft n (by omega)) (hright n (by omega))
  have hends : ∀ {r : Nat}, 0 < r → ∀ k : Kind, k.Ends → k.rank < r :=
    fun hr k hk => by rw [hk.rank]; exact hr
  -- each operator is read by its rung, from operands of the rung below
  cases op with
  | or =>
      exact ⟨_, fun inner hl hr => ladder_of_orRung (accepts_chain_binary orOp?_ofRank
        (fun k hk => hk.rank_ne (by omega)) (fun t ht => by rw [orOp?, ht]) hnote
        ((enclosed_andRung hl).weaken fun k hk => by omega)
        ((enclosed_andRung hr).weaken (hends (by omega))))⟩
  | and =>
      exact ⟨_, fun inner hl hr => ladder_of_andRung (accepts_chain_binary andOp?_ofRank
        (fun k hk => hk.rank_ne (by omega)) (fun t ht => by rw [andOp?, ht]) hnote
        ((enclosed_comparisonRung hl).weaken fun k hk => by omega)
        ((enclosed_comparisonRung hr).weaken (hends (by omega))))⟩
  | is | isNot | less | greater | lessEqual | greaterEqual =>
      exact ⟨_, fun inner hl hr => ladder_of_comparisonRung (accepts_comparisonRung_binary
        (fun k hk => hk.rank_ne (by omega)) (by simp) hnote
        ((enclosed_additiveRung hl).weaken fun k hk => by omega)
        ((enclosed_additiveRung hr).weaken (hends (by omega))))⟩
  | add | subtract =>
      exact ⟨_, fun inner hl hr => ladder_of_additiveRung (accepts_chain_binary additiveOp?_ofRank
        (fun k hk => hk.rank_ne (by omega)) (fun t ht => by rw [additiveOp?, ht]) hnote
        ((enclosed_termRung hl).weaken fun k hk => by omega)
        ((enclosed_termRung hr).weaken (hends (by omega))))⟩
  | multiply | divide =>
      exact ⟨_, fun inner hl hr => ladder_of_termRung (accepts_chain_binary multiplicativeOp?_ofRank
        (fun k hk => hk.rank_ne (by omega)) (fun t ht => by rw [multiplicativeOp?, ht]) hnote
        ((enclosed_unaryRung hl).weaken fun k hk => by omega)
        ((enclosed_unaryRung hr).weaken (hends (by omega))))⟩

/-- Every expression about which nothing is known yet is read back. -/
theorem exists_rereadInside {e : Expr} (h : e.Everywhere Expr.Unnoted) :
    ∃ c, RereadInside c e := by
  induction e with
  | literal value note =>
      have hunprefixed : Unprefixed value.kind := by
        rcases value with n | s | b | b <;> exact ⟨by simp [Literal.kind], by simp [Literal.kind]⟩
      refine ⟨1 + 1, fun n hn => ?_⟩
      cases n with
      | zero => simp [Expr.inside] at hn
      | succ n => exact ladder_of_application hunprefixed (accepts_literal value h)
  | var name note =>
      refine ⟨1 + 1, fun n hn => ?_⟩
      cases n with
      | zero => simp [Expr.inside] at hn
      | succ n => exact ladder_of_application ⟨by simp, by simp⟩ (accepts_variable name h)
  | list es note ih =>
      obtain ⟨c, hlist⟩ := accepts_list (fun e he => by
        obtain ⟨c, hc⟩ := ih e he (Expr.everywhereIn_iff.mp h.2 e he)
        exact ⟨_, hc.reread⟩) h.1
      refine ⟨1 + c, fun n hn => ?_⟩
      simp only [Expr.inside, List.length_cons, List.length_append] at hn
      cases n with
      | zero => omega
      | succ n =>
          refine ladder_of_application ⟨by simp, by simp⟩ (hlist n fun e he => ?_)
          have := length_lt_listed he
          simp only [List.length_nil] at hn
          omega
  | unary op e note ih =>
      obtain ⟨c, hc⟩ := ih h.2
      exact ⟨_, rereadInside_unary h.1 hc⟩
  | binary op l r note ihl ihr =>
      obtain ⟨c₁, hl⟩ := ihl h.2.1
      obtain ⟨c₂, hr⟩ := ihr h.2.2
      exact rereadInside_binary h.1 hl hr
  | call callee args note ih =>
      obtain ⟨c, hcall⟩ := @accepts_call callee args (fun e he => by
        obtain ⟨c, hc⟩ := ih e he (Expr.everywhereIn_iff.mp h.2 e he)
        exact ⟨_, hc.reread⟩) note h.1
      have hcons : ∃ ks, (Expr.call callee args note).inside = .keyword .call :: ks := by
        cases args with
        | nil => exact ⟨_, rfl⟩
        | cons e es => exact ⟨_, rfl⟩
      obtain ⟨ks, hks⟩ := hcons
      refine ⟨1 + c, fun n hn => ?_⟩
      cases n with
      | zero => simp [hks] at hn
      | succ n =>
          have happlication := hcall n fun e he => by
            have := length_lt_call callee he note
            omega
          rw [hks] at happlication ⊢
          exact ladder_of_application ⟨by simp, by simp⟩ happlication
  | field e name note ih =>
      obtain ⟨c, hc⟩ := ih h.2
      refine ⟨1 + (c + (1 + 1)), fun n hn => ?_⟩
      simp only [Expr.inside, List.length_append, length_enclose] at hn
      cases n with
      | zero => omega
      | succ n =>
          exact ladder_of_application unprefixed_openParen
            (accepts_field (hc n (by omega)) name h.1)

theorem exists_reread {e : Expr} (h : e.AllFresh) : ∃ c, Reread c e := by
  obtain ⟨c, hc⟩ := exists_rereadInside (Expr.Everywhere.mono (fun _ he => he.unnoted) h)
  exact ⟨_, hc.reread⟩

theorem exists_accepts_expression {e : Expr} (h : e.AllFresh) :
    ∃ c, Accepts c expression (·.rank < 1) e.kinds e.Like := by
  obtain ⟨c, hc⟩ := exists_reread h
  refine ⟨c, fun follow bs hfollow => goes_remaining.step fun n hn => ?_⟩
  have hlength : e.inside.length < n := by
    rw [hn, List.length_append, Expr.kinds, length_enclose]
    omega
  exact hc n hlength follow bs hfollow

theorem exists_accepts_call {callee : Name} {args : List Expr} {note : CallNote}
    (h : (Expr.call callee args note).AllFresh) :
    ∃ c, Accepts c call Kind.Ends (Expr.call callee args note).inside
      fun r => (Expr.call callee args note).Like (.call r.1 r.2.1 r.2.2) := by
  have hargs : ∀ e ∈ args, ∃ c, Reread c e :=
    fun e he => exists_reread (Expr.everywhereIn_iff.mp h.2 e he)
  obtain ⟨c, hc⟩ := @goes_callWith callee args hargs note h.1.unnoted
  refine ⟨c, fun follow bs hfollow => goes_remaining.step fun n hn => ?_⟩
  refine hc n (fun e he => ?_) follow bs hfollow
  have := length_lt_call callee he note
  rw [hn, List.length_append]
  omega

end Parser

end Prosaic
