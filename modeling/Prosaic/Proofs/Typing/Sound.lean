import Prosaic.Proofs.Grammar.Declaration
import Prosaic.Proofs.Typing.Check
import Prosaic.Proofs.Typing.Clean

/-!
The type check is sound. As no type in an accepted tree is in error, the conditions that the check
establishes at every node are those of the typing rules.
-/

namespace Prosaic

namespace TypeEnv

variable {env : TypeEnv} {w : Setting} (h : env.Reflects w.registry w.program)
  (hw : w.registry.ErrorFree)

section

variable {scope : Scope} {context : Context} (hagrees : scope.Agrees context)

/-! ### Expressions -/

include h

theorem assignable_rule {e : Expr} {actual expected : Ty} (he : HasType w context e actual)
    (hactual : actual.containsError = false) (hexpected : expected.containsError = false)
    (hassign : env.assignable e actual expected = true) : w.Assignable e actual expected := by
  unfold assignable at hassign
  rcases Bool.or_eq_true_iff.mp hassign with hsame | hliteral
  · rw [Ty.same_eq hactual hexpected hsame]
    exact .refl
  · split at hliteral
    · next value d hvalue hd =>
        obtain ⟨name, rfl, hallows⟩ := h.allows_domain hd hliteral
        unfold Expr.stringLiteral? at hvalue
        split at hvalue
        · cases hvalue
          cases he
          exact .literal hallows
        · cases hvalue
    · cases hliteral

theorem fits_rule {e : Expr} {expected : Ty} (he : ∀ t, e.ty? = some t → HasType w context e t)
    (hclean : e.NoError) (hexpected : expected.containsError = false)
    (hfits : env.Fits e expected) : Prosaic.Fits w context e expected := by
  obtain ⟨actual, hty, hassign⟩ := hfits
  have hactual := hclean actual hty
  exact .intro (he actual hty) (assignable_rule h (he actual hty) hactual hexpected hassign)

include hw

/-- A call that goes with what its name stands for is a conversion to a base type, or it passes what
its name asks for. -/
theorem call_rule {callee : Name} {args : List Expr} {target : Option CallTarget}
    {returns : Option Ty} (hfits : env.CallFits callee.text args target returns)
    (hargs : ∀ e ∈ args, (∀ t, e.ty? = some t → HasType w context e t) ∧ e.NoError) :
    (∃ b d arg, Base.ofText? callee.text = some b ∧ returns = some (.base b) ∧
        target = some .conversion ∧ args = [arg] ∧ HasType w context arg (.domain d) ∧
        w.Underlying d (.base b)) ∨
      ∃ kind parameters, w.Callable callee.text kind parameters returns ∧ target = some kind ∧
        List.Forall₂ (Prosaic.Fits w context) args parameters := by
  rcases callFits_cases hfits with
    ⟨b, arg, t, hbase, htarget, hreturns, rfl, hty, hunder⟩ |
      ⟨kind, parameters, hknown, htarget, hpassed⟩
  · obtain ⟨htyped, hclean⟩ := hargs arg List.mem_cons_self
    -- an argument in error would pass the check as well
    have hnoError : t.isError = false := by
      apply decide_eq_false
      rintro rfl
      cases hclean .error hty
    obtain ⟨d, rfl, hd⟩ := h.underlying?_domain (hunder.resolve_left (by simp [hnoError]))
    exact .inl ⟨b, d, arg, hbase, hreturns, htarget, rfl, htyped _ hty, hd⟩
  · have hcallable := h.callable_of_known hknown
    refine .inr ⟨kind, _, hcallable, htarget, ?_⟩
    have hparameters := (hcallable.clean hw).1
    have hboth := (List.forall₂_and_left _ _).mpr
      ⟨hparameters, ((List.forall₂_and_left _ _).mpr ⟨hargs, hpassed⟩).flip⟩
    exact (hboth.imp fun t e hte => fits_rule h hte.2.1.1 hte.2.1.2 hte.1 hte.2.2).flip

omit hw in
/-- Where the operands go with an operator as the check asks, the rule of the operator applies. -/
theorem binary_rule {op : BinaryOp} {left right : Expr} {leftTy rightTy t : Ty} {note : ExprNote}
    (hnote : note.ty = some t) (hleft : HasType w context left leftTy)
    (hright : HasType w context right rightTy) (hlty : leftTy.containsError = false)
    (hrty : rightTy.containsError = false)
    (hop : env.OperatorFits left right leftTy rightTy t op) :
    HasType w context (.binary op left right note) t := by
  have hleftAt : ∀ u, u.containsError = false → leftTy.same u = true → HasType w context left u :=
    fun u hu hsame => Ty.same_eq hlty hu hsame ▸ hleft
  have hrightAt : ∀ u, u.containsError = false → rightTy.same u = true →
      HasType w context right u := fun u hu hsame => Ty.same_eq hrty hu hsame ▸ hright
  cases op with
  | and | or =>
      obtain ⟨hlsame, hrsame, rfl⟩ := hop
      exact .logic (by simp) hnote (hleftAt _ rfl hlsame) (hrightAt _ rfl hrsame)
  | is | isNot =>
      obtain ⟨hassign, rfl⟩ := hop
      exact .equality (by simp) hnote hleft hright
        (hassign.imp (assignable_rule h hright hrty hlty) (assignable_rule h hleft hlty hrty))
  | less | greater | lessEqual | greaterEqual =>
      obtain ⟨⟨hlsame, hrsame⟩ | ⟨hlsame, hrsame⟩, rfl⟩ := hop
      · exact .order (b := .number) (by simp) (by simp) hnote (hleftAt _ rfl hlsame)
          (hrightAt _ rfl hrsame)
      · exact .order (b := .dateTime) (by simp) (by simp) hnote (hleftAt _ rfl hlsame)
          (hrightAt _ rfl hrsame)
  | add =>
      obtain ⟨sum, hsum, hlsame, hrsame, hu⟩ := hop
      rw [if_neg (by simp [hlty])] at hu
      subst hu
      rcases hsum with rfl | rfl
      · exact .add (b := .number) (by simp) hnote (hleftAt _ rfl hlsame) (hrightAt _ rfl hrsame)
      · exact .add (b := .string) (by simp) hnote (hleftAt _ rfl hlsame) (hrightAt _ rfl hrsame)
  | subtract | multiply | divide =>
      obtain ⟨hlsame, hrsame, rfl⟩ := hop
      exact .arithmetic (by simp) hnote (hleftAt _ rfl hlsame) (hrightAt _ rfl hrsame)

include hagrees

/-- Where the check accepts all nodes of an expression and none of their types is in error, the
expression has the type that it carries. -/
theorem hasType_of_accepts {e : Expr} (haccepts : e.Everywhere (env.Accepts scope))
    (hclean : e.Everywhere Expr.NoError) {t : Ty} (ht : e.ty? = some t) :
    HasType w context e t := by
  have htyped : t.containsError = false := hclean.here t ht
  -- an operand that the check compares with a type has that type
  have hoperand : ∀ {e : Expr} {t u : Ty}, e.Everywhere Expr.NoError → e.ty? = some t →
      u.containsError = false → t.same u = true → e.ty? = some u := by
    intro e t u he ht hu hsame
    rw [ht, Ty.same_eq (he.here t ht) hu hsame]
  induction e generalizing t with
  | literal value note =>
      have hnote : note.ty = some (literalType value) := haccepts
      obtain rfl : literalType value = t := Option.some.inj (hnote.symm.trans ht)
      cases value with
      | string value => exact .string hnote
      | number n => exact .number hnote
      | boolean b => exact .boolean hnote
  | var name note =>
      obtain ⟨b, hb, hnote⟩ : ∃ b, scope.lookup name = some b ∧ note.ty = some b.ty := haccepts
      obtain rfl : b.ty = t := Option.some.inj (hnote.symm.trans ht)
      have hname := hagrees name
      rw [hb, Option.map_some] at hname
      exact .bound hnote hname.symm
  | list es note ih =>
      obtain ⟨hlist, helements⟩ := haccepts
      rw [Expr.everywhereIn_iff] at helements
      have hes := Expr.everywhereIn_iff.mp hclean.2
      rcases hlist with ⟨elementTy, hnote, hfits⟩ | ⟨-, hnote⟩
      · obtain rfl : Ty.list elementTy = t := Option.some.inj (hnote.symm.trans ht)
        refine .list hnote fun e he => ?_
        have hvalue : ∀ u, e.ty? = some u → HasType w context e u :=
          fun u hu => ih e he (helements e he) (hes e he) hu ((hes e he).here u hu)
        exact fits_rule h hvalue (hes e he).here htyped (hfits e he)
      · obtain rfl : Ty.error = t := Option.some.inj (hnote.symm.trans ht)
        cases htyped
  | unary op e note ih =>
      cases op with
      | not =>
          obtain ⟨⟨hnote, u, hu, hsame⟩, hall⟩ := haccepts
          obtain rfl : Ty.boolean = t := Option.some.inj (hnote.symm.trans ht)
          have hty := hoperand hclean.2 hu rfl hsame
          exact .not hnote (ih hall hclean.2 hty rfl)
      | negate =>
          obtain ⟨⟨hnote, u, hu, hsame⟩, hall⟩ := haccepts
          obtain rfl : Ty.number = t := Option.some.inj (hnote.symm.trans ht)
          have hty := hoperand hclean.2 hu rfl hsame
          exact .negate hnote (ih hall hclean.2 hty rfl)
  | binary op l r note ihl ihr =>
      obtain ⟨⟨leftTy, rightTy, u, hl, hr, hnote, hop⟩, hlall, hrall⟩ := haccepts
      obtain rfl : u = t := Option.some.inj (hnote.symm.trans ht)
      obtain ⟨-, hlclean, hrclean⟩ := hclean
      have hlty := hlclean.here leftTy hl
      have hrty := hrclean.here rightTy hr
      have hleft := ihl hlall hlclean hl hlty
      have hright := ihr hrall hrclean hr hrty
      exact binary_rule h hnote hleft hright hlty hrty hop
  | call f args note ih =>
      obtain ⟨⟨u, hnote, hfits⟩, hall⟩ := haccepts
      obtain rfl : u = t := Option.some.inj (hnote.symm.trans ht)
      rw [Expr.everywhereIn_iff] at hall
      have hargs := Expr.everywhereIn_iff.mp hclean.2
      have hvalue : ∀ e ∈ args, (∀ u, e.ty? = some u → HasType w context e u) ∧ e.NoError :=
        fun e he => ⟨fun u hu => ih e he (hall e he) (hargs e he) hu ((hargs e he).here u hu),
          (hargs e he).here⟩
      rcases call_rule h hw hfits hvalue with
        ⟨b, d, arg, hbase, hreturns, htarget, rfl, harg, hd⟩ | ⟨kind, ps, hcallee, htarget, hpassed⟩
      · cases hreturns
        exact .toBase hbase hnote htarget harg hd
      · exact .call hcallee hnote htarget hpassed
  | field e name note ih =>
      obtain ⟨⟨baseTy, u, hbase, hnote, hfield⟩, hall⟩ := haccepts
      obtain rfl : u = t := Option.some.inj (hnote.symm.trans ht)
      have hclean' := hclean.2.here baseTy hbase
      rcases hfield with ⟨rfl, -⟩ | ⟨r, hr, hfield⟩
      · cases hclean'
      · obtain ⟨record, rfl, hfield⟩ := h.hasField_record hr hfield
        exact .field hnote (ih hall hclean.2 hbase hclean') hfield

/-! ### Statements -/

theorem unused_of_accepts {e : Expr} (haccepts : env.AcceptsUnused scope e)
    (hclean : e.Everywhere Expr.NoError) : Unused w context e := by
  have hvalue : e.Everywhere (env.Accepts scope) → Unused w context e := by
    intro hall
    obtain ⟨t, ht⟩ := exists_ty?_of_accepts hall.here
    exact .value (hasType_of_accepts h hw hagrees hall hclean ht)
  cases e with
  | call callee args note =>
      obtain ⟨hall, returns, hfits⟩ := haccepts
      have hargs := Expr.everywhereIn_iff.mp hclean.2
      have htyped : ∀ e ∈ args, (∀ t, e.ty? = some t → HasType w context e t) ∧ e.NoError :=
        fun e he => ⟨fun t => hasType_of_accepts h hw hagrees (hall e he) (hargs e he),
          (hargs e he).here⟩
      rcases call_rule h hw hfits htyped with
        ⟨b, d, arg, hbase, -, htarget, rfl, harg, hd⟩ | ⟨kind, ps, hcallee, htarget, hpassed⟩
      · exact .toBase hbase htarget harg hd
      · exact .call hcallee htarget hpassed
  | _ => exact hvalue haccepts

end

theorem blockTyped_of {fn : Enclosing} {ss : List Stmt}
    (hss : ∀ s ∈ ss, ∀ {scope : Scope} {context : Context}, scope.Agrees context →
      env.AcceptsStmt fn scope s → s.Everywhere Expr.NoError →
      ∃ next, StmtTyped w fn.returns context s next ∧ (after scope s).Agrees next)
    {scope : Scope} {context : Context} (hagrees : scope.Agrees context)
    (haccepts : env.AcceptsBlock fn scope ss) (hclean : Stmt.EverywhereIn Expr.NoError ss) :
    BlockTyped w fn.returns context ss := by
  induction ss generalizing scope context with
  | nil => exact .nil
  | cons s ss ih =>
      obtain ⟨hs, hss⟩ := List.forall_mem_cons.mp hss
      obtain ⟨next, htyped, hnext⟩ := hs hagrees haccepts.1 hclean.1
      exact .cons htyped (ih hss hnext haccepts.2 hclean.2)

include h hw

/-- Where the check accepts a statement and no type in it is in error, the statement may stand in
the context, and what follows it stands in one that agrees with the scope behind it. -/
theorem stmtTyped_of_accepts {fn : Enclosing} (hfn : ∀ t ∈ fn.returns, t.containsError = false)
    {s : Stmt} {scope : Scope} {context : Context} (hagrees : scope.Agrees context)
    (haccepts : env.AcceptsStmt fn scope s) (hclean : s.Everywhere Expr.NoError) :
    ∃ next, StmtTyped w fn.returns context s next ∧ (after scope s).Agrees next := by
  have hcondition : ∀ {scope : Scope} {context : Context} {e : Expr}, scope.Agrees context →
      e.Everywhere (env.Accepts scope) → e.Everywhere Expr.NoError →
      (∃ t, e.ty? = some t ∧ t.same .boolean = true) → HasType w context e .boolean := by
    rintro scope context e hagrees hall hclean ⟨t, ht, hsame⟩
    rw [Ty.same_eq (hclean.here t ht) rfl hsame] at ht
    exact hasType_of_accepts h hw hagrees hall hclean ht
  induction s generalizing scope context with
  | bind name e span =>
      obtain ⟨hall, hbindable⟩ := haccepts
      obtain ⟨t, ht⟩ := exists_ty?_of_accepts hall.here
      have hclean : e.Everywhere Expr.NoError := hclean
      refine ⟨_, .bind (hasType_of_accepts h hw hagrees hall hclean ht), ?_⟩
      have hnext := hagrees.bind (b := ⟨name.text, t, some name.span⟩) hbindable.fresh
      rw [after, ht]
      exact hnext
  | branch c t span iht =>
      obtain ⟨hall, hboolean, hthen⟩ := haccepts
      refine ⟨context, .branch (hcondition hagrees hall hclean.1 hboolean) ?_, hagrees⟩
      exact blockTyped_of iht hagrees.child hthen hclean.2
  | branchOtherwise c t o span iht iho =>
      obtain ⟨hall, hboolean, hthen, hotherwise⟩ := haccepts
      refine ⟨context, .branchOtherwise (hcondition hagrees hall hclean.1 hboolean) ?_ ?_, hagrees⟩
      · exact blockTyped_of iht hagrees.child hthen hclean.2.1
      · exact blockTyped_of iho hagrees.child hotherwise hclean.2.2
  | forEach item e body span ih =>
      obtain ⟨hall, hbindable, t, hiterable, hbody⟩ := haccepts
      rcases hiterable with hlist | ⟨herror, -⟩
      · refine ⟨context, .forEach (t := t) ?_ ?_, hagrees⟩
        · exact hasType_of_accepts h hw hagrees hall hclean.1 hlist
        · exact blockTyped_of ih (hagrees.child.bind hbindable.fresh) hbody hclean.2
      · cases hclean.1.here .error herror
  | call name args note span =>
      exact ⟨context, .call (unused_of_accepts h hw hagrees haccepts hclean), hagrees⟩
  | returns value span =>
      cases value with
      | none => exact ⟨context, .returnNothing haccepts, hagrees⟩
      | some e =>
          obtain ⟨t, hreturns, hall, hfits⟩ := haccepts
          have hclean : e.Everywhere Expr.NoError := hclean
          refine ⟨context, .returnValue hreturns ?_, hagrees⟩
          exact fits_rule h (fun u => hasType_of_accepts h hw hagrees hall hclean) hclean.here
            (hfn t hreturns) hfits
  | expression e span =>
      exact ⟨context, .expression (unused_of_accepts h hw hagrees haccepts hclean), hagrees⟩

/-- Where the check accepts a function as it is declared and no type in its body is in error, the
body goes with the declaration. -/
theorem functionTyped_of_accepts {f : FunctionDecl} {s : Signature}
    (hs : SignatureDenoted w.type? f s) (haccepts : env.AcceptsFunction f s)
    (hclean : Stmt.EverywhereIn Expr.NoError f.body) : FunctionTyped w f := by
  have hreturns := (Setting.signature_clean hw hs).returns
  refine ⟨s, hs, ?_⟩
  exact blockTyped_of (fun s _ _ _ => stmtTyped_of_accepts h hw hreturns)
    (parameterFrame_agrees hs.parameters) haccepts.body hclean

end TypeEnv

/-! ### The check of a program -/

section

variable {w : Setting} {budget : Budget}
  (hfound : (w.program.checkTypes w.registry budget).result = .ok []) (hw : w.registry.ErrorFree)

include hfound hw

/-- Where the check of a program that carries no types finds nothing, no type in the result is in
error. -/
theorem Program.checkTypes_clean
    (hp : ∀ d ∈ w.program.declarations, ∀ f ∈ d.function?, ∀ s ∈ f.body,
      s.Everywhere fun e => e.ty? = none) :
    (w.program.checkTypes w.registry budget).program.Everywhere Expr.NoError := by
  obtain ⟨hreflects, hsignatures, -⟩ := checkTypes_accepts hfound
  rw [hreflects.type?_eq] at hsignatures
  simp only [checkTypes] at hfound ⊢
  split at hfound
  · cases hfound
  · next htime =>
      obtain ⟨-, hbodies⟩ := List.append_eq_nil_iff.mp (Except.ok.inj hfound)
      exact TypeEnv.checkDecls_clean hreflects hw hsignatures hp hbodies htime

/-- Where the check of a program finds nothing and writes no type that is in error, the functions go
with the typing rules. -/
theorem Program.checkTypes_typed
    (hclean : (w.program.checkTypes w.registry budget).program.Everywhere Expr.NoError) :
    ∀ f ∈ (w.program.checkTypes w.registry budget).program.functions, FunctionTyped w f := by
  obtain ⟨hreflects, hsignatures, haccepts⟩ := checkTypes_accepts hfound
  rw [hreflects.type?_eq] at hsignatures
  have hdeclared := (w.program.sameBare_checkTypes w.registry budget).signatures hsignatures
  have htyped := List.Forall₂.mp (fun f s hs ha => And.intro
    (TypeEnv.functionTyped_of_accepts hreflects hw hs ha) ha) hdeclared haccepts
  exact fun f hf => ((List.forall₂_and_left _ _).mp htyped).1 f hf (hclean f hf)

end

/-- The type check is sound. Where it finds nothing in a program that was read, it writes no type
that is in error into the tree and changes nothing else there, and all functions go with the typing
rules. Every registry that is made from a document is free of errors
(`Registry.ofDocument_errorFree`). -/
theorem checkTypes_sound {source : String} {tokens : List Token} {limits : Budget} {r : Reading}
    {registry : Registry} {budget : Budget} (hscan : Token.scan source = .ok tokens)
    (hread : Program.read tokens limits = some r) (hregistry : registry.ErrorFree)
    (hfound : (r.program.checkTypes registry budget).result = .ok []) :
    (r.program.checkTypes registry budget).program.SameBare r.program ∧
      (r.program.checkTypes registry budget).program.Everywhere Expr.NoError ∧
      ∀ f ∈ (r.program.checkTypes registry budget).program.functions,
        FunctionTyped ⟨r.program, registry⟩ f := by
  obtain ⟨r', hr', hwellRead⟩ := Program.read_scanned hscan limits
  obtain rfl : r' = r := Option.some.inj (hr'.symm.trans hread)
  have huntyped : ∀ d ∈ r'.program.declarations, ∀ f ∈ d.function?, ∀ s ∈ f.body,
      s.Everywhere fun e => e.ty? = none := fun d hd f hf s hs =>
    ((hwellRead d hd).fresh f hf s hs).mono fun _ hfresh => hfresh.untyped
  have hclean := Program.checkTypes_clean (w := ⟨r'.program, registry⟩) hfound hregistry huntyped
  exact ⟨r'.program.sameBare_checkTypes registry budget, hclean,
    Program.checkTypes_typed (w := ⟨r'.program, registry⟩) hfound hregistry hclean⟩

/-- A function that asks whether one of its flags holds. -/
def anySource : String :=
  "Define function any taking flags as List of Boolean returning Boolean: For each " ++
    "flag in flags: If flag then: Return true. End if. End for. Return false. End function."

theorem checkTypes_anySource :
    ∃ tokens r, Token.scan anySource = .ok tokens ∧
      Program.read tokens (.start .standard .still) = some r ∧
      (r.program.checkTypes .empty r.budget).result = .ok [] ∧
      ∀ f ∈ (r.program.checkTypes .empty r.budget).program.functions,
        FunctionTyped ⟨r.program, .empty⟩ f := by
  have hrun : ((Token.scan anySource).toOption.any fun tokens =>
      (Program.read tokens (.start .standard .still)).any fun r =>
        (r.program.checkTypes .empty r.budget).result.toOption.any List.isEmpty) = true := by
    have hsource : anySource = .ofList _ := Token.append_eq_ofList rfl rfl
    rw [hsource, Token.scan_ofList]
    decide +kernel
  obtain ⟨tokens, hscan, hrun⟩ := any_toOption.mp hrun
  obtain ⟨r, hread, hrun⟩ := (Option.any_eq_true _ _).mp hrun
  obtain ⟨found, hfound, hnone⟩ := any_toOption.mp hrun
  rw [List.isEmpty_iff] at hnone
  subst hnone
  have hempty : Registry.empty.ErrorFree := by constructor <;> exact List.forall_mem_nil _
  exact ⟨tokens, r, hscan, hread, hfound, (checkTypes_sound hscan hread hempty hfound).2.2⟩

end Prosaic
