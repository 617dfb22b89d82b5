import Prosaic.Proofs.Typing.Findings
import Prosaic.Proofs.Typing.Places

/-!
Hints of the type check that propose a call. Whatever proposes one is about an expression at a place
where something is demanded, and is what the demand adds to the findings there: no other part of the
check gives such a hint.
-/

namespace Prosaic

open Diagnostic

/-! ### Proposals -/

/-- A type mismatch whose hint proposes to call something with the value. -/
structure Diagnostic.Proposes (d : Diagnostic) (name : String) : Prop where
  code : d.code = typeMismatch
  hint : d.hint = some ("Convert explicitly with '" ++ name ++ " of <value>'.") ∨
    ∃ actual expected : String, d.hint = some ("Use '" ++ name ++ " of <value>' to turn a "
      ++ actual ++ " into a " ++ expected ++ ".")

/-- A hint that proposes no call, as is seen by how it begins and which letters it has. -/
structure Unproposing (hint : String) : Prop where
  convert : ¬"Convert explicitly with '".toList <+: hint.toList
  use : ¬("Use '".toList <+: hint.toList ∧ 'v' ∈ hint.toList)

section

variable {d : Diagnostic} {name message : String} {start : Position}

theorem not_proposes_of_code (h : d.code ≠ typeMismatch) : ¬d.Proposes name :=
  fun hd => h hd.code

theorem TypeEnv.not_proposes_mismatch {hint : Option String} (h : ∀ t ∈ hint, Unproposing t) :
    ¬(mismatch message start hint).Proposes name := by
  rintro ⟨-, hhint | ⟨actual, expected, hhint⟩⟩
  · refine (h _ hhint).convert ?_
    simp
  · refine (h _ hhint).use ⟨?_, ?_⟩
    · simp
    · simp

end

/-- None of some findings proposes a call. -/
def ProposesNone (ds : List Diagnostic) : Prop := ∀ d ∈ ds, ∀ name, ¬d.Proposes name

theorem proposesNone_nil : ProposesNone [] := List.forall_mem_nil _

namespace TypeEnv

variable (env : TypeEnv) (scope : Scope)

theorem proposesNone_typeFinding {code : String} (h : code ≠ typeMismatch) (message : String)
    (start : Position) (hint : Option String) :
    ProposesNone [typeFinding code message start hint] :=
  List.forall_mem_singleton.mpr fun _ => not_proposes_of_code h

theorem proposesNone_mismatch {hint : Option String} (h : ∀ t ∈ hint, Unproposing t)
    (message : String) (start : Position) : ProposesNone [mismatch message start hint] :=
  List.forall_mem_singleton.mpr fun _ => not_proposes_mismatch h

theorem proposesNone_hintless (message : String) (start : Position) :
    ProposesNone [mismatch message start none] :=
  proposesNone_mismatch (fun _ h => absurd h (by simp)) message start

theorem proposesNone_hint {hint : String} (h : Unproposing hint) (message : String)
    (start : Position) : ProposesNone [mismatch message start (some hint)] :=
  proposesNone_mismatch (fun _ ht => Option.mem_some.mp ht ▸ h) message start

/-! ### Expressions -/

theorem proposesNone_variableType (name : String) (start : Position) :
    ProposesNone (env.variableType scope name start).2 := by
  unfold variableType
  split
  · exact proposesNone_nil
  · exact proposesNone_typeFinding (by decide) _ _ _

theorem proposesNone_fieldType (base : Ty) (name : Name) :
    ProposesNone (env.fieldType base name).2 := by
  unfold fieldType
  split
  · exact proposesNone_nil
  dsimp only
  split
  · exact proposesNone_hint (by constructor <;> simp) _ _
  split
  · exact proposesNone_nil
  · exact proposesNone_typeFinding (by decide) _ _ _

theorem proposesNone_booleanFindings (what : String) (v : Typing) :
    ProposesNone (booleanFindings what v) := by
  unfold booleanFindings
  split
  · exact proposesNone_nil
  · exact proposesNone_hint (by constructor <;> simp) _ _

theorem proposesNone_emptyListType (expected : Option Ty) (start : Position) :
    ProposesNone (emptyListType expected start).2 := by
  unfold emptyListType
  split
  · exact proposesNone_nil
  · exact proposesNone_nil
  · exact proposesNone_hint (by constructor <;> simp) _ _

theorem proposesNone_unknownCallee (name : Name) :
    ProposesNone [env.unknownCallee scope name] := by
  unfold unknownCallee
  dsimp only
  split
  · exact proposesNone_hint (by constructor <;> simp) _ _
  · exact proposesNone_typeFinding (by decide) _ _ _

theorem proposesNone_nothingFindings (name : Name) (parameters : List (String × Ty))
    (returns : Option Ty) (asValue : Bool) :
    ProposesNone (nothingFindings name parameters returns asValue) := by
  unfold nothingFindings
  split
  · exact proposesNone_hint (by constructor <;> simp) _ _
  · exact proposesNone_nil

theorem proposesNone_itemType (item : String) (iterable : Typing) :
    ProposesNone (itemType item iterable).2 := by
  unfold itemType
  split
  · exact proposesNone_nil
  · exact proposesNone_nil
  · exact proposesNone_hint (by constructor <;> simp) _ _

theorem proposesNone_bind (name : String) (t : Ty) (span : Span) :
    ProposesNone (env.bind scope name t span).2 := fun d hd _ =>
  not_proposes_of_code (env.code_ne_of_bind scope (by decide) name t span d hd)

theorem proposesNone_bindParameters (ps : List (Typed × Ty)) :
    ProposesNone (env.bindParameters scope ps).2 := fun d hd _ =>
  not_proposes_of_code (env.code_ne_of_bindParameters scope (by decide) ps d hd)

/-! ### Places of proposals -/

section

variable {env} {scope} {d : Diagnostic} {proposed : String}

theorem mem_elementFindings {vs : List Typing} {x : Option Ty} {t : Ty}
    (hd : d ∈ env.elementFindings t vs) :
    ∃ before v after, vs = before ++ v :: after ∧
      (d ∈ v.found ∨ d ∈ (Demand.element x t).found env v) := by
  induction vs with
  | nil => cases hd
  | cons v vs ih =>
      rw [elementFindings_cons env x, List.mem_append, List.mem_append] at hd
      rcases hd with hd | hd
      · exact ⟨[], v, vs, rfl, hd⟩
      · obtain ⟨before, w, after, rfl, hw⟩ := ih hd
        exact ⟨v :: before, w, after, rfl, hw⟩

theorem mem_argumentFindings {target : String} {vs : List Typing} {ps : List (String × Ty)}
    (hd : d ∈ env.argumentFindings target vs ps) :
    ∃ before v after parameter t, vs = before ++ v :: after ∧
      ps[before.length]? = some (parameter, t) ∧
      (d ∈ v.found ∨ d ∈ (Demand.argument target parameter t).found env v) := by
  induction vs generalizing ps with
  | nil => cases ps <;> cases hd
  | cons v vs ih =>
      cases ps with
      | nil => cases hd
      | cons p ps =>
          rw [argumentFindings_cons, List.mem_append, List.mem_append] at hd
          rcases hd with hd | hd
          · exact ⟨[], v, vs, p.1, p.2, rfl, rfl, hd⟩
          · obtain ⟨before, w, after, parameter, t, rfl, hp, hw⟩ := ih hd
            exact ⟨v :: before, w, after, parameter, t, rfl, by simpa using hp, hw⟩

/-- A member of a checked list is a checked member of the list, at the same place. -/
theorem exists_of_inferAll_eq {expected : List (Option Ty)} {es : List Expr}
    {before after : List Typing} {v : Typing}
    (h : env.inferAll scope expected es = before ++ v :: after) :
    ∃ es₁ e es₂, es = es₁ ++ e :: es₂ ∧ es₁.length = before.length ∧
      es₂.length = after.length ∧ v = env.infer scope (expected.getD es₁.length none) e := by
  induction before generalizing expected es with
  | nil =>
      cases es with
      | nil => simp [inferAll] at h
      | cons e es =>
          simp only [inferAll, List.nil_append, List.cons.injEq] at h
          refine ⟨[], e, es, rfl, rfl, ?_, ?_⟩
          · rw [← h.2, length_inferAll]
          · rw [← h.1]
            cases expected <;> rfl
  | cons w before ih =>
      cases es with
      | nil => simp [inferAll] at h
      | cons e es =>
          simp only [inferAll, List.cons_append, List.cons.injEq] at h
          obtain ⟨es₁, e', es₂, rfl, hbefore, hafter, rfl⟩ := ih h.2
          refine ⟨e :: es₁, e', es₂, rfl, congrArg (· + 1) hbefore, hafter, ?_⟩
          cases expected <;> simp

/-- Some findings about an expression are about one at a place in it. -/
def Placed (env : TypeEnv) (scope : Scope) (expected : Option Ty) (e : Expr) (d : Diagnostic) :
    Prop :=
  ∃ demand context inner, env.Place scope demand expected context ∧ e = context inner ∧
    d ∈ demand.found env (demand.typing env scope inner)

theorem Placed.within {outer inner : Option Ty} {part : Expr → Expr} {e : Expr}
    (hpart : env.ExprPart scope outer inner part) (h : env.Placed scope inner e d) :
    env.Placed scope outer (part e) d := by
  obtain ⟨demand, context, e', hplace, rfl, hd⟩ := h
  exact ⟨demand, _, e', .within hpart hplace, rfl, hd⟩

/-- The same for the arguments of a call, which may be a value or a statement. -/
def ArgsPlaced (env : TypeEnv) (scope : Scope) (name : Name) (args : List Expr) (d : Diagnostic) :
    Prop :=
  ∃ demand, ∃ context : Expr → List Expr, ∃ inner,
    (∀ expected note, env.Place scope demand expected fun e => .call name (context e) note) ∧
      args = context inner ∧ d ∈ demand.found env (demand.typing env scope inner)

/-- What is found in an argument is about an expression at a place in it. -/
theorem ArgsPlaced.inside {name : Name} {args : List Expr} {before after : List Typing} {v : Typing}
    (hargs : ∀ e ∈ args, ∀ x, d ∈ (env.infer scope x e).found → env.Placed scope x e d)
    (hvs : env.inferAll scope ((env.callee name.text).expectations args.length) args =
      before ++ v :: after) (hd : d ∈ v.found) : env.ArgsPlaced scope name args d := by
  obtain ⟨es₁, e, es₂, rfl, -, -, rfl⟩ := exists_of_inferAll_eq hvs
  obtain ⟨demand, context, inner, hplace, rfl, hinner⟩ := hargs e (by simp) _ hd
  refine ⟨demand, fun e => es₁ ++ context e :: es₂, inner, fun expected note => ?_, rfl, hinner⟩
  rw [List.length_append, List.length_cons, ← Nat.add_assoc] at hplace
  exact .within .argument hplace

/-- A conversion to a base type proposes nothing by itself. -/
theorem mem_baseConversionFindings {b : Base} {start : Position} {vs : List Typing}
    (hd : d ∈ env.baseConversionFindings b start vs) (hproposes : d.Proposes proposed) :
    d ∈ vs.flatMap Typing.found := by
  unfold baseConversionFindings at hd
  split at hd
  · rcases List.mem_append.mp hd with hd | hd
    · simpa using hd
    · split at hd
      · cases hd
      · refine absurd hproposes (proposesNone_mismatch (fun t ht => ?_) _ _ d hd _)
        split at ht
        · obtain rfl := Option.mem_some.mp ht
          constructor <;> simp
        · cases ht
  · rcases List.mem_cons.mp hd with rfl | hd
    · exact absurd hproposes (not_proposes_of_code (by decide : Diagnostic.arityMismatch ≠ _))
    · exact hd

/-- A proposal about a call is about an expression at a place in its arguments. -/
theorem argsPlaced_of_callType {name : Name} {args : List Expr} {asValue : Bool}
    (hargs : ∀ e ∈ args, ∀ x, d ∈ (env.infer scope x e).found → env.Placed scope x e d)
    (hd : d ∈ (env.callType scope name (env.callee name.text)
      (env.inferAll scope ((env.callee name.text).expectations args.length) args) asValue).found)
    (hproposes : d.Proposes proposed) : env.ArgsPlaced scope name args d := by
  generalize hvs : env.inferAll scope ((env.callee name.text).expectations args.length) args = vs
    at hd
  have hflat : d ∈ vs.flatMap Typing.found → env.ArgsPlaced scope name args d := fun hd => by
    obtain ⟨v, hv, hdv⟩ := List.mem_flatMap.mp hd
    obtain ⟨before, after, rfl⟩ := List.append_of_mem hv
    exact .inside hargs hvs hdv
  cases hcallee : env.callee name.text with
  | base b =>
      rw [hcallee] at hd
      exact hflat (mem_baseConversionFindings hd hproposes)
  | unknown =>
      rw [hcallee] at hd
      rcases List.mem_append.mp hd with hd | hd
      · exact hflat hd
      · exact absurd hproposes (env.proposesNone_unknownCallee scope name d hd _)
  | known target parameters returns =>
      rw [hcallee, found_callType_known] at hd
      rcases List.mem_append.mp hd with hd | hd
      · split at hd
        · next hlength =>
            obtain ⟨before, v, after, parameter, t, rfl, hparameter, hd⟩ := mem_argumentFindings hd
            rcases hd with hd | hd
            · exact .inside hargs hvs hd
            · obtain ⟨es₁, e, es₂, rfl, hbefore, hafter, rfl⟩ := exists_of_inferAll_eq hvs
              have hcount : es₁.length + es₂.length + 1 = parameters.length := by
                rw [← hlength, List.length_append, List.length_cons, hbefore, hafter, Nat.add_assoc]
              rw [← hbefore] at hparameter
              refine ⟨.argument (targetText target name) parameter t,
                fun e => es₁ ++ e :: es₂, e, fun expected note =>
                  .here (.argument hcallee hcount hparameter), rfl, ?_⟩
              rw [List.length_append, List.length_cons, ← Nat.add_assoc,
                getD_expectations hcallee hcount hparameter] at hd
              exact hd
        · rcases List.mem_cons.mp hd with rfl | hd
          · exact absurd hproposes (not_proposes_of_code (by decide : Diagnostic.arityMismatch ≠ _))
          · exact hflat hd
      · exact absurd hproposes (proposesNone_nothingFindings _ _ _ _ d hd _)

/-- A proposal about an expression is about one at a place in it. -/
theorem placed_of_infer {e : Expr} {expected : Option Ty}
    (hd : d ∈ (env.infer scope expected e).found) (hproposes : d.Proposes proposed) :
    env.Placed scope expected e d := by
  induction e generalizing expected with
  | literal value note => simp only [infer, List.not_mem_nil] at hd
  | var name note => exact absurd hproposes (env.proposesNone_variableType scope _ _ d hd _)
  | list es note ih =>
      cases es with
      | nil => exact absurd hproposes (proposesNone_emptyListType _ _ d hd _)
      | cons first es =>
          simp only [infer, List.map_cons, inferAll, List.headD_cons, List.tail_cons] at hd
          rcases List.mem_append.mp hd with hd | hd
          · have hpart : env.ExprPart scope expected (elementExpectation expected)
                fun e => .list ([] ++ e :: es) note := .element
            exact (ih first List.mem_cons_self hd).within hpart
          · obtain ⟨before, v, after, hvs, hv⟩ :=
              mem_elementFindings (x := elementExpectation expected) hd
            obtain ⟨es₁, e, es₂, rfl, -, -, rfl⟩ := exists_of_inferAll_eq hvs
            have hexpected : ((es₁ ++ e :: es₂).map fun _ => elementExpectation expected).getD
                es₁.length none = elementExpectation expected := by simp
            rw [hexpected] at hv
            rcases hv with hv | hv
            · have hpart : env.ExprPart scope expected (elementExpectation expected)
                  fun e => .list (first :: es₁ ++ e :: es₂) note := .element
              exact (ih e (by simp) hv).within hpart
            · exact ⟨_, _, e, .here .element, rfl, hv⟩
  | unary op e note ih =>
      cases op with
      | not =>
          rcases List.mem_append.mp hd with hd | hd
          · exact (ih hd).within .not
          · exact absurd hproposes (proposesNone_booleanFindings _ _ d hd _)
      | negate =>
          rcases List.mem_append.mp hd with hd | hd
          · exact (ih hd).within .negate
          · split at hd
            · cases hd
            · exact absurd hproposes (proposesNone_hintless _ _ d hd _)
  | binary op l r note ihl ihr =>
      by_cases hop : op = .and ∨ op = .or
      · rw [found_infer_truth env scope hop] at hd
        simp only [List.mem_append, or_assoc] at hd
        rcases hd with hd | hd | hd | hd
        · exact (ihl hd).within (.leftTruth hop)
        · exact absurd hproposes (proposesNone_booleanFindings _ _ d hd _)
        · exact (ihr hd).within (.rightTruth hop)
        · exact absurd hproposes (proposesNone_booleanFindings _ _ d hd _)
      · rw [found_infer_binary env scope hop] at hd
        simp only [List.mem_append, or_assoc] at hd
        rcases hd with hd | hd | hd
        · exact (ihl hd).within (.left hop)
        · exact (ihr hd).within (.right hop)
        · exact ⟨_, _, r, .here (.operand hop), rfl, hd⟩
  | call name args note ih =>
      obtain ⟨demand, context, inner, hplace, rfl, hinner⟩ :=
        argsPlaced_of_callType (fun e he x => ih e he) hd hproposes
      exact ⟨demand, _, inner, hplace expected note, rfl, hinner⟩
  | field e name note ih =>
      rcases List.mem_append.mp hd with hd | hd
      · exact (ih hd).within .base
      · exact absurd hproposes (env.proposesNone_fieldType _ _ d hd _)

/-- The same for an expression whose value is not used: it is a call, or all of it is checked. -/
theorem placed_of_checkUnused {e : Expr} (hd : d ∈ (env.checkUnused scope e).2)
    (hproposes : d.Proposes proposed) : env.Placed scope none e d := by
  cases e with
  | call name args note =>
      obtain ⟨demand, context, inner, hplace, rfl, hinner⟩ :=
        argsPlaced_of_callType (fun e _ x hd => placed_of_infer hd hproposes) hd hproposes
      exact ⟨demand, _, inner, hplace none note, rfl, hinner⟩
  | _ => exact placed_of_infer hd hproposes

/-! ### Statements -/

/-- A finding about a block is about an expression at a place in it. -/
def BlockPlaced (env : TypeEnv) (fn : Enclosing) (scope : Scope) (ss : List Stmt)
    (d : Diagnostic) : Prop :=
  ∃ local_ demand, ∃ context : Expr → List Stmt, ∃ inner,
    env.BlockPlace fn local_ demand scope context ∧ ss = context inner ∧
      d ∈ demand.found env (demand.typing env local_ inner)

theorem Placed.inStmt {fn : Enclosing} {expected : Option Ty} {part : Expr → List Stmt} {e : Expr}
    (hpart : StmtPart fn expected part) (h : env.Placed scope expected e d) :
    env.BlockPlaced fn scope (part e) d := by
  obtain ⟨demand, context, inner, hplace, rfl, hd⟩ := h
  exact ⟨scope, demand, _, inner, .expr hpart hplace, rfl, hd⟩

theorem BlockPlaced.within {fn : Enclosing} {outer inner : Scope}
    {part : List Stmt → List Stmt} {ss whole : List Stmt} (h : env.BlockPlaced fn inner ss d)
    (hpart : env.BlockPart outer inner part) (hwhole : part ss = whole) :
    env.BlockPlaced fn outer whole d := by
  subst hwhole
  obtain ⟨local_, demand, context, e, hplace, rfl, hd⟩ := h
  exact ⟨local_, demand, _, e, .within hpart hplace, rfl, hd⟩

theorem blockPlaced_of_checkReturn {fn : Enclosing} {value : Option Expr} {span : Span}
    {rest : List Stmt} (hd : d ∈ (env.checkReturn fn scope value span).2)
    (hproposes : d.Proposes proposed) :
    env.BlockPlaced fn scope (.return value span :: rest) d := by
  cases value with
  | none =>
      unfold checkReturn at hd
      split at hd
      · cases hd
      · exact absurd hproposes (proposesNone_hint (by constructor <;> simp) _ _ d hd _)
      · contradiction
      · contradiction
  | some e =>
      unfold checkReturn at hd
      split at hd
      · contradiction
      · contradiction
      · next e' heq hreturns =>
          obtain rfl := Option.some.inj heq
          rcases List.mem_append.mp hd with hd | hd
          · rw [← hreturns] at hd
            exact (placed_of_infer hd hproposes).inStmt .result
          · exact absurd hproposes (proposesNone_hint (by constructor <;> simp) _ _ d hd _)
      · next e' t heq hreturns =>
          obtain rfl := Option.some.inj heq
          rcases List.mem_append.mp hd with hd | hd
          · rw [← hreturns] at hd
            exact (placed_of_infer hd hproposes).inStmt .result
          · exact ⟨scope, .result fn.name t, _, e, .result hreturns rfl, rfl, hd⟩

/-- A proposal in a block is about an expression at a place in it, if that is so for the
statements. -/
theorem blockPlaced_of_checkBlock_of {fn : Enclosing} {ss : List Stmt}
    (hss : ∀ s ∈ ss, ∀ {scope timer} {rest : List Stmt},
      d ∈ (env.checkStmt fn scope timer s).found → env.BlockPlaced fn scope (s :: rest) d)
    {scope : Scope} {timer : Timer} (hd : d ∈ (env.checkBlock fn scope timer ss).found) :
    env.BlockPlaced fn scope ss d := by
  induction ss generalizing scope timer with
  | nil => simp only [checkBlock, List.not_mem_nil] at hd
  | cons s ss ih =>
      obtain ⟨hs, hss⟩ := List.forall_mem_cons.mp hss
      simp only [checkBlock] at hd
      split at hd
      · cases hd
      · rcases List.mem_append.mp hd with hd | hd
        · exact hs hd
        · rw [scope_checkStmt] at hd
          exact (ih hss hd).within .later rfl

theorem blockPlaced_of_checkStmt {fn : Enclosing} {s : Stmt} {scope : Scope} {timer : Timer}
    {rest : List Stmt} (hd : d ∈ (env.checkStmt fn scope timer s).found)
    (hproposes : d.Proposes proposed) : env.BlockPlaced fn scope (s :: rest) d := by
  induction s generalizing scope timer rest with
  | bind name e span =>
      rcases List.mem_append.mp hd with hd | hd
      · exact (placed_of_infer hd hproposes).inStmt .bind
      · exact absurd hproposes (env.proposesNone_bind _ _ _ _ d hd _)
  | branch c t span iht =>
      simp only [checkStmt, List.mem_append, or_assoc] at hd
      rcases hd with hd | hd | hd
      · exact (placed_of_infer hd hproposes).inStmt .condition
      · exact absurd hproposes (proposesNone_booleanFindings _ _ d hd _)
      · exact (blockPlaced_of_checkBlock_of (fun s hs => iht s hs) hd).within .thenBlock rfl
  | branchOtherwise c t o span iht iho =>
      simp only [checkStmt, List.mem_append, or_assoc] at hd
      rcases hd with hd | hd | hd | hd
      · exact (placed_of_infer hd hproposes).inStmt .condition
      · exact absurd hproposes (proposesNone_booleanFindings _ _ d hd _)
      · exact (blockPlaced_of_checkBlock_of (fun s hs => iht s hs) hd).within .thenBlock rfl
      · exact (blockPlaced_of_checkBlock_of (fun s hs => iho s hs) hd).within .otherwise rfl
  | forEach item e body span ih =>
      simp only [checkStmt, List.mem_append, or_assoc] at hd
      rcases hd with hd | hd | hd | hd
      · exact (placed_of_infer hd hproposes).inStmt .iterable
      · exact absurd hproposes (proposesNone_itemType _ _ d hd _)
      · exact absurd hproposes (env.proposesNone_bind _ _ _ _ d hd _)
      · exact (blockPlaced_of_checkBlock_of (fun s hs => ih s hs) hd).within .body rfl
  | call name args note span =>
      obtain ⟨demand, context, inner, hplace, rfl, hinner⟩ :=
        argsPlaced_of_callType (fun e _ x hd => placed_of_infer hd hproposes) hd hproposes
      exact ⟨scope, demand, _, inner, .call (hplace none note), rfl, hinner⟩
  | returns value span => exact blockPlaced_of_checkReturn hd hproposes
  | expression e span =>
      obtain ⟨demand, context, inner, hplace, rfl, hinner⟩ := placed_of_checkUnused hd hproposes
      exact ⟨scope, demand, _, inner, .unused hplace, rfl, hinner⟩

theorem blockPlaced_of_checkBlock {fn : Enclosing} {ss : List Stmt} {scope : Scope} {timer : Timer}
    (hd : d ∈ (env.checkBlock fn scope timer ss).found) (hproposes : d.Proposes proposed) :
    env.BlockPlaced fn scope ss d :=
  blockPlaced_of_checkBlock_of (fun _ _ _ _ _ hd => blockPlaced_of_checkStmt hd hproposes) hd

/-! ### Functions -/

/-- A finding about declarations is about an expression at a place in them. -/
def DeclsPlaced (env : TypeEnv) (ss : List Signature) (ds : List Decl) (d : Diagnostic) : Prop :=
  ∃ local_ demand, ∃ context : Expr → List Decl, ∃ inner,
    env.DeclsPlace local_ demand ss context ∧ ds = context inner ∧
      d ∈ demand.found env (demand.typing env local_ inner)

theorem DeclsPlaced.skipped {ss : List Signature} {ds : List Decl} {c : Decl}
    (hc : c.function? = none ∨ ss = []) (h : env.DeclsPlaced ss ds d) :
    env.DeclsPlaced ss (c :: ds) d := by
  obtain ⟨local_, demand, context, inner, hplace, rfl, hd⟩ := h
  exact ⟨local_, demand, _, inner, .skipped hc hplace, rfl, hd⟩

theorem declsPlaced_of_checkFunction {f : FunctionDecl} {s : Signature} {ss : List Signature}
    {ds : List Decl} {timer : Timer} (hd : d ∈ (env.checkFunction timer f s).2.1)
    (hproposes : d.Proposes proposed) : env.DeclsPlaced (s :: ss) (.function f :: ds) d := by
  rcases List.mem_append.mp hd with hd | hd
  · rcases List.mem_append.mp hd with hd | hd
    · exact absurd hproposes (env.proposesNone_bindParameters _ _ d hd _)
    · obtain ⟨local_, demand, context, inner, hplace, hbody, hd⟩ :=
        blockPlaced_of_checkBlock hd hproposes
      refine ⟨local_, demand, fun e => .function { f with body := context e } :: ds, inner,
        .body hplace, ?_, hd⟩
      simp only [← hbody]
  · split at hd
    · cases hd
    · split at hd
      · cases hd
      · exact absurd hproposes (proposesNone_typeFinding (by decide) _ _ _ d hd _)

/-- A proposal in declarations is about an expression at a place in them. -/
theorem declsPlaced_of_checkDecls {ds : List Decl} {ss : List Signature} {timer : Timer}
    (hd : d ∈ (env.checkDecls timer ds ss).2.1) (hproposes : d.Proposes proposed) :
    env.DeclsPlaced ss ds d := by
  induction ds generalizing timer ss with
  | nil => simp only [checkDecls, List.not_mem_nil] at hd
  | cons c ds ih =>
      by_cases hc : c.function? = none ∨ ss = []
      · rw [checkDecls_skipped hc] at hd
        exact (ih hd).skipped hc
      · obtain ⟨hfunction, hsignatures⟩ := not_or.mp hc
        cases c with
        | function f =>
            obtain ⟨s, ss, rfl⟩ := List.exists_cons_of_ne_nil hsignatures
            simp only [checkDecls, List.mem_append] at hd
            rcases hd with hd | hd
            · exact declsPlaced_of_checkFunction hd hproposes
            · obtain ⟨local_, demand, context, inner, hplace, rfl, hinner⟩ := ih hd
              exact ⟨local_, demand, _, inner, .function hplace, rfl, hinner⟩
        | type t => exact absurd rfl hfunction
        | record r => exact absurd rfl hfunction

end

end TypeEnv

theorem proposesNone_declared (registry : Registry) (p : Program) :
    ProposesNone (Declared.of registry p).found := by
  have hplaced := p.placed_anywhere (fun _ => trivial) (Expr.placed_anywhere (fun _ => trivial))
  exact fun d hd _ =>
    not_proposes_of_code ((declaredAt_of registry hplaced).code_ne (by decide) d hd)

end Prosaic
