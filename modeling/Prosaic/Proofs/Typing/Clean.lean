import Prosaic.Proofs.Registry.Resolved
import Prosaic.Proofs.Typing.Rules

/-!
The error type never arises in silence. It goes with every other type, so a check that let it into a
tree without a finding could accept anything. Declarations do not bring it in, and neither does an
expression: where nothing is found, no expectation and no local being in error, no type is.
-/

namespace Prosaic

/-- The condition of a node whose type, if it has one, is not in error. -/
def Expr.NoError (e : Expr) : Prop := ∀ t ∈ e.ty?, t.containsError = false

theorem Ty.same_eq {a b : Ty} (ha : a.containsError = false) (hb : b.containsError = false)
    (h : a.same b = true) : a = b := by
  simpa [same, ha, hb] using h

/-! ### Declarations -/

theorem TypeRef.denote?_clean {named : String → Option Ty}
    (hnamed : ∀ n t, named n = some t → t.containsError = false) {ref : TypeRef} {t : Ty}
    (h : ref.denote? named = some t) : t.containsError = false := by
  induction ref generalizing t with
  | named name span =>
      rw [denote?] at h
      split at h
      · cases h
      · exact hnamed name t h
  | list element span ih =>
      obtain ⟨u, hu, rfl⟩ := Option.map_eq_some_iff.mp h
      have hclean := ih hu
      exact hclean

namespace Setting

variable {w : Setting} (hw : w.registry.ErrorFree)

include hw

theorem type?_clean {name : String} {t : Ty} (h : w.type? name = some t) :
    t.containsError = false := by
  unfold type? declaredType? at h
  split at h
  · cases h
    rfl
  · next hbase =>
      split at h
      · cases h
        rfl
      · split at h
        · cases h
          rfl
        · rw [Registry.type?, hbase] at h
          exact hw.types _ (mem_of_lookup h)

theorem denote?_clean {ref : TypeRef} {t : Ty} (h : ref.denote? w.type? = some t) :
    t.containsError = false :=
  TypeRef.denote?_clean (fun _ _ => type?_clean hw) h

theorem Underlying.clean {name : String} {u : Ty} (h : w.Underlying name u) :
    u.containsError = false := by
  cases h with
  | literals => rfl
  | reference _ _ href => exact denote?_clean hw href
  | registry _ hd hu => exact hw.domains _ (mem_of_lookup hd) u hu

theorem HasField.clean {name field : String} {t : Ty} (h : w.HasField name field t) :
    t.containsError = false := by
  cases h with
  | record _ _ ht => exact denote?_clean hw ht
  | registry _ hr ht => exact hw.records _ (mem_of_lookup hr) _ (mem_of_lookup ht)

theorem signature_clean {f : FunctionDecl} {s : Signature} (h : SignatureDenoted w.type? f s) :
    s.ErrorFree := by
  constructor
  · have hpairs := h.parameters.imp fun d t hdt => And.intro (denote?_clean hw hdt.2) hdt
    exact ((List.forall₂_and_left _ _).mp hpairs.flip).1
  · intro t ht
    have hreturns := h.returns
    rw [Option.mem_def.mp ht] at hreturns
    generalize f.returns = ref at hreturns
    cases hreturns with
    | some hdenote => exact denote?_clean hw hdenote

/-- What a name calls takes and returns no type in error. -/
theorem Callable.clean {name : String} {target : CallTarget} {parameters : List Ty}
    {returns : Option Ty} (h : w.Callable name target parameters returns) :
    (∀ t ∈ parameters, t.containsError = false) ∧ ∀ t ∈ returns, t.containsError = false := by
  have hsignature : ∀ {s : Signature}, s.ErrorFree →
      (∀ t ∈ s.parameters.map Prod.snd, t.containsError = false) ∧
        ∀ t ∈ s.returns, t.containsError = false := by
    intro s hs
    exact ⟨List.forall_mem_map.mpr hs.parameters, hs.returns⟩
  cases h with
  | function _ hs => exact hsignature (signature_clean hw hs)
  | helper _ hs => exact hsignature (hw.helpers _ (mem_of_lookup hs))
  | operation _ _ hs => exact hsignature (hw.operations _ (mem_of_lookup hs))
  | conversion _ _ _ hd hu =>
      refine ⟨by simpa using hu.clean hw, ?_⟩
      rintro t ⟨⟩
      rfl

end Setting

namespace TypeEnv

variable {env : TypeEnv} {w : Setting} (h : env.Reflects w.registry w.program)
  (hw : w.registry.ErrorFree)

include h hw

/-! ### Expressions -/

theorem expectations_clean {name : String} {count : Nat} {x : Option Ty}
    (hx : x ∈ (env.callee name).expectations count) : ∀ t ∈ x, t.containsError = false := by
  unfold Callee.expectations at hx
  split at hx
  · next target parameters returns hcallee =>
      have hknown := (env.callee_spec name).2 _ _ _ hcallee
      have hclean := ((h.callable_of_known hknown).clean hw).1
      split at hx
      · obtain ⟨p, hp, rfl⟩ := List.mem_map.mp hx
        rintro t ⟨⟩
        exact hclean p.2 (List.mem_map_of_mem hp)
      · cases hx
  · cases hx

theorem returns_clean {name : String} {args : List Expr} {target : Option CallTarget} {t : Ty}
    (hfits : env.CallFits name args target (some t)) : t.containsError = false := by
  rcases callFits_cases hfits with ⟨b, -, -, -, -, hreturns, -⟩ | ⟨kind, parameters, hknown, -⟩
  · cases hreturns
    rfl
  · exact ((h.callable_of_known hknown).clean hw).2 t rfl

omit h hw in
theorem operator_clean {left right : Expr} {leftTy rightTy t : Ty} {op : BinaryOp}
    (hleft : leftTy.containsError = false)
    (hop : env.OperatorFits left right leftTy rightTy t op) : t.containsError = false := by
  cases op with
  | and | or =>
      obtain ⟨-, -, rfl⟩ := hop
      rfl
  | is | isNot | less | greater | lessEqual | greaterEqual =>
      obtain ⟨-, rfl⟩ := hop
      rfl
  | add =>
      obtain ⟨sum, hsum, -, -, rfl⟩ := hop
      rw [hleft]
      rcases hsum with rfl | rfl <;> rfl
  | subtract | multiply | divide =>
      obtain ⟨-, -, rfl⟩ := hop
      rfl

omit h hw in
/-- The type of a list comes from its expectation or from its elements. -/
theorem listType_clean {expected : Option Ty} (hexpected : ∀ t ∈ expected, t.containsError = false)
    {ts : List Typing} (hts : ∀ t ∈ ts, t.ty.containsError = false) {start : Position}
    (hfound : (env.listType expected ts start).2 = []) :
    (env.listType expected ts start).1.containsError = false := by
  obtain ⟨-, hlist⟩ := listType_eq_nil env hfound
  rcases hlist with ⟨elementTy, hty, hfrom, -⟩ | ⟨-, -, herror⟩
  · rw [hty]
    rcases hfrom with hfrom | ⟨t, ht, rfl⟩
    · exact hexpected _ hfrom
    · exact hts t ht
  · cases hexpected _ herror

omit h hw in
theorem elementExpectation_clean {expected : Option Ty}
    (hexpected : ∀ t ∈ expected, t.containsError = false) :
    ∀ t ∈ elementExpectation expected, t.containsError = false := by
  intro t ht
  unfold elementExpectation at ht
  split at ht
  · cases ht
    have hlist := hexpected (.list t) rfl
    exact hlist
  · cases ht

theorem fieldType_clean {base : Ty} (hbase : base.containsError = false) {name : Name}
    (hfound : (env.fieldType base name).2 = []) :
    (env.fieldType base name).1.containsError = false := by
  rcases fieldType_eq_nil env hfound with ⟨herror, -⟩ | ⟨r, hr, hfield⟩
  · rw [herror] at hbase
    cases hbase
  · obtain ⟨record, -, hfield⟩ := h.hasField_record hr hfield
    exact hfield.clean hw

/-- Where nothing is found, an expression and all its parts get types that are not in error. -/
theorem infer_clean {scope : Scope} (hscope : scope.Clean) {expected : Option Ty}
    (hexpected : ∀ t ∈ expected, t.containsError = false) {e : Expr}
    (hfound : (env.infer scope expected e).found = []) :
    (env.infer scope expected e).ty.containsError = false ∧
      (env.infer scope expected e).expr.Everywhere Expr.NoError := by
  have hnode : ∀ {e : Expr} {t : Ty}, e.ty? = some t → t.containsError = false → e.NoError := by
    rintro e t ht hclean u hu
    rw [ht] at hu
    cases hu
    exact hclean
  have hnone : ∀ t ∈ (none : Option Ty), t.containsError = false := by simp
  induction e generalizing expected with
  | literal value note =>
      have hclean : (literalType value).containsError = false := by cases value <;> rfl
      simp only [infer] at hfound ⊢
      exact ⟨hclean, hnode rfl hclean⟩
  | var name note =>
      simp only [infer] at hfound ⊢
      cases hb : scope.lookup name with
      | none => simp [variableType, hb] at hfound
      | some b =>
          have hclean : (env.variableType scope name note.span.start).1.containsError = false := by
            rw [variableType, hb]
            exact hscope name b hb
          exact ⟨hclean, hnode rfl hclean⟩
  | list es note ih =>
      simp only [infer] at hfound ⊢
      obtain ⟨helements, -⟩ := listType_eq_nil env hfound
      have hall : ∀ t ∈ env.inferAll scope (es.map fun _ => elementExpectation expected) es,
          t.ty.containsError = false ∧ t.expr.Everywhere Expr.NoError := by
        intro t ht
        obtain ⟨e, he, x, rfl, hx⟩ := mem_inferAll env scope ht
        refine ih e he ?_ (helements _ ht)
        rcases hx with rfl | hx
        · exact hnone
        · obtain ⟨-, -, rfl⟩ := List.mem_map.mp hx
          exact elementExpectation_clean hexpected
      have hclean := listType_clean hexpected (fun t ht => (hall t ht).1) hfound
      refine ⟨hclean, hnode rfl hclean, Expr.everywhereIn_iff.mpr ?_⟩
      rw [List.forall_mem_map]
      exact fun t ht => (hall t ht).2
  | unary op e note ih =>
      cases op with
      | not =>
          simp only [infer, List.append_eq_nil_iff] at hfound ⊢
          refine ⟨rfl, hnode rfl rfl, (ih ?_ hfound.1).2⟩
          rintro t ⟨⟩
          rfl
      | negate =>
          simp only [infer, List.append_eq_nil_iff] at hfound ⊢
          exact ⟨rfl, hnode rfl rfl, (ih hnone hfound.1).2⟩
  | binary op l r note ihl ihr =>
      by_cases hlogic : op = .and ∨ op = .or
      · have hboolean : ∀ t ∈ some Ty.boolean, t.containsError = false := by
          rintro t ⟨⟩
          rfl
        rcases hlogic with rfl | rfl <;>
        · simp only [infer, List.append_eq_nil_iff] at hfound ⊢
          obtain ⟨⟨⟨hl, -⟩, hr⟩, -⟩ := hfound
          exact ⟨rfl, hnode rfl rfl, (ihl hboolean hl).2, (ihr hboolean hr).2⟩
      · obtain ⟨hand, hor⟩ := not_or.mp hlogic
        rw [infer_binary env scope hand hor] at hfound ⊢
        simp only [List.append_eq_nil_iff] at hfound
        obtain ⟨⟨hl, hr⟩, hop⟩ := hfound
        obtain ⟨hlty, hlall⟩ := ihl hnone hl
        obtain ⟨-, hrall⟩ := ihr (by rintro t ⟨⟩; exact hlty) hr
        have hoperator := binaryType_eq_nil env hand hor hop
        have hclean := operator_clean hlty hoperator
        exact ⟨hclean, hnode rfl hclean, hlall, hrall⟩
  | call f args note ih =>
      simp only [infer] at hfound ⊢
      have hty : ∀ t ∈ env.inferAll scope ((env.callee f.text).expectations args.length) args,
          t.expr.ty? = some t.ty := fun t => ty?_of_mem_inferAll env scope
      obtain ⟨hargs, hvalue, hfits⟩ := callType_eq_nil env scope hty hfound
      obtain ⟨t, ht⟩ := Option.isSome_iff_exists.mp (hvalue rfl)
      rw [ht] at hfits ⊢
      have hclean := returns_clean h hw hfits
      refine ⟨hclean, hnode rfl hclean, Expr.everywhereIn_iff.mpr ?_⟩
      rw [List.forall_mem_map]
      intro u hu
      obtain ⟨e, he, x, rfl, hx⟩ := mem_inferAll env scope hu
      refine (ih e he ?_ (hargs _ hu)).2
      rcases hx with rfl | hx
      · exact hnone
      · exact expectations_clean h hw hx
  | field e name note ih =>
      simp only [infer, List.append_eq_nil_iff] at hfound ⊢
      obtain ⟨hbase, hall⟩ := ih hnone hfound.1
      have hclean := fieldType_clean h hw hbase hfound.2
      exact ⟨hclean, hnode rfl hclean, hall⟩

/-! ### Statements -/

omit h hw in
/-- A name that is bound without a finding leaves the scope as it should be. -/
theorem bind_clean {scope : Scope} (hscope : scope.Clean) {name : String} {t : Ty} {span : Span}
    (ht : t.containsError = false) (hfound : (env.bind scope name t span).2 = []) :
    (env.bind scope name t span).1.Clean := by
  obtain ⟨hbindable, hnext⟩ := bind_eq_nil env hfound
  rw [hnext]
  exact hscope.bind hbindable.fresh ht

omit h hw in
theorem itemType_clean {item : String} {iterable : Typing}
    (hty : iterable.ty.containsError = false) (hfound : (itemType item iterable).2 = []) :
    (itemType item iterable).1.containsError = false := by
  rcases itemType_eq_nil hfound with hlist | ⟨herror, -⟩
  · rw [hlist] at hty
    exact hty
  · rw [herror] at hty
    cases hty

theorem checkCall_clean {scope : Scope} (hscope : scope.Clean) {name : Name} {args : List Expr}
    {note : CallNote} (hnote : note.ty = none)
    (hfound : (env.checkCall scope name args note).2.2 = []) :
    (Expr.call name (env.checkCall scope name args note).1
      (env.checkCall scope name args note).2.1).Everywhere Expr.NoError := by
  simp only [checkCall] at hfound ⊢
  have hty : ∀ t ∈ env.inferAll scope ((env.callee name.text).expectations args.length) args,
      t.expr.ty? = some t.ty := fun t => ty?_of_mem_inferAll env scope
  obtain ⟨hargs, -, -⟩ := callType_eq_nil env scope hty hfound
  refine ⟨?_, Expr.everywhereIn_iff.mpr ?_⟩
  · intro t ht
    have hnone : note.ty = some t := ht
    rw [hnote] at hnone
    cases hnone
  · rw [List.forall_mem_map]
    intro t ht
    obtain ⟨e, -, x, rfl, hx⟩ := mem_inferAll env scope ht
    refine (infer_clean h hw hscope ?_ (hargs _ ht)).2
    rcases hx with rfl | hx
    · simp
    · exact expectations_clean h hw hx

theorem checkUnused_clean {scope : Scope} (hscope : scope.Clean) {e : Expr}
    (he : e.Everywhere fun e => e.ty? = none) (hfound : (env.checkUnused scope e).2 = []) :
    (env.checkUnused scope e).1.Everywhere Expr.NoError := by
  have hvalue : (env.infer scope none e).found = [] →
      (env.infer scope none e).expr.Everywhere Expr.NoError :=
    fun hnone => (infer_clean h hw hscope (by simp) hnone).2
  cases e with
  | call name args note => exact checkCall_clean h hw hscope he.1 hfound
  | unary op => cases op <;> exact hvalue hfound
  | binary op => cases op <;> exact hvalue hfound
  | _ => exact hvalue hfound

theorem checkReturn_clean {fn : Enclosing} (hfn : ∀ t ∈ fn.returns, t.containsError = false)
    {scope : Scope} (hscope : scope.Clean) {value : Option Expr} {span : Span}
    (hfound : (env.checkReturn fn scope value span).2 = []) :
    (Stmt.return (env.checkReturn fn scope value span).1 span).Everywhere Expr.NoError := by
  unfold checkReturn at hfound ⊢
  cases value with
  | none => cases hr : fn.returns <;> trivial
  | some e =>
      cases hr : fn.returns with
      | none => simp [hr] at hfound
      | some t =>
          simp only [hr, List.append_eq_nil_iff] at hfound ⊢
          exact (infer_clean h hw hscope (fun u hu => hfn u (hr ▸ hu)) hfound.1).2

omit h hw in
theorem checkBlock_clean_of {fn : Enclosing} {ss : List Stmt}
    (hss : ∀ s ∈ ss, ∀ {scope : Scope}, scope.Clean → ∀ {timer},
      (env.checkStmt fn scope timer s).found = [] →
      (env.checkStmt fn scope timer s).timer.exceeded = none →
      (env.checkStmt fn scope timer s).stmt.Everywhere Expr.NoError ∧
        (env.checkStmt fn scope timer s).scope.Clean)
    {scope : Scope} (hscope : scope.Clean) {timer : Timer}
    (hfound : (env.checkBlock fn scope timer ss).found = [])
    (htime : (env.checkBlock fn scope timer ss).timer.exceeded = none) :
    Stmt.EverywhereIn Expr.NoError (env.checkBlock fn scope timer ss).stmts := by
  induction ss generalizing scope timer with
  | nil => simp [checkBlock]
  | cons s ss ih =>
      obtain ⟨hs, hss⟩ := List.forall_mem_cons.mp hss
      simp only [checkBlock] at hfound htime ⊢
      split at htime
      · next e he => rw [he] at htime; cases htime
      · next htimer =>
          simp only [htimer, List.append_eq_nil_iff] at hfound ⊢
          obtain ⟨hstmt, hnext⟩ := hs hscope hfound.1 (exceeded_of_checkBlock env htime)
          exact ⟨hstmt, ih hss hnext hfound.2 htime⟩

/-- Where the check of a statement finds nothing in time, no type in the result is in error, and no
local behind it is. -/
theorem checkStmt_clean {fn : Enclosing} (hfn : ∀ t ∈ fn.returns, t.containsError = false)
    {s : Stmt} (hs : s.Everywhere fun e => e.ty? = none) {scope : Scope} (hscope : scope.Clean)
    {timer : Timer} (hfound : (env.checkStmt fn scope timer s).found = [])
    (htime : (env.checkStmt fn scope timer s).timer.exceeded = none) :
    (env.checkStmt fn scope timer s).stmt.Everywhere Expr.NoError ∧
      (env.checkStmt fn scope timer s).scope.Clean := by
  have hboolean : ∀ t ∈ some Ty.boolean, t.containsError = false := by
    rintro t ⟨⟩
    rfl
  induction s generalizing scope timer with
  | bind name e span =>
      simp only [checkStmt, List.append_eq_nil_iff] at hfound ⊢
      obtain ⟨hty, hall⟩ := infer_clean h hw hscope (by simp) hfound.1
      exact ⟨hall, bind_clean hscope hty hfound.2⟩
  | branch c t span iht =>
      simp only [checkStmt, List.append_eq_nil_iff] at hfound htime ⊢
      have ht := Stmt.everywhereIn_iff.mp hs.2
      exact ⟨⟨(infer_clean h hw hscope hboolean hfound.1.1).2,
        checkBlock_clean_of (fun s hmem => iht s hmem (ht s hmem)) hscope.child hfound.2 htime⟩,
        hscope⟩
  | branchOtherwise c t o span iht iho =>
      simp only [checkStmt, List.append_eq_nil_iff] at hfound htime ⊢
      have ht := Stmt.everywhereIn_iff.mp hs.2.1
      have ho := Stmt.everywhereIn_iff.mp hs.2.2
      exact ⟨⟨(infer_clean h hw hscope hboolean hfound.1.1.1).2,
        checkBlock_clean_of (fun s hmem => iht s hmem (ht s hmem)) hscope.child hfound.1.2
          (exceeded_of_checkBlock env htime),
        checkBlock_clean_of (fun s hmem => iho s hmem (ho s hmem)) hscope.child hfound.2 htime⟩,
        hscope⟩
  | forEach item e body span ih =>
      simp only [checkStmt, List.append_eq_nil_iff] at hfound htime ⊢
      obtain ⟨hty, hall⟩ := infer_clean h hw hscope (by simp) hfound.1.1.1
      have hinner := bind_clean hscope.child (itemType_clean hty hfound.1.1.2) hfound.1.2
      have hbody := Stmt.everywhereIn_iff.mp hs.2
      exact ⟨⟨hall, checkBlock_clean_of (fun s hmem => ih s hmem (hbody s hmem)) hinner
        hfound.2 htime⟩, hscope⟩
  | call name args note span =>
      simp only [checkStmt] at hfound ⊢
      exact ⟨checkCall_clean h hw hscope hs.1 hfound, hscope⟩
  | returns value span =>
      simp only [checkStmt] at hfound ⊢
      exact ⟨checkReturn_clean h hw hfn hscope hfound, hscope⟩
  | expression e span =>
      simp only [checkStmt] at hfound ⊢
      exact ⟨checkUnused_clean h hw hscope hs hfound, hscope⟩

/-! ### Functions -/

omit h in
/-- No parameter that is bound without a finding is in error. -/
theorem bindParameters_clean {f : FunctionDecl} {s : Signature} (hs : SignatureDenoted w.type? f s)
    (hfound : (env.bindParameters [[]] (f.parameters.zip (s.parameters.map Prod.snd))).2 = []) :
    (env.bindParameters [[]] (f.parameters.zip (s.parameters.map Prod.snd))).1.Clean := by
  obtain ⟨hframe, -, -⟩ := bindParameters_eq_nil env (by simp) hfound
  rw [hframe]
  exact (parameterFrame_agrees hs.parameters).clean (Setting.signature_clean hw hs).parameters

theorem checkFunction_clean {timer : Timer} {f : FunctionDecl} {s : Signature}
    (hs : SignatureDenoted w.type? f s) (hf : ∀ s ∈ f.body, s.Everywhere fun e => e.ty? = none)
    (hfound : (env.checkFunction timer f s).2.1 = [])
    (htime : (env.checkFunction timer f s).2.2.exceeded = none) :
    Stmt.EverywhereIn Expr.NoError (env.checkFunction timer f s).1.body := by
  simp only [checkFunction, List.append_eq_nil_iff] at hfound htime ⊢
  exact checkBlock_clean_of (fun s hmem _ hclean => checkStmt_clean h hw
    (Setting.signature_clean hw hs).returns (hf s hmem) hclean) (bindParameters_clean hw hs
    hfound.1.1) hfound.1.2 htime

/-- Where the check of the bodies finds nothing in time, no type in them is in error. -/
theorem checkDecls_clean {timer : Timer} {ds : List Decl} {ss : List Signature}
    (hss : List.Forall₂ (SignatureDenoted w.type?) (ds.filterMap Decl.function?) ss)
    (hds : ∀ d ∈ ds, ∀ f ∈ d.function?, ∀ s ∈ f.body, s.Everywhere fun e => e.ty? = none)
    (hfound : (env.checkDecls timer ds ss).2.1 = [])
    (htime : (env.checkDecls timer ds ss).2.2.exceeded = none) :
    ∀ f ∈ (env.checkDecls timer ds ss).1.filterMap Decl.function?,
      Stmt.EverywhereIn Expr.NoError f.body := by
  induction ds generalizing timer ss with
  | nil => simp [checkDecls]
  | cons d ds ih =>
      obtain ⟨hd, hrest⟩ := List.forall_mem_cons.mp hds
      cases d with
      | function f =>
          cases hss with
          | cons hs hss =>
              simp only [checkDecls, List.append_eq_nil_iff] at hfound htime ⊢
              have hfunction := checkFunction_clean h hw hs (hd f rfl) hfound.1
                (exceeded_of_checkDecls env htime)
              exact List.forall_mem_cons.mpr ⟨hfunction, ih hss hrest hfound.2 htime⟩
      | type t =>
          simp only [checkDecls] at hfound htime ⊢
          exact ih hss hrest hfound htime
      | record r =>
          simp only [checkDecls] at hfound htime ⊢
          exact ih hss hrest hfound htime

end TypeEnv

end Prosaic
