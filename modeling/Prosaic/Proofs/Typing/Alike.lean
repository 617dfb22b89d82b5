import Mathlib.Data.List.Forall2
import Prosaic.Proofs.Table
import Prosaic.Proofs.Typing.Aliases
import Prosaic.Proofs.Typing.Statement
import Prosaic.Proofs.Typing.Family

/-!
Environments that look everything up alike, or at least whatever a program comes to. The order in
which something is declared shows only in hints, and so does what a program does not name; so the
checks in two such environments, in time, write the same into the tree and find the same up to
hints.
-/

namespace Prosaic

/-! ### Findings -/

def Diagnostic.hintless (d : Diagnostic) : Diagnostic := { d with hint := none }

/-- Findings that differ in their hints at most. -/
def SameFound (ds es : List Diagnostic) : Prop :=
  ds.map Diagnostic.hintless = es.map Diagnostic.hintless

namespace SameFound

variable {ds es ds' es' : List Diagnostic}

theorem refl (ds : List Diagnostic) : SameFound ds ds := rfl

theorem symm (h : SameFound ds es) : SameFound es ds := Eq.symm h

theorem append (h : SameFound ds es) (h' : SameFound ds' es') :
    SameFound (ds ++ ds') (es ++ es') := by
  unfold SameFound at *
  rw [List.map_append, List.map_append, h, h']

theorem cons {d e : Diagnostic} (h : d.hintless = e.hintless) (h' : SameFound ds es) :
    SameFound (d :: ds) (e :: es) := by
  unfold SameFound at *
  rw [List.map_cons, List.map_cons, h, h']

theorem flatMap {α : Type} {as : List α} {f g : α → List Diagnostic}
    (h : ∀ a ∈ as, SameFound (f a) (g a)) : SameFound (as.flatMap f) (as.flatMap g) := by
  induction as with
  | nil => rfl
  | cons a as ih =>
      obtain ⟨ha, has⟩ := List.forall_mem_cons.mp h
      rw [List.flatMap_cons, List.flatMap_cons]
      exact ha.append (ih has)

theorem eq_nil_iff (h : SameFound ds es) : ds = [] ↔ es = [] := by
  rw [← List.map_eq_nil_iff, h, List.map_eq_nil_iff]

end SameFound

/-- Two checks of an expression that differ in hints at most. -/
structure Typing.Alike (t u : Typing) : Prop where
  expr : t.expr = u.expr
  ty : t.ty = u.ty
  found : SameFound t.found u.found

/-- Two checks of a call that differ in hints at most. -/
structure TypeEnv.CallTyping.Alike (c d : TypeEnv.CallTyping) : Prop where
  target : c.target = d.target
  returns : c.returns = d.returns
  found : SameFound c.found d.found

/-- Two checks of a statement that differ in hints and in time at most. -/
structure StmtTyping.Alike (s t : StmtTyping) : Prop where
  stmt : s.stmt = t.stmt
  scope : s.scope = t.scope
  returns : s.returns = t.returns
  found : SameFound s.found t.found

/-- Two checks of a block that differ in hints and in time at most. -/
structure BlockTyping.Alike (b c : BlockTyping) : Prop where
  stmts : b.stmts = c.stmts
  returns : b.returns = c.returns
  found : SameFound b.found c.found

/-- Environments in which all names stand for the same. -/
structure TypeEnv.Alike (env env' : TypeEnv) : Prop where
  registry : env.registry = env'.registry
  functions : ∀ n, env.functions.lookup n = env'.functions.lookup n
  type?_eq : env.type? = env'.type?
  domains : ∀ n, env.domains.lookup n = env'.domains.lookup n
  records : ∀ n, env.records.lookup n = env'.records.lookup n

/-- Environments in which the names that occur and the types that are known stand for the same. -/
structure TypeEnv.AlikeOn (occurs known : String → Prop) (env env' : TypeEnv) : Prop where
  functions : ∀ n, occurs n → env.functions.lookup n = env'.functions.lookup n
  helpers : ∀ n, occurs n → env.registry.helpers.lookup n = env'.registry.helpers.lookup n
  operations : ∀ n, occurs n → env.registry.operations.lookup n = env'.registry.operations.lookup n
  type?_eq : ∀ n, occurs n → env.type? n = env'.type? n
  domains : ∀ n, known n → env.domain? (.domain n) = env'.domain? (.domain n)
  records : ∀ n, known n → env.record? (.record n) = env'.record? (.record n)

/-- Environments that are alike are so on all names. -/
theorem TypeEnv.Alike.on {env env' : TypeEnv} (h : env.Alike env') (occurs known : String → Prop) :
    env.AlikeOn occurs known env' where
  functions n _ := h.functions n
  helpers n _ := by rw [h.registry]
  operations n _ := by rw [h.registry]
  type?_eq n _ := by rw [h.type?_eq]
  domains n _ := by simp only [domain?, h.domains, h.registry]
  records n _ := by simp only [record?, h.records, h.registry]

namespace TypeEnv.AlikeOn

variable {occurs known : String → Prop} {env env' : TypeEnv} (h : env.AlikeOn occurs known env')

include h

/-! ### Names and types -/

theorem domain?_eq {t : Ty} (ht : t.Within known) : env.domain? t = env'.domain? t := by
  cases t with
  | domain name => exact h.domains name ht
  | _ => rfl

theorem underlying?_eq {t : Ty} (ht : t.Within known) : env.underlying? t = env'.underlying? t := by
  rw [underlying?, underlying?, h.domain?_eq ht]

theorem record?_eq {t : Ty} (ht : t.Within known) : env.record? t = env'.record? t := by
  cases t with
  | record name => exact h.records name ht
  | _ => rfl

theorem assignable_eq (e : Expr) (actual : Ty) {expected : Ty} (ht : expected.Within known) :
    env.assignable e actual expected = env'.assignable e actual expected := by
  rw [assignable, assignable, h.domain?_eq ht]

theorem fieldType_eq {base : Ty} (hbase : base.Within known) (name : Name) :
    env.fieldType base name = env'.fieldType base name := by
  simp only [fieldType, h.record?_eq hbase]

theorem callable?_eq {name : String} (hname : occurs name) :
    env.registry.callable? name = env'.registry.callable? name := by
  rw [Registry.callable?, Registry.callable?, h.operations name hname, h.helpers name hname]

theorem bind_eq (scope : Scope) {name : String} (hname : occurs name) (t : Ty) (span : Span) :
    env.bind scope name t span = env'.bind scope name t span := by
  simp only [bind, h.functions name hname, h.callable?_eq hname]

theorem callee_eq (henv : env.Closed occurs known) {name : String} (hname : occurs name) :
    env.callee name = env'.callee name := by
  have hconversion : ((env.type? name).bind fun t => (env.underlying? t).map fun u => (t, u)) =
      (env'.type? name).bind fun t => (env'.underlying? t).map fun u => (t, u) := by
    rw [← h.type?_eq name hname]
    cases ht : env.type? name with
    | none => rfl
    | some t => simp only [Option.bind_some, h.underlying?_eq (henv.types name t hname ht)]
  simp only [callee, h.functions name hname, h.helpers name hname, h.operations name hname,
    hconversion]

end TypeEnv.AlikeOn

namespace TypeEnv

/-! ### Parts of expressions -/

section

variable {occurs known : String → Prop} {env env' : TypeEnv}

theorem booleanFindings_alike {t u : Typing} (htu : t.Alike u) (what : String) :
    booleanFindings what t = booleanFindings what u := by
  rw [booleanFindings, booleanFindings, htu.ty, htu.expr]

/-- What a variable is depends on its scope alone. -/
theorem variableType_alike (env env' : TypeEnv) (scope : Scope) (name : String) (start : Position) :
    (env.variableType scope name start).1 = (env'.variableType scope name start).1 ∧
      SameFound (env.variableType scope name start).2 (env'.variableType scope name start).2 := by
  unfold variableType
  cases scope.lookup name <;> exact ⟨rfl, rfl⟩

theorem found_alike {ts us : List Typing} (hts : List.Forall₂ Typing.Alike ts us) :
    SameFound (ts.flatMap Typing.found) (us.flatMap Typing.found) := by
  induction hts with
  | nil => rfl
  | cons htu _ ih => exact htu.found.append ih

theorem expr_alike {ts us : List Typing} (hts : List.Forall₂ Typing.Alike ts us) :
    ts.map Typing.expr = us.map Typing.expr :=
  map_eq_of_forall₂ (hts.imp fun _ _ htu => htu.expr)

theorem inferAll_alike_of {scope : Scope} {es : List Expr} (expected : List (Option Ty))
    (hes : ∀ e ∈ es, ∀ x, x = none ∨ x ∈ expected →
      (env.infer scope x e).Alike (env'.infer scope x e)) :
    List.Forall₂ Typing.Alike (env.inferAll scope expected es)
    (env'.inferAll scope expected es) := by
  induction es generalizing expected with
  | nil => exact .nil
  | cons e es ih =>
      obtain ⟨he, hes⟩ := List.forall_mem_cons.mp hes
      refine .cons (he _ ?_) (ih _ fun e hmem x hx =>
        hes e hmem x (hx.imp_right List.mem_of_mem_tail))
      cases expected with
      | nil => exact .inl rfl
      | cons x xs => exact .inr List.mem_cons_self

variable (h : env.AlikeOn occurs known env')

include h

theorem binaryType_alike {l l' r r' : Typing} (hl : l.Alike l') (hr : r.Alike r')
    (hlty : l.ty.Within known) (hrty : r.ty.Within known) (op : BinaryOp) (start : Position) :
    (env.binaryType op l r start).1 = (env'.binaryType op l' r' start).1 ∧
      SameFound (env.binaryType op l r start).2 (env'.binaryType op l' r' start).2 := by
  simp only [binaryType, ← hl.ty, ← hl.expr, ← hr.ty, ← hr.expr, h.assignable_eq _ _ hlty,
    h.assignable_eq _ _ hrty]
  cases op with
  | and | or => exact ⟨rfl, rfl⟩
  | is | isNot | less | greater | lessEqual | greaterEqual | subtract | multiply | divide =>
      dsimp only
      split <;> exact ⟨rfl, rfl⟩
  | add =>
      dsimp only
      repeat' split
      all_goals exact ⟨rfl, rfl⟩

theorem elementFindings_alike {t : Ty} (ht : t.Within known) {ts us : List Typing}
    (hts : List.Forall₂ Typing.Alike ts us) :
    SameFound (env.elementFindings t ts) (env'.elementFindings t us) := by
  induction hts with
  | nil => rfl
  | cons htu _ ih =>
      refine (htu.found.append ?_).append ih
      simp only [htu.ty, htu.expr, h.assignable_eq _ _ ht]
      split <;> rfl

theorem listType_alike {expected : Option Ty} (hexpected : ∀ t ∈ expected, t.Within known)
    {ts us : List Typing} (hts : List.Forall₂ Typing.Alike ts us)
    (hwithin : ∀ t ∈ ts, t.ty.Within known) (start : Position) :
    (env.listType expected ts start).1 = (env'.listType expected us start).1 ∧
      SameFound (env.listType expected ts start).2 (env'.listType expected us start).2 := by
  have hlist := listType_over (Ty.family_within known) env hexpected hwithin start
  cases hts with
  | nil => exact ⟨rfl, rfl⟩
  | @cons t u ts us htu hts =>
      have hsame : (env.listType expected (t :: ts) start).1 =
          (env'.listType expected (u :: us) start).1 := by
        cases expected with
        | none => simp only [listType, htu.ty]
        | some x =>
            cases x with
            | list x =>
                have hx : x.Within known := hexpected (.list x) rfl
                simp only [listType, htu.ty, htu.expr, h.assignable_eq _ _ hx]
            | _ => simp only [listType, htu.ty]
      refine ⟨hsame, ?_⟩
      simp only [listType] at hlist hsame ⊢
      rw [← Ty.list.inj hsame]
      exact htu.found.append (elementFindings_alike h (by simpa only [Ty.Within] using hlist) hts)

theorem argumentFindings_alike (target : String) {ts us : List Typing}
    (hts : List.Forall₂ Typing.Alike ts us) {ps : List (String × Ty)}
    (hps : ∀ p ∈ ps, p.2.Within known) :
    SameFound (env.argumentFindings target ts ps) (env'.argumentFindings target us ps) := by
  induction hts generalizing ps with
  | nil => rfl
  | cons htu _ ih =>
      cases ps with
      | nil => rfl
      | cons p ps =>
          obtain ⟨hp, hps⟩ := List.forall_mem_cons.mp hps
          refine (htu.found.append ?_).append (ih hps)
          simp only [htu.ty, htu.expr, h.assignable_eq _ _ hp]
          split <;> rfl

theorem baseConversionFindings_alike (b : Base) (start : Position) {ts us : List Typing}
    (hts : List.Forall₂ Typing.Alike ts us) (hwithin : ∀ t ∈ ts, t.ty.Within known) :
    SameFound (env.baseConversionFindings b start ts) (env'.baseConversionFindings b start us) := by
  have hmany : ∀ {ts us : List Typing}, List.Forall₂ Typing.Alike ts us →
      SameFound (typeFinding Diagnostic.arityMismatch ("Conversion '" ++ b.text ++
          " of' takes exactly 1 argument but was given " ++ toString ts.length) start
          (some ("Write '" ++ b.text ++ " of <value>'.")) :: ts.flatMap Typing.found)
        (typeFinding Diagnostic.arityMismatch ("Conversion '" ++ b.text ++
          " of' takes exactly 1 argument but was given " ++ toString us.length) start
          (some ("Write '" ++ b.text ++ " of <value>'.")) :: us.flatMap Typing.found) := by
    intro ts us hts
    rw [hts.length_eq]
    exact .cons rfl (found_alike hts)
  cases hts with
  | nil => exact hmany .nil
  | cons htu hts =>
      cases hts with
      | nil =>
          refine htu.found.append ?_
          have hty := h.underlying?_eq (hwithin _ List.mem_cons_self)
          rw [htu.ty] at hty
          simp only [htu.ty, htu.expr, hty]
          split <;> rfl
      | cons htu' hts => exact hmany (.cons htu (.cons htu' hts))

theorem unknownCallee_alike (scope : Scope) {name : Name} (hname : occurs name.text) :
    (env.unknownCallee scope name).hintless = (env'.unknownCallee scope name).hintless := by
  unfold unknownCallee
  rw [h.type?_eq _ hname]
  split <;> rfl

variable (henv : env.Closed occurs known)

include henv

theorem callType_alike (scope : Scope) {name : Name} (hname : occurs name.text)
    {ts us : List Typing} (hts : List.Forall₂ Typing.Alike ts us)
    (hwithin : ∀ t ∈ ts, t.ty.Within known) (asValue : Bool) :
    (env.callType scope name (env.callee name.text) ts asValue).Alike
      (env'.callType scope name (env.callee name.text) us asValue) := by
  cases hcallee : env.callee name.text with
  | base b => exact ⟨rfl, rfl, baseConversionFindings_alike h b _ hts hwithin⟩
  | unknown =>
      exact ⟨rfl, rfl, (found_alike hts).append (.cons (unknownCallee_alike h scope hname) rfl)⟩
  | known target parameters returns =>
      have hparameters := (callee_over henv.over hname hcallee).1
      have hfound : ∀ text : String, SameFound
          (if ts.length = parameters.length then env.argumentFindings text ts parameters
            else typeFinding Diagnostic.arityMismatch ("'" ++ name.text ++ "' expects "
              ++ toString parameters.length ++ " argument(s) but was given " ++ toString ts.length)
              name.span.start (some ("Signature: " ++ signatureText name.text parameters ++ "."))
              :: ts.flatMap Typing.found)
          (if us.length = parameters.length then env'.argumentFindings text us parameters
            else typeFinding Diagnostic.arityMismatch ("'" ++ name.text ++ "' expects "
              ++ toString parameters.length ++ " argument(s) but was given " ++ toString us.length)
              name.span.start (some ("Signature: " ++ signatureText name.text parameters ++ "."))
              :: us.flatMap Typing.found) := by
        intro text
        rw [hts.length_eq]
        split
        · exact argumentFindings_alike h text hts hparameters
        · exact .cons rfl (found_alike hts)
      simp only [callType]
      split
      · exact ⟨rfl, rfl, (hfound _).append rfl⟩
      · exact ⟨rfl, rfl, hfound _⟩

end

section

variable {occurs known : String → Prop} {env env' : TypeEnv} (h : env.AlikeOn occurs known env')
  (henv : env.Closed occurs known)

include h henv

/-! ### Expressions -/

section

variable {scope : Scope} (hscope : scope.Within known)

include hscope

/-- An expression whose calls are to names that occur is checked alike. -/
theorem infer_alike {expected : Option Ty} (hexpected : ∀ t ∈ expected, t.Within known) {e : Expr}
    (he : e.Everywhere (Expr.CallsWithin occurs)) :
    (env.infer scope expected e).Alike (env'.infer scope expected e) := by
  have hnone : ∀ t ∈ (none : Option Ty), t.Within known := nofun
  have hboolean : ∀ t ∈ some Ty.boolean, t.Within known := forall_mem_some trivial
  induction e generalizing expected with
  | literal value note => exact ⟨rfl, rfl, rfl⟩
  | var name note =>
      obtain ⟨hty, hfound⟩ := variableType_alike env env' scope name note.span.start
      exact ⟨by simp only [infer, hty], hty, hfound⟩
  | list es note ih =>
      have hes := Expr.everywhereIn_iff.mp he.2
      have hexpectations := elementExpectations_over (Ty.family_within known) hexpected es
      have halike := inferAll_alike_of (es.map fun _ => elementExpectation expected)
        fun e hmem x hx => ih e hmem (hx.elim (fun hx => hx ▸ hnone) (hexpectations x)) (hes e hmem)
      obtain ⟨hty, hfound⟩ := listType_alike h hexpected halike
        (inferAll_over (Ty.family_within known) henv.over hscope hexpectations he.2) note.span.start
      exact ⟨by simp only [infer, expr_alike halike, hty], hty, hfound⟩
  | unary op e note ih =>
      cases op with
      | not =>
          have he := ih hboolean he.2
          refine ⟨by simp only [infer, he.expr], rfl, he.found.append ?_⟩
          rw [booleanFindings_alike he]
          rfl
      | negate =>
          have he := ih hnone he.2
          refine ⟨by simp only [infer, he.expr], rfl, he.found.append ?_⟩
          rw [he.ty, he.expr]
          rfl
  | binary op l r note ihl ihr =>
      obtain ⟨-, hlcalls, hrcalls⟩ := he
      have hlogic : ∀ what what' : String,
          SameFound
            ((env.infer scope (some .boolean) l).found
              ++ booleanFindings what (env.infer scope (some .boolean) l)
              ++ (env.infer scope (some .boolean) r).found
              ++ booleanFindings what' (env.infer scope (some .boolean) r))
            ((env'.infer scope (some .boolean) l).found
              ++ booleanFindings what (env'.infer scope (some .boolean) l)
              ++ (env'.infer scope (some .boolean) r).found
              ++ booleanFindings what' (env'.infer scope (some .boolean) r)) := by
        intro what what'
        have hl := ihl hboolean hlcalls
        have hr := ihr hboolean hrcalls
        rw [booleanFindings_alike hl, booleanFindings_alike hr]
        exact ((hl.found.append rfl).append hr.found).append rfl
      have hl := ihl hnone hlcalls
      have hlty := infer_over (Ty.family_within known) henv.over hscope hnone hlcalls
      have hright := forall_mem_some hlty
      have hr := ihr hright hrcalls
      have hrty := infer_over (Ty.family_within known) henv.over hscope hright hrcalls
      have hop := binaryType_alike h hl hr hlty hrty op note.span.start
      cases op with
      | and | or =>
          exact ⟨by simp only [infer, (ihl hboolean hlcalls).expr,
            (ihr hboolean hrcalls).expr], rfl, hlogic _ _⟩
      | _ =>
          simp only [infer, ← hl.ty]
          exact ⟨by rw [hl.expr, hr.expr, hop.1], hop.1, (hl.found.append hr.found).append hop.2⟩
  | call callee args note ih =>
      obtain ⟨hcallee, hcalls⟩ := he
      have hes := Expr.everywhereIn_iff.mp hcalls
      have hexpectations := expectations_over henv.over hcallee args.length
      have hargs := inferAll_alike_of ((env.callee callee.text).expectations args.length)
        fun e hmem x hx => ih e hmem (hx.elim (fun hx => hx ▸ hnone) (hexpectations x)) (hes e hmem)
      have hcall := callType_alike h henv scope hcallee hargs
        (inferAll_over (Ty.family_within known) henv.over hscope hexpectations hcalls) true
      simp only [infer, ← h.callee_eq henv hcallee]
      exact ⟨by rw [expr_alike hargs, hcall.target, hcall.returns],
        by rw [hcall.returns], hcall.found⟩
  | field base name note ih =>
      have hbase := ih hnone he.2
      have hwithin := infer_over (Ty.family_within known) henv.over hscope hnone he.2
      have hfield := h.fieldType_eq hwithin name
      simp only [infer, ← hbase.ty, hfield]
      exact ⟨by rw [hbase.expr], rfl, hbase.found.append rfl⟩

/-! ### Statements -/

theorem checkCall_alike {name : Name} {args : List Expr} {note : CallNote}
    (hcalls : (Expr.call name args note).Everywhere (Expr.CallsWithin occurs)) :
    (env.checkCall scope name args note).1 = (env'.checkCall scope name args note).1 ∧
      (env.checkCall scope name args note).2.1 = (env'.checkCall scope name args note).2.1 ∧
      SameFound (env.checkCall scope name args note).2.2
        (env'.checkCall scope name args note).2.2 := by
  obtain ⟨hname, hcalls⟩ := hcalls
  have hes := Expr.everywhereIn_iff.mp hcalls
  have hnone : ∀ t ∈ (none : Option Ty), t.Within known := nofun
  have hexpectations := expectations_over henv.over hname args.length
  have hargs := inferAll_alike_of ((env.callee name.text).expectations args.length)
    fun e hmem x hx => infer_alike h henv hscope
      (hx.elim (fun hx => hx ▸ hnone) (hexpectations x)) (hes e hmem)
  have hcall := callType_alike h henv scope hname hargs
    (inferAll_over (Ty.family_within known) henv.over hscope hexpectations hcalls) false
  simp only [checkCall, ← h.callee_eq henv hname]
  exact ⟨expr_alike hargs, by rw [hcall.target], hcall.found⟩

theorem checkUnused_alike {e : Expr} (he : e.Everywhere (Expr.CallsWithin occurs)) :
    (env.checkUnused scope e).1 = (env'.checkUnused scope e).1 ∧
      SameFound (env.checkUnused scope e).2 (env'.checkUnused scope e).2 := by
  have hnone : ∀ t ∈ (none : Option Ty), t.Within known := nofun
  cases e with
  | call name args note =>
      obtain ⟨hargs, hnote, hfound⟩ := checkCall_alike h henv hscope he
      exact ⟨by simp only [checkUnused, hargs, hnote], hfound⟩
  | _ =>
      have halike := infer_alike h henv hscope hnone he
      exact ⟨halike.expr, halike.found⟩

theorem checkReturn_alike {fn : Enclosing} (hfn : ∀ t ∈ fn.returns, t.Within known)
    {value : Option Expr} {span : Span}
    (hvalue : (Stmt.return value span).Everywhere (Expr.CallsWithin occurs)) :
    (env.checkReturn fn scope value span).1 = (env'.checkReturn fn scope value span).1 ∧
      SameFound (env.checkReturn fn scope value span).2
        (env'.checkReturn fn scope value span).2 := by
  have hnone : ∀ t ∈ (none : Option Ty), t.Within known := nofun
  cases value with
  | none => cases hr : fn.returns <;> simp only [checkReturn, hr, true_and] <;> rfl
  | some e =>
      cases hr : fn.returns with
      | none =>
          have he := infer_alike h henv hscope hnone hvalue
          simp only [checkReturn, hr]
          exact ⟨by rw [he.expr], he.found.append (by rw [he.ty, he.expr]; rfl)⟩
      | some t =>
          have ht := hfn t hr
          have he := infer_alike h henv hscope (forall_mem_some ht) hvalue
          simp only [checkReturn, hr]
          refine ⟨by rw [he.expr], he.found.append ?_⟩
          simp only [he.ty, he.expr, h.assignable_eq _ _ ht]
          split <;> rfl

end

omit h in
theorem checkBlock_alike_of {fn : Enclosing} {ss : List Stmt}
    (hwithin : ∀ s ∈ ss, s.Within occurs)
    (hss : ∀ s ∈ ss, s.Within occurs → ∀ {scope : Scope}, scope.Within known →
      ∀ {timer timer'}, (env.checkStmt fn scope timer s).timer.exceeded = none →
      (env'.checkStmt fn scope timer' s).timer.exceeded = none →
      (env.checkStmt fn scope timer s).Alike (env'.checkStmt fn scope timer' s))
    {scope : Scope} (hscope : scope.Within known) {timer timer' : Timer}
    (htime : (env.checkBlock fn scope timer ss).timer.exceeded = none)
    (htime' : (env'.checkBlock fn scope timer' ss).timer.exceeded = none) :
    (env.checkBlock fn scope timer ss).Alike (env'.checkBlock fn scope timer' ss) := by
  induction ss generalizing scope timer timer' with
  | nil => exact ⟨rfl, rfl, rfl⟩
  | cons s ss ih =>
      obtain ⟨hs, hss⟩ := List.forall_mem_cons.mp hss
      obtain ⟨hwithinHead, hwithin⟩ := List.forall_mem_cons.mp hwithin
      simp only [checkBlock] at htime htime' ⊢
      split at htime
      · next e he => rw [he] at htime; cases htime
      · next hchecked =>
          split at htime'
          · next e he => rw [he] at htime'; cases htime'
          · next hchecked' =>
              have halike := hs hwithinHead hscope (exceeded_of_checkBlock env htime)
                (exceeded_of_checkBlock env' htime')
              rw [← halike.scope] at htime' ⊢
              have hrest := ih hwithin hss
                (checkStmt_over (Ty.family_within known) henv.over hwithinHead.calls hscope _)
                htime htime'
              exact ⟨by rw [halike.stmt, hrest.stmts], by rw [halike.returns, hrest.returns],
                halike.found.append hrest.found⟩

/-- A statement is checked alike, if both checks are in time. -/
theorem checkStmt_alike {fn : Enclosing} (hfn : ∀ t ∈ fn.returns, t.Within known) {s : Stmt}
    (hs : s.Within occurs) {scope : Scope} (hscope : scope.Within known) {timer timer' : Timer}
    (htime : (env.checkStmt fn scope timer s).timer.exceeded = none)
    (htime' : (env'.checkStmt fn scope timer' s).timer.exceeded = none) :
    (env.checkStmt fn scope timer s).Alike (env'.checkStmt fn scope timer' s) := by
  have hnone : ∀ t ∈ (none : Option Ty), t.Within known := nofun
  have hboolean : ∀ t ∈ some Ty.boolean, t.Within known := forall_mem_some trivial
  obtain ⟨hcalls, hbinds⟩ := hs
  induction s generalizing scope timer timer' with
  | bind name e span =>
      have he := infer_alike h henv hscope hnone hcalls
      have hname := hbinds name.text List.mem_cons_self
      simp only [checkStmt, ← he.ty, h.bind_eq scope hname]
      exact ⟨by rw [he.expr], rfl, rfl, he.found.append rfl⟩
  | branch c t span iht =>
      have hc := infer_alike h henv hscope hboolean hcalls.1
      simp only [checkStmt, booleanFindings_alike hc] at htime htime' ⊢
      have ht := checkBlock_alike_of henv (Stmt.Within.of_block hcalls.2 hbinds)
        (fun s hmem hs _ hscope _ _ htime htime' =>
          iht s hmem hscope htime htime' hs.calls hs.binds) hscope.child htime htime'
      exact ⟨by rw [hc.expr, ht.stmts], rfl, rfl, (hc.found.append rfl).append ht.found⟩
  | branchOtherwise c t o span iht iho =>
      obtain ⟨htbinds, hobinds⟩ := List.forall_mem_append.mp hbinds
      have hc := infer_alike h henv hscope hboolean hcalls.1
      simp only [checkStmt, booleanFindings_alike hc] at htime htime' ⊢
      have ht := checkBlock_alike_of henv (Stmt.Within.of_block hcalls.2.1 htbinds)
        (fun s hmem hs _ hscope _ _ htime htime' =>
          iht s hmem hscope htime htime' hs.calls hs.binds) hscope.child
        (exceeded_of_checkBlock env htime) (exceeded_of_checkBlock env' htime')
      have ho := checkBlock_alike_of henv (Stmt.Within.of_block hcalls.2.2 hobinds)
        (fun s hmem hs _ hscope _ _ htime htime' =>
          iho s hmem hscope htime htime' hs.calls hs.binds) hscope.child htime htime'
      exact ⟨by rw [hc.expr, ht.stmts, ho.stmts], rfl, by rw [ht.returns, ho.returns],
        ((hc.found.append rfl).append ht.found).append ho.found⟩
  | forEach item e body span ih =>
      have he := infer_alike h henv hscope hnone hcalls.1
      have hitem : itemType item.text (env'.infer scope none e) =
          itemType item.text (env.infer scope none e) := by
        rw [itemType, itemType, he.ty, he.expr]
      obtain ⟨hname, hbinds⟩ := List.forall_mem_cons.mp hbinds
      simp only [checkStmt, hitem, ← h.bind_eq _ hname] at htime htime' ⊢
      have hiterable := infer_over (Ty.family_within known) henv.over hscope hnone hcalls.1
      have hitemType := itemType_over (Ty.family_within known) item.text hiterable
      have hinner :=
        bind_over (Ty.family_within known) env hscope.child hitemType item.text item.span
      have hbody := checkBlock_alike_of henv (Stmt.Within.of_block hcalls.2 hbinds)
        (fun s hmem hs _ hscope _ _ htime htime' =>
          ih s hmem hscope htime htime' hs.calls hs.binds) hinner htime htime'
      exact ⟨by rw [he.expr, hbody.stmts], rfl, rfl,
        ((he.found.append rfl).append rfl).append hbody.found⟩
  | call name args note span =>
      obtain ⟨hargs, hnote, hfound⟩ := checkCall_alike h henv hscope hcalls
      exact ⟨by simp only [checkStmt, hargs, hnote], rfl, rfl, hfound⟩
  | returns value span =>
      obtain ⟨hvalue, hfound⟩ := checkReturn_alike h henv hscope hfn hcalls
      exact ⟨by simp only [checkStmt, hvalue], rfl, rfl, hfound⟩
  | expression value span =>
      obtain ⟨hvalue, hfound⟩ := checkUnused_alike h henv hscope hcalls
      exact ⟨by simp only [checkStmt, hvalue], rfl, rfl, hfound⟩

/-! ### Functions -/

omit henv in
theorem bindParameters_eq {ps : List (Typed × Ty)} (hps : ∀ p ∈ ps, occurs p.1.name)
    (scope : Scope) :
    env.bindParameters scope ps = env'.bindParameters scope ps := by
  induction ps generalizing scope with
  | nil => rfl
  | cons p ps ih =>
      obtain ⟨hp, hps⟩ := List.forall_mem_cons.mp hps
      simp only [bindParameters, h.bind_eq scope hp, ih hps]

/-- A function is checked alike, if both checks are in time. -/
theorem checkFunction_alike {f : FunctionDecl} (hparameters : ∀ p ∈ f.parameters, occurs p.name)
    (hbody : ∀ s ∈ f.body, s.Within occurs) {s : Signature} (hs : s.Within known)
    {timer timer' : Timer} (htime : (env.checkFunction timer f s).2.2.exceeded = none)
    (htime' : (env'.checkFunction timer' f s).2.2.exceeded = none) :
    (env.checkFunction timer f s).1 = (env'.checkFunction timer' f s).1 ∧
      SameFound (env.checkFunction timer f s).2.1 (env'.checkFunction timer' f s).2.1 := by
  have hzip : ∀ p ∈ f.parameters.zip (s.parameters.map Prod.snd),
      occurs p.1.name ∧ p.2.Within known := by
    intro p hp
    obtain ⟨hparameter, hty⟩ := List.of_mem_zip hp
    obtain ⟨q, hq, heq⟩ := List.mem_map.mp hty
    exact ⟨hparameters p.1 hparameter, heq ▸ hs.parameters q hq⟩
  have hempty : Scope.Within known [[]] :=
    List.forall_mem_singleton.mpr (List.forall_mem_nil _)
  have hbind := bindParameters_eq h (fun p hp => (hzip p hp).1) [[]]
  have hscope := bindParameters_over (Ty.family_within known) env hempty fun p hp => (hzip p hp).2
  simp only [checkFunction, ← hbind] at htime htime' ⊢
  have hbody := checkBlock_alike_of henv hbody
    (fun _ _ hwithin _ hscope => checkStmt_alike h henv hs.returns hwithin hscope)
      hscope htime htime'
  refine ⟨by rw [hbody.stmts], (SameFound.append rfl hbody.found).append ?_⟩
  rw [hbody.returns]
  rfl

/-! ### References -/

omit henv

theorem resolve_alike {ref : TypeRef} (href : occurs ref.base) :
    (env.resolve ref).1 = (env'.resolve ref).1 ∧
      SameFound (env.resolve ref).2 (env'.resolve ref).2 := by
  induction ref with
  | named name span =>
      simp only [resolve, h.type?_eq name href]
      repeat' split
      all_goals exact ⟨rfl, rfl⟩
  | list element span ih => exact ⟨congrArg Ty.list (ih href).1, (ih href).2⟩

theorem recordFields_alike (record : String) {fs : List Typed} (hfs : ∀ f ∈ fs, occurs f.ty.base)
    (before : List (String × Ty)) :
    (recordFields env record before fs).1 = (recordFields env' record before fs).1 ∧
      SameFound (recordFields env record before fs).2 (recordFields env' record before fs).2 := by
  induction fs generalizing before with
  | nil => exact ⟨rfl, rfl⟩
  | cons f fs ih =>
      obtain ⟨hf, hfs⟩ := List.forall_mem_cons.mp hfs
      simp only [recordFields]
      split
      · exact ⟨(ih hfs before).1, .cons rfl (ih hfs before).2⟩
      · obtain ⟨hty, hfound⟩ := resolve_alike h hf
        rw [hty]
        exact ⟨(ih hfs _).1, hfound.append (ih hfs _).2⟩

theorem resolveAll_alike {refs : List TypeRef} (hrefs : ∀ ref ∈ refs, occurs ref.base) :
    (env.resolveAll refs).1 = (env'.resolveAll refs).1 ∧
      SameFound (env.resolveAll refs).2 (env'.resolveAll refs).2 := by
  induction refs with
  | nil => exact ⟨rfl, rfl⟩
  | cons ref refs ih =>
      obtain ⟨href, hrefs⟩ := List.forall_mem_cons.mp hrefs
      obtain ⟨hty, hfound⟩ := resolve_alike h href
      exact ⟨by simp only [resolveAll, hty, (ih hrefs).1], hfound.append (ih hrefs).2⟩

theorem signature_alike {f : FunctionDecl} (hparameters : ∀ p ∈ f.parameters, occurs p.ty.base)
    (hreturns : ∀ ref ∈ f.returns, occurs ref.base) :
    (env.signature f).1 = (env'.signature f).1 ∧
      SameFound (env.signature f).2 (env'.signature f).2 := by
  obtain ⟨htypes, hfound⟩ := resolveAll_alike h (List.forall_mem_map.mpr hparameters)
  simp only [signature, htypes]
  split
  · exact ⟨rfl, hfound⟩
  · next ref href =>
      obtain ⟨hty, hmore⟩ := resolve_alike h (hreturns ref href)
      exact ⟨by rw [hty], hfound.append hmore⟩

end

end TypeEnv

end Prosaic
