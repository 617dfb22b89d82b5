import Mathlib.Data.List.Forall2
import Prosaic.Proofs.Program.Parts
import Prosaic.Typing.Expression

/-!
What the check of an expression establishes when it finds nothing. At every node the types written
into the tree satisfy the condition of that node, in the terms of the check itself; what these
conditions mean for the program is a matter of its declarations.
-/

namespace Prosaic

namespace TypeEnv

/-! ### Callees -/

/-- What a name in a call is known for. Each sort of callable is looked for only where the sorts
before it do not have the name. -/
inductive Known (env : TypeEnv) (name : String) :
    CallTarget → List (String × Ty) → Option Ty → Prop
  | function {f : DeclaredFunction} (hbase : Base.ofText? name = none)
      (hf : env.functions.lookup name = some f) :
      Known env name .function f.signature.parameters f.signature.returns
  | helper {s : Signature} (hbase : Base.ofText? name = none)
      (hfunction : env.functions.lookup name = none)
      (hs : env.registry.helpers.lookup name = some s) :
      Known env name .helper s.parameters s.returns
  | operation {s : Signature} (hbase : Base.ofText? name = none)
      (hfunction : env.functions.lookup name = none)
      (hhelper : env.registry.helpers.lookup name = none)
      (hs : env.registry.operations.lookup name = some s) :
      Known env name .operation s.parameters s.returns
  | conversion {t u : Ty} (hbase : Base.ofText? name = none)
      (hfunction : env.functions.lookup name = none)
      (hhelper : env.registry.helpers.lookup name = none)
      (hoperation : env.registry.operations.lookup name = none) (ht : env.type? name = some t)
      (hu : env.underlying? t = some u) :
      Known env name .conversion [("value", u)] (some t)

theorem callee_spec (env : TypeEnv) (name : String) :
    (∀ b, env.callee name = .base b → Base.ofText? name = some b) ∧
      ∀ kind parameters returns, env.callee name = .known kind parameters returns →
        env.Known name kind parameters returns := by
  refine ⟨fun b hb => ?_, fun kind parameters returns hknown => ?_⟩
  · unfold callee at hb
    split at hb
    · next hbase =>
        cases hb
        exact hbase
    · repeat' split at hb
      all_goals cases hb
  · unfold callee at hknown
    split at hknown
    · cases hknown
    · next hbase =>
        split at hknown
        · next f hf =>
            cases hknown
            exact .function hbase hf
        · next hfunction =>
            split at hknown
            · next s hs =>
                cases hknown
                exact .helper hbase hfunction hs
            · next hhelper =>
                split at hknown
                · next s hs =>
                    cases hknown
                    exact .operation hbase hfunction hhelper hs
                · next hoperation =>
                    split at hknown
                    · next t u htu =>
                        cases hknown
                        obtain ⟨t', ht, hu⟩ := Option.bind_eq_some_iff.mp htu
                        obtain ⟨u', hu, heq⟩ := Option.map_eq_some_iff.mp hu
                        cases heq
                        exact .conversion hbase hfunction hhelper hoperation ht hu
                    · cases hknown

/-! ### Conditions of the nodes -/

/-- An expression may stand where a type is expected. -/
def Fits (env : TypeEnv) (e : Expr) (expected : Ty) : Prop :=
  ∃ actual, e.ty? = some actual ∧ env.assignable e actual expected = true

/-- The arguments, the target and the result of a call go with what its name stands for. -/
def CallFits (env : TypeEnv) (name : String) (args : List Expr) (target : Option CallTarget)
    (returns : Option Ty) : Prop :=
  match env.callee name with
  | .base b => target = some .conversion ∧ returns = some (.base b) ∧
      ∃ arg t, args = [arg] ∧ arg.ty? = some t ∧
        (t.isError = true ∨ env.underlying? t = some (.base b))
  | .known kind parameters result =>
      target = some kind ∧ returns = result ∧ List.Forall₂ env.Fits args (parameters.map Prod.snd)
  | .unknown => False

theorem callFits_cases {env : TypeEnv} {name : String} {args : List Expr}
    {target : Option CallTarget} {returns : Option Ty} (h : env.CallFits name args target returns) :
    (∃ b arg t, Base.ofText? name = some b ∧ target = some .conversion ∧
        returns = some (.base b) ∧ args = [arg] ∧ arg.ty? = some t ∧
        (t.isError = true ∨ env.underlying? t = some (.base b))) ∨
      ∃ kind parameters, env.Known name kind parameters returns ∧ target = some kind ∧
        List.Forall₂ env.Fits args (parameters.map Prod.snd) := by
  unfold CallFits at h
  split at h
  · next b hcallee =>
      obtain ⟨htarget, hreturns, arg, t, hargs, ht, hunder⟩ := h
      exact .inl ⟨b, arg, t, (env.callee_spec name).1 b hcallee, htarget, hreturns,
        hargs, ht, hunder⟩
  · next kind parameters result hcallee =>
      obtain ⟨htarget, rfl, hargs⟩ := h
      exact .inr ⟨kind, parameters, (env.callee_spec name).2 _ _ _ hcallee, htarget, hargs⟩
  · exact h.elim

/-- The operands and the result of an infix operation go together. -/
def OperatorFits (env : TypeEnv) (left right : Expr) (leftTy rightTy t : Ty) : BinaryOp → Prop
  | .and | .or => leftTy.same .boolean = true ∧ rightTy.same .boolean = true ∧ t = .boolean
  | .is | .isNot =>
      (env.assignable right rightTy leftTy = true ∨ env.assignable left leftTy rightTy = true) ∧
        t = .boolean
  | .less | .greater | .lessEqual | .greaterEqual =>
      (leftTy.same .number = true ∧ rightTy.same .number = true ∨
        leftTy.same .dateTime = true ∧ rightTy.same .dateTime = true) ∧ t = .boolean
  | .add =>
      ∃ sum, (sum = .number ∨ sum = .string) ∧ leftTy.same sum = true ∧ rightTy.same sum = true ∧
        t = if leftTy.containsError then rightTy else sum
  | .subtract | .multiply | .divide =>
      leftTy.same .number = true ∧ rightTy.same .number = true ∧ t = .number

/-- The condition of a node in a scope. Only an empty list where the error type is expected has no
list type. -/
def Accepts (env : TypeEnv) (scope : Scope) : Expr → Prop
  | .literal value note => note.ty = some (literalType value)
  | .list elements note =>
      (∃ t, note.ty = some (.list t) ∧ ∀ e ∈ elements, env.Fits e t) ∨
        (elements = [] ∧ note.ty = some .error)
  | .variable name note => ∃ b, scope.lookup name = some b ∧ note.ty = some b.ty
  | .unary .not operand note =>
      note.ty = some .boolean ∧ ∃ t, operand.ty? = some t ∧ t.same .boolean = true
  | .unary .negate operand note =>
      note.ty = some .number ∧ ∃ t, operand.ty? = some t ∧ t.same .number = true
  | .binary op left right note =>
      ∃ leftTy rightTy t, left.ty? = some leftTy ∧ right.ty? = some rightTy ∧ note.ty = some t ∧
        env.OperatorFits left right leftTy rightTy t op
  | .call callee args note =>
      ∃ t, note.ty = some t ∧ env.CallFits callee.text args note.target (some t)
  | .field base name note =>
      ∃ baseTy t, base.ty? = some baseTy ∧ note.ty = some t ∧
        ((baseTy = .error ∧ t = .error) ∨
          ∃ r, env.record? baseTy = some r ∧ r.field? name.text = some t)

section

variable (env : TypeEnv) (scope : Scope)

/-! ### Results of the check -/

/-- The type that a check yields is the one that it writes into the tree. -/
theorem ty?_infer (expected : Option Ty) (e : Expr) :
    (env.infer scope expected e).expr.ty? = some (env.infer scope expected e).ty := by
  cases e with
  | unary op => cases op <;> simp [infer, Expr.ty?]
  | binary op => cases op <;> simp [infer, Expr.ty?]
  | _ => simp [infer, Expr.ty?]

/-- Every expression of a list is checked under some expectation, which is that of its place if one
is given there. -/
theorem mem_inferAll {t : Typing} {es : List Expr} :
    ∀ {expected : List (Option Ty)}, t ∈ env.inferAll scope expected es →
      ∃ e ∈ es, ∃ x, t = env.infer scope x e ∧ (x = none ∨ x ∈ expected) := by
  induction es with
  | nil => intro expected h; simp [inferAll] at h
  | cons e es ih =>
      intro expected h
      rcases List.mem_cons.mp (by simpa only [inferAll] using h) with rfl | h
      · refine ⟨e, List.mem_cons_self, _, rfl, ?_⟩
        cases expected with
        | nil => exact .inl rfl
        | cons x xs => exact .inr List.mem_cons_self
      · obtain ⟨e', he', x, rfl, hx⟩ := ih h
        refine ⟨e', List.mem_cons_of_mem _ he', x, rfl, ?_⟩
        exact hx.imp_right List.mem_of_mem_tail

theorem ty?_of_mem_inferAll {t : Typing} {expected : List (Option Ty)} {es : List Expr}
    (h : t ∈ env.inferAll scope expected es) : t.expr.ty? = some t.ty := by
  obtain ⟨e, -, x, rfl, -⟩ := mem_inferAll env scope h
  exact ty?_infer env scope x e

/-! ### Parts without findings -/

theorem elementFindings_eq_nil {elementTy : Ty} {ts : List Typing}
    (h : env.elementFindings elementTy ts = []) :
    ∀ t ∈ ts, t.found = [] ∧ env.assignable t.expr t.ty elementTy = true := by
  induction ts with
  | nil => simp
  | cons t ts ih =>
      simp only [elementFindings, List.append_eq_nil_iff] at h
      refine List.forall_mem_cons.mpr ⟨⟨h.1.1, ?_⟩, ih h.2⟩
      by_contra hassign
      simp [hassign] at h

theorem assignable_self (e : Expr) (t : Ty) : env.assignable e t t = true := by
  simp [assignable, Ty.same]

/-- A list without findings has a type that its elements fit; the element type is what was expected
or the type of the first element. -/
theorem listType_eq_nil {expected : Option Ty} {ts : List Typing} {start : Position}
    (h : (env.listType expected ts start).2 = []) :
    (∀ t ∈ ts, t.found = []) ∧
      ((∃ elementTy, (env.listType expected ts start).1 = .list elementTy ∧
          (expected = some (.list elementTy) ∨ ∃ t ∈ ts, t.ty = elementTy) ∧
          ∀ t ∈ ts, env.assignable t.expr t.ty elementTy = true) ∨
        (ts = [] ∧ (env.listType expected ts start).1 = .error ∧ expected = some .error)) := by
  cases ts with
  | nil =>
      simp only [listType, emptyListType] at h ⊢
      split at h <;> simp_all
  | cons first rest =>
      simp only [listType, List.append_eq_nil_iff] at h ⊢
      have hrest := elementFindings_eq_nil env h.2
      refine ⟨List.forall_mem_cons.mpr ⟨h.1, fun t ht => (hrest t ht).1⟩, .inl ⟨_, rfl, ?_, ?_⟩⟩
      · split
        · split
          · exact .inl rfl
          · exact .inr ⟨first, List.mem_cons_self, rfl⟩
        · exact .inr ⟨first, List.mem_cons_self, rfl⟩
      -- the first element gives the type of the others unless it fits what is expected
      · refine List.forall_mem_cons.mpr ⟨?_, fun t ht => (hrest t ht).2⟩
        split
        · split
          · assumption
          · exact assignable_self env _ _
        · exact assignable_self env _ _

theorem argumentFindings_eq_nil {target : String} {ts : List Typing}
    {parameters : List (String × Ty)} (hty : ∀ t ∈ ts, t.expr.ty? = some t.ty)
    (hlength : ts.length = parameters.length)
    (h : env.argumentFindings target ts parameters = []) :
    (∀ t ∈ ts, t.found = []) ∧
      List.Forall₂ env.Fits (ts.map Typing.expr) (parameters.map Prod.snd) := by
  induction ts generalizing parameters with
  | nil =>
      cases parameters with
      | nil => simp
      | cons => simp at hlength
  | cons t ts ih =>
      cases parameters with
      | nil => simp at hlength
      | cons p parameters =>
          simp only [argumentFindings, List.append_eq_nil_iff] at h
          obtain ⟨ht, hts⟩ := List.forall_mem_cons.mp hty
          obtain ⟨hfound, hargs⟩ := ih hts (by simpa using hlength) h.2
          refine ⟨List.forall_mem_cons.mpr ⟨h.1.1, hfound⟩, .cons ⟨t.ty, ht, ?_⟩ hargs⟩
          by_contra hassign
          simp [hassign] at h

theorem baseConversionFindings_eq_nil {b : Base} {start : Position} {ts : List Typing}
    (h : env.baseConversionFindings b start ts = []) :
    ∃ t, ts = [t] ∧ t.found = [] ∧
      (t.ty.isError = true ∨ env.underlying? t.ty = some (.base b)) := by
  unfold baseConversionFindings at h
  split at h
  · next arg =>
      refine ⟨arg, rfl, (List.append_eq_nil_iff.mp h).1, ?_⟩
      by_contra hunder
      simp [not_or.mp hunder] at h
  · cases h

/-- A call without findings goes with what its name stands for. -/
theorem callType_eq_nil {name : Name} {ts : List Typing} {asValue : Bool}
    (hty : ∀ t ∈ ts, t.expr.ty? = some t.ty)
    (h : (env.callType scope name (env.callee name.text) ts asValue).found = []) :
    (∀ t ∈ ts, t.found = []) ∧
      (asValue = true →
        (env.callType scope name (env.callee name.text) ts asValue).returns.isSome = true) ∧
      env.CallFits name.text (ts.map Typing.expr)
        (env.callType scope name (env.callee name.text) ts asValue).target
        (env.callType scope name (env.callee name.text) ts asValue).returns := by
  unfold CallFits
  cases hc : env.callee name.text with
  | base b =>
      rw [hc] at h
      obtain ⟨t, rfl, hfound, hunder⟩ := baseConversionFindings_eq_nil env h
      refine ⟨by simpa using hfound, fun _ => rfl, rfl, rfl, t.expr, t.ty, rfl, ?_, hunder⟩
      exact hty t (by simp)
  | unknown =>
      rw [hc] at h
      simp [callType] at h
  | known kind parameters returns =>
      rw [hc] at h
      -- with another number of arguments the call is reported before they are looked at
      have hargs : ts.length = parameters.length := by
        by_contra hlength
        simp only [callType, if_neg hlength] at h
        split at h <;> simp at h
      have hvalue : (asValue && returns.isNone) = false := by
        cases hv : asValue && returns.isNone with
        | false => rfl
        | true => simp [callType, hv] at h
      simp only [callType, hvalue, if_pos hargs, Bool.false_eq_true, if_false] at h ⊢
      obtain ⟨hfound, hfits⟩ := argumentFindings_eq_nil env hty hargs h
      refine ⟨hfound, ?_, trivial, trivial, hfits⟩
      rintro rfl
      simpa using hvalue

/-! ### The whole check -/

theorem booleanFindings_eq_nil {what : String} {t : Typing} (ht : t.expr.ty? = some t.ty)
    (h : booleanFindings what t = []) :
    ∃ ty, t.expr.ty? = some ty ∧ ty.same .boolean = true := by
  refine ⟨t.ty, ht, ?_⟩
  unfold booleanFindings at h
  split at h
  · assumption
  · cases h

/-- An infix operation without findings has operands that go with it. -/
theorem binaryType_eq_nil {op : BinaryOp} {left right : Typing} {start : Position}
    (hand : op ≠ .and) (hor : op ≠ .or) (h : (env.binaryType op left right start).2 = []) :
    env.OperatorFits left.expr right.expr left.ty right.ty
      (env.binaryType op left right start).1 op := by
  cases op with
  | and => exact absurd rfl hand
  | or => exact absurd rfl hor
  | is | isNot =>
      simp only [binaryType, OperatorFits] at h ⊢
      split at h
      · next hfits =>
          rw [if_pos hfits]
          exact ⟨(Bool.or_eq_true _ _).mp hfits, rfl⟩
      · cases h
  | less | greater | lessEqual | greaterEqual =>
      simp only [binaryType, OperatorFits] at h ⊢
      split at h
      · next hboth =>
          rw [if_pos hboth]
          simp only [Bool.or_eq_true, Bool.and_eq_true] at hboth
          exact ⟨hboth, rfl⟩
      · cases h
  | add =>
      simp only [binaryType, OperatorFits] at h ⊢
      split at h
      · next hboth =>
          rw [if_pos hboth]
          rw [Bool.and_eq_true] at hboth
          exact ⟨.number, .inl rfl, hboth.1, hboth.2, rfl⟩
      · next hnumber =>
          rw [if_neg hnumber]
          split at h
          · next hboth =>
              rw [if_pos hboth]
              rw [Bool.and_eq_true] at hboth
              exact ⟨.string, .inr rfl, hboth.1, hboth.2, rfl⟩
          · cases h
  | subtract | multiply | divide =>
      simp only [binaryType, OperatorFits] at h ⊢
      split at h
      · next hboth =>
          rw [if_pos hboth]
          rw [Bool.and_eq_true] at hboth
          exact ⟨hboth.1, hboth.2, rfl⟩
      · cases h

/-- A field that is read without findings belongs to a record, unless the value is in error. -/
theorem fieldType_eq_nil {base : Ty} {name : Name} (h : (env.fieldType base name).2 = []) :
    (base = .error ∧ (env.fieldType base name).1 = .error) ∨
      ∃ r, env.record? base = some r ∧ r.field? name.text = some (env.fieldType base name).1 := by
  by_cases herror : base.isError = true
  · exact .inl ⟨of_decide_eq_true herror, by simp [fieldType, herror]⟩
  · cases hr : env.record? base with
    | none => simp [fieldType, herror, hr] at h
    | some r =>
        cases hf : r.field? name.text with
        | none => simp [fieldType, herror, hr, hf] at h
        | some t => exact .inr ⟨r, rfl, by simp [fieldType, herror, hr, hf]⟩

theorem infer_binary {expected : Option Ty} {op : BinaryOp} {l r : Expr} {note : ExprNote}
    (hand : op ≠ .and) (hor : op ≠ .or) :
    env.infer scope expected (.binary op l r note) =
      let left := env.infer scope none l
      let right := env.infer scope (some left.ty) r
      let (t, found) := env.binaryType op left right note.span.start
      ⟨.binary op left.expr right.expr { note with ty := some t }, t,
        left.found ++ right.found ++ found⟩ := by
  cases op with
  | and => exact absurd rfl hand
  | or => exact absurd rfl hor
  | _ => simp only [infer]

/-- A call that goes with its callee has the target that the check found for it. -/
theorem target_noteTarget {name : String} {args : List Expr} {target : Option CallTarget}
    {returns : Option Ty} (note : CallNote) (h : env.CallFits name args target returns) :
    (noteTarget note target).target = target := by
  rcases callFits_cases h with ⟨_, _, _, _, htarget, _⟩ | ⟨_, _, _, htarget, _⟩
  · simp [noteTarget, htarget]
  · simp [noteTarget, htarget]

/-- Where the check of an expression finds nothing, every node of the result meets its
condition. -/
theorem infer_accepts {expected : Option Ty} {e : Expr}
    (h : (env.infer scope expected e).found = []) :
    (env.infer scope expected e).expr.Everywhere (env.Accepts scope) := by
  induction e generalizing expected with
  | literal value note => simp [infer, Expr.Everywhere, Accepts]
  | var name note =>
      simp only [infer, Expr.Everywhere, Accepts] at h ⊢
      cases hb : scope.lookup name with
      | none => simp [variableType, hb] at h
      | some b => exact ⟨b, rfl, by simp [variableType, hb]⟩
  | list es note ih =>
      simp only [infer] at h ⊢
      have hty : ∀ t ∈ env.inferAll scope (es.map fun _ => elementExpectation expected) es,
          t.expr.ty? = some t.ty := fun t => ty?_of_mem_inferAll env scope
      obtain ⟨hfound, hlist⟩ := listType_eq_nil env h
      refine ⟨?_, Expr.everywhereIn_iff.mpr ?_⟩
      · rcases hlist with ⟨t, ht, -, hassign⟩ | ⟨hnil, ht, -⟩
        · refine .inl ⟨t, congrArg some ht, ?_⟩
          simp only [List.forall_mem_map]
          exact fun u hu => ⟨u.ty, hty u hu, hassign u hu⟩
        · exact .inr ⟨congrArg (List.map Typing.expr) hnil, congrArg some ht⟩
      · simp only [List.forall_mem_map]
        intro t ht
        obtain ⟨e, he, x, rfl, -⟩ := mem_inferAll env scope ht
        exact ih e he (hfound _ ht)
  | unary op e note ih =>
      cases op with
      | not =>
          simp only [infer, List.append_eq_nil_iff] at h ⊢
          exact ⟨⟨rfl, booleanFindings_eq_nil (ty?_infer env scope _ e) h.2⟩, ih h.1⟩
      | negate =>
          simp only [infer, List.append_eq_nil_iff] at h ⊢
          refine ⟨⟨rfl, _, ty?_infer env scope _ e, ?_⟩, ih h.1⟩
          by_contra hsame
          simp [hsame] at h
  | binary op l r note ihl ihr =>
      by_cases hlogic : op = .and ∨ op = .or
      · rcases hlogic with rfl | rfl <;>
        · simp only [infer, List.append_eq_nil_iff] at h ⊢
          obtain ⟨⟨⟨hl, hlb⟩, hr⟩, hrb⟩ := h
          obtain ⟨lt, hlt, hlsame⟩ := booleanFindings_eq_nil (ty?_infer env scope _ l) hlb
          obtain ⟨rt, hrt, hrsame⟩ := booleanFindings_eq_nil (ty?_infer env scope _ r) hrb
          exact ⟨⟨lt, rt, .boolean, hlt, hrt, rfl, hlsame, hrsame, rfl⟩, ihl hl, ihr hr⟩
      · obtain ⟨hand, hor⟩ := not_or.mp hlogic
        rw [infer_binary env scope hand hor] at h ⊢
        simp only [List.append_eq_nil_iff] at h
        exact ⟨⟨_, _, _, ty?_infer env scope _ l, ty?_infer env scope _ r, rfl,
          binaryType_eq_nil env hand hor h.2⟩, ihl h.1.1, ihr h.1.2⟩
  | call f args note ih =>
      simp only [infer] at h ⊢
      have hty : ∀ t ∈ env.inferAll scope ((env.callee f.text).expectations args.length) args,
          t.expr.ty? = some t.ty := fun t => ty?_of_mem_inferAll env scope
      obtain ⟨hfound, hvalue, hfits⟩ := callType_eq_nil env scope hty h
      obtain ⟨t, ht⟩ := Option.isSome_iff_exists.mp (hvalue rfl)
      rw [ht] at hfits
      refine ⟨⟨t, by simp [ht], ?_⟩, Expr.everywhereIn_iff.mpr ?_⟩
      · rwa [target_noteTarget env note hfits]
      · simp only [List.forall_mem_map]
        intro t ht
        obtain ⟨e, he, x, rfl, -⟩ := mem_inferAll env scope ht
        exact ih e he (hfound _ ht)
  | field e name note ih =>
      simp only [infer, List.append_eq_nil_iff] at h ⊢
      exact ⟨⟨_, _, ty?_infer env scope _ e, rfl, fieldType_eq_nil env h.2⟩, ih h.1⟩

end

end TypeEnv

end Prosaic
