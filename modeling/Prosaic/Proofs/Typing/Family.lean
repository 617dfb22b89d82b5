import Prosaic.Proofs.Program.Names
import Prosaic.Proofs.Table
import Prosaic.Proofs.Typing.Expression
import Prosaic.Typing.Declared
import Prosaic.Typing.Statement

/-!
The types that a check comes to. Starting from the names in a program it follows signatures, fields
and underlying types; where these lead to types of one family only, so do all types that are found
for expressions and locals.
-/

namespace Prosaic

/-- A family of types has the base types and the error type, and a list exactly if it has the type
of the elements. -/
structure Ty.Family (P : Ty → Prop) : Prop where
  base : ∀ b, P (.base b)
  error : P .error
  list : ∀ t, P (.list t) ↔ P t

variable {occurs : String → Prop} {P : Ty → Prop}

/-- A signature takes and returns types of a family. -/
structure Signature.Over (P : Ty → Prop) (s : Signature) : Prop where
  parameters : ∀ p ∈ s.parameters, P p.2
  returns : ∀ t ∈ s.returns, P t

/-- The locals of a scope have types of a family. -/
def Scope.Over (P : Ty → Prop) (s : Scope) : Prop := ∀ f ∈ s, ∀ b ∈ f, P b.ty

/-- The names that occur lead to types of a family, and these to others. -/
structure TypeEnv.Over (occurs : String → Prop) (P : Ty → Prop) (env : TypeEnv) : Prop where
  functions : ∀ n f, occurs n → env.functions.lookup n = some f → f.signature.Over P
  helpers : ∀ n s, occurs n → env.registry.helpers.lookup n = some s → s.Over P
  operations : ∀ n s, occurs n → env.registry.operations.lookup n = some s → s.Over P
  types : ∀ n t, occurs n → env.type? n = some t → P t
  underlying : ∀ t u, P t → env.underlying? t = some u → P u
  fields : ∀ t r, P t → env.record? t = some r → ∀ f ∈ r.fields, P f.2

theorem TypeEnv.Over.mono {occurs' : String → Prop} (h : ∀ n, occurs' n → occurs n) {env : TypeEnv}
    (henv : env.Over occurs P) : env.Over occurs' P where
  functions n f hn := henv.functions n f (h n hn)
  helpers n s hn := henv.helpers n s (h n hn)
  operations n s hn := henv.operations n s (h n hn)
  types n t hn := henv.types n t (h n hn)
  underlying := henv.underlying
  fields := henv.fields

/-! ### Scopes -/

theorem Scope.Over.lookup {s : Scope} (h : s.Over P) {name : String} {b : Binding}
    (hb : s.lookup name = some b) : P b.ty := by
  obtain ⟨f, hf, hfind⟩ := List.exists_of_findSome?_eq_some hb
  exact h f hf b (List.mem_of_find?_eq_some hfind)

theorem Scope.Over.child {s : Scope} (h : s.Over P) : s.child.Over P :=
  List.forall_mem_cons.mpr ⟨List.forall_mem_nil _, h⟩

theorem Scope.Over.bind {s : Scope} (h : s.Over P) {b : Binding} (hb : P b.ty) :
    Scope.Over P (s.bind b).2 := by
  cases s with
  | nil => exact List.forall_mem_singleton.mpr (List.forall_mem_singleton.mpr hb)
  | cons f rest =>
      obtain ⟨hf, hrest⟩ := List.forall_mem_cons.mp h
      refine List.forall_mem_cons.mpr ⟨?_, hrest⟩
      split
      · exact hf
      · exact List.forall_mem_append.mpr ⟨hf, List.forall_mem_singleton.mpr hb⟩

namespace TypeEnv

variable (hP : Ty.Family P) {env : TypeEnv} (henv : env.Over occurs P)

/-! ### Parts of expressions -/

include henv in
/-- What a name calls takes and returns types of the family. -/
theorem callee_over {name : String} (hname : occurs name) {target : CallTarget}
    {parameters : List (String × Ty)} {returns : Option Ty}
    (h : env.callee name = .known target parameters returns) :
    (∀ p ∈ parameters, P p.2) ∧ ∀ t ∈ returns, P t := by
  cases (env.callee_spec name).2 _ _ _ h with
  | function hbase hf =>
      have hsignature := henv.functions _ _ hname hf
      exact ⟨hsignature.parameters, hsignature.returns⟩
  | helper hbase hfunction hs =>
      have hsignature := henv.helpers _ _ hname hs
      exact ⟨hsignature.parameters, hsignature.returns⟩
  | operation hbase hfunction hhelper hs =>
      have hsignature := henv.operations _ _ hname hs
      exact ⟨hsignature.parameters, hsignature.returns⟩
  | conversion hbase hfunction hhelper hoperation ht hu =>
      have htype := henv.types name _ hname ht
      refine ⟨List.forall_mem_singleton.mpr (henv.underlying _ _ htype hu), ?_⟩
      rintro v ⟨⟩
      exact htype

include henv in
theorem expectations_over {name : String} (hname : occurs name) (count : Nat) :
    ∀ x ∈ (env.callee name).expectations count, ∀ t ∈ x, P t := by
  intro x hx
  unfold Callee.expectations at hx
  split at hx
  · next target parameters returns hcallee =>
      split at hx
      · obtain ⟨p, hp, rfl⟩ := List.mem_map.mp hx
        rintro t ⟨⟩
        exact (callee_over henv hname hcallee).1 p hp
      · cases hx
  · cases hx

include hP

theorem variableType_over {scope : Scope} (hscope : scope.Over P) (name : String)
    (start : Position) : P (env.variableType scope name start).1 := by
  unfold variableType
  split
  · next b hb => exact hscope.lookup hb
  · exact hP.error

include henv in
theorem fieldType_over {base : Ty} (hbase : P base) (name : Name) :
    P (env.fieldType base name).1 := by
  unfold fieldType
  split
  · exact hP.error
  · dsimp only
    split
    · exact hP.error
    · next r hr =>
        split
        · next t ht => exact henv.fields base r hbase hr _ (mem_of_lookup ht)
        · exact hP.error

theorem binaryType_over {left right : Typing} (hright : P right.ty) (op : BinaryOp)
    (start : Position) : P (env.binaryType op left right start).1 := by
  unfold binaryType
  cases op with
  | and | or => exact hP.base _
  | is | isNot | less | greater | lessEqual | greaterEqual | subtract | multiply | divide =>
      dsimp only
      split <;> exact hP.base _
  | add =>
      dsimp only
      split
      · split
        · exact hright
        · exact hP.base _
      · split
        · split
          · exact hright
          · exact hP.base _
        · exact hP.error

theorem elementExpectation_over {expected : Option Ty} (hexpected : ∀ t ∈ expected, P t) :
    ∀ t ∈ elementExpectation expected, P t := by
  intro t ht
  unfold elementExpectation at ht
  split at ht
  · cases ht
    exact (hP.list t).mp (hexpected (.list t) rfl)
  · cases ht

theorem listType_over (env : TypeEnv) {expected : Option Ty} (hexpected : ∀ t ∈ expected, P t)
    {ts : List Typing} (hts : ∀ t ∈ ts, P t.ty) (start : Position) :
    P (env.listType expected ts start).1 := by
  cases ts with
  | nil =>
      rw [listType, emptyListType.eq_def]
      split
      · exact hexpected _ rfl
      · exact hP.error
      · exact hP.error
  | cons first rest =>
      have hfirst := hts first List.mem_cons_self
      cases expected with
      | none => exact (hP.list _).mpr hfirst
      | some x =>
          cases x with
          | list t =>
              simp only [listType]
              split
              · exact hexpected _ rfl
              · exact (hP.list _).mpr hfirst
          | _ => exact (hP.list _).mpr hfirst

include henv in
theorem callType_over (scope : Scope) {name : Name} (hname : occurs name.text)
    (args : List Typing) (asValue : Bool) :
    ∀ t ∈ (env.callType scope name (env.callee name.text) args asValue).returns, P t := by
  unfold callType
  split
  · rintro t ⟨⟩
    exact hP.base _
  · rintro t ⟨⟩
    exact hP.error
  · next target parameters returns hcallee =>
      dsimp only
      split
      · rintro t ⟨⟩
        exact hP.error
      · exact (callee_over henv hname hcallee).2

/-! ### Expressions -/

omit hP in
/-- Several expressions get types of the family if each one does where such types are expected. -/
theorem inferAll_over_of {scope : Scope} {es : List Expr}
    (hes : ∀ e ∈ es, ∀ x : Option Ty, (∀ t ∈ x, P t) → P (env.infer scope x e).ty)
    {expected : List (Option Ty)} (hexpected : ∀ x ∈ expected, ∀ t ∈ x, P t) :
    ∀ t ∈ env.inferAll scope expected es, P t.ty := by
  intro t ht
  obtain ⟨e, he, x, rfl, hx⟩ := mem_inferAll env scope ht
  refine hes e he x ?_
  rcases hx with rfl | hx
  · exact nofun
  · exact hexpected x hx

theorem elementExpectations_over {α : Type} {expected : Option Ty}
    (hexpected : ∀ t ∈ expected, P t) (es : List α) :
    ∀ x ∈ es.map fun _ => elementExpectation expected, ∀ t ∈ x, P t := by
  intro x hx
  obtain ⟨_, -, rfl⟩ := List.mem_map.mp hx
  exact elementExpectation_over hP hexpected

omit hP in
theorem forall_mem_some {t : Ty} (h : P t) : ∀ u ∈ some t, P u := by
  rintro u ⟨⟩
  exact h

section

variable {scope : Scope} (hscope : scope.Over P)

include henv hscope

/-- Every expression gets a type of the family where one is expected. -/
theorem infer_over {expected : Option Ty} (hexpected : ∀ t ∈ expected, P t) {e : Expr}
    (he : e.Everywhere (Expr.CallsWithin occurs)) : P (env.infer scope expected e).ty := by
  have hnone : ∀ t ∈ (none : Option Ty), P t := nofun
  induction e generalizing expected with
  | literal value note => cases value <;> exact hP.base _
  | var name note => exact variableType_over hP hscope name note.span.start
  | list es note ih =>
      have hes := Expr.everywhereIn_iff.mp he.2
      exact listType_over hP env hexpected (inferAll_over_of
        (fun e hmem x hx => ih e hmem hx (hes e hmem)) (elementExpectations_over hP hexpected es)) _
  | unary op e note ih => cases op <;> exact hP.base _
  | binary op l r note ihl ihr =>
      obtain ⟨-, hl, hr⟩ := he
      have hleft := ihl hnone hl
      have hright := ihr (forall_mem_some hleft) hr
      cases op with
      | and | or => exact hP.base _
      | _ =>
          simp only [infer]
          exact binaryType_over hP hright _ _
  | call callee args note ih =>
      have hreturns := callType_over hP henv scope he.1
        (env.inferAll scope ((env.callee callee.text).expectations args.length) args) true
      simp only [infer]
      cases hcall : (env.callType scope callee (env.callee callee.text)
          (env.inferAll scope ((env.callee callee.text).expectations args.length) args)
          true).returns with
      | none => exact hP.error
      | some t => exact hreturns t hcall
  | field base name note ih => exact fieldType_over hP henv (ih hnone he.2) name

theorem inferAll_over {expected : List (Option Ty)} (hexpected : ∀ x ∈ expected, ∀ t ∈ x, P t)
    {es : List Expr} (hes : Expr.EverywhereIn (Expr.CallsWithin occurs) es) :
    ∀ t ∈ env.inferAll scope expected es, P t.ty :=
  inferAll_over_of (fun e he _ hx => infer_over hP henv hscope hx
    (Expr.everywhereIn_iff.mp hes e he)) hexpected

end

/-! ### Statements -/

theorem itemType_over (item : String) {t : Typing} (ht : P t.ty) : P (itemType item t).1 := by
  unfold itemType
  split
  · next u hu =>
      rw [hu] at ht
      exact (hP.list u).mp ht
  · exact hP.error
  · exact hP.error

theorem bind_over (env : TypeEnv) {scope : Scope} (hscope : scope.Over P) {t : Ty} (ht : P t)
    (name : String) (span : Span) : (env.bind scope name t span).1.Over P := by
  have hbound (clash : Bool) : P (if clash then Ty.error else t) := by
    cases clash with
    | true => exact hP.error
    | false => exact ht
  exact hscope.bind (hbound _)

theorem bindParameters_over (env : TypeEnv) {scope : Scope} (hscope : scope.Over P)
    {ps : List (Typed × Ty)} (hps : ∀ p ∈ ps, P p.2) : (env.bindParameters scope ps).1.Over P := by
  induction ps generalizing scope with
  | nil => exact hscope
  | cons p ps ih =>
      obtain ⟨hp, hps⟩ := List.forall_mem_cons.mp hps
      exact ih (bind_over hP env hscope hp p.1.name p.1.span) hps

include henv in
/-- Behind a statement all locals have types of the family. -/
theorem checkStmt_over {fn : Enclosing} {s : Stmt} (hs : s.Everywhere (Expr.CallsWithin occurs))
    {scope : Scope} (hscope : scope.Over P) (timer : Timer) :
    (env.checkStmt fn scope timer s).scope.Over P := by
  cases s with
  | bind name e span =>
      have hnone : ∀ t ∈ (none : Option Ty), P t := nofun
      exact bind_over hP env hscope (infer_over hP henv hscope hnone hs) name.text name.span
  | branch c t o span => cases o <;> exact hscope
  | forEach | call | «return» | expression => exact hscope

/-! ### References -/

section

variable (htypes : ∀ n t, occurs n → env.type? n = some t → P t)

include htypes

theorem resolve_over {ref : TypeRef} (href : occurs ref.base) : P (env.resolve ref).1 := by
  induction ref with
  | named name span =>
      unfold resolve
      split
      · exact hP.error
      · split
        · next t ht => exact htypes name t href ht
        · exact hP.error
  | list element span ih => exact (hP.list _).mpr (ih href)

theorem resolveAll_over {refs : List TypeRef} (hrefs : ∀ ref ∈ refs, occurs ref.base) :
    ∀ t ∈ (env.resolveAll refs).1, P t := by
  induction refs with
  | nil => exact List.forall_mem_nil _
  | cons ref refs ih =>
      obtain ⟨href, hrefs⟩ := List.forall_mem_cons.mp hrefs
      exact List.forall_mem_cons.mpr ⟨resolve_over hP htypes href, ih hrefs⟩

theorem recordFields_over (record : String) {fs : List Typed} (hfs : ∀ f ∈ fs, occurs f.ty.base)
    {before : List (String × Ty)} (hbefore : ∀ e ∈ before, P e.2) :
    ∀ e ∈ (recordFields env record before fs).1, P e.2 := by
  induction fs generalizing before with
  | nil => exact hbefore
  | cons f fs ih =>
      obtain ⟨hf, hfs⟩ := List.forall_mem_cons.mp hfs
      unfold recordFields
      split
      · exact ih hfs hbefore
      · exact ih hfs (List.forall_mem_append.mpr
          ⟨hbefore, List.forall_mem_singleton.mpr (resolve_over hP htypes hf)⟩)

theorem signature_over {f : FunctionDecl} (hparameters : ∀ p ∈ f.parameters, occurs p.ty.base)
    (hreturns : ∀ ref ∈ f.returns, occurs ref.base) : (env.signature f).1.Over P := by
  have hzip : ∀ p ∈ (f.parameters.map Typed.name).zip
      (env.resolveAll (f.parameters.map Typed.ty)).1, P p.2 := fun p hp =>
    resolveAll_over hP htypes (List.forall_mem_map.mpr hparameters) p.2 (List.of_mem_zip hp).2
  simp only [signature]
  split
  · exact ⟨hzip, nofun⟩
  · next ref href =>
      exact ⟨hzip, forall_mem_some (resolve_over hP htypes (hreturns ref href))⟩

end

end TypeEnv

/-! ### Types with known names

They are a family, so where the names in a program lead to known types only, all types that are
found for expressions and locals are known. -/

variable {known : String → Prop}

/-- The names of the domain and record types in a type are known. What a function takes and returns
does not count, as no value is one. -/
def Ty.Within (known : String → Prop) : Ty → Prop
  | .domain name | .record name => known name
  | .list t => t.Within known
  | .base _ | .function .. | .error => True

theorem Ty.Within.mono {known' : String → Prop} (h : ∀ n, known n → known' n) {t : Ty}
    (ht : t.Within known) : t.Within known' := by
  induction t with
  | list t ih => exact ih ht
  | domain name | record name => exact h name ht
  | base b | function parameters returns | error => trivial

theorem Ty.within_true (t : Ty) : t.Within fun _ => True := by
  induction t with
  | list t ih => exact ih
  | base b | domain name | record name | function parameters returns | error => trivial

/-- The types that a signature takes and returns are known. -/
structure Signature.Within (known : String → Prop) (s : Signature) : Prop where
  parameters : ∀ p ∈ s.parameters, p.2.Within known
  returns : ∀ t ∈ s.returns, t.Within known

theorem Signature.Within.mono {known' : String → Prop} (h : ∀ n, known n → known' n) {s : Signature}
    (hs : s.Within known) : s.Within known' :=
  ⟨fun p hp => (hs.parameters p hp).mono h, fun t ht => (hs.returns t ht).mono h⟩

/-- The locals of a scope have known types. -/
def Scope.Within (known : String → Prop) (s : Scope) : Prop := ∀ f ∈ s, ∀ b ∈ f, b.ty.Within known

/-- The names that occur lead to known types, and these to others. -/
structure TypeEnv.Closed (occurs known : String → Prop) (env : TypeEnv) : Prop where
  functions : ∀ n f, occurs n → env.functions.lookup n = some f → f.signature.Within known
  helpers : ∀ n s, occurs n → env.registry.helpers.lookup n = some s → s.Within known
  operations : ∀ n s, occurs n → env.registry.operations.lookup n = some s → s.Within known
  types : ∀ n t, occurs n → env.type? n = some t → t.Within known
  domains : ∀ n d, known n → env.domain? (.domain n) = some d → ∀ t ∈ d.underlying, t.Within known
  records : ∀ n r, known n → env.record? (.record n) = some r → ∀ f ∈ r.fields, f.2.Within known

/-! ### All names -/

theorem Signature.within_true (s : Signature) : s.Within fun _ => True where
  parameters p _ := p.2.within_true
  returns t _ := t.within_true

/-- All names lead to types, whatever the environment. -/
theorem TypeEnv.closed_true (env : TypeEnv) : env.Closed (fun _ => True) fun _ => True where
  functions _ f _ _ := f.signature.within_true
  helpers _ s _ _ := s.within_true
  operations _ s _ _ := s.within_true
  types _ t _ _ := t.within_true
  domains _ _ _ _ t _ := t.within_true
  records _ _ _ _ f _ := f.2.within_true

/-! ### The family of known types -/

theorem Ty.family_within (known : String → Prop) : Ty.Family (Ty.Within known) :=
  ⟨fun _ => trivial, trivial, fun _ => Iff.rfl⟩

theorem Signature.Over.within {s : Signature} (h : s.Over (Ty.Within known)) : s.Within known :=
  ⟨h.parameters, h.returns⟩

theorem Scope.Within.child {s : Scope} (h : s.Within known) : s.child.Within known :=
  Scope.Over.child h

namespace TypeEnv

variable {env : TypeEnv}

theorem Closed.over (h : env.Closed occurs known) : env.Over occurs (Ty.Within known) where
  functions n f hn hf := ⟨(h.functions n f hn hf).parameters, (h.functions n f hn hf).returns⟩
  helpers n s hn hs := ⟨(h.helpers n s hn hs).parameters, (h.helpers n s hn hs).returns⟩
  operations n s hn hs := ⟨(h.operations n s hn hs).parameters, (h.operations n s hn hs).returns⟩
  types := h.types
  underlying t u ht hu := by
    obtain ⟨d, hd, hmade⟩ := Option.bind_eq_some_iff.mp hu
    cases t with
    | domain name => exact h.domains name d ht hd u hmade
    | _ => cases hd
  fields t r ht hr := by
    cases t with
    | record name => exact h.records name r ht hr
    | _ => cases hr

theorem Over.closed (h : env.Over occurs (Ty.Within known)) : env.Closed occurs known where
  functions n f hn hf := (h.functions n f hn hf).within
  helpers n s hn hs := (h.helpers n s hn hs).within
  operations n s hn hs := (h.operations n s hn hs).within
  types := h.types
  domains n d hn hd t ht := h.underlying (.domain n) t hn (Option.bind_eq_some_iff.mpr ⟨d, hd, ht⟩)
  records n r hn hr := h.fields (.record n) r hn hr

end TypeEnv

end Prosaic
