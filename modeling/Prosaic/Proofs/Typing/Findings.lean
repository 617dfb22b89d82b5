import Prosaic.Proofs.Diagnostic.Findings
import Prosaic.Proofs.Program.Parts
import Prosaic.Proofs.Program.Placed
import Prosaic.Proofs.Typing.Statement

/-!
What the type check finds. Every finding is one of the type check itself: a limit that is exceeded
is no finding but ends the check. And every finding points at a place where a part of the program
starts. There is one lemma for each function of the check that reports.
-/

namespace Prosaic

open Diagnostic

variable {mark : Location → Prop} {E : Expr → Prop}

/-! ### Findings -/

/-- A finding of the type check with one of some codes, at one of some places. -/
structure FoundAt (codes : List String) (mark : Location → Prop) (d : Diagnostic) : Prop where
  phase : d.phase = .types
  code : d.code ∈ codes
  location : mark d.location

/-- Findings of the type check with some codes, at some places. -/
def AllFoundAt (codes : List String) (mark : Location → Prop) (ds : List Diagnostic) : Prop :=
  ∀ d ∈ ds, FoundAt codes mark d

/-- The codes of what is wrong with the names and the types of declarations. -/
def declarationCodes : List String := [unknownType, duplicateDeclaration]

/-- The codes of what is wrong with the parts of bodies. -/
def bodyCodes : List String :=
  [typeMismatch, rebind, unresolvedName, unknownField, arityMismatch, duplicateDeclaration]

/-- The codes of what is wrong with a name that is bound. -/
def bindingCodes : List String := [rebind, duplicateDeclaration]

theorem bindingCodes_subset : bindingCodes ⊆ bodyCodes := by decide

section

variable {codes : List String} {d : Diagnostic} {ds es : List Diagnostic}

@[simp] theorem allFoundAt_nil : AllFoundAt codes mark [] := List.forall_mem_nil _

@[simp] theorem allFoundAt_cons :
    AllFoundAt codes mark (d :: ds) ↔ FoundAt codes mark d ∧ AllFoundAt codes mark ds :=
  List.forall_mem_cons

@[simp] theorem allFoundAt_append :
    AllFoundAt codes mark (ds ++ es) ↔ AllFoundAt codes mark ds ∧ AllFoundAt codes mark es :=
  List.forall_mem_append

theorem allFoundAt_singleton : AllFoundAt codes mark [d] ↔ FoundAt codes mark d :=
  List.forall_mem_singleton

theorem AllFoundAt.mono {codes' : List String} (hcodes : codes ⊆ codes')
    (h : AllFoundAt codes mark ds) : AllFoundAt codes' mark ds :=
  fun d hd => ⟨(h d hd).phase, hcodes (h d hd).code, (h d hd).location⟩

theorem AllFoundAt.code_ne {code : String} (hcode : code ∉ codes) (h : AllFoundAt codes mark ds) :
    ∀ d ∈ ds, d.code ≠ code := fun d hd heq => hcode (heq ▸ (h d hd).code)

theorem AllFoundAt.plainAt (hcodes : resourceLimit ∉ codes) (h : AllFoundAt codes mark ds) :
    AllPlainAt .types mark ds :=
  fun d hd => ⟨⟨(h d hd).phase, fun hlimit => hcodes (hlimit ▸ (h d hd).code)⟩, (h d hd).location⟩

end

section

variable {start : Position} (hstart : mark start.location)

include hstart

theorem foundAt_typeFinding {codes : List String} {code : String} (h : code ∈ codes)
    (message : String) (hint : Option String) :
    FoundAt codes mark (typeFinding code message start hint) :=
  ⟨rfl, h, hstart⟩

theorem TypeEnv.foundAt_mismatch (message : String) (hint : Option String) :
    FoundAt bodyCodes mark (mismatch message start hint) :=
  foundAt_typeFinding hstart (by decide) message hint

theorem TypeEnv.declaredAt_unknownType (knownNames : List String) (name : String) :
    FoundAt declarationCodes mark (TypeEnv.unknownType knownNames name start) :=
  foundAt_typeFinding hstart (by decide) _ _

theorem TypeEnv.declaredAt_bareList : FoundAt declarationCodes mark (bareList start) :=
  foundAt_typeFinding hstart (by decide) _ _

end

namespace TypeEnv

variable (env : TypeEnv)

/-! ### Type references -/

theorem declaredAt_resolve {ref : TypeRef} (href : ref.Placed mark) :
    AllFoundAt declarationCodes mark (env.resolve ref).2 := by
  induction ref with
  | named name span =>
      unfold resolve
      split
      · exact List.forall_mem_singleton.mpr (declaredAt_bareList href)
      · split
        · exact List.forall_mem_nil _
        · exact List.forall_mem_singleton.mpr (declaredAt_unknownType href _ _)
  | list element span ih => exact ih href.2

theorem declaredAt_resolveAll {refs : List TypeRef} (hrefs : ∀ r ∈ refs, r.Placed mark) :
    AllFoundAt declarationCodes mark (env.resolveAll refs).2 := by
  induction refs with
  | nil => exact List.forall_mem_nil _
  | cons ref refs ih =>
      obtain ⟨href, hrefs⟩ := List.forall_mem_cons.mp hrefs
      exact List.forall_mem_append.mpr ⟨env.declaredAt_resolve href, ih hrefs⟩

end TypeEnv

/-! ### Declarations -/

theorem declaredAt_nameConflict {registry : Registry} {lines : List (String × Nat)} {d : Decl}
    {conflict : Diagnostic} (hd : mark d.nameStart.location)
    (h : nameConflict registry lines d = some conflict) :
    FoundAt declarationCodes mark conflict := by
  have hplain : ∀ message hint : String,
      FoundAt declarationCodes mark (typeFinding duplicateDeclaration message
        d.nameStart (some hint)) :=
    fun _ _ => foundAt_typeFinding hd (by decide) _ _
  unfold nameConflict at h
  dsimp only at h
  split at h
  · cases h
    exact hplain _ _
  split at h
  · cases h
    exact hplain _ _
  split at h
  · cases h
    exact hplain _ _
  · cases h

theorem declaredAt_registerNames (registry : Registry) (lines : List (String × Nat))
    {ds : List Decl} (hds : ∀ d ∈ ds, mark d.nameStart.location) :
    AllFoundAt declarationCodes mark (registerNames registry lines ds).2 := by
  induction ds generalizing lines with
  | nil => exact List.forall_mem_nil _
  | cons d ds ih =>
      obtain ⟨hd, hds⟩ := List.forall_mem_cons.mp hds
      unfold registerNames
      split
      · exact ih lines hds
      · split
        · next hconflict =>
            exact List.forall_mem_cons.mpr ⟨declaredAt_nameConflict hd hconflict, ih lines hds⟩
        · exact ih _ hds

/-- Every declaration is marked, whether it is registered or not. -/
theorem map_fst_registerNames (registry : Registry) (lines : List (String × Nat))
    (ds : List Decl) : (registerNames registry lines ds).1.map Prod.fst = ds := by
  induction ds generalizing lines with
  | nil => rfl
  | cons d ds ih =>
      unfold registerNames
      split
      · exact congrArg (d :: ·) (ih lines)
      · split <;> exact congrArg (d :: ·) (ih _)

/-- What is registered is declared. -/
theorem mem_registered {registry : Registry} {lines : List (String × Nat)} {ds : List Decl}
    {d : Decl} (h : d ∈ registered (registerNames registry lines ds).1) : d ∈ ds := by
  rw [← map_fst_registerNames registry lines ds]
  exact (List.filter_sublist.map Prod.fst).subset h

namespace Aliases

theorem declaredAt_report {a : Aliases} {d : Diagnostic}
    (h : AllFoundAt declarationCodes mark a.found)
    (hd : FoundAt declarationCodes mark d) : AllFoundAt declarationCodes mark (a.report d).found :=
  List.forall_mem_append.mpr ⟨h, List.forall_mem_singleton.mpr hd⟩

theorem found_define (a : Aliases) (name : String) (domain : Ty.Domain) :
    (a.define name domain).found = a.found := by
  unfold define
  split <;> rfl

theorem declaredAt_reference {named : String → Position → Aliases → Ty × Aliases}
    (hnamed : ∀ name start a, mark start.location → AllFoundAt declarationCodes mark a.found →
      AllFoundAt declarationCodes mark (named name start a).2.found)
    {ref : TypeRef} (href : ref.Placed mark) {a : Aliases}
    (h : AllFoundAt declarationCodes mark a.found) :
    AllFoundAt declarationCodes mark (reference named ref a).2.found := by
  induction ref with
  | named name span =>
      unfold reference
      split
      · exact declaredAt_report h (TypeEnv.declaredAt_bareList href)
      · exact hnamed _ _ _ href h
  | list element span ih => exact ih href.2

theorem declaredAt_resolve (registry : Registry) {declared : List TypeDecl}
    (hdeclared : ∀ t ∈ declared, (Decl.type t).Placed mark E) (knownNames : List String)
    (fuel : Nat) (opened : List String) {t : TypeDecl} (ht : (Decl.type t).Placed mark E)
    {a : Aliases} (h : AllFoundAt declarationCodes mark a.found) :
    AllFoundAt declarationCodes mark
      (resolve registry declared knownNames fuel opened t a).2.found := by
  induction fuel generalizing opened t a with
  | zero => exact h
  | succ fuel ih =>
      unfold resolve
      split
      · exact h
      split
      · exact declaredAt_report h (foundAt_typeFinding ht.1 (by decide) _ _)
      · dsimp only
        rw [found_define]
        split
        · exact h
        · next ref hbody =>
            refine declaredAt_reference ?_ (ht.2 ref (by rw [hbody]; rfl)) h
            intro name start a hstart h
            split
            · exact h
            split
            · exact h
            split
            · next other hother => exact ih _ (hdeclared other (List.mem_of_find?_eq_some hother)) h
            split
            · exact h
            · exact declaredAt_report h (TypeEnv.declaredAt_unknownType hstart _ _)

theorem declaredAt_foldl {step : Aliases → TypeDecl → Aliases} {ts : List TypeDecl}
    (hstep : ∀ t ∈ ts, ∀ a, AllFoundAt declarationCodes mark a.found →
      AllFoundAt declarationCodes mark (step a t).found)
    {a : Aliases} (h : AllFoundAt declarationCodes mark a.found) :
    AllFoundAt declarationCodes mark (ts.foldl step a).found := by
  induction ts generalizing a with
  | nil => exact h
  | cons t ts ih =>
      obtain ⟨ht, hts⟩ := List.forall_mem_cons.mp hstep
      exact ih hts (ht a h)

end Aliases

theorem declaredAt_recordFields (env : TypeEnv) (record : String) (known : List (String × Ty))
    {fs : List Typed} (hfs : ∀ f ∈ fs, f.Placed mark) :
    AllFoundAt declarationCodes mark (recordFields env record known fs).2 := by
  induction fs generalizing known with
  | nil => exact List.forall_mem_nil _
  | cons f fs ih =>
      obtain ⟨hf, hfs⟩ := List.forall_mem_cons.mp hfs
      unfold recordFields
      split
      · exact List.forall_mem_cons.mpr
          ⟨foundAt_typeFinding hf.span (by decide) _ _, ih known hfs⟩
      · exact List.forall_mem_append.mpr ⟨env.declaredAt_resolve hf.ty, ih _ hfs⟩

theorem declaredAt_recordDefinitions (env : TypeEnv) {rs : List RecordDecl}
    (hrs : ∀ r ∈ rs, (Decl.record r).Placed mark E) :
    AllFoundAt declarationCodes mark (recordDefinitions env rs).2 := by
  induction rs with
  | nil => exact List.forall_mem_nil _
  | cons r rs ih =>
      obtain ⟨hr, hrs⟩ := List.forall_mem_cons.mp hrs
      exact List.forall_mem_append.mpr ⟨declaredAt_recordFields env r.name [] hr.2, ih hrs⟩

namespace TypeEnv

variable (env : TypeEnv)

theorem declaredAt_signature {f : FunctionDecl} (hf : f.Placed mark E) :
    AllFoundAt declarationCodes mark (env.signature f).2 := by
  have hparameters : AllFoundAt declarationCodes mark
      (env.resolveAll (f.parameters.map Typed.ty)).2 :=
    env.declaredAt_resolveAll (List.forall_mem_map.mpr fun p hp => (hf.parameters p hp).ty)
  unfold signature
  dsimp only
  split
  · exact hparameters
  · next ref hreturns =>
      exact List.forall_mem_append.mpr
        ⟨hparameters, env.declaredAt_resolve (hf.returns ref hreturns)⟩

theorem declaredAt_signatures {fs : List FunctionDecl} (hfs : ∀ f ∈ fs, f.Placed mark E) :
    AllFoundAt declarationCodes mark (env.signatures fs).2 := by
  induction fs with
  | nil => exact List.forall_mem_nil _
  | cons f fs ih =>
      obtain ⟨hf, hfs⟩ := List.forall_mem_cons.mp hfs
      exact List.forall_mem_append.mpr ⟨env.declaredAt_signature hf, ih hfs⟩

end TypeEnv

theorem declaredAt_of (registry : Registry) {program : Program} (h : program.Placed mark E) :
    AllFoundAt declarationCodes mark (Declared.of registry program).found := by
  let own : Program :=
    { program with declarations := registered (registerNames registry [] program.declarations).1 }
  have hown : own.Placed mark E := fun d hd => h d (mem_registered hd)
  have htypes : ∀ t ∈ own.types, (Decl.type t).Placed mark E :=
    fun t ht => hown _ (Program.mem_types.mp ht)
  refine List.forall_mem_append.mpr ⟨List.forall_mem_append.mpr
    ⟨List.forall_mem_append.mpr ⟨?_, ?_⟩, ?_⟩, ?_⟩
  · exact declaredAt_registerNames registry [] fun d hd => (h d hd).nameStart
  · exact Aliases.declaredAt_foldl
      (fun t ht a => Aliases.declaredAt_resolve registry htypes _ _ [] (htypes t ht))
      (List.forall_mem_nil _)
  · exact declaredAt_recordDefinitions _ fun r hr => hown _ (Program.mem_records.mp hr)
  · exact TypeEnv.declaredAt_signatures _ fun f hf => h _ (Program.mem_functions.mp hf)

/-! ### Expressions -/

namespace TypeEnv

variable (env : TypeEnv) (scope : Scope)

section

variable {start : Position} (hstart : mark start.location)

include hstart

theorem foundAt_variableType (name : String) :
    AllFoundAt bodyCodes mark (env.variableType scope name start).2 := by
  unfold variableType
  split
  · exact allFoundAt_nil
  · exact allFoundAt_singleton.mpr (foundAt_typeFinding hstart (by decide) _ _)

theorem foundAt_binaryType (op : BinaryOp) (left right : Typing) :
    AllFoundAt bodyCodes mark (env.binaryType op left right start).2 := by
  unfold binaryType
  dsimp only
  repeat' split
  all_goals
    first
    | exact allFoundAt_nil
    | exact allFoundAt_singleton.mpr (foundAt_mismatch hstart _ _)

theorem foundAt_emptyListType (expected : Option Ty) :
    AllFoundAt bodyCodes mark (emptyListType expected start).2 := by
  unfold emptyListType
  split
  · exact allFoundAt_nil
  · exact allFoundAt_nil
  · exact allFoundAt_singleton.mpr (foundAt_mismatch hstart _ _)

end

theorem foundAt_fieldType (base : Ty) {name : Name} (hname : mark name.span.start.location) :
    AllFoundAt bodyCodes mark (env.fieldType base name).2 := by
  unfold fieldType
  split
  · exact allFoundAt_nil
  dsimp only
  split
  · exact allFoundAt_singleton.mpr (foundAt_mismatch hname _ _)
  split
  · exact allFoundAt_nil
  · exact allFoundAt_singleton.mpr (foundAt_typeFinding hname (by decide) _ _)

/-- A checked expression with what was found in it, all at some places. -/
structure TypedAt (mark : Location → Prop) (t : Typing) : Prop where
  found : AllFoundAt bodyCodes mark t.found
  start : mark t.expr.span.start.location

/-- Checked expressions with what was found in them. -/
def AllTyped (mark : Location → Prop) (ts : List Typing) : Prop := ∀ t ∈ ts, TypedAt mark t

theorem foundAt_booleanFindings (what : String) {t : Typing} (h : TypedAt mark t) :
    AllFoundAt bodyCodes mark (booleanFindings what t) := by
  unfold booleanFindings
  split
  · exact allFoundAt_nil
  · exact allFoundAt_singleton.mpr (foundAt_mismatch h.start _ _)

theorem foundAt_flatMap {ts : List Typing} (h : AllTyped mark ts) :
    AllFoundAt bodyCodes mark (ts.flatMap Typing.found) := by
  intro d hd
  obtain ⟨t, ht, hd⟩ := List.mem_flatMap.mp hd
  exact (h t ht).found d hd

theorem foundAt_elementFindings (elementTy : Ty) {ts : List Typing} (h : AllTyped mark ts) :
    AllFoundAt bodyCodes mark (env.elementFindings elementTy ts) := by
  induction ts with
  | nil => exact allFoundAt_nil
  | cons t ts ih =>
      obtain ⟨hhead, htail⟩ := List.forall_mem_cons.mp h
      refine allFoundAt_append.mpr ⟨allFoundAt_append.mpr ⟨hhead.found, ?_⟩, ih htail⟩
      split
      · exact allFoundAt_nil
      · exact allFoundAt_singleton.mpr (foundAt_mismatch hhead.start _ _)

theorem foundAt_listType (expected : Option Ty) {elements : List Typing}
    (h : AllTyped mark elements) {start : Position} (hstart : mark start.location) :
    AllFoundAt bodyCodes mark (env.listType expected elements start).2 := by
  cases elements with
  | nil => exact foundAt_emptyListType hstart expected
  | cons first rest =>
      obtain ⟨hhead, htail⟩ := List.forall_mem_cons.mp h
      exact allFoundAt_append.mpr ⟨hhead.found, env.foundAt_elementFindings _ htail⟩

theorem foundAt_argumentFindings (target : String) {ts : List Typing} (h : AllTyped mark ts)
    (ps : List (String × Ty)) : AllFoundAt bodyCodes mark (env.argumentFindings target ts ps) := by
  induction ts generalizing ps with
  | nil => exact allFoundAt_nil
  | cons t ts ih =>
      obtain ⟨hhead, htail⟩ := List.forall_mem_cons.mp h
      cases ps with
      | nil => exact allFoundAt_nil
      | cons p ps =>
          refine allFoundAt_append.mpr ⟨allFoundAt_append.mpr ⟨hhead.found, ?_⟩, ih htail ps⟩
          split
          · exact allFoundAt_nil
          · exact allFoundAt_singleton.mpr (foundAt_mismatch hhead.start _ _)

theorem foundAt_baseConversionFindings (b : Base) {start : Position} (hstart : mark start.location)
    {args : List Typing} (h : AllTyped mark args) :
    AllFoundAt bodyCodes mark (env.baseConversionFindings b start args) := by
  unfold baseConversionFindings
  split
  · next arg =>
      have harg := h arg (List.mem_singleton_self arg)
      refine allFoundAt_append.mpr ⟨harg.found, ?_⟩
      split
      · exact allFoundAt_nil
      · exact allFoundAt_singleton.mpr (foundAt_mismatch harg.start _ _)
  · exact allFoundAt_cons.mpr ⟨foundAt_typeFinding hstart (by decide) _ _, foundAt_flatMap h⟩

section

variable {name : Name} (hname : mark name.span.start.location)

include hname

theorem foundAt_unknownCallee : FoundAt bodyCodes mark (env.unknownCallee scope name) := by
  unfold unknownCallee
  dsimp only
  split
  · exact foundAt_mismatch hname _ _
  · exact foundAt_typeFinding hname (by decide) _ _

theorem foundAt_callType (c : Callee) {args : List Typing} (h : AllTyped mark args)
    (asValue : Bool) :
    AllFoundAt bodyCodes mark (env.callType scope name c args asValue).found := by
  unfold callType
  extract_lets start
  split
  · exact env.foundAt_baseConversionFindings _ hname h
  · refine allFoundAt_append.mpr ⟨foundAt_flatMap h, ?_⟩
    exact allFoundAt_singleton.mpr (env.foundAt_unknownCallee scope hname)
  · next target parameters returns =>
      extract_lets targetText found
      have hfound : AllFoundAt bodyCodes mark found := by
        unfold found
        split
        · exact env.foundAt_argumentFindings _ h parameters
        · exact allFoundAt_cons.mpr ⟨foundAt_typeFinding hname (by decide) _ _, foundAt_flatMap h⟩
      split
      · exact allFoundAt_append.mpr ⟨hfound, allFoundAt_singleton.mpr (foundAt_mismatch hname _ _)⟩
      · exact hfound

end

theorem foundAt_inferAll_of {es : List Expr}
    (hes : ∀ e ∈ es, ∀ expected, TypedAt mark (env.infer scope expected e))
    (expected : List (Option Ty)) : AllTyped mark (env.inferAll scope expected es) := by
  intro t ht
  obtain ⟨e, he, x, rfl, -⟩ := mem_inferAll env scope ht
  exact hes e he x

/-- The check leaves an expression where it is. -/
theorem span_infer (expected : Option Ty) (e : Expr) :
    (env.infer scope expected e).expr.span = e.span := by
  cases e with
  | unary op e note => cases op <;> rfl
  | binary op l r note => cases op <;> rfl
  | _ => rfl

theorem foundAt_infer {e : Expr} (he : e.Placed mark) (expected : Option Ty) :
    TypedAt mark (env.infer scope expected e) := by
  refine ⟨?_, span_infer env scope expected e ▸ he.here.span⟩
  induction e generalizing expected with
  | literal value note => exact allFoundAt_nil
  | var name note => exact env.foundAt_variableType scope he.span name
  | list es note ih =>
      have hes := Expr.everywhereIn_iff.mp he.2
      refine env.foundAt_listType expected
        (env.foundAt_inferAll_of scope (fun e h x => ?_) _) he.1.span
      exact ⟨ih e h (hes e h) x, span_infer env scope x e ▸ (hes e h).here.span⟩
  | unary op e note ih =>
      have hoperand : ∀ x, TypedAt mark (env.infer scope x e) := fun x =>
        ⟨ih he.2 x, span_infer env scope x e ▸ he.2.here.span⟩
      cases op with
      | not => exact allFoundAt_append.mpr ⟨ih he.2 _, foundAt_booleanFindings _ (hoperand _)⟩
      | negate =>
          refine allFoundAt_append.mpr ⟨ih he.2 _, ?_⟩
          split
          · exact allFoundAt_nil
          · exact allFoundAt_singleton.mpr (foundAt_mismatch (hoperand _).start _ _)
  | binary op l r note ihl ihr =>
      have hleft : ∀ x, TypedAt mark (env.infer scope x l) := fun x =>
        ⟨ihl he.2.1 x, span_infer env scope x l ▸ he.2.1.here.span⟩
      have hright : ∀ x, TypedAt mark (env.infer scope x r) := fun x =>
        ⟨ihr he.2.2 x, span_infer env scope x r ▸ he.2.2.here.span⟩
      have hboolean : ∀ what what' : String, AllFoundAt bodyCodes mark
          ((env.infer scope (some .boolean) l).found
            ++ booleanFindings what (env.infer scope (some .boolean) l)
            ++ (env.infer scope (some .boolean) r).found
            ++ booleanFindings what' (env.infer scope (some .boolean) r)) := by
        intro what what'
        simp only [allFoundAt_append]
        exact ⟨⟨⟨(hleft _).found, foundAt_booleanFindings _ (hleft _)⟩, (hright _).found⟩,
          foundAt_booleanFindings _ (hright _)⟩
      cases op with
      | and | or => exact hboolean _ _
      | _ =>
          simp only [infer, allFoundAt_append]
          exact ⟨⟨(hleft none).found, (hright _).found⟩, env.foundAt_binaryType he.1.span _ _ _⟩
  | call callee args note ih =>
      have hargs := Expr.everywhereIn_iff.mp he.2
      refine env.foundAt_callType scope (he.1.name _ rfl) _
        (env.foundAt_inferAll_of scope (fun e h x => ?_) _) true
      exact ⟨ih e h (hargs e h) x, span_infer env scope x e ▸ (hargs e h).here.span⟩
  | field base name note ih =>
      exact allFoundAt_append.mpr ⟨ih he.2 _, env.foundAt_fieldType _ (he.1.name _ rfl)⟩

theorem foundAt_inferAll {es : List Expr} (hes : ∀ e ∈ es, e.Placed mark)
    (expected : List (Option Ty)) : AllTyped mark (env.inferAll scope expected es) :=
  env.foundAt_inferAll_of scope (fun e he x => env.foundAt_infer scope (hes e he) x) expected

/-! ### Statements -/

theorem foundAt_bind (name : String) (t : Ty) {span : Span} (hspan : mark span.start.location) :
    AllFoundAt bindingCodes mark (env.bind scope name t span).2 := by
  have htaken : ∀ message hint : String,
      FoundAt bindingCodes mark (typeFinding duplicateDeclaration message span.start (some hint)) :=
    fun _ _ => foundAt_typeFinding hspan (by decide) _ _
  unfold TypeEnv.bind
  extract_lets taken clash
  have hclash : AllFoundAt bindingCodes mark clash.toList := by
    unfold clash
    split
    · exact allFoundAt_singleton.mpr (htaken _ _)
    · cases env.registry.callable? name with
      | none => exact allFoundAt_nil
      | some callee => exact allFoundAt_singleton.mpr (htaken _ _)
  refine allFoundAt_append.mpr ⟨hclash, ?_⟩
  cases (scope.bind ⟨name, if clash.isSome then .error else t, some span⟩).1 with
  | none => exact allFoundAt_nil
  | some b => exact allFoundAt_singleton.mpr (foundAt_typeFinding hspan (by decide) _ _)

theorem code_ne_of_bind {code : String} (hcode : code ∉ bindingCodes) (name : String) (t : Ty)
    (span : Span) : ∀ d ∈ (env.bind scope name t span).2, d.code ≠ code :=
  have hfound : AllFoundAt bindingCodes (fun _ => True) (env.bind scope name t span).2 :=
    env.foundAt_bind scope name t trivial
  hfound.code_ne hcode

theorem foundAt_checkReturn (fn : Enclosing) {value : Option Expr} {span : Span}
    (h : (Stmt.return value span).Placed mark (Expr.Placed mark)) :
    AllFoundAt bodyCodes mark (env.checkReturn fn scope value span).2 := by
  unfold checkReturn
  split
  · exact allFoundAt_nil
  · exact allFoundAt_singleton.mpr (foundAt_mismatch h _ _)
  · have hvalue := env.foundAt_infer scope h.2 none
    refine allFoundAt_append.mpr ⟨hvalue.found, ?_⟩
    exact allFoundAt_singleton.mpr (foundAt_mismatch hvalue.start _ _)
  · next e t _ =>
      have hvalue := env.foundAt_infer scope h.2 (some t)
      refine allFoundAt_append.mpr ⟨hvalue.found, ?_⟩
      split
      · exact allFoundAt_nil
      · exact allFoundAt_singleton.mpr (foundAt_mismatch hvalue.start _ _)

theorem foundAt_condition {c : Expr} (hc : c.Placed mark) :
    AllFoundAt bodyCodes mark ((env.infer scope (some .boolean) c).found
      ++ booleanFindings "'If' condition" (env.infer scope (some .boolean) c)) :=
  have hcondition := env.foundAt_infer scope hc (some .boolean)
  allFoundAt_append.mpr ⟨hcondition.found, foundAt_booleanFindings _ hcondition⟩

theorem foundAt_itemType (item : String) {iterable : Typing} (h : TypedAt mark iterable) :
    AllFoundAt bodyCodes mark (itemType item iterable).2 := by
  unfold itemType
  split
  · exact allFoundAt_nil
  · exact allFoundAt_nil
  · exact allFoundAt_singleton.mpr (foundAt_mismatch h.start _ _)

theorem foundAt_checkCall {name : Name} {args : List Expr} {note : CallNote}
    (h : (Expr.call name args note).Placed mark) :
    AllFoundAt bodyCodes mark (env.checkCall scope name args note).2.2 :=
  env.foundAt_callType scope (h.1.name _ rfl) _
    (env.foundAt_inferAll scope (Expr.everywhereIn_iff.mp h.2) _) false

theorem foundAt_checkUnused {e : Expr} (he : e.Placed mark) :
    AllFoundAt bodyCodes mark (env.checkUnused scope e).2 := by
  cases e with
  | call name args note => exact env.foundAt_checkCall scope he
  | _ => exact (env.foundAt_infer scope he none).found

theorem foundAt_checkBlock_of {fn : Enclosing} {ss : List Stmt}
    (hss : ∀ s ∈ ss, ∀ scope timer,
      AllFoundAt bodyCodes mark (env.checkStmt fn scope timer s).found)
    (timer : Timer) : AllFoundAt bodyCodes mark (env.checkBlock fn scope timer ss).found := by
  induction ss generalizing scope timer with
  | nil => exact allFoundAt_nil
  | cons s ss ih =>
      obtain ⟨hs, hss⟩ := List.forall_mem_cons.mp hss
      simp only [checkBlock]
      split
      · exact allFoundAt_nil
      · exact allFoundAt_append.mpr ⟨hs _ _, ih _ hss _⟩

theorem foundAt_checkStmt (fn : Enclosing) (timer : Timer) {s : Stmt}
    (hs : s.Placed mark (Expr.Placed mark)) :
    AllFoundAt bodyCodes mark (env.checkStmt fn scope timer s).found := by
  have hblock : ∀ ss : List Stmt, (∀ s ∈ ss, ∀ scope timer, s.Placed mark (Expr.Placed mark) →
      AllFoundAt bodyCodes mark (env.checkStmt fn scope timer s).found) →
      Stmt.AllPlaced mark (Expr.Placed mark) ss → ∀ scope timer,
      AllFoundAt bodyCodes mark (env.checkBlock fn scope timer ss).found := by
    intro ss ih hss scope timer
    rw [Stmt.allPlaced_iff] at hss
    exact env.foundAt_checkBlock_of scope
      (fun s h scope timer => ih s h scope timer (hss s h)) timer
  induction s generalizing scope timer with
  | bind name e span =>
      exact allFoundAt_append.mpr
        ⟨(env.foundAt_infer scope hs.2.2 _).found,
          (env.foundAt_bind scope _ _ hs.2.1).mono bindingCodes_subset⟩
  | branch c t span iht =>
      exact allFoundAt_append.mpr ⟨env.foundAt_condition scope hs.2.1, hblock t iht hs.2.2 _ _⟩
  | branchOtherwise c t o span iht iho =>
      have hthen := allFoundAt_append.mpr
        ⟨env.foundAt_condition scope hs.2.1, hblock t iht hs.2.2.1 scope.child timer⟩
      exact allFoundAt_append.mpr ⟨hthen, hblock o iho hs.2.2.2 _ _⟩
  | forEach item e body span ih =>
      have hiterable := env.foundAt_infer scope hs.2.2.1 none
      simp only [checkStmt, allFoundAt_append]
      refine ⟨⟨⟨hiterable.found, foundAt_itemType _ hiterable⟩, ?_⟩, hblock body ih hs.2.2.2 _ _⟩
      exact (env.foundAt_bind _ _ _ hs.2.1).mono bindingCodes_subset
  | call name args note span => exact env.foundAt_checkCall scope hs.2
  | returns value span => exact env.foundAt_checkReturn scope fn hs
  | expression e span => exact env.foundAt_checkUnused scope hs.2

theorem foundAt_checkBlock (fn : Enclosing) (timer : Timer) {ss : List Stmt}
    (hss : Stmt.AllPlaced mark (Expr.Placed mark) ss) :
    AllFoundAt bodyCodes mark (env.checkBlock fn scope timer ss).found :=
  env.foundAt_checkBlock_of scope (fun s hs scope timer =>
    env.foundAt_checkStmt scope fn timer (Stmt.allPlaced_iff.mp hss s hs)) timer

end TypeEnv

/-! ### Functions -/

namespace FunctionDecl

variable (f : FunctionDecl)

/-- The finding that a function does not return a value on every path. -/
def missingReturnOf (t : Ty) : Diagnostic :=
  typeFinding missingReturn
    ("Function '" ++ f.name.text ++ "' must return " ++ t.text
      ++ " but not every path ends in 'Return'") f.name.span.start
    (some ("Add 'Return <value>.' before 'End function.', or give every 'If' an "
      ++ "'Otherwise:' branch that returns."))

/-- What is found at the end of a function with a certain result, if any. -/
def endFindings (result : Option Ty) (returns : Bool) : List Diagnostic :=
  match result with
  | none => []
  | some t => if returns then [] else [f.missingReturnOf t]

variable {f}

theorem mem_endFindings {result : Option Ty} {returns : Bool} {d : Diagnostic} :
    d ∈ f.endFindings result returns ↔
      ∃ t, result = some t ∧ returns = false ∧ d = f.missingReturnOf t := by
  cases result with
  | none => simp [endFindings]
  | some t => cases returns <;> simp [endFindings]

end FunctionDecl

namespace TypeEnv

variable (env : TypeEnv) (scope : Scope)

theorem foundAt_bindParameters {ps : List (Typed × Ty)}
    (hps : ∀ p ∈ ps, mark p.1.span.start.location) :
    AllFoundAt bindingCodes mark (env.bindParameters scope ps).2 := by
  induction ps generalizing scope with
  | nil => exact allFoundAt_nil
  | cons p ps ih =>
      obtain ⟨hp, hps⟩ := List.forall_mem_cons.mp hps
      exact allFoundAt_append.mpr ⟨env.foundAt_bind scope _ _ hp, ih _ hps⟩

theorem code_ne_of_bindParameters {code : String} (hcode : code ∉ bindingCodes)
    (ps : List (Typed × Ty)) : ∀ d ∈ (env.bindParameters scope ps).2, d.code ≠ code :=
  have hfound : AllFoundAt bindingCodes (fun _ => True) (env.bindParameters scope ps).2 :=
    env.foundAt_bindParameters scope fun _ _ => trivial
  hfound.code_ne hcode

/-- The body of a function as it is checked, behind the parameters. -/
def checkedBody (timer : Timer) (f : FunctionDecl) (s : Signature) : BlockTyping :=
  let scope := (env.bindParameters [[]] (f.parameters.zip (s.parameters.map Prod.snd))).1
  env.checkBlock ⟨f.name.text, s.returns⟩ scope timer f.body

/-- The findings about a function are those in it and, behind them, the one about its end. -/
theorem found_checkFunction (timer : Timer) {f : FunctionDecl}
    (hf : f.Placed mark (Expr.Placed mark)) (s : Signature) :
    ∃ inside, AllFoundAt bodyCodes mark inside ∧
      (env.checkFunction timer f s).2.1 =
        inside ++ f.endFindings s.returns (env.checkedBody timer f s).returns := by
  refine ⟨(env.bindParameters [[]] (f.parameters.zip (s.parameters.map Prod.snd))).2 ++
    (env.checkedBody timer f s).found, allFoundAt_append.mpr ⟨?_, ?_⟩, ?_⟩
  · refine (env.foundAt_bindParameters _ fun p hp => ?_).mono bindingCodes_subset
    exact (hf.parameters p.1 (List.of_mem_zip hp).1).span
  · exact env.foundAt_checkBlock _ _ _ hf.body
  · unfold checkFunction FunctionDecl.endFindings
    rfl

theorem foundAt_checkFunction (timer : Timer) {f : FunctionDecl}
    (hf : f.Placed mark (Expr.Placed mark)) (s : Signature) :
    AllFoundAt (missingReturn :: bodyCodes) mark (env.checkFunction timer f s).2.1 := by
  obtain ⟨inside, hinside, hfound⟩ := env.found_checkFunction timer hf s
  rw [hfound]
  refine allFoundAt_append.mpr ⟨hinside.mono (List.subset_cons_self _ _), fun d hd => ?_⟩
  obtain ⟨t, -, -, rfl⟩ := FunctionDecl.mem_endFindings.mp hd
  exact foundAt_typeFinding hf.name List.mem_cons_self _ _

theorem foundAt_checkDecls (timer : Timer) {ds : List Decl}
    (hds : ∀ d ∈ ds, d.Placed mark (Expr.Placed mark)) (ss : List Signature) :
    AllFoundAt (missingReturn :: bodyCodes) mark (env.checkDecls timer ds ss).2.1 := by
  induction ds generalizing timer ss with
  | nil => simp [checkDecls]
  | cons d ds ih =>
      obtain ⟨hd, hrest⟩ := List.forall_mem_cons.mp hds
      cases d with
      | function f =>
          cases ss with
          | nil => exact ih timer hrest []
          | cons s ss =>
              exact allFoundAt_append.mpr ⟨env.foundAt_checkFunction timer hd s, ih _ hrest ss⟩
      | type t => exact ih timer hrest ss
      | record r => exact ih timer hrest ss

end TypeEnv

/-! ### The time -/

/-- If a limit was found to be exceeded, then it is the time, at one of some places. -/
def Timer.Marked (mark : Location → Prop) (t : Timer) : Prop :=
  ∀ e ∈ t.exceeded, (∃ most, e.limit = .time most) ∧ mark e.location

theorem Timer.Marked.check {t : Timer} {start : Position} (h : t.Marked mark)
    (hstart : mark start.location) : (t.check start).Marked mark := by
  unfold Timer.check
  split
  · exact h
  · intro e he
    obtain ⟨-, he⟩ := Option.ite_none_right_eq_some.mp he
    obtain rfl := Option.some.inj he
    exact ⟨⟨_, rfl⟩, hstart⟩

namespace TypeEnv

variable (env : TypeEnv)

theorem marked_checkBlock_of {fn : Enclosing} {ss : List Stmt}
    (hss : ∀ s ∈ ss, mark s.span.start.location ∧ ∀ scope timer, timer.Marked mark →
      (env.checkStmt fn scope timer s).timer.Marked mark)
    (scope : Scope) {timer : Timer} (h : timer.Marked mark) :
    (env.checkBlock fn scope timer ss).timer.Marked mark := by
  induction ss generalizing scope timer with
  | nil => simpa only [checkBlock] using h
  | cons s ss ih =>
      obtain ⟨⟨hstart, hs⟩, hss⟩ := List.forall_mem_cons.mp hss
      have hcheck := h.check hstart
      simp only [checkBlock]
      split
      · exact hcheck
      · exact ih hss _ (hs _ _ hcheck)

theorem marked_checkStmt (fn : Enclosing) (scope : Scope) {timer : Timer} {s : Stmt}
    (hs : s.Placed mark E) (h : timer.Marked mark) :
    (env.checkStmt fn scope timer s).timer.Marked mark := by
  have hblock : ∀ ss : List Stmt, (∀ s ∈ ss, ∀ scope timer, s.Placed mark E →
      timer.Marked mark → (env.checkStmt fn scope timer s).timer.Marked mark) →
      Stmt.AllPlaced mark E ss → ∀ scope timer, timer.Marked mark →
      (env.checkBlock fn scope timer ss).timer.Marked mark := by
    intro ss ih hss scope timer h
    rw [Stmt.allPlaced_iff] at hss
    exact env.marked_checkBlock_of (fun s hmem =>
      ⟨(hss s hmem).span, fun scope timer => ih s hmem scope timer (hss s hmem)⟩) scope h
  induction s generalizing scope timer with
  | branch c t span iht => exact hblock t iht hs.2.2 _ _ h
  | branchOtherwise c t o span iht iho =>
      exact hblock o iho hs.2.2.2 _ _ (hblock t iht hs.2.2.1 _ _ h)
  | forEach item e body span ih => exact hblock body ih hs.2.2.2 _ _ h
  | _ => exact h

theorem marked_checkFunction {timer : Timer} {f : FunctionDecl} (hf : f.Placed mark E)
    (s : Signature) (h : timer.Marked mark) :
    (env.checkFunction timer f s).2.2.Marked mark := by
  have hbody := Stmt.allPlaced_iff.mp hf.body
  exact env.marked_checkBlock_of (fun s hs => ⟨(hbody s hs).span, fun scope timer =>
    env.marked_checkStmt _ scope (hbody s hs)⟩) _ h

theorem marked_checkDecls {timer : Timer} {ds : List Decl} (hds : ∀ d ∈ ds, d.Placed mark E)
    (ss : List Signature) (h : timer.Marked mark) :
    (env.checkDecls timer ds ss).2.2.Marked mark := by
  induction ds generalizing timer ss with
  | nil => simpa only [checkDecls] using h
  | cons d ds ih =>
      obtain ⟨hd, hrest⟩ := List.forall_mem_cons.mp hds
      cases d with
      | function f =>
          cases ss with
          | nil => simpa only [checkDecls] using ih hrest [] h
          | cons s ss =>
              simpa only [checkDecls] using ih hrest ss (env.marked_checkFunction hd s h)
      | type t => simpa only [checkDecls] using ih hrest ss h
      | record r => simpa only [checkDecls] using ih hrest ss h

end TypeEnv

/-- The type check finds nothing but its own findings, where parts of the program start. -/
theorem Program.checkTypes_plainAt {p : Program} {registry : Registry} {budget : Budget}
    {found : List Diagnostic} (hp : p.Placed mark (Expr.Placed mark))
    (h : (p.checkTypes registry budget).result = .ok found) : AllPlainAt .types mark found := by
  obtain ⟨-, rfl⟩ := checkTypes_eq_ok.mp h
  exact allPlainAt_append.mpr ⟨(declaredAt_of registry hp).plainAt (by decide),
    (TypeEnv.foundAt_checkDecls _ _ hp _).plainAt (by decide)⟩

/-- The only limit that the type check finds to be exceeded is the time, where a part of the program
starts. -/
theorem Program.checkTypes_marked {p : Program} {registry : Registry} {budget : Budget}
    {e : Exceeded} (hp : p.Placed mark E)
    (h : (p.checkTypes registry budget).result = .error e) :
    (∃ most, e.limit = .time most) ∧ mark e.location := by
  simp only [checkTypes] at h
  split at h
  · next hover =>
      cases h
      exact TypeEnv.marked_checkDecls _ hp _ (fun _ h => by cases h) e hover
  · cases h

/-- The only limit that the type check finds to be exceeded is the time. -/
theorem Program.checkTypes_time {p : Program} {registry : Registry} {budget : Budget}
    {e : Exceeded} (h : (p.checkTypes registry budget).result = .error e) :
    ∃ most, e.limit = .time most := by
  have hanywhere : ∀ l, (fun _ : Location => True) l := fun _ => trivial
  have hplaced := p.placed_anywhere hanywhere (Expr.placed_anywhere hanywhere)
  exact (Program.checkTypes_marked hplaced h).1

/-- The type check finds nothing but its own findings. -/
theorem Program.checkTypes_plain {p : Program} {registry : Registry} {budget : Budget}
    {found : List Diagnostic} (h : (p.checkTypes registry budget).result = .ok found) :
    AllPlain .types found := by
  have hanywhere : ∀ l, (fun _ : Location => True) l := fun _ => trivial
  have hplaced := p.placed_anywhere hanywhere (Expr.placed_anywhere hanywhere)
  exact (Program.checkTypes_plainAt hplaced h).plain

end Prosaic
