import Prosaic.Proofs.Table
import Prosaic.Proofs.Typing.Declared
import Prosaic.Proofs.Typing.Expression
import Prosaic.Proofs.Typing.Statement

/-!
The typing rules. They speak about a tree that carries its types, and say of every kind of node
which types its parts may have, and of every kind of statement in which context it may stand. What
names stand for is read off the declarations of a program and off a registry; the rules do not refer
to the check.

Scopes and contexts. The check keeps the locals that a place sees in frames, the typing rules keep
them in one list; as no name is bound twice in a frame, both say the same of every name.

The environment of a check. Where it reflects the declarations of a program, what it says of a name
is what the typing rules say.
-/

namespace Prosaic

/-- A program and the registry that it is written against. -/
structure Setting where
  program : Program
  registry : Registry

namespace Setting

variable (w : Setting)

/-! ### Names -/

/-- The type of a name: a base type, a record or another type of the program, or a type of the
registry. -/
def type? (name : String) : Option Ty :=
  declaredType? w.registry (w.program.readable.records.map RecordDecl.name)
    (w.program.readable.types.map TypeDecl.name) name

/-- The type that values of a domain type are made from. -/
inductive Underlying : String → Ty → Prop
  | literals {t : TypeDecl} {values : List String} (ht : t ∈ w.program.readable.types)
      (hbody : t.body = .literals values) : Underlying t.name .string
  | reference {t : TypeDecl} {ref : TypeRef} {u : Ty} (ht : t ∈ w.program.readable.types)
      (hbody : t.body = .reference ref) (href : ref.denote? w.type? = some u) : Underlying t.name u
  | registry {name : String} {d : Ty.Domain} {u : Ty}
      (hforeign : name ∉ w.program.readable.types.map TypeDecl.name)
      (hd : w.registry.domains.lookup name = some d) (hu : d.underlying = some u) :
      Underlying name u

/-- The string literals of a domain type. -/
inductive Allows : String → String → Prop
  | literals {t : TypeDecl} {values : List String} {value : String}
      (ht : t ∈ w.program.readable.types) (hbody : t.body = .literals values)
      (hvalue : value ∈ values) : Allows t.name value
  | registry {name value : String} {d : Ty.Domain}
      (hforeign : name ∉ w.program.readable.types.map TypeDecl.name)
      (hd : w.registry.domains.lookup name = some d) (hvalue : value ∈ d.values) :
      Allows name value

/-- The types of the fields of a record type. -/
inductive HasField : String → String → Ty → Prop
  | record {r : RecordDecl} {f : Typed} {t : Ty} (hr : r ∈ w.program.readable.records)
      (hf : f ∈ r.fields) (ht : f.ty.denote? w.type? = some t) : HasField r.name f.name t
  | registry {name field : String} {r : Ty.Record} {t : Ty}
      (hforeign : name ∉ w.program.readable.records.map RecordDecl.name)
      (hr : w.registry.records.lookup name = some r) (ht : r.field? field = some t) :
      HasField name field t

/-- A name that no base type and no function of the program has. -/
structure Foreign (name : String) : Prop where
  base : Base.ofText? name = none
  function : ∀ f ∈ w.program.readable.functions, f.name.text ≠ name

/-- What a name calls: with the types of the parameters and of the result, if there is one.
Functions come first, then helpers, operations, and last the conversions to domain types. -/
inductive Callable : String → CallTarget → List Ty → Option Ty → Prop
  | function {f : FunctionDecl} {s : Signature} (hf : f ∈ w.program.readable.functions)
      (hs : SignatureDenoted w.type? f s) :
      Callable f.name.text .function (s.parameters.map Prod.snd) s.returns
  | helper {name : String} {s : Signature} (hname : w.Foreign name)
      (hs : w.registry.helpers.lookup name = some s) :
      Callable name .helper (s.parameters.map Prod.snd) s.returns
  | operation {name : String} {s : Signature} (hname : w.Foreign name)
      (hhelper : w.registry.helpers.lookup name = none)
      (hs : w.registry.operations.lookup name = some s) :
      Callable name .operation (s.parameters.map Prod.snd) s.returns
  | conversion {name d : String} {u : Ty} (hname : w.Foreign name)
      (hhelper : w.registry.helpers.lookup name = none)
      (hoperation : w.registry.operations.lookup name = none)
      (hd : w.type? name = some (.domain d)) (hu : w.Underlying d u) :
      Callable name .conversion [u] (some (.domain d))

/-- A value may stand where its own type is expected, and a string literal where a domain type
allows it. -/
inductive Assignable : Expr → Ty → Ty → Prop
  | refl {e : Expr} {t : Ty} : Assignable e t t
  | literal {value d : String} {note : ExprNote} (h : w.Allows d value) :
      Assignable (.literal (.string value) note) .string (.domain d)

end Setting

/-- The locals that a place sees with their types, the innermost first. -/
abbrev Context := List (String × Ty)

/-! ### Expressions -/

mutual

/-- An expression carries its type, and all its parts carry types that go with it. -/
inductive HasType (w : Setting) (context : Context) : Expr → Ty → Prop
  | number {n : Number} {note : ExprNote} (hty : note.ty = some .number) :
      HasType w context (.literal (.number n) note) .number
  | string {value : String} {note : ExprNote} (hty : note.ty = some .string) :
      HasType w context (.literal (.string value) note) .string
  | boolean {b : Bool} {note : ExprNote} (hty : note.ty = some .boolean) :
      HasType w context (.literal (.boolean b) note) .boolean
  | bound {name : String} {t : Ty} {note : ExprNote} (hty : note.ty = some t)
      (hname : context.lookup name = some t) : HasType w context (.variable name note) t
  | list {elements : List Expr} {t : Ty} {note : ExprNote} (hty : note.ty = some (.list t))
      (helements : ∀ e ∈ elements, Fits w context e t) :
      HasType w context (.list elements note) (.list t)
  | not {operand : Expr} {note : ExprNote} (hty : note.ty = some .boolean)
      (hoperand : HasType w context operand .boolean) :
      HasType w context (.unary .not operand note) .boolean
  | negate {operand : Expr} {note : ExprNote} (hty : note.ty = some .number)
      (hoperand : HasType w context operand .number) :
      HasType w context (.unary .negate operand note) .number
  | logic {op : BinaryOp} {left right : Expr} {note : ExprNote} (hop : op ∈ [.and, .or])
      (hty : note.ty = some .boolean) (hleft : HasType w context left .boolean)
      (hright : HasType w context right .boolean) :
      HasType w context (.binary op left right note) .boolean
  | equality {op : BinaryOp} {left right : Expr} {leftTy rightTy : Ty} {note : ExprNote}
      (hop : op ∈ [.is, .isNot]) (hty : note.ty = some .boolean)
      (hleft : HasType w context left leftTy) (hright : HasType w context right rightTy)
      (h : w.Assignable right rightTy leftTy ∨ w.Assignable left leftTy rightTy) :
      HasType w context (.binary op left right note) .boolean
  | order {op : BinaryOp} {left right : Expr} {b : Base} {note : ExprNote}
      (hop : op ∈ [.less, .greater, .lessEqual, .greaterEqual]) (hb : b ∈ [.number, .dateTime])
      (hty : note.ty = some .boolean) (hleft : HasType w context left (.base b))
      (hright : HasType w context right (.base b)) :
      HasType w context (.binary op left right note) .boolean
  | add {left right : Expr} {b : Base} {note : ExprNote} (hb : b ∈ [.number, .string])
      (hty : note.ty = some (.base b)) (hleft : HasType w context left (.base b))
      (hright : HasType w context right (.base b)) :
      HasType w context (.binary .add left right note) (.base b)
  | arithmetic {op : BinaryOp} {left right : Expr} {note : ExprNote}
      (hop : op ∈ [.subtract, .multiply, .divide]) (hty : note.ty = some .number)
      (hleft : HasType w context left .number) (hright : HasType w context right .number) :
      HasType w context (.binary op left right note) .number
  | call {callee : Name} {target : CallTarget} {parameters : List Ty} {args : List Expr} {t : Ty}
      {note : CallNote} (hcallee : w.Callable callee.text target parameters (some t))
      (hty : note.ty = some t) (htarget : note.target = some target)
      (hargs : List.Forall₂ (Fits w context) args parameters) :
      HasType w context (.call callee args note) t
  | toBase {callee : Name} {b : Base} {d : String} {arg : Expr} {note : CallNote}
      (hcallee : Base.ofText? callee.text = some b) (hty : note.ty = some (.base b))
      (htarget : note.target = some .conversion) (harg : HasType w context arg (.domain d))
      (hd : w.Underlying d (.base b)) : HasType w context (.call callee [arg] note) (.base b)
  | field {base : Expr} {record : String} {name : Name} {t : Ty} {note : ExprNote}
      (hty : note.ty = some t) (hbase : HasType w context base (.record record))
      (hfield : w.HasField record name.text t) : HasType w context (.field base name note) t

/-- An expression may stand where a type is expected. -/
inductive Fits (w : Setting) (context : Context) : Expr → Ty → Prop
  | intro {e : Expr} {actual expected : Ty} (he : HasType w context e actual)
      (h : w.Assignable e actual expected) : Fits w context e expected

end

/-! ### Statements -/

/-- An expression may stand as a statement: a call may also return nothing there. -/
inductive Unused (w : Setting) (context : Context) : Expr → Prop
  | value {e : Expr} {t : Ty} (he : HasType w context e t) : Unused w context e
  | call {callee : Name} {target : CallTarget} {parameters : List Ty} {returns : Option Ty}
      {args : List Expr} {note : CallNote}
      (hcallee : w.Callable callee.text target parameters returns)
      (htarget : note.target = some target)
      (hargs : List.Forall₂ (Fits w context) args parameters) :
      Unused w context (.call callee args note)
  | toBase {callee : Name} {b : Base} {d : String} {arg : Expr} {note : CallNote}
      (hcallee : Base.ofText? callee.text = some b) (htarget : note.target = some .conversion)
      (harg : HasType w context arg (.domain d)) (hd : w.Underlying d (.base b)) :
      Unused w context (.call callee [arg] note)

mutual

/-- A statement of a function with a certain result may stand in a context, and what follows it
stands in another one. -/
inductive StmtTyped (w : Setting) (returns : Option Ty) : Context → Stmt → Context → Prop
  | bind {context : Context} {name : Name} {init : Expr} {t : Ty} {span : Span}
      (hinit : HasType w context init t) :
      StmtTyped w returns context (.bind name init span) ((name.text, t) :: context)
  | branch {context : Context} {condition : Expr} {thenBlock : List Stmt} {span : Span}
      (hcondition : HasType w context condition .boolean)
      (hthen : BlockTyped w returns context thenBlock) :
      StmtTyped w returns context (.branch condition thenBlock none span) context
  | branchOtherwise {context : Context} {condition : Expr} {thenBlock otherwise : List Stmt}
      {span : Span} (hcondition : HasType w context condition .boolean)
      (hthen : BlockTyped w returns context thenBlock)
      (hotherwise : BlockTyped w returns context otherwise) :
      StmtTyped w returns context (.branch condition thenBlock (some otherwise) span) context
  | forEach {context : Context} {item : Name} {iterable : Expr} {t : Ty} {body : List Stmt}
      {span : Span} (hiterable : HasType w context iterable (.list t))
      (hbody : BlockTyped w returns ((item.text, t) :: context) body) :
      StmtTyped w returns context (.forEach item iterable body span) context
  | call {context : Context} {callee : Name} {args : List Expr} {note : CallNote} {span : Span}
      (h : Unused w context (.call callee args note)) :
      StmtTyped w returns context (.call callee args note span) context
  | returnNothing {context : Context} {span : Span} (h : returns = none) :
      StmtTyped w returns context (.return none span) context
  | returnValue {context : Context} {value : Expr} {t : Ty} {span : Span} (h : returns = some t)
      (hvalue : Fits w context value t) :
      StmtTyped w returns context (.return (some value) span) context
  | expression {context : Context} {value : Expr} {span : Span} (h : Unused w context value) :
      StmtTyped w returns context (.expression value span) context

/-- The statements of a block may stand one after another in a context. -/
inductive BlockTyped (w : Setting) (returns : Option Ty) : Context → List Stmt → Prop
  | nil {context : Context} : BlockTyped w returns context []
  | cons {context next : Context} {s : Stmt} {ss : List Stmt}
      (hs : StmtTyped w returns context s next) (hss : BlockTyped w returns next ss) :
      BlockTyped w returns context (s :: ss)

end

/-- The body of a function goes with its declaration. -/
def FunctionTyped (w : Setting) (f : FunctionDecl) : Prop :=
  ∃ s, SignatureDenoted w.type? f s ∧ BlockTyped w s.returns s.parameters f.body

namespace Scope

/-- No local of a scope has a type in error. -/
def Clean (s : Scope) : Prop := ∀ name b, s.lookup name = some b → b.ty.containsError = false

/-- A name that is new in the innermost frame is bound there, and no other name changes. -/
theorem lookup_bind {s : Scope} {b : Binding} (hfresh : (s.headD []).find? b.name = none)
    (name : String) :
    (s.bind b).2.lookup name = if b.name = name then some b else s.lookup name := by
  cases s with
  | nil =>
      by_cases hname : b.name = name
      · simp [bind, lookup, Frame.find?, hname]
      · simp [bind, lookup, Frame.find?, hname]
  | cons f rest =>
      have hfresh : f.find? b.name = none := hfresh
      have hframe : (Frame.bind f b).2 = f ++ [b] := by rw [Frame.bind, hfresh]
      have hfind : Frame.find? (f ++ [b]) name =
          if b.name = name then some b else f.find? name := by
        rw [Frame.find?, List.find?_append]
        by_cases hname : b.name = name
        · subst hname
          rw [show List.find? (fun c => c.name == b.name) f = none from hfresh]
          simp
        · simp [hname, Frame.find?]
      show lookup ((f.bind b).2 :: rest) name = _
      rw [lookup, hframe, List.findSome?_cons, hfind]
      by_cases hname : b.name = name
      · rw [if_pos hname, if_pos hname]
      · rw [if_neg hname, if_neg hname, lookup, List.findSome?_cons]

theorem Clean.child {s : Scope} (h : s.Clean) : s.child.Clean := h

theorem Clean.bind {s : Scope} (h : s.Clean) {b : Binding}
    (hfresh : (s.headD []).find? b.name = none) (hb : b.ty.containsError = false) :
    Clean (s.bind b).2 := by
  intro name c hc
  rw [lookup_bind hfresh] at hc
  split at hc
  · cases hc
    exact hb
  · exact h name c hc

/-- A scope and a context give every name the same type. -/
def Agrees (s : Scope) (context : Context) : Prop :=
  ∀ name, (s.lookup name).map Binding.ty = context.lookup name

variable {s : Scope} {context : Context}

theorem Agrees.child (h : s.Agrees context) : s.child.Agrees context := h

theorem Agrees.bind (h : s.Agrees context) {b : Binding}
    (hfresh : (s.headD []).find? b.name = none) :
    Agrees (s.bind b).2 ((b.name, b.ty) :: context) := by
  intro name
  rw [lookup_bind hfresh, List.lookup_cons]
  by_cases hname : b.name = name
  · simp [hname]
  · have hne : (name == b.name) = false := beq_false_of_ne (Ne.symm hname)
    rw [if_neg hname, hne]
    exact h name

theorem Agrees.clean (h : s.Agrees context)
    (hcontext : ∀ p ∈ context, p.2.containsError = false) : s.Clean := by
  intro name b hb
  have hlookup := h name
  rw [hb, Option.map_some] at hlookup
  exact hcontext _ (mem_of_lookup hlookup.symm)

end Scope

/-- The locals that the parameters of a function are, are those of its signature. -/
theorem TypeEnv.parameterFrame_agrees {named : String → Option Ty} {f : FunctionDecl}
    {s : Signature} (h : Denoted named f.parameters s.parameters) :
    Scope.Agrees [parameterFrame f s] s.parameters := by
  intro name
  unfold parameterFrame
  generalize f.parameters = ps at h ⊢
  generalize s.parameters = ts at h ⊢
  induction h with
  | nil => rfl
  | @cons d t ds ts hdt _ ih =>
      have hlookup : ∀ frame : Frame,
          Scope.lookup [frame] name = List.find? (fun b => b.name == name) frame := by
        intro frame
        rw [Scope.lookup, List.findSome?_cons, Frame.find?]
        cases List.find? (fun b => b.name == name) frame <;> rfl
      rw [hlookup] at ih ⊢
      obtain ⟨n, u⟩ := t
      obtain rfl : n = d.name := hdt.1
      rw [List.map_cons, List.zip_cons_cons, List.map_cons, List.find?_cons, List.lookup_cons]
      by_cases hname : d.name = name
      · simp [parameterBinding, hname]
      · have hne : (name == d.name) = false := beq_false_of_ne (Ne.symm hname)
        have hne' : ((parameterBinding (d, u)).name == name) = false := beq_false_of_ne hname
        rw [hne, hne']
        exact ih

/-! ### What the environment of a check says -/

theorem Denoted.exists_of_lookup {named : String → Option Ty} {declared : List Typed}
    {types : List (String × Ty)} (h : Denoted named declared types) {n : String} {t : Ty}
    (ht : types.lookup n = some t) :
    ∃ d ∈ declared, d.name = n ∧ d.ty.denote? named = some t := by
  obtain ⟨d, hd, hname, -, hdenote⟩ := Prosaic.exists_of_lookup h (fun _ _ he => he.1) ht
  exact ⟨d, hd, hname, hdenote⟩

namespace TypeEnv.Reflects

variable {env : TypeEnv} {w : Setting} (h : env.Reflects w.registry w.program)

include h

/-! ### Types -/

theorem type?_eq : env.type? = w.type? := h.types

/-- The definition of a domain type is that of its declaration or that of the registry. -/
theorem domain?_cases {name : String} {d : Ty.Domain} (hd : env.domain? (.domain name) = some d) :
    (∃ t ∈ w.program.readable.types, t.name = name ∧ DomainDenoted w.type? t.body d) ∨
      (name ∉ w.program.readable.types.map TypeDecl.name ∧
        w.registry.domains.lookup name = some d) := by
  simp only [domain?, h.outside] at hd
  by_cases hown : name ∈ w.program.readable.types.map TypeDecl.name
  · obtain ⟨t, ht, rfl⟩ := List.mem_map.mp hown
    obtain ⟨d', hd', hbody⟩ := h.domains t ht
    rw [hd', Option.some_or, Option.some_inj] at hd
    subst hd
    exact .inl ⟨t, ht, rfl, h.type?_eq ▸ hbody⟩
  · rw [h.foreign name hown, Option.none_or] at hd
    exact .inr ⟨hown, hd⟩

theorem underlying?_domain {t u : Ty} (hu : env.underlying? t = some u) :
    ∃ d, t = .domain d ∧ w.Underlying d u := by
  obtain ⟨d, hd, hdu⟩ := Option.bind_eq_some_iff.mp hu
  cases t with
  | domain name =>
      refine ⟨name, rfl, ?_⟩
      rcases h.domain?_cases hd with ⟨t, ht, rfl, hbody⟩ | ⟨hforeign, hd⟩
      · cases hkind : t.body with
        | literals values =>
            rw [hkind] at hbody
            obtain rfl : d = ⟨some .string, values, false⟩ := hbody
            obtain rfl : Ty.string = u := Option.some.inj hdu
            exact .literals ht hkind
        | reference ref =>
            rw [hkind] at hbody
            obtain ⟨v, hv, rfl⟩ := hbody
            obtain rfl : v = u := Option.some.inj hdu
            exact .reference ht hkind hv
      · exact .registry hforeign hd hdu
  | _ => cases hd

theorem allows_domain {t : Ty} {d : Ty.Domain} {value : String} (hd : env.domain? t = some d)
    (hvalue : d.allows value = true) : ∃ name, t = .domain name ∧ w.Allows name value := by
  have hmem : value ∈ d.values := by simpa [Ty.Domain.allows] using hvalue
  cases t with
  | domain name =>
      refine ⟨name, rfl, ?_⟩
      rcases h.domain?_cases hd with ⟨t, ht, rfl, hbody⟩ | ⟨hforeign, hd⟩
      · cases hkind : t.body with
        | literals values =>
            rw [hkind] at hbody
            obtain rfl : d = ⟨some .string, values, false⟩ := hbody
            exact .literals ht hkind hmem
        | reference ref =>
            -- only a set of literals has values
            rw [hkind] at hbody
            obtain ⟨v, -, rfl⟩ := hbody
            cases hmem
      · exact .registry hforeign hd hmem
  | _ => cases hd

theorem hasField_record {t u : Ty} {r : Ty.Record} {field : String} (hr : env.record? t = some r)
    (hu : r.field? field = some u) : ∃ name, t = .record name ∧ w.HasField name field u := by
  cases t with
  | record name =>
      refine ⟨name, rfl, ?_⟩
      rw [record?, h.outside] at hr
      cases hown : env.records.lookup name with
      | some own =>
          rw [hown, Option.some_or, Option.some_inj] at hr
          subst hr
          obtain ⟨r, hr, rfl, -, -, fields, rfl, hfields⟩ :=
            exists_of_lookup h.records (fun _ _ he => he.1) hown
          obtain ⟨f, hf, rfl, hdenote⟩ := hfields.exists_of_lookup hu
          exact .record hr hf (h.type?_eq ▸ hdenote)
      | none =>
          rw [hown, Option.none_or] at hr
          exact .registry (not_mem_of_lookup h.records (fun _ _ he => he.1) hown) hr hu
  | _ => cases hr

/-! ### Callables -/

theorem foreign_of_lookup {name : String} (hbase : Base.ofText? name = none)
    (hfunction : env.functions.lookup name = none) : w.Foreign name := by
  refine ⟨hbase, fun f hf heq => ?_⟩
  exact not_mem_of_lookup h.functions (fun _ _ he => he.1) hfunction
    (List.mem_map.mpr ⟨f, hf, heq⟩)

/-- What the check knows a name for is what the name calls. -/
theorem callable_of_known {name : String} {target : CallTarget} {parameters : List (String × Ty)}
    {returns : Option Ty} (hknown : env.Known name target parameters returns) :
    w.Callable name target (parameters.map Prod.snd) returns := by
  cases hknown with
  | function hbase hf =>
      obtain ⟨g, hg, rfl, -, hsignature⟩ := exists_of_lookup h.functions (fun _ _ he => he.1) hf
      exact .function hg (h.type?_eq ▸ hsignature)
  | helper hbase hfunction hs =>
      exact .helper (h.foreign_of_lookup hbase hfunction) (h.outside ▸ hs)
  | operation hbase hfunction hhelper hs =>
      exact .operation (h.foreign_of_lookup hbase hfunction) (h.outside ▸ hhelper) (h.outside ▸ hs)
  | conversion hbase hfunction hhelper hoperation ht hu =>
      obtain ⟨d, rfl, hd⟩ := h.underlying?_domain hu
      exact .conversion (h.foreign_of_lookup hbase hfunction) (h.outside ▸ hhelper)
        (h.outside ▸ hoperation) (h.type?_eq ▸ ht) hd

end TypeEnv.Reflects

end Prosaic
