import Prosaic.Proofs.Registry.Names
import Prosaic.Proofs.Token.Scan
import Prosaic.Proofs.Typing.Demands
import Prosaic.Proofs.Typing.Family
import Prosaic.Proofs.Typing.Findings

/-!
What the messages of the type check show of types that failed. Every type in a message stands behind
a blank, and every name between quotes, so the mark of the error type behind a blank is that of a
type. Most of the functions of the check that report compare types up to errors and never show it.
Those that look at the outermost type only, at one of two types, or at none show it wherever there
is one.
-/

namespace Prosaic

open Diagnostic

/-! ### Texts -/

/-- The mark of a type that failed, and the blank in front of it. Between quotes the same mark
stands for a function whose name cannot be read. -/
def failureMark : List Char := " <error>".toList

/-- A text shows a type that failed. -/
def Shows (cs : List Char) : Prop := failureMark <:+: cs

/-- A name without a blank. -/
def Unbroken (name : String) : Prop := ' ' ∉ name.toList

namespace Shows

variable {c : Char} {cs ds : List Char}

theorem iff_cons : Shows (c :: cs) ↔ failureMark <+: c :: cs ∨ Shows cs := List.infix_cons_iff

theorem mark_eq : failureMark = [' ', '<', 'e', 'r', 'r', 'o', 'r', '>'] := by decide

@[simp] theorem not_nil : ¬Shows [] := by simp [Shows, mark_eq]

@[simp] theorem not_blank : ¬Shows [' '] := by simp [iff_cons, mark_eq]

@[simp] theorem cons_of_ne (h : c ≠ ' ') : Shows (c :: cs) ↔ Shows cs := by
  simp [iff_cons, mark_eq, h.symm]

@[simp] theorem blank_of_ne (h : c ≠ '<') : Shows (' ' :: c :: cs) ↔ Shows (c :: cs) := by
  rw [iff_cons (c := ' ')]
  simp [mark_eq, h.symm]

@[simp] theorem bracket_of_ne (h : c ≠ 'e') : Shows (' ' :: '<' :: c :: cs) ↔ Shows (c :: cs) := by
  rw [iff_cons (c := ' '), cons_of_ne (c := '<') (by decide)]
  simp [mark_eq, h.symm]

theorem append_of_notMem (h : ' ' ∉ cs) : Shows (cs ++ ds) ↔ Shows ds := by
  induction cs with
  | nil => rfl
  | cons c cs ih =>
      obtain ⟨hc, hcs⟩ := not_or.mp (List.mem_cons.not.mp h)
      rw [List.cons_append, cons_of_ne (Ne.symm hc), ih hcs]

end Shows

/-- A name without a blank does not make a text show anything. -/
@[simp] theorem Unbroken.shows_append {name : String} (h : Unbroken name) {cs : List Char} :
    Shows (name.toList ++ cs) ↔ Shows cs := Shows.append_of_notMem h

theorem notMem_of_isWord {c : Char} (hc : Token.isNameChar c = false) {cs : List Char}
    (h : isWord cs = true) : c ∉ cs := by
  intro hmem
  cases cs with
  | nil => cases hmem
  | cons d ds =>
      simp only [isWord, Bool.and_eq_true, List.all_eq_true] at h
      rcases List.mem_cons.mp hmem with rfl | hmem
      · rw [Token.isNameChar, h.1] at hc
        cases hc
      · rw [h.2 c hmem] at hc
        cases hc

theorem unbroken_of_isWord {name : String} (h : isWord name.toList = true) : Unbroken name :=
  notMem_of_isWord (by decide) h

theorem unbroken_base (b : Base) : Unbroken b.text := by
  cases b <;> simp [Unbroken, Base.text]

theorem unbroken_unreadable : Unbroken unreadableName := by unfold Unbroken; decide

/-! ### Types -/

/-- A type as messages can write it: the names in it are words, and it is none of functions. -/
def Ty.Legible : Ty → Prop
  | .domain name | .record name => isWord name.toList = true
  | .list t => t.Legible
  | .base _ | .error => True
  | .function .. => False

namespace Ty

theorem family_legible : Family Legible := ⟨fun _ => trivial, trivial, fun _ => Iff.rfl⟩

theorem shows_base (b : Base) {cs : List Char} :
    Shows (' ' :: (b.text.toList ++ cs)) ↔ Shows cs := by
  cases b <;> simp [Base.text]

theorem shows_word {name : String} (h : isWord name.toList = true) {cs : List Char} :
    Shows (' ' :: (name.toList ++ cs)) ↔ Shows cs := by
  have hbracket := notMem_of_isWord (c := '<') (by decide) h
  have hunbroken := unbroken_of_isWord h
  unfold Unbroken at hunbroken
  cases hname : name.toList with
  | nil => simp [hname, isWord] at h
  | cons c cs =>
      rw [hname] at hbracket hunbroken
      have hc : c ≠ '<' := fun hc => hbracket (hc ▸ List.mem_cons_self)
      rw [List.cons_append, Shows.blank_of_ne hc, ← List.cons_append,
        Shows.append_of_notMem hunbroken]

/-- A type behind a blank shows that it failed exactly if it contains an error. -/
theorem Legible.shows_text {t : Ty} (h : t.Legible) {cs : List Char} :
    Shows (' ' :: (t.text.toList ++ cs)) ↔ t.containsError = true ∨ Shows cs := by
  induction t with
  | base b => simp [text, containsError, shows_base]
  | list t ih => simpa [text, containsError] using ih h
  | domain name | record name => simp [text, containsError, shows_word h]
  | function parameters returns => exact h.elim
  | error => simp [text, containsError, Shows.iff_cons, Shows.mark_eq]

theorem Legible.shows_text_last {t : Ty} (h : t.Legible) :
    Shows (' ' :: t.text.toList) ↔ t.containsError = true := by
  simpa using @Legible.shows_text t h []

/-- A list of something that failed. Unlike the error type, not every check passes over it. -/
def FailedList : Ty → Prop
  | .list t => t.containsError = true
  | _ => False

theorem containsError_iff (t : Ty) : t.containsError = true ↔ t.isError = true ∨ t.FailedList := by
  cases t <;> simp [containsError, isError, FailedList]

theorem containsError_of_same {a b : Ty} (h : ¬a.same b = true) :
    a.containsError = false ∧ b.containsError = false := by
  simp only [same, Bool.or_eq_true, not_or, Bool.not_eq_true] at h
  exact h.1

end Ty

/-! ### Findings -/

/-- A hint that lists the literals of a type. They are quoted from where they are declared, whatever
stands in them. -/
def ListsLiterals (hint : String) : Prop := "' allows only: ".toList <:+: hint.toList

/-- The message of a finding shows a type that failed, or its hint does outside of literals. -/
def Diagnostic.ShowsFailure (d : Diagnostic) : Prop :=
  Shows d.message.toList ∨ ∃ hint ∈ d.hint, Shows hint.toList ∧ ¬ListsLiterals hint

/-- No type mismatch among some findings shows a type that failed. -/
def Discreet (ds : List Diagnostic) : Prop := ∀ d ∈ ds, d.code = typeMismatch → ¬d.ShowsFailure

section

variable {d : Diagnostic} {ds es : List Diagnostic} {start : Position}

@[simp] theorem discreet_nil : Discreet [] := List.forall_mem_nil _

@[simp] theorem discreet_append : Discreet (ds ++ es) ↔ Discreet ds ∧ Discreet es :=
  List.forall_mem_append

@[simp] theorem discreet_cons :
    Discreet (d :: ds) ↔ (d.code = typeMismatch → ¬d.ShowsFailure) ∧ Discreet ds :=
  List.forall_mem_cons

@[simp] theorem discreet_flatMap {α : Type} {as : List α} {f : α → List Diagnostic} :
    Discreet (as.flatMap f) ↔ ∀ a ∈ as, Discreet (f a) := by
  simp only [Discreet, List.mem_flatMap]
  exact ⟨fun h a ha d hd => h d ⟨a, ha, hd⟩, fun h d ⟨a, ha, hd⟩ => h a ha d hd⟩

/-- Findings of other codes are no type mismatches. -/
theorem discreet_of_code_ne (h : ∀ d ∈ ds, d.code ≠ typeMismatch) : Discreet ds :=
  fun d hd hcode => absurd hcode (h d hd)

theorem discreet_cons_typeFinding {code : String} (h : code ≠ typeMismatch) {message : String}
    {hint : Option String} : Discreet (typeFinding code message start hint :: ds) ↔ Discreet ds :=
  discreet_cons.trans (and_iff_right fun hcode => absurd hcode h)

theorem discreet_typeFinding {code : String} (h : code ≠ typeMismatch) (message : String)
    (hint : Option String) : Discreet [typeFinding code message start hint] :=
  (discreet_cons_typeFinding h).mpr discreet_nil

/-- A hint that shows nothing that failed, unless in literals. -/
def DiscreetHint (hint : Option String) : Prop :=
  ∀ h ∈ hint, Shows h.toList → ListsLiterals h

@[simp] theorem discreetHint_none : DiscreetHint none := nofun

@[simp] theorem discreetHint_some {hint : String} :
    DiscreetHint (some hint) ↔ (Shows hint.toList → ListsLiterals hint) := by
  simp [DiscreetHint]

theorem TypeEnv.discreet_mismatch {message : String} {hint : Option String} :
    Discreet [mismatch message start hint] ↔ ¬Shows message.toList ∧ DiscreetHint hint := by
  simp [Discreet, Diagnostic.ShowsFailure, mismatch, typeFinding, DiscreetHint]

theorem TypeEnv.discreet_mismatch_of {message : String} {hint : Option String}
    (hmessage : ¬Shows message.toList) (hhint : DiscreetHint hint) :
    Discreet [mismatch message start hint] := discreet_mismatch.mpr ⟨hmessage, hhint⟩

end

/-! ### Environments -/

/-- The parameters of a signature have names without blanks. -/
def Signature.Unbroken (s : Signature) : Prop := ∀ p ∈ s.parameters, Prosaic.Unbroken p.1

/-- An environment whose types and names messages can write. -/
structure TypeEnv.Legible (env : TypeEnv) : Prop where
  types : env.Over (fun _ => True) Ty.Legible
  functionNames : ∀ e ∈ env.functions, Unbroken e.1
  helperNames : ∀ e ∈ env.registry.helpers, Unbroken e.1
  functions : ∀ n f, env.functions.lookup n = some f → f.signature.Unbroken
  helpers : ∀ n s, env.registry.helpers.lookup n = some s → s.Unbroken
  operations : ∀ n s, env.registry.operations.lookup n = some s → s.Unbroken

namespace TypeEnv

variable {env : TypeEnv} {scope : Scope}

/-- What a name calls takes its arguments under names without blanks. -/
theorem Legible.callee (henv : env.Legible) {name : String} {target : CallTarget}
    {parameters : List (String × Ty)} {returns : Option Ty}
    (h : env.callee name = .known target parameters returns) :
    ∀ p ∈ parameters, Unbroken p.1 ∧ p.2.Legible := by
  have htypes := (callee_over henv.types trivial h).1
  have hnames : ∀ p ∈ parameters, Unbroken p.1 := by
    cases (env.callee_spec name).2 _ _ _ h with
    | function hbase hf => exact henv.functions _ _ hf
    | helper hbase hfunction hs => exact henv.helpers _ _ hs
    | operation hbase hfunction hhelper hs => exact henv.operations _ _ hs
    | conversion => exact List.forall_mem_singleton.mpr (by simp [Unbroken])
  exact fun p hp => ⟨hnames p hp, htypes p hp⟩

/-! ### Hints -/

theorem listsLiterals_allowedHint (t : Ty) (values : List String) :
    ListsLiterals (allowedHint t values) := by
  refine ⟨"'".toList ++ t.text.toList, (", ".intercalate (values.map Text.literal)).toList
    ++ ".".toList, ?_⟩
  simp [allowedHint]

theorem mem_of_least? {names : List String} {name : String} (h : least? names = some name) :
    name ∈ names := by
  cases names with
  | nil => cases h
  | cons first rest =>
      obtain rfl := Option.some.inj h
      clear h
      induction rest generalizing first with
      | nil => exact List.mem_cons_self
      | cons second rest ih =>
          rw [List.foldl_cons]
          rcases List.mem_cons.mp (ih (if second < first then second else first)) with hname | hmem
          · rw [hname]
            split <;> simp
          · exact List.mem_cons_of_mem _ (List.mem_cons_of_mem _ hmem)

theorem unbroken_of_least? (henv : env.Legible) {actual expected : Ty} {name : String}
    (h : least? (env.converters actual expected) = some name) : Unbroken name := by
  rcases List.mem_append.mp (mem_of_least? h) with hmem | hmem
  · obtain ⟨e, he, rfl⟩ := List.mem_map.mp hmem
    exact henv.functionNames e (List.mem_filter.mp he).1
  · obtain ⟨e, he, rfl⟩ := List.mem_map.mp hmem
    exact henv.helperNames e (List.mem_filter.mp he).1

section

variable {a b : Ty} (ha : a.Legible) (hb : b.Legible) (hfree : a.containsError = false)
  (hfree' : b.containsError = false)

include ha hb hfree hfree'

/-- Between types that did not fail, no hint shows one that did. -/
theorem discreet_conversionHint (henv : env.Legible) (e : Expr) :
    DiscreetHint (env.conversionHint e a b) := by
  unfold conversionHint
  split
  · exact discreetHint_none
  · split
    · exact discreetHint_some.mpr fun _ => listsLiterals_allowedHint _ _
    · split
      · next hunderlying =>
          -- only a domain type is made from others, and its text is a name
          cases b with
          | domain name => simp [Ty.text, (unbroken_of_isWord hb).shows_append]
          | _ => cases hunderlying
      · split
        · cases ‹Base› <;> simp [Base.text]
        · intro hint hhint
          obtain ⟨name, hname, rfl⟩ := Option.map_eq_some_iff.mp hhint
          simp [(unbroken_of_least? henv hname).shows_append, ha.shows_text, hb.shows_text, hfree,
            hfree']

theorem discreet_comparisonHint (henv : env.Legible) (left right : Expr) :
    DiscreetHint (env.comparisonHint left right a b) := by
  unfold comparisonHint
  split
  · exact discreetHint_some.mpr fun _ => listsLiterals_allowedHint _ _
  · split
    · exact discreetHint_some.mpr fun _ => listsLiterals_allowedHint _ _
    · exact discreet_conversionHint hb ha hfree' hfree henv right

end

/-! ### Reports that pass over what failed -/

theorem discreet_variableType (name : String) (start : Position) :
    Discreet (env.variableType scope name start).2 := by
  unfold variableType
  split
  · exact discreet_nil
  · exact discreet_typeFinding (by decide) _ _

theorem discreet_emptyListType (expected : Option Ty) (start : Position) :
    Discreet (emptyListType expected start).2 := by
  unfold emptyListType
  split
  · exact discreet_nil
  · exact discreet_nil
  · exact discreet_mismatch_of (by simp) (by simp)

theorem discreet_booleanFindings (what : String)
    (hwhat : ∀ cs, Shows (' ' :: (what.toList ++ cs)) ↔ Shows cs) {v : Typing}
    (hv : v.ty.Legible) : Discreet (booleanFindings what v) := by
  unfold booleanFindings
  split
  · exact discreet_nil
  · next hsame =>
      refine discreet_mismatch_of ?_ (by simp)
      simp [hwhat, hv.shows_text_last, (Ty.containsError_of_same hsame).1]

theorem discreet_unknownCallee {name : Name} (hname : isWord name.text.toList = true) :
    Discreet [env.unknownCallee scope name] := by
  unfold unknownCallee
  dsimp only
  split
  · exact discreet_mismatch_of (by simp [(unbroken_of_isWord hname).shows_append]) (by simp)
  · exact discreet_typeFinding (by decide) _ _

theorem discreet_nothingFindings {name : Name} (hname : isWord name.text.toList = true)
    (parameters : List (String × Ty)) (returns : Option Ty) (asValue : Bool) :
    Discreet (nothingFindings name parameters returns asValue) := by
  unfold nothingFindings
  split
  · refine discreet_mismatch_of (by simp [(unbroken_of_isWord hname).shows_append]) ?_
    cases parameters.isEmpty <;> simp [Ty.shows_word hname]
  · exact discreet_nil

theorem discreet_itemType {item : String} (hitem : isWord item.toList = true) {v : Typing}
    (hv : v.ty.Legible) : Discreet (itemType item v).2 := by
  unfold itemType
  split
  · exact discreet_nil
  · exact discreet_nil
  · next hlist herror =>
      have hfree : v.ty.containsError = false := by
        cases hty : v.ty with
        | list t => exact absurd hty (hlist t)
        | error => exact absurd hty herror
        | base | domain | record | function => rfl
      refine discreet_mismatch_of ?_ (by simp)
      simp [(unbroken_of_isWord hitem).shows_append, hv.shows_text_last, hfree]

theorem discreet_bind (name : String) (t : Ty) (span : Span) :
    Discreet (env.bind scope name t span).2 :=
  discreet_of_code_ne (env.code_ne_of_bind scope (by decide) name t span)

theorem discreet_bindParameters (ps : List (Typed × Ty)) :
    Discreet (env.bindParameters scope ps).2 :=
  discreet_of_code_ne (env.code_ne_of_bindParameters scope (by decide) ps)

section

variable (henv : env.Legible)

include henv

/-- What cannot be assigned is compared up to errors. -/
theorem discreet_unassignable {v : Typing} (hv : v.ty.Legible) {t : Ty} (ht : t.Legible)
    (message : String)
    (hmessage : v.ty.containsError = false → t.containsError = false → ¬Shows message.toList)
    (start : Position) :
    Discreet (if env.assignable v.expr v.ty t then []
      else [mismatch message start (env.conversionHint v.expr v.ty t)]) := by
  split
  · exact discreet_nil
  · next h =>
      obtain ⟨hfree, hfree'⟩ := Ty.containsError_of_same (a := v.ty) (b := t)
        fun hsame => h (by simp [assignable, hsame])
      exact discreet_mismatch_of (hmessage hfree hfree')
        (discreet_conversionHint hv ht hfree hfree' henv _)

theorem discreet_elementFindings {t : Ty} (ht : t.Legible) {vs : List Typing}
    (hvs : ∀ v ∈ vs, v.ty.Legible) :
    Discreet (env.elementFindings t vs) ↔ ∀ v ∈ vs, Discreet v.found := by
  induction vs with
  | nil => simp [elementFindings]
  | cons v vs ih =>
      obtain ⟨hv, hvs⟩ := List.forall_mem_cons.mp hvs
      have hown := discreet_unassignable henv hv ht
        ("List elements must share one type: expected " ++ t.text ++ ", found " ++ v.ty.text)
        (fun hfree hfree' => by simp [ht.shows_text, hv.shows_text_last, hfree, hfree'])
        v.expr.span.start
      simp only [elementFindings, discreet_append, ih hvs, hown, and_true, List.forall_mem_cons]

theorem discreet_listType (expected : Option Ty) (hexpected : ∀ t ∈ expected, t.Legible)
    {vs : List Typing} (hvs : ∀ v ∈ vs, v.ty.Legible) (start : Position) :
    Discreet (env.listType expected vs start).2 ↔ ∀ v ∈ vs, Discreet v.found := by
  cases vs with
  | nil => exact iff_of_true (discreet_emptyListType expected start) (List.forall_mem_nil _)
  | cons first rest =>
      have hlist := (Ty.family_legible.list _).mp
        (listType_over Ty.family_legible env hexpected hvs start)
      obtain ⟨hfirst, hrest⟩ := List.forall_mem_cons.mp hvs
      simp only [listType, discreet_append, List.forall_mem_cons,
        discreet_elementFindings henv hlist hrest]

theorem discreet_argumentFindings {target : String}
    (htarget : ∀ cs, Shows (' ' :: (target.toList ++ cs)) ↔ Shows cs) {vs : List Typing}
    (hvs : ∀ v ∈ vs, v.ty.Legible) {ps : List (String × Ty)}
    (hps : ∀ p ∈ ps, Unbroken p.1 ∧ p.2.Legible) (hlength : vs.length = ps.length) :
    Discreet (env.argumentFindings target vs ps) ↔ ∀ v ∈ vs, Discreet v.found := by
  induction vs generalizing ps with
  | nil => simp [argumentFindings]
  | cons v vs ih =>
      cases ps with
      | nil => cases hlength
      | cons p ps =>
          obtain ⟨name, t⟩ := p
          obtain ⟨hv, hvs⟩ := List.forall_mem_cons.mp hvs
          obtain ⟨⟨hname, ht⟩, hps⟩ := List.forall_mem_cons.mp hps
          have hown := discreet_unassignable henv hv ht
            ("Argument '" ++ name ++ "' of " ++ target ++ " expects " ++ t.text
              ++ ", but was given " ++ v.ty.text)
            (fun hfree hfree' => by
              simp [hname.shows_append, htarget, ht.shows_text, hv.shows_text_last, hfree, hfree'])
            v.expr.span.start
          simp only [argumentFindings, discreet_append, ih hvs hps (Nat.succ.inj hlength), hown,
            and_true, List.forall_mem_cons]

end

end TypeEnv

end Prosaic
