import Prosaic.Proofs.Agreement
import Prosaic.Proofs.ReadBack
import Prosaic.Proofs.TypeScript.Calls

/-!
What is awaited in an emitted module. A function is asynchronous exactly if it is declared as
effectful, a call is awaited exactly if what it calls is asynchronous, and a function that is not
asynchronous has no such call, since a pure function calls nothing that has an effect.
-/

namespace Prosaic

open TypeScript (Call Command Item Module Reference Term Tree)

/-! ### Asynchronous modules -/

/-- What the callee of a call may refer to, and whether that is asynchronous: a function of the
module if it is declared so, an operation of the registry always, a helper never. -/
inductive TypeScript.Module.Refers (m : Module) (registry : Registry) : Reference → Bool → Prop
  | function {name : String} {isAsync : Bool} {parameters : List (String × TypeScript.TypeExpr)}
      {returns : Option TypeScript.TypeExpr} {body : List Command}
      (h : .function name isAsync parameters returns body ∈ m.items) :
      m.Refers registry ⟨name, false⟩ isAsync
  | operation {name : String} (h : registry.isOperation name = true) :
      m.Refers registry ⟨name, true⟩ true
  | helper {name : String} (h : registry.isHelper name = true) :
      m.Refers registry ⟨name, true⟩ false

/-- The text of an expression in a function is read as a tree with the calls of the expression, in
which one `await` stands directly around every call of what is asynchronous, and nowhere else. There
is none in a pure function. -/
structure TypeScript.Module.Awaits (m : Module) (registry : Registry) (purity : Purity) (t : Term)
    (tree : Tree) : Prop where
  read : TypeScript.read .plain t.text = some tree
  shown : tree.callsUnder 0 = t.calls.map Call.shown
  awaited : ∀ c ∈ t.calls, ∀ isAsync, m.Refers registry c.callee isAsync ↔ c.awaited = isAsync
  only : tree.awaits = t.calls.countP Call.awaited
  never : purity = .pure → tree.awaits = 0

/-- The calls of a function have the labels of what their names mean. A call goes to that, unless it
is a conversion, and one in a pure function to nothing effectful. -/
structure FunctionDecl.Labelled (f : FunctionDecl) (p : Program) (registry : Registry) : Prop where
  resolved : f.resolved = some f.purity
  calls : ∀ site ∈ Stmt.callsAll f.body, ∃ kind purity,
    p.meaning? registry site.callee.text = some (kind, purity) ∧ site.note.purity = some purity ∧
      (site.note.target = some kind ∨ site.note.target = some .conversion) ∧
      (f.purity = .pure → purity = .pure)

section

variable {p : Program} {registry : Registry}

/-- What a name means is what it is the name of. -/
theorem meaning?_cases {name : String} {kind : CallTarget} {purity : Purity}
    (h : p.meaning? registry name = some (kind, purity)) :
    (∃ f, p.function? name = some f ∧ kind = .function ∧ purity = f.purity) ∨
      (registry.isOperation name = true ∧ kind = .operation ∧ purity = .effectful) ∨
      (registry.isHelper name = true ∧ kind = .helper ∧ purity = .pure) ∨ kind = .conversion := by
  unfold Program.meaning? at h
  cases hf : p.function? name with
  | some f =>
      rw [hf] at h
      cases h
      exact .inl ⟨f, rfl, rfl, rfl⟩
  | none =>
      simp only [hf] at h
      split at h
      · next hoperation =>
          cases h
          exact .inr (.inl ⟨hoperation, rfl, rfl⟩)
      · split at h
        · next hhelper =>
            cases h
            exact .inr (.inr (.inl ⟨hhelper, rfl, rfl⟩))
        · split at h
          · cases h
            exact .inr (.inr (.inr rfl))
          · cases h

/-- The name of a call that fits has a meaning, which is what the call goes to unless it is a
conversion. -/
theorem target_of_callFits (hnamed : registry.Named) {env : TypeEnv} (h : env.Reflects registry p)
    {name : String} {args : List Expr} {target : Option CallTarget} {returns : Option Ty}
    (hfits : env.CallFits name args target returns) :
    ∃ kind purity, p.meaning? registry name = some (kind, purity) ∧
      (target = some kind ∨ target = some .conversion) := by
  obtain ⟨kind, purity, hmeaning, hkind⟩ := meaning?_of_callFits hnamed h hfits
  refine ⟨kind, purity, hmeaning, ?_⟩
  rcases TypeEnv.callFits_cases hfits with ⟨_, _, _, -, hconversion, -⟩ | ⟨_, _, hknown, -, -⟩
  · exact .inr hconversion
  · refine .inl (hkind.mpr fun hhides => ?_)
    have hbase : Base.ofText? name = none := by cases hknown <;> assumption
    rw [Registry.Hides, hbase] at hhides
    cases hhides.1

/-- After both checks, all functions with distinct names are labelled. -/
theorem Program.labelled_of_clean (hnamed : registry.Named) {budget budget' : Budget}
    (htypes : (p.checkTypes registry budget).result = .ok []) {report : PurityReport}
    (hpurity : ((p.checkTypes registry budget).program.checkPurity registry budget').result =
      .ok report) (hfound : report.found = [])
    (hdistinct : (p.functions.map fun f => f.name.text).Nodup) :
    let checked := ((p.checkTypes registry budget).program.checkPurity registry budget').program
    ∀ f ∈ checked.functions, f.Labelled checked registry := by
  generalize htyped : (p.checkTypes registry budget).program = typed at hpurity ⊢
  intro checked f hf
  obtain ⟨hreflects, -, -⟩ := Program.checkTypes_accepts htypes
  have hsame : typed.SameBare p := htyped ▸ p.sameBare_checkTypes registry budget
  have hchecked : checked.SameBare typed := typed.sameBare_checkPurity registry budget'
  have hfits : typed.Everywhere (Declared.of registry p).env.Called :=
    htyped ▸ Program.checkTypes_everywhere (fun scope e he => by
        cases e with
        | call => exact ⟨_, he.choose_spec.2⟩
        | _ => trivial)
      (fun _ _ _ returns hfits => ⟨returns, hfits⟩) htypes
  have hmeaning : ∀ f ∈ typed.functions, ∀ site ∈ Stmt.callsAll f.body, ∃ kind purity,
      typed.meaning? registry site.callee.text = some (kind, purity) ∧
        (site.note.target = some kind ∨ site.note.target = some .conversion) := by
    intro f hf site hsite
    obtain ⟨args, returns, hfits⟩ := (hfits f hf).at_call site hsite
    rw [hsame.meaning?]
    exact target_of_callFits hnamed hreflects hfits
  have hresolves := checkPurity_resolves hpurity fun f hf site hsite => by
    obtain ⟨kind, purity, hsome, -⟩ := hmeaning f hf site hsite
    rw [hsome]
    rfl
  -- every function is the first of its name
  have hfirst : checked.function? f.name.text = some f :=
    Program.function?_eq_some (by rwa [hchecked.functionNames, hsame.functionNames]) hf
  obtain ⟨f₀, hf₀, rfl⟩ := Option.map_eq_some_iff.mp ((hresolves.firsts _).symm.trans hfirst)
  refine ⟨rfl, fun site hsite => ?_⟩
  obtain ⟨site₀, hsite₀, rfl⟩ : ∃ site₀ ∈ Stmt.callsAll f₀.body,
      site₀.labelled (typed.label registry) = site := by
    rwa [FunctionDecl.callsLabelled, Stmt.callsAll_labelledAll, List.mem_map] at hsite
  obtain ⟨kind, purity, hsome, htarget⟩ := hmeaning f₀ (mem_of_function? hf₀) site₀ hsite₀
  have hlabel : typed.label registry site₀.callee.text = some purity := by
    rw [Program.label, hsome]
    rfl
  refine ⟨kind, purity, hchecked.meaning?.symm ▸ hsome, ?_, htarget, fun hpure => ?_⟩
  · rw [CallSite.labelled, relabel, hlabel]
    rfl
  · have hfirst₀ : typed.function? f₀.name.text = some f₀ := hf₀
    have hnone := not_hasEffect_of_pure hpurity hfound hfirst₀ hpure site₀ hsite₀
    rw [← label_eq_effectful_iff, hlabel, Option.some_inj] at hnone
    cases purity with
    | pure => rfl
    | effectful => exact (hnone rfl).elim

end

/-! ### Emitted modules -/

section

variable {source : String} {registry : Registry} {target : Target} {budget : Budget} {text : String}
  {p : Program} {m : Module}

/-- All functions of a program that is lowered are labelled. -/
theorem LowersTo.labelled (hnamed : registry.Named) (h : LowersTo source registry budget p m) :
    ∀ f ∈ p.functions, f.Labelled p registry := by
  have hdistinct := h.scoped.distinct
  obtain ⟨r, report, rfl, -, htypes, hreport, hnone⟩ := h.exists_reading
  rw [(r.sameBare_labelled registry).functionNames] at hdistinct
  exact Program.labelled_of_clean hnamed htypes hreport hnone hdistinct

/-- The items of a module are the declarations of its program. -/
theorem LowersTo.items (h : LowersTo source registry budget p m) :
    List.Forall₂ (fun d i => TypeScript.lowerDecl registry
      (TypeScript.moduleNames p registry) d = .ok i)
      p.declarations m.items :=
  TypeScript.lower_eq_ok.mp h.lower_eq

/-- The functions of a module are those of its program, and asynchronous if they are effectful. -/
theorem LowersTo.refers_function_iff (hnamed : registry.Named)
    (h : LowersTo source registry budget p m) {name : String} {isAsync : Bool} :
    m.Refers registry ⟨name, false⟩ isAsync ↔
      ∃ f ∈ p.functions, f.name.text = name ∧ isAsync = decide (f.purity = .effectful) := by
  have hlabelled := h.labelled hnamed
  constructor
  · rintro ⟨hitem⟩
    obtain ⟨d, hd, hlower⟩ := exists_of_mem_left h.items.flip _ hitem
    cases d with
    | type t =>
        obtain ⟨name, body, span⟩ := t
        cases body with
        | literals values => cases hlower
        | reference ref =>
            obtain ⟨_, -, hitem⟩ := TypeScript.lowerDecl_reference.mp hlower
            cases hitem
    | record d =>
        obtain ⟨_, -, hitem⟩ := TypeScript.lowerDecl_record.mp hlower
        cases hitem
    | function f =>
        have hf := Program.mem_functions.mpr hd
        obtain ⟨purity, _, _, _, _, hresolved, heq, -⟩ := lowerFunction_cases hlower
        cases heq
        cases (hlabelled f hf).resolved.symm.trans hresolved
        exact ⟨f, hf, rfl, rfl⟩
  · rintro ⟨f, hf, rfl, rfl⟩
    obtain ⟨i, hi, hlower⟩ := exists_of_mem_left h.items _ (Program.mem_functions.mp hf)
    obtain ⟨purity, _, _, _, _, hresolved, rfl, -⟩ := lowerFunction_cases hlower
    cases (hlabelled f hf).resolved.symm.trans hresolved
    exact .function hi

/-- A call is awaited exactly if what it refers to is asynchronous, and never in a pure function. -/
theorem LowersTo.awaited (hnamed : registry.Named) (h : LowersTo source registry budget p m)
    {f : FunctionDecl} (hf : f ∈ p.functions) {site : CallSite}
    (hsite : site ∈ Stmt.callsAll f.body)
    {c : Call} (hc : site.lowered = some c) :
    (∀ isAsync, m.Refers registry c.callee isAsync ↔ c.awaited = isAsync) ∧
      (f.purity = .pure → c.awaited = false) := by
  obtain ⟨kind, purity, hmeaning, hpurity, htarget, hpure⟩ :=
    (h.labelled hnamed f hf).calls site hsite
  -- an operation is never a helper as well
  have hapart : registry.isOperation site.callee.text = true →
      registry.isHelper site.callee.text ≠ true := fun hoperation hhelper =>
    hnamed.apart _ (Registry.isOperation_iff.mp hoperation) (Registry.isHelper_iff.mp hhelper)
  rcases htarget with htarget | htarget
  · rw [CallSite.lowered, htarget, hpurity] at hc
    refine ⟨fun isAsync => ?_, fun hdeclared => ?_⟩
    · rcases meaning?_cases hmeaning with ⟨g, hg, rfl, rfl⟩ | ⟨hoperation, rfl, rfl⟩ |
        ⟨hhelper, rfl, rfl⟩ | rfl
      · cases hc
        refine (h.refers_function_iff hnamed).trans ⟨?_, fun heq => ?_⟩
        · rintro ⟨g', hg', hname, rfl⟩
          have hfirst := Program.function?_eq_some h.scoped.distinct hg'
          rw [hname, hg] at hfirst
          simp [Option.some.inj hfirst]
        · exact ⟨g, mem_of_function? hg, name_of_function? hg, by simp [← heq]⟩
      · cases hc
        refine ⟨?_, fun heq => ?_⟩
        · rintro (_ | _ | hhelper)
          · rfl
          · exact (hapart hoperation hhelper).elim
        · obtain rfl : true = isAsync := heq
          exact .operation hoperation
      · cases hc
        refine ⟨?_, fun heq => ?_⟩
        · rintro (_ | hoperation | _)
          · exact (hapart hoperation hhelper).elim
          · rfl
        · obtain rfl : false = isAsync := heq
          exact .helper hhelper
      · cases hc
    · obtain rfl := hpure hdeclared
      cases kind <;> cases hc <;> rfl
  · rw [CallSite.lowered, htarget] at hc
    cases hc

/-- The terms of a function of the module are awaited as they should be. -/
theorem LowersTo.awaits (hnamed : registry.Named) (h : LowersTo source registry budget p m)
    {f : FunctionDecl} (hf : f ∈ p.functions) {l l' : TypeScript.Locals} {body : List Command}
    (hbody : TypeScript.lowerStmts registry l f.body = .ok (body, l')) {t : Term}
    (ht : t ∈ Command.termsAll body) (hread : TypeScript.read .plain t.text = some t.tree) :
    m.Awaits registry f.purity t t.tree := by
  have hcalls : ∀ c ∈ t.calls, ∃ site ∈ Stmt.callsAll f.body, site.lowered = some c := by
    intro c hc
    rw [← List.mem_filterMap, ← TypeScript.calls_lowerStmts hbody]
    exact List.mem_flatMap_of_mem ht hc
  refine ⟨hread, t.shows_tree.shown, fun c hc => ?_, t.shows_tree.awaits, fun hpure => ?_⟩
  · obtain ⟨site, hsite, hlowered⟩ := hcalls c hc
    exact (h.awaited hnamed hf hsite hlowered).1
  · rw [t.shows_tree.awaits, List.countP_eq_zero]
    intro c hc
    obtain ⟨site, hsite, hlowered⟩ := hcalls c hc
    exact Bool.eq_false_iff.mp ((h.awaited hnamed hf hsite hlowered).2 hpure)

end

end Prosaic
