import Prosaic.Proofs.Emission
import Prosaic.Proofs.Registry.Names
import Prosaic.Proofs.TypeScript.Sites
import Prosaic.Proofs.TypeScript.Translation
import Prosaic.Proofs.Typing.Rules

/-!
Every expression of an emitted module is read back from its text as the expression that the program
has in its place.
-/

namespace Prosaic

open TypeScript (Locals bound boundAll lowerExpr)

/-! ### Names -/

theorem formed_bare (e : Expr) : e.bare.Formed ↔ e.Formed := by
  cases e with
  | literal value note => cases value <;> rfl
  | _ => rfl

theorem Stmt.WellFormed.isName_boundAll_of {ss : List Stmt}
    (h : ∀ s ∈ ss, s.WellFormed → ∀ x ∈ bound s, IsName x) (hss : ∀ s ∈ ss, s.WellFormed) :
    ∀ x ∈ boundAll ss, IsName x := by
  induction ss with
  | nil => exact List.forall_mem_nil _
  | cons s ss ih =>
      obtain ⟨hs, hrest⟩ := List.forall_mem_cons.mp h
      obtain ⟨hformed, hrestFormed⟩ := List.forall_mem_cons.mp hss
      exact List.forall_mem_append.mpr ⟨hs hformed, ih hrest hrestFormed⟩

theorem Stmt.WellFormed.isName_bound {s : Stmt} (h : s.WellFormed) : ∀ x ∈ bound s, IsName x := by
  induction s with
  | bind => exact List.forall_mem_singleton.mpr h.1
  | branch c t span iht => exact isName_boundAll_of iht (Stmt.allWellFormed_iff.mp h.2)
  | branchOtherwise c t o span iht iho =>
      exact List.forall_mem_append.mpr ⟨isName_boundAll_of iht (Stmt.allWellFormed_iff.mp h.2.1),
        isName_boundAll_of iho (Stmt.allWellFormed_iff.mp h.2.2)⟩
  | forEach item e body span ih =>
      exact List.forall_mem_cons.mpr ⟨h.1, isName_boundAll_of ih (Stmt.allWellFormed_iff.mp h.2.2)⟩
  | call | returns | expression => exact List.forall_mem_nil _

/-- The names that a function binds, and those in its expressions, are names of the language. -/
structure FunctionDecl.Legible (f : FunctionDecl) : Prop where
  parameters : ∀ p ∈ f.parameters, IsName p.name
  locals : ∀ x ∈ boundAll f.body, IsName x
  body : Stmt.EverywhereIn Expr.Formed f.body

theorem FunctionDecl.WellFormed.legible {f : FunctionDecl} (h : f.WellFormed) : f.Legible where
  parameters p hp := (h.parameters p hp).name
  locals := Stmt.WellFormed.isName_boundAll_of (fun _ _ => Stmt.WellFormed.isName_bound) h.body
  body := Stmt.everywhereIn_iff.mpr fun s hs => (h.body s hs).fresh.mono fun _ he => he.formed

theorem FunctionDecl.legible_bare {f : FunctionDecl} : f.bare.Legible ↔ f.Legible := by
  have hlocals : boundAll f.bare.body = boundAll f.body := by
    rw [FunctionDecl.bare, Stmt.bareAll_eq]
    exact boundAll_bare_of fun s _ => bound_bare s
  have hbody : Stmt.EverywhereIn Expr.Formed f.bare.body ↔
      Stmt.EverywhereIn Expr.Formed f.body := by
    rw [FunctionDecl.bare, Stmt.bareAll_eq, Stmt.everywhereIn_iff, Stmt.everywhereIn_iff,
      List.forall_mem_map]
    exact forall₂_congr fun s _ => Stmt.everywhere_bare formed_bare s
  constructor
  · exact fun h => ⟨h.parameters, hlocals ▸ h.locals, hbody.mp h.body⟩
  · exact fun h => ⟨h.parameters, hlocals ▸ h.locals, hbody.mpr h.body⟩

/-! ### Types -/

section

variable {env : TypeEnv} {registry : Registry} {p : Program}

/-- What a name converts to is a base type or a domain type, also where the registry knows the name
for a type. -/
theorem TypeEnv.Reflects.converts (h : env.Reflects registry p) {name : String} {args : List Expr}
    {target : Option CallTarget} {returns : Option Ty}
    (hfits : env.CallFits name args target returns)
    (htarget : target = some .conversion) {t : Ty} (ht : registry.type? name = some t) :
    (∃ b, t = .base b) ∨ ∃ d, t = .domain d := by
  have hdeclared : Base.ofText? name = none → name ∈ registry.declaredNames := by
    intro hbase
    rw [Registry.type?, hbase] at ht
    simp only [Registry.declaredNames, List.mem_append]
    exact .inl (.inl (List.mem_map_of_mem (f := Prod.fst) (mem_of_lookup ht)))
  rcases TypeEnv.callFits_cases hfits with
    ⟨b, _, _, hbase, -⟩ | ⟨kind, _, hknown, hkind, -⟩
  · rw [Registry.type?, hbase] at ht
    exact .inl ⟨b, (Option.some.inj ht).symm⟩
  · obtain rfl : CallTarget.conversion = kind := Option.some.inj (htarget.symm.trans hkind)
    cases hknown with
    | @conversion u v hbase hfunction hhelper hoperation hu hv =>
        obtain ⟨d, rfl, -⟩ := h.underlying?_domain (w := ⟨p, registry⟩) hv
        -- the program cannot declare what the registry does
        have hforeign : ∀ d ∈ p.readable.declarations, d.name ≠ name := by
          rintro d hd rfl
          exact (h.free d hd).2 (hdeclared hbase)
        have hrecord : name ∉ p.readable.records.map RecordDecl.name := by
          rw [List.mem_map]
          rintro ⟨r, hr, heq⟩
          exact hforeign _ (Program.mem_records.mp hr) heq
        have htype : name ∉ p.readable.types.map TypeDecl.name := by
          rw [List.mem_map]
          rintro ⟨t, ht, heq⟩
          exact hforeign _ (Program.mem_types.mp ht) heq
        rw [h.types, declaredType?, hbase] at hu
        simp only [if_neg hrecord, if_neg htype] at hu
        exact .inr ⟨d, Option.some.inj (ht.symm.trans hu)⟩

theorem Expr.sensible_of_accepts (h : env.Reflects registry p) {scope : Scope} {e : Expr}
    (he : env.Accepts scope e) : e.Sensible registry := by
  cases e with
  | literal value note =>
      cases value with
      | number n => exact he
      | _ => trivial
  | field base name note =>
      obtain ⟨baseTy, t, hbase, -, hfield⟩ := he
      intro hnumber
      obtain rfl : baseTy = .number := Option.some.inj (hbase.symm.trans hnumber)
      rcases hfield with ⟨herror, -⟩ | ⟨r, hr, -⟩
      · cases herror
      · cases hr
  | call callee args note =>
      obtain ⟨t, -, hfits⟩ := he
      exact fun htarget u hu => h.converts hfits htarget hu
  | _ => trivial

theorem Expr.sensible_labelled {label : String → Option Purity} {e : Expr}
    (h : e.Sensible registry) :
    (e.labelled label).Sensible registry := by
  cases e with
  | field base name note =>
      have hty : (base.labelled label).ty? = base.ty? := by cases base <;> rfl
      intro hnumber
      exact h (hty ▸ hnumber)
  | _ => exact h

/-- What labels do not change holds everywhere after the purity check if it does before. -/
theorem Program.everywhere_checkPurity {P : Expr → Prop}
    (hP : ∀ (label : String → Option Purity) (e : Expr), P e → P (e.labelled label)) {q : Program}
    (h : q.Everywhere P) {budget : Budget} {report : PurityReport}
    (hpurity : (q.checkPurity registry budget).result = .ok report) (hfound : report.found = [])
    (hdistinct : (q.functions.map fun f => f.name.text).Nodup) :
    (q.checkPurity registry budget).program.Everywhere P := by
  have hlabels := Program.checkPurity_labels hpurity hfound hdistinct
  rw [Program.functions_withLabels, List.forall₂_map_left_iff] at hlabels
  intro f hf
  obtain ⟨f₀, hf₀, label, rfl, hcalls⟩ := exists_of_mem_left hlabels.flip f hf
  have hbody := h f₀ hf₀
  rw [Stmt.everywhereIn_iff] at hbody
  simp only [FunctionDecl.withLabel, Stmt.labelledAll_eq, Stmt.everywhereIn_iff,
    List.forall_mem_map]
  intro s hs
  refine Stmt.everywhere_labelled (fun e he _ => hP label e he) (hbody s hs)
    fun site hsite => hcalls site ?_
  rw [Stmt.callsAll_eq]
  exact List.mem_flatMap_of_mem hs hsite

/-- After both checks every node makes sense. -/
theorem Program.sensible_labelled {budget budget' : Budget} {report : PurityReport}
    (htypes : (p.checkTypes registry budget).result = .ok [])
    (hpurity : ((p.checkTypes registry budget).program.checkPurity registry budget').result =
      .ok report) (hfound : report.found = [])
    (hdistinct : ((p.checkTypes registry budget).program.functions.map fun f =>
      f.name.text).Nodup) :
    ((p.checkTypes registry budget).program.checkPurity registry budget').program.Everywhere
      (Expr.Sensible registry) := by
  obtain ⟨hreflects, -, -⟩ := Program.checkTypes_accepts htypes
  have hsensible : (p.checkTypes registry budget).program.Everywhere (Expr.Sensible registry) :=
    Program.checkTypes_everywhere (fun scope e => Expr.sensible_of_accepts hreflects)
      (fun _ _ _ _ hfits htarget t ht => hreflects.converts hfits htarget ht) htypes
  exact Program.everywhere_checkPurity (fun _ _ => Expr.sensible_labelled) hsensible hpurity hfound
    hdistinct

end

/-! ### Emitted modules -/

section

variable {source : String} {registry : Registry} {target : Target} {budget : Budget} {text : String}
  {p : Program} {m : TypeScript.Module}

/-- A program that is lowered has been read and checked without findings. -/
theorem LowersTo.exists_reading (h : LowersTo source registry budget p m) :
    ∃ (r : Reading) (report : PurityReport), p = (r.labelled registry).program ∧
      (∀ d ∈ r.program.declarations, d.WellRead True) ∧ (r.typed registry).result = .ok [] ∧
        (r.labelled registry).result = .ok report ∧ report.found = [] := by
  obtain ⟨tokens, r, hscan, hr, hfound, htyped, hlabelled, rfl, -⟩ := h
  obtain ⟨r', hr', hread⟩ := Program.read_scanned hscan budget
  obtain rfl := Option.some.inj (hr.symm.trans hr')
  obtain ⟨types, htypes, rfl⟩ := Checked.found_eq_nil htyped
  obtain ⟨report, hreport, hnone⟩ := Checked.found_eq_nil hlabelled
  exact ⟨r, report, rfl, fun d hd => ⟨fun _ => (hread d hd).formed hfound, (hread d hd).body⟩,
    htypes, hreport, hnone⟩

/-- All nodes of a program that is lowered can be read back, where the locals go by identifiers. -/
theorem LowersTo.legible (h : LowersTo source registry budget p m) :
    (∀ f ∈ p.functions, f.Legible) ∧ p.Everywhere (Expr.Legible registry) ∧
      p.Everywhere TypeScript.Lowerable := by
  obtain ⟨r, report, rfl, hread, htypes, hreport, hnone⟩ := h.exists_reading
  have hsame := r.sameBare_typed registry
  have hbare := r.sameBare_labelled registry
  obtain ⟨hreflects, -, -⟩ := Program.checkTypes_accepts htypes
  have hdistinct : ((r.typed registry).program.functions.map fun f => f.name.text).Nodup := by
    have hnames := hreflects.nodup_functionNames
    rwa [Program.readable_eq fun d hd => (hread d hd).readable trivial,
      ← hsame.functionNames] at hnames
  have hlegible : ∀ f ∈ (r.labelled registry).program.functions, f.Legible := by
    intro f hf
    obtain ⟨f₀, hf₀, heq⟩ : ∃ f₀ ∈ r.program.functions, f₀.bare = f.bare :=
      List.mem_map.mp (hbare.functions ▸ List.mem_map_of_mem hf)
    rw [← FunctionDecl.legible_bare, ← heq, FunctionDecl.legible_bare]
    have hformed : f₀.WellFormed := (hread _ (Program.mem_functions.mp hf₀)).formed trivial
    exact hformed.legible
  have hsensible := Program.sensible_labelled htypes hreport hnone hdistinct
  have hlowerable := (lowerable_of_clean hread htypes hreport hnone).2
  refine ⟨hlegible, fun f hf => ?_, fun f hf => ?_⟩
  · have hformed := (hlegible f hf).body
    have hsensible := hsensible f hf
    rw [Stmt.everywhereIn_iff] at hformed hsensible ⊢
    exact fun s hs => ((hformed s hs).and (hsensible s hs)).mono fun e he => ⟨he.1, he.2⟩
  · exact (hlowerable _ (Program.mem_functions.mp hf)).body f rfl

/-- The locals of a program that is lowered go by identifiers, wherever an expression stands. -/
theorem LowersTo.spelled (h : LowersTo source registry budget p m) :
    ∀ site ∈ p.sites registry, site.locals.Spelled := by
  obtain ⟨hfunctions, -, -⟩ := h.legible
  rw [Program.sites, List.forall_mem_flatMap]
  intro f hf
  have hparameters : ∀ q ∈ f.parameters, isWord q.name.toList = true :=
    fun q hq => ((hfunctions f hf).parameters q hq).word
  exact (Stmt.spelled_walkAll_of (fun s _ l hl => Stmt.spelled_walk hl)
    (Locals.spelled_ofFunction _ hparameters).enter fun x hx =>
      ((hfunctions f hf).locals x hx).word).1

/-- The expressions of a program that is lowered and of its module go with each other, and every
expression in one of the program is read back from the text of its term. -/
theorem LowersTo.readsBack (hnamed : registry.Named) (h : LowersTo source registry budget p m) :
    List.Forall₂ (fun s t => lowerExpr registry s.locals s.expr = .ok t ∧
      s.expr.Everywhere (Expr.ReadsBack registry s.locals)) (p.sites registry) m.terms := by
  obtain ⟨-, hlegible, hlowerable⟩ := h.legible
  rw [Program.everywhere_iff_sites registry] at hlegible hlowerable
  have hsites := (List.forall₂_and_left _ _).mpr ⟨fun site hsite => readsBack_everywhere hnamed
    (h.spelled site hsite) (hlegible site hsite) (hlowerable site hsite),
    TypeScript.forall₂_lower h.lower_eq⟩
  exact hsites.imp fun site t ht => ⟨ht.2, ht.1⟩

/-- Every expression of a module says what the one in its place in the program says. -/
theorem LowersTo.says_terms (hnamed : registry.Named) (h : LowersTo source registry budget p m) :
    ∀ t ∈ m.terms, ∃ site ∈ p.sites registry,
      lowerExpr registry site.locals site.expr = .ok t ∧ Says registry site.locals site.expr t := by
  obtain ⟨-, hlegible, -⟩ := h.legible
  rw [Program.everywhere_iff_sites registry] at hlegible
  intro t ht
  obtain ⟨site, hsite, hlower⟩ := exists_of_mem_left (TypeScript.forall₂_lower h.lower_eq).flip t ht
  exact ⟨site, hsite, hlower,
    says_lowerExpr hnamed (h.spelled site hsite) (hlegible site hsite) hlower⟩

/-- Whatever is emitted is the text of a module whose expressions are those of the program, one by
one. Without type arguments, the text of every expression is read back as the expression: an
operator gets the operands that it has in the program, and a call its arguments. By all rules of the
language it is exactly if it is clear. -/
theorem emitted_reads_back_iff (hnamed : registry.Named)
    (h : compile source registry target budget = .ok (.emitted text)) :
    ∃ p m, LowersTo source registry budget p m ∧ m.text target = text ∧
      List.Forall₂ (fun s t => lowerExpr registry s.locals s.expr = .ok t ∧
        s.expr.Everywhere (Expr.ReadsBack registry s.locals)) (p.sites registry) m.terms := by
  obtain ⟨p, m, hlowers, htext⟩ := compile_eq_emitted.mp h
  exact ⟨p, m, hlowers, htext, hlowers.readsBack hnamed⟩

end

/-- A registry with one operation. -/
def fetching : Registry :=
  ⟨[], [], [], [("fetch", ⟨[("xs", .list .number)], some .number⟩)], []⟩

/-- A conversion of operators and prefixes around each other and around a call that is awaited. -/
def conversionOfCall : String :=
  "Define type Count as Number. " ++
    "Define effectful function probe taking x as Number returning Count: " ++
      "Return Count of (- - (x - (1 - 2.5)) * fetch of [x + 1]). End function."

def conversionOfCallEmitted : String :=
  "// Generated by sigil. Do not edit by hand.\n" ++
    "import \x7b fetch \x7d from \"./domain\";\n\n" ++
    "export type Count = number;\n\n" ++
    "export async function probe(x: number): Promise<Count> \x7b\n" ++
    "  return ((-(-(x - (1 - 2.5))) * await fetch([x + 1])) as Count);\n\x7d\n"

theorem compile_conversionOfCall :
    compile conversionOfCall fetching .standard (.start .standard .still) =
      .ok (.emitted conversionOfCallEmitted) := by
  have hrun : ((compile conversionOfCall fetching .standard (.start .standard .still)).toOption.any
      fun outcome => outcome = .emitted conversionOfCallEmitted) = true := by
    have hsource : conversionOfCall = .ofList _ :=
      Token.append_eq_ofList (Token.append_eq_ofList rfl rfl) rfl
    rw [hsource, compile_ofList]
    decide +kernel
  obtain ⟨outcome, houtcome, hemitted⟩ := any_toOption.mp hrun
  rw [houtcome, of_decide_eq_true hemitted]

theorem reads_back_conversionOfCall :
    fetching.Named ∧
      compile conversionOfCall fetching .standard (.start .standard .still) =
        .ok (.emitted conversionOfCallEmitted) ∧
      ∃ p m, LowersTo conversionOfCall fetching (.start .standard .still) p m ∧
        m.text .standard = conversionOfCallEmitted ∧
          List.Forall₂ (fun s t => lowerExpr fetching s.locals s.expr = .ok t ∧
            s.expr.Everywhere (Expr.ReadsBack fetching s.locals)) (p.sites fetching) m.terms := by
  have hnamed : fetching.Named :=
    ⟨by decide, by decide, by decide, by decide, nofun⟩
  exact ⟨hnamed, compile_conversionOfCall, emitted_reads_back_iff hnamed compile_conversionOfCall⟩

/-- Two comparisons as arguments of one call. Their signs enclose what can be types, and a
conversion is in parentheses behind them. -/
def comparedArguments : String :=
  "Define type Score as Number. " ++
    "Define function g taking p as Boolean, q as Boolean returning Boolean: " ++
      "Return p and q. End function. " ++
    "Define function h taking a as Number, b as Number, c as Number, e as Score " ++
      "returning Boolean: Return g of a < b, c > (Number of e). End function."

def comparedArgumentsEmitted : String :=
  "// Generated by sigil. Do not edit by hand.\n\n" ++
    "export type Score = number;\n\n" ++
    "export function g(p: boolean, q: boolean): boolean \x7b\n  return p && q;\n\x7d\n\n" ++
    "export function h(a: number, b: number, c: number, e: Score): boolean \x7b\n" ++
    "  return g(a < b, c > (e as number));\n\x7d\n"

/-- One call with type arguments as the only argument of another one. -/
def genericCall : TypeScript.Tree :=
  .call (.name "g")
    [.call (.instantiated (.name "a") [.named ["b"] [], .named ["c"] []])
      [.cast (.name "e") "number"]]

theorem lowersTo_comparedArguments :
    ∃ p m, LowersTo comparedArguments .empty (.start .standard .still) p m ∧
      m.text .standard = comparedArgumentsEmitted ∧
        ∃ t ∈ m.terms, t.text = "g(a < b, c > (e as number))" := by
  have hrun : ((Token.scan comparedArguments).toOption.any fun tokens =>
      (Program.read tokens (.start .standard .still)).any fun r =>
        r.found.isEmpty && ((r.typed .empty).found .types id).isEmpty &&
          ((r.labelled .empty).found .effects PurityReport.found).isEmpty &&
            (TypeScript.lower (r.labelled .empty).program .empty).toOption.any fun m =>
              m.text .standard = comparedArgumentsEmitted &&
                m.terms.any fun t => t.text = "g(a < b, c > (e as number))") = true := by
    have hsource : comparedArguments = .ofList _ :=
      Token.append_eq_ofList (Token.append_eq_ofList (Token.append_eq_ofList
        (Token.append_eq_ofList rfl rfl) rfl) rfl) rfl
    rw [hsource, Token.scan_ofList]
    decide +kernel
  obtain ⟨tokens, hscan, hrun⟩ := any_toOption.mp hrun
  obtain ⟨r, hread, hrun⟩ := (Option.any_eq_true _ _).mp hrun
  simp only [Bool.and_eq_true, List.isEmpty_iff] at hrun
  obtain ⟨⟨⟨hfound, htyped⟩, hlabelled⟩, hrun⟩ := hrun
  obtain ⟨m, hm, hrun⟩ := any_toOption.mp hrun
  simp only [Bool.and_eq_true, List.any_eq_true, decide_eq_true_eq] at hrun
  exact ⟨_, m, ⟨tokens, r, hscan, hread, hfound, htyped, hlabelled, rfl, hm⟩, hrun⟩

/-- The two comparisons are read as type arguments of one call. -/
theorem not_reads_back_comparedArguments :
    ∃ p m, compile comparedArguments .empty .standard (.start .standard .still) =
        .ok (.emitted (m.text .standard)) ∧
      LowersTo comparedArguments .empty (.start .standard .still) p m ∧
      ∃ s ∈ p.sites .empty, ∃ t, lowerExpr .empty s.locals s.expr = .ok t ∧
        TypeScript.read .full t.text = some genericCall ∧
          s.expr.translation .empty s.locals ≠ genericCall := by
  have hnamed : Registry.empty.Named := ⟨nofun, nofun, nofun, nofun, nofun⟩
  obtain ⟨p, m, hlowers, -, t, ht, htext⟩ := lowersTo_comparedArguments
  obtain ⟨s, hs, hlower, hsaid⟩ := hlowers.says_terms hnamed t ht
  have hread : TypeScript.read .full "g(a < b, c > (e as number))" = some genericCall := by cbv
  refine ⟨p, m, compile_eq_emitted.mpr ⟨p, m, hlowers, rfl⟩, hlowers, s, hs, t, hlower,
    htext ▸ hread, ?_⟩
  -- there are no type arguments in what an expression says
  intro heq
  have hbare := t.bare_tree
  rw [hsaid.tree, heq] at hbare
  exact hbare.2.2.1.2.1.1

end Prosaic
