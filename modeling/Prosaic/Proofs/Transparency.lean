import Prosaic.Compilation
import Prosaic.Proofs.Purity.Building
import Prosaic.Proofs.Registry.Reordering
import Prosaic.Proofs.TypeScript.Imports
import Prosaic.Proofs.Typing.Synonyms

/-!
The aliases of a registry are transparent. An alias stands for what its target denotes, all aliases
expanded, so that it and the reference that its target spells are synonymous; and neither a check
nor the emission can tell synonymous references from each other.
-/

namespace Prosaic

section

variable {R : TypeRef → TypeRef → Prop}

/-! ### Purity -/

/-- The purity check does not look at references to types. -/
theorem buildGraph_upTo {c : Callables} {ds es : List Decl} (h : List.Forall₂ (Decl.UpTo R) ds es)
    (seen : List String) (g : CallGraph) (timer : Timer) :
    List.Forall₂ (Decl.UpTo R) (buildGraph c seen ds g timer).decls
        (buildGraph c seen es g timer).decls ∧
      (buildGraph c seen ds g timer).graph = (buildGraph c seen es g timer).graph ∧
      (buildGraph c seen ds g timer).found = (buildGraph c seen es g timer).found ∧
      (buildGraph c seen ds g timer).timer = (buildGraph c seen es g timer).timer := by
  induction h generalizing seen g timer with
  | nil => exact ⟨.nil, rfl, rfl, rfl⟩
  | @cons d e ds es hde hrest ih =>
      cases hde with
      | @function f f' hf =>
          obtain ⟨hparameters, hreturns⟩ := hf
          simp only [buildGraph]
          split
          · obtain ⟨hdecls, hgraph, hfound, htimer⟩ := ih seen g timer
            exact ⟨.cons (.function (.intro hparameters hreturns)) hdecls, hgraph, hfound, htimer⟩
          · split
            · exact ⟨.cons (.function (.intro hparameters hreturns)) hrest, rfl, rfl, rfl⟩
            · obtain ⟨hdecls, hgraph, hfound, htimer⟩ := ih (f.name.text :: seen)
                (c.addCalls f.name.text (Stmt.callsAll f.body) g).1 (timer.check f.span.start)
              exact ⟨.cons (.function (.intro hparameters hreturns)) hdecls, hgraph,
                by rw [hfound], htimer⟩
      | type ht =>
          obtain ⟨hdecls, hgraph, hfound, htimer⟩ := ih seen g timer
          exact ⟨.cons (.type ht) hdecls, hgraph, hfound, htimer⟩
      | record hr =>
          obtain ⟨hdecls, hgraph, hfound, htimer⟩ := ih seen g timer
          exact ⟨.cons (.record hr) hdecls, hgraph, hfound, htimer⟩

theorem violations_upTo {p q : Program} (h : p.UpTo R q) (g : CallGraph) :
    violations g p = violations g q := by
  have hfirsts : ∀ {fs fs' : List FunctionDecl}, List.Forall₂ (FunctionDecl.UpTo R) fs fs' →
      ∀ seen, List.Forall₂ (FunctionDecl.UpTo R) (firstFunctions seen fs)
        (firstFunctions seen fs') := by
    intro fs fs' hfs
    induction hfs with
    | nil => exact fun _ => .nil
    | cons hf _ ih =>
        intro seen
        simp only [firstFunctions, hf.name]
        split
        · exact ih seen
        · exact .cons hf (ih _)
  simp only [violations, foldl_firsts, List.nil_append, List.map_nil]
  have hsame := hfirsts h.functions []
  generalize firstFunctions [] p.functions = fs, firstFunctions [] q.functions = fs' at hsame ⊢
  induction hsame with
  | nil => rfl
  | cons hf _ ih =>
      simp only [List.filter_cons, hf.purity]
      split
      · rw [List.flatMap_cons, List.flatMap_cons, hf.name, ih]
      · exact ih

theorem Program.UpTo.withLabels {p q : Program} (h : p.UpTo R q) :
    p.withLabels.UpTo R q.withLabels := by
  refine ⟨?_, h.span⟩
  refine List.rel_map (fun d e hde => ?_) h.declarations
  cases hde with
  | function hf =>
      obtain ⟨hparameters, hreturns⟩ := hf
      exact .function (.intro hparameters hreturns)
  | type ht => exact .type ht
  | record hr => exact .record hr

/-- Programs that differ in references to types are checked for purity with the same result. -/
theorem Program.UpTo.checkPurity {p q : Program} (h : p.UpTo R q) (registry : Registry)
    (budget : Budget) :
    (p.checkPurity registry budget).program.UpTo R (q.checkPurity registry budget).program ∧
      (p.checkPurity registry budget).result = (q.checkPurity registry budget).result := by
  have hlabels := h.withLabels
  have hcallables : Callables.of registry p.withLabels = Callables.of registry q.withLabels := by
    simp only [Callables.of, hlabels.functionNames, hlabels.typeNames]
  have hnodes : (Callables.of registry p.withLabels).nodes p.withLabels =
      (Callables.of registry q.withLabels).nodes q.withLabels := by
    have hfunctions : (p.withLabels.functions.map fun f =>
        (⟨f.name.text, CallTarget.function.text, f.purity⟩ : CallGraph.Node)) =
          q.withLabels.functions.map fun f => ⟨f.name.text, CallTarget.function.text, f.purity⟩ :=
      map_eq_of_forall₂ (hlabels.functions.imp fun f f' hf => by rw [hf.name, hf.purity])
    simp only [Callables.nodes, hfunctions, hcallables]
  obtain ⟨hdecls, hgraph, hfound, htimer⟩ := buildGraph_upTo
    (c := Callables.of registry q.withLabels) hlabels.declarations []
    ((Callables.of registry q.withLabels).nodes q.withLabels) ⟨budget, none⟩
  rw [hcallables] at hnodes
  simp only [Program.checkPurity, hnodes, hcallables, hgraph, hfound, htimer,
    violations_upTo hlabels, and_true]
  exact ⟨hdecls, hlabels.span⟩

end

/-! ### Emission -/

namespace TypeScript

variable {registry : Registry}

theorem lowerRef_of_denotes {ref : TypeRef} {t : Ty} (h : ref.denote? registry.type? = some t) :
    lowerRef registry ref = .ok (typeExpr registry t) := by
  induction ref generalizing t with
  | named name span =>
      rw [TypeRef.denote?] at h
      split at h
      · cases h
      · next hlist => rw [lowerRef, if_neg hlist, typeOfName, h]
  | list element span ih =>
      obtain ⟨u, hu, rfl⟩ := Option.map_eq_some_iff.mp h
      rw [lowerRef, ih hu]
      rfl

theorem lowerRef_synonymous {a b : TypeRef} (h : registry.Synonymous a b) :
    lowerRef registry a = lowerRef registry b := by
  rcases h with rfl | ⟨t, ha, hb⟩
  · rfl
  · rw [lowerRef_of_denotes ha, lowerRef_of_denotes hb]

theorem lowerFunction_synonymous {f g : FunctionDecl} (h : f.UpTo registry.Synonymous g)
    (names : List String) : lowerFunction registry names f = lowerFunction registry names g := by
  have hparameters : f.parameters.mapM (lowerParameter registry) =
      g.parameters.mapM (lowerParameter registry) :=
    mapM_eq_of_forall₂ (h.parameters.imp fun p q hpq => by
      rw [lowerParameter, lowerParameter, hpq.name, lowerRef_synonymous hpq.ty])
  have hreturns : lowerReturns registry f.returns = lowerReturns registry g.returns := by
    have hreturns := h.returns
    generalize f.returns = a, g.returns = b at hreturns ⊢
    cases hreturns with
    | none => rfl
    | some hab => rw [lowerReturns, lowerReturns, lowerRef_synonymous hab]
  have hlocals : Locals.ofFunction names f = Locals.ofFunction names g := by
    have hnames : (f.parameters.map fun p => (p.name, identifier p.name)) =
        g.parameters.map fun p => (p.name, identifier p.name) :=
      map_eq_of_forall₂ (h.parameters.imp fun p q hpq => by rw [hpq.name])
    simp only [Locals.ofFunction, hnames, h.body]
  obtain ⟨-, -⟩ := h
  rw [lowerFunction, lowerFunction, hparameters, hreturns, hlocals]

theorem lowerDecl_synonymous {d e : Decl} (h : d.UpTo registry.Synonymous e)
    (names : List String) : lowerDecl registry names d = lowerDecl registry names e := by
  cases h with
  | function h => exact lowerFunction_synonymous h names
  | @type t u h =>
      obtain ⟨name, body, span⟩ := t
      obtain ⟨name', body', span'⟩ := u
      obtain ⟨hname, hbody, -⟩ := h
      obtain rfl : name = name' := hname
      have hbody : body.UpTo registry.Synonymous body' := hbody
      cases hbody with
      | reference hab => rw [lowerDecl, lowerDecl, lowerRef_synonymous hab]
      | literals values => rfl
  | record h =>
      have hfields := mapM_eq_of_forall₂ (f := lowerField registry) (g := lowerField registry)
        (h.fields.imp fun a b hab => by
          rw [lowerField, lowerField, hab.name, lowerRef_synonymous hab.ty])
      rw [lowerDecl, lowerDecl, hfields, h.name]

/-- Programs that differ in synonymous references have the same module. -/
theorem lower_synonymous {p q : Program} (h : p.UpTo registry.Synonymous q) :
    lower p registry = lower q registry := by
  have hnames : moduleNames p registry = moduleNames q registry := by
    rw [moduleNames, moduleNames, h.functionNames]
  rw [lower, lower, hnames]
  exact congrArg (· >>= _)
    (mapM_eq_of_forall₂ (h.declarations.imp fun d e hde => lowerDecl_synonymous hde _))

end TypeScript

/-! ### Aliases -/

/-- How many lists a reference puts around its name. -/
def TypeRef.depth : TypeRef → Nat
  | .named .. => 0
  | .list element _ => element.depth + 1

theorem TypeRef.denote?_of_base {named : String → Option Ty} {ref : TypeRef} {u : Ty}
    (hlist : ref.base ≠ "List") (h : named ref.base = some u) :
    ref.denote? named = some (Registry.Expression.wrap ref.depth u) := by
  induction ref with
  | named name span =>
      have hlist : name ≠ "List" := hlist
      rw [denote?, if_neg hlist]
      exact h
  | list element span ih =>
      rw [denote?, ih hlist h]
      rfl

namespace Registry

/-- One reference becomes another one by any number of steps that each replace an alias by what its
target spells, within the lists that stand around the alias. -/
inductive Unfolds (types : Keyed TypeEntry) : TypeRef → TypeRef → Prop
  | refl (a : TypeRef) : Unfolds types a a
  | step {a b c : TypeRef} {target : String} {n : Nat}
      (entry : types.lookup a.base = some (.synonym target))
      (spells : Spells target.toList n b.base) (depth : b.depth = a.depth + n)
      (more : Unfolds types b c) : Unfolds types a c

theorem Expression.wrap_add (m n : Nat) (t : Ty) : wrap (m + n) t = wrap m (wrap n t) := by
  induction m with
  | zero => rw [Nat.zero_add, wrap]
  | succ m ih => rw [Nat.succ_add, wrap, wrap, ih]

variable {e : Entries} {registry : Registry} (hr : registry.Realizes e)
  (hfree : ∀ name ∈ e.types.keys, isBuiltinTypeName name = false)

include hfree in
theorem Denotes.ne_list {name : String} {t : Ty} (h : Denotes e.types name t) : name ≠ "List" := by
  rintro rfl
  rcases h.known with ⟨b, hb⟩ | hentry
  · cases b <;> exact absurd hb (by decide)
  · exact absurd (hfree "List" (isSome_lookup_iff.mp hentry)) (by decide)

include hr hfree

theorem denote?_of_denotes {ref : TypeRef} {u : Ty} (h : Denotes e.types ref.base u) :
    ref.denote? registry.type? = some (Expression.wrap ref.depth u) :=
  TypeRef.denote?_of_base (h.ne_list hfree) ((hr.type?_iff hfree).mpr h)

/-- What an alias is replaced by stands for the same type. -/
theorem Unfolds.synonymous {a b : TypeRef} (h : Unfolds e.types a b) : registry.Synonymous a b := by
  induction h with
  | refl a => exact .inl rfl
  | @step a b c target n entry spells depth _ ih =>
      -- every alias of a registry denotes something, and so does the end of its target
      obtain ⟨t, -, ht⟩ := exists_of_rel (hr.types a.base) entry
      have hsame : ∀ {t}, Denotes e.types a.base t →
          ∃ u, Denotes e.types b.base u ∧ t = Expression.wrap n u := by
        intro t ht
        have hbase := lookup_base hfree
        generalize hname : a.base = name at ht entry
        cases ht with
        | base b =>
            rw [hbase b] at entry
            cases entry
        | record h | domain h => cases entry.symm.trans h
        | synonym h spells' denotes =>
            cases entry.symm.trans h
            obtain ⟨rfl, rfl⟩ := spells.unique spells'
            exact ⟨_, denotes, rfl⟩
      obtain ⟨u, hu, rfl⟩ := hsame ht
      have ha := denote?_of_denotes hr hfree ht
      have hb := denote?_of_denotes hr hfree hu
      rw [depth, Expression.wrap_add] at hb
      rcases ih with rfl | ⟨t, hbt, hct⟩
      · exact .inr ⟨_, ha, hb⟩
      · rw [hb] at hbt
        exact .inr ⟨_, ha, hbt ▸ hct⟩

end Registry

/-- Wherever aliases of a registry are replaced by what they are declared as, in parameters,
results, fields and type declarations, the checks report the same and the same module is emitted. -/
theorem aliases_transparent {doc : Keyed Document} {registry : Registry} {e : Registry.Entries}
    (hread : Registry.readEntries doc = .ok e) (hregistry : Registry.ofDocument doc = .ok registry)
    {p q : Program} (h : p.UpTo (Registry.Unfolds e.types) q) (target : Target) (budget : Budget) :
    (p.checkTypes registry budget).result = (q.checkTypes registry budget).result ∧
      (p.checkPurity registry budget).result = (q.checkPurity registry budget).result ∧
      p.emit registry target = q.emit registry target ∧
      p.compile registry target budget = q.compile registry target budget := by
  obtain ⟨hiff, hrealizes⟩ := Registry.ofDocument_of_read hread
  have hsame : p.UpTo registry.Synonymous q := h.mono fun a b =>
    Registry.Unfolds.synonymous (hrealizes registry hregistry) (hiff.mp ⟨registry, hregistry⟩).free
  have hemit : ∀ {p q : Program}, p.UpTo registry.Synonymous q →
      p.emit registry target = q.emit registry target := fun h => by
    rw [Program.emit, Program.emit, TypeScript.lower_synonymous h]
  obtain ⟨htyped, hbudget, htypes⟩ := hsame.checkTypes budget
  obtain ⟨hlabelled, hpurity⟩ := htyped.checkPurity registry (q.checkTypes registry budget).budget
  refine ⟨htypes, (hsame.checkPurity registry budget).2, hemit hsame, ?_⟩
  simp only [Program.compile, Checked.found, htypes, hbudget, hpurity, hemit hlabelled]

/-- A domain type, an alias of lists of it, and an alias of lists of these. -/
def ledgers : Keyed Document :=
  let synonym (target : String) : Document :=
    .table [("kind", .string "alias"), ("target", .string target)]
  let domain : Document := .table [("kind", .string "domain"), ("underlying", .string "Number")]
  [("types", .table [("Batch", synonym "List of Sums"), ("Sums", synonym "List of Money"),
    ("Money", domain)])]

/-- A program that refers to types in every place where it can. -/
def ledger (entries total parameter result : TypeRef) : Program :=
  let body : List Stmt := [.return (some (.variable "batch" ⟨default, none⟩)) default]
  ⟨[.record ⟨"Ledger", [⟨"entries", entries, default⟩], default⟩,
    .type ⟨"Total", .reference total, default⟩,
    .function ⟨⟨"same", default⟩, [⟨"batch", parameter, default⟩], some result, .pure, body,
      some default, default, none⟩], default⟩

/-- Aliases that are replaced by their targets, once or all the way. -/
theorem aliases_transparent_ledger :
    let batch : TypeRef := .named "Batch" default
    let sums : TypeRef := .named "Sums" default
    let money : TypeRef := .list (.named "Money" default) default
    let p := ledger batch sums batch batch
    let q := ledger (.list money default) money (.list sums default) (.list money default)
    ∃ e registry, Registry.readEntries ledgers = .ok e ∧
      Registry.ofDocument ledgers = .ok registry ∧
      p.UpTo (Registry.Unfolds e.types) q ∧
      (∃ text, p.compile registry .standard (.start .standard .still) = .ok (.emitted text)) ∧
      (p.checkTypes registry (.start .standard .still)).result =
        (q.checkTypes registry (.start .standard .still)).result ∧
      (p.checkPurity registry (.start .standard .still)).result =
        (q.checkPurity registry (.start .standard .still)).result ∧
      p.emit registry .standard = q.emit registry .standard ∧
      p.compile registry .standard (.start .standard .still) =
        q.compile registry .standard (.start .standard .still) := by
  intro batch sums money p q
  have hread : ((Registry.readEntries ledgers).toOption.any fun e =>
      e.types.lookup "Batch" = some (.synonym "List of Sums") &&
        e.types.lookup "Sums" = some (.synonym "List of Money")) = true := by
    decide +kernel
  have hrun : ((Registry.ofDocument ledgers).toOption.any fun registry =>
      (p.compile registry .standard (.start .standard .still)).toOption.any
        Outcome.isEmitted) = true := by
    decide +kernel
  obtain ⟨e, he, hentries⟩ := any_toOption.mp hread
  obtain ⟨registry, hregistry, hrun⟩ := any_toOption.mp hrun
  obtain ⟨outcome, houtcome, hemitted⟩ := any_toOption.mp hrun
  simp only [Bool.and_eq_true, decide_eq_true_eq] at hentries
  obtain ⟨hbatch, hsums⟩ := hentries
  have hofMoney : Registry.Spells "List of Money".toList 1 "Money" :=
    Registry.spells_iff.mpr (by decide +kernel)
  have hofSums : Registry.Spells "List of Sums".toList 1 "Sums" :=
    Registry.spells_iff.mpr (by decide +kernel)
  have honce : Registry.Unfolds e.types batch (.list sums default) :=
    .step hbatch hofSums rfl (.refl _)
  have hsumsOnce : Registry.Unfolds e.types sums money := .step hsums hofMoney rfl (.refl _)
  have hall : Registry.Unfolds e.types batch (.list money default) :=
    .step (b := .list sums default) hbatch hofSums rfl (.step hsums hofMoney rfl (.refl _))
  have hpq : p.UpTo (Registry.Unfolds e.types) q := by
    refine ⟨.cons (.record ⟨rfl, .cons ⟨rfl, hall, rfl⟩ .nil, rfl⟩)
      (.cons (.type ⟨rfl, .reference hsumsOnce, rfl⟩)
        (.cons (.function (.intro (.cons ⟨rfl, honce, rfl⟩ .nil) (.some hall))) .nil)), rfl⟩
  have htext : ∃ text, outcome = .emitted text := by
    cases outcome with
    | emitted text => exact ⟨text, rfl⟩
    | rejected found => cases hemitted
  obtain ⟨text, rfl⟩ := htext
  exact ⟨e, registry, he, hregistry, hpq, ⟨text, houtcome⟩,
    aliases_transparent he hregistry hpq .standard (.start .standard .still)⟩

end Prosaic
