import Prosaic.Proofs.TypeScript.Checked

/-!
Modules that resolve like their programs. Of a program whose names are as the type check asks, the
module resolves like the program exactly if no rivals meet in it. Whether rivals meet depends on
where they stand; if no two names of a program are rivals at all, none meet.
-/

namespace Prosaic

open TypeScript

/-! ### Functions -/

/-- The names of a function are as the type check asks. -/
structure FunctionDecl.Scoped (callable : Reference → Prop) (f : FunctionDecl) : Prop where
  distinct : (f.parameters.map Typed.name).Nodup
  free : ∀ x ∈ f.parameters.map Typed.name, ∀ r, callable r → r.name ≠ x
  names : f.names.Scoped callable [f.parameters.map Typed.name]

/-- Everything that a function binds is among the names that its lowering takes from the start. -/
theorem mem_boundAll_of {ss : List Stmt}
    (h : ∀ s ∈ ss, ∀ rest : Names Use, ∀ x, x ∈ (s.names rest).bound ++ (s.names rest).boundInside →
      x ∈ bound s ∨ x ∈ rest.bound ++ rest.boundInside) :
    ∀ x ∈ (Stmt.namesAll ss).bound ++ (Stmt.namesAll ss).boundInside, x ∈ boundAll ss := by
  induction ss with
  | nil => exact fun x hx => hx
  | cons s ss ih =>
      obtain ⟨hs, hss⟩ := List.forall_mem_cons.mp h
      intro x hx
      rw [boundAll, List.mem_append]
      exact (hs _ x hx).imp_right (ih hss x)

theorem bound_uses {us : List Use} {rest : Names Use} :
    (Names.uses us rest).bound = rest.bound ∧
      (Names.uses us rest).boundInside = rest.boundInside := by
  induction us with
  | nil => exact ⟨rfl, rfl⟩
  | cons u us ih => exact ih

theorem mem_bound_of {s : Stmt} (rest : Names Use) (x : String)
    (hx : x ∈ (s.names rest).bound ++ (s.names rest).boundInside) :
    x ∈ bound s ∨ x ∈ rest.bound ++ rest.boundInside := by
  induction s generalizing rest x with
  | bind name e span =>
      rw [Stmt.names, bound_uses.1, bound_uses.2] at hx
      simpa [bound, Names.bound, Names.boundInside] using hx
  | branch c t span iht =>
      have ht := mem_boundAll_of iht
      rw [Stmt.names, bound_uses.1, bound_uses.2, Names.bound, Names.boundInside] at hx
      simp only [List.mem_append, bound] at hx ht ⊢
      grind
  | branchOtherwise c t o span iht iho =>
      have ht := mem_boundAll_of iht
      have ho := mem_boundAll_of iho
      rw [Stmt.names, bound_uses.1, bound_uses.2, Names.bound, Names.bound, Names.boundInside,
        Names.boundInside] at hx
      simp only [List.mem_append, bound] at hx ht ho ⊢
      grind
  | forEach item e body span ih =>
      have hbody := mem_boundAll_of ih
      rw [Stmt.names, Names.bound, Names.boundInside, bound_uses.1, bound_uses.2, Names.bound,
        Names.boundInside, Names.bound, Names.boundInside, Names.bound, Names.boundInside] at hx
      simp only [List.mem_append, List.mem_cons, List.not_mem_nil, or_false, bound] at hx hbody ⊢
      grind
  | call f es note span =>
      rw [Stmt.names, bound_uses.1, bound_uses.2] at hx
      exact .inr hx
  | returns value span =>
      cases value with
      | none => exact .inr hx
      | some e =>
          rw [Stmt.names, bound_uses.1, bound_uses.2] at hx
          exact .inr hx
  | expression e span =>
      rw [Stmt.names, bound_uses.1, bound_uses.2] at hx
      exact .inr hx

/-- The identifiers of parameters. -/
theorem find?_parameters (names : List String) (f : FunctionDecl) (x : String) :
    (Locals.ofFunction names f).find? x =
      if x ∈ f.parameters.map Typed.name then some (identifier x) else none := by
  have hparameters : (f.parameters.map fun p => (p.name, identifier p.name)) =
      (f.parameters.map Typed.name).map fun n => (n, identifier n) := by
    rw [List.map_map]
    rfl
  rw [Locals.find?, Locals.ofFunction, List.findSome?_cons, hparameters, lookup_map_self]
  split <;> simp_all

/-- The place behind the parameters of a function, in front of its body. -/
def FunctionDecl.place (f : FunctionDecl) (n : Naming) : Place where
  block := f.parameterBlock
  outer := []
  written := (f.parameters.map Typed.name).map identifier
  scopes := []
  naming := n

theorem around_place (f : FunctionDecl) (n : Naming) :
    (f.place n).around f.names = [(f.parameters.map Typed.name).map identifier] :=
  congrArg (· :: []) (List.append_nil _)

theorem spelling?_parameters (f : FunctionDecl) (x : String) :
    spelling? [f.parameterBlock] [(f.parameters.map Typed.name).map identifier] x =
      if x ∈ f.parameters.map Typed.name then some (identifier x) else none := by
  rw [spelling?, FunctionDecl.parameterBlock]
  by_cases hx : x ∈ f.parameters.map Typed.name
  · have hlt := List.idxOf_lt_length_iff.mpr hx
    rw [if_pos hx, if_pos hx, List.getElem?_map, List.getElem?_eq_getElem hlt, List.getElem_idxOf]
    rfl
  · rw [if_neg hx, if_neg hx]
    rfl

section

variable {callable : Reference → Prop} {values : List Reference} {f : FunctionDecl}
  (hf : f.Scoped callable) (hused : ∀ r ∈ f.names.used.filterMap Use.callee?, r ∈ values)

include hf hused

/-- Behind the parameters the invariant holds, provided that these have the identifiers of their
names, which are different, and that the identifiers of all names in the function are taken. -/
theorem standing_place {n : Naming}
    (hfind : ∀ x, n.find? x =
      if x ∈ f.parameters.map Typed.name then some (identifier x) else none)
    (hparameters : ∀ x ∈ f.parameters.map Typed.name, identifier x ∈ n.taken)
    (hbound : ∀ x ∈ f.names.boundInside, identifier x ∈ n.taken)
    (hapart : ((f.parameters.map Typed.name).map identifier).Nodup) :
    Standing callable n.taken values (f.place n) f.names := by
  have hspelled : List.Forall₂ (SpelledIn n.taken []) (f.parameters.map Typed.name)
      ((f.parameters.map Typed.name).map identifier) := by
    rw [List.forall₂_map_right_iff, List.forall₂_same]
    refine fun x _ => ⟨fun hvisible => ?_, fun _ => rfl⟩
    obtain ⟨b, hb, -⟩ := hvisible
    cases hb
  refine ⟨?_, (List.append_nil _).symm, List.length_map _, fun x => ?_, List.Subset.refl _, hbound,
    fun y hy => ?_, List.forall_mem_cons.mpr ⟨hf.free, List.forall_mem_nil _⟩, hf.names, hused⟩
  · rw [around_place]
    exact .cons .nil List.prefix_rfl hf.distinct hparameters hspelled hapart
  · rw [around_place]
    exact (hfind x).trans (spelling?_parameters f x).symm
  · -- the identifiers of parameters are taken, and whatever the body makes up is bound there once
    have hnot : ((f.parameters.map Typed.name).map identifier).count y = 0 := by
      rw [List.count_eq_zero]
      intro hmem
      obtain ⟨x, hx, rfl⟩ := List.mem_map.mp hmem
      exact hy (hparameters x hx)
    have hnames : ∀ x ∈ f.names.bound ++ f.names.boundInside, identifier x ∈ n.taken := hbound
    obtain ⟨hone, -⟩ := Naming.count_rename (List.Subset.refl n.taken) hnames hy rfl
    rw [around_place, List.flatten_cons, List.flatten_nil, List.append_nil, hnot, Nat.zero_add]
    exact Nat.le_trans (Nat.le_add_left _ _) hone

variable (hvalues : (values.map fun r => identifier r.name).Nodup)

include hvalues

/-- The body of a function resolves like the function exactly if no rivals meet in the function. -/
theorem function_agree_iff {registry : Registry} {names : List String}
    (hcallable : ∀ r, callable r → identifier r.name ∈ names) {cs : List Command} {l : Locals}
    (h : lowerStmts registry (Locals.ofFunction names f).enter f.body = .ok (cs, l)) :
    (((f.parameters.map Typed.name).map identifier).Nodup ∧
      Agree values [f.parameters.map Typed.name] [(f.parameters.map Typed.name).map identifier]
        f.names (.block (Command.namesAll cs) .nil)) ↔ f.Clear := by
  rw [FunctionDecl.Clear, ← nodup_map_identifier hf.distinct]
  refine and_congr_right fun hapart => ?_
  have hcallables : ∀ r, callable r → identifier r.name ∈ (Locals.ofFunction names f).taken :=
    fun r hr => List.mem_append_left _ (List.mem_append_left _ (hcallable r hr))
  have hparameters : ∀ x ∈ f.parameters.map Typed.name,
      identifier x ∈ (Locals.ofFunction names f).taken := by
    intro x hx
    obtain ⟨p, hp, rfl⟩ := List.mem_map.mp hx
    refine List.mem_append_left _ (List.mem_append_right _ ?_)
    rw [List.map_map]
    exact List.mem_map.mpr ⟨p, hp, rfl⟩
  have hbound : ∀ x ∈ f.names.boundInside, identifier x ∈ (Locals.ofFunction names f).taken := by
    intro x hx
    refine List.mem_append_right _ (List.mem_map_of_mem ?_)
    refine mem_boundAll_of (fun s _ => mem_bound_of) x ?_
    simpa [FunctionDecl.names, Names.bound, Names.boundInside] using hx
  have hstanding := standing_place hf hused (n := (Locals.ofFunction names f).naming)
    (find?_parameters names f) hparameters hbound hapart
  have hiff := hstanding.agree_iff hcallables hvalues
  -- the names that the body is written as are those of the commands
  have hwritten := (blockWritten_of (fun s _ => written_lowerStmt) h).rename
  rw [Locals.naming_enter] at hwritten
  have hrename : ((Locals.ofFunction names f).naming.rename f.names).1 =
      .block (Command.namesAll cs) .nil := by
    rw [FunctionDecl.names, Naming.rename_block, hwritten]
    rfl
  rw [around_place] at hiff
  rw [← hrename]
  exact hiff

end

/-! ### Programs -/

/-- What can be called by name: the functions of the program, and the operations and helpers of the
registry. -/
def Program.Calls (p : Program) (registry : Registry) (r : Reference) : Prop :=
  if r.imported then (registry.callable? r.name).isSome = true
  else r.name ∈ p.functions.map fun f => f.name.text

/-- The names of a program are as the type check asks. -/
structure Program.Scoped (p : Program) (registry : Registry) : Prop where
  distinct : (p.functions.map fun f => f.name.text).Nodup
  free : ∀ f ∈ p.functions, registry.callable? f.name.text = none
  functions : ∀ f ∈ p.functions, f.Scoped (p.Calls registry)

theorem Names.Scoped.callees {callable : Reference → Prop} {block : Names Use}
    {seen : List (List String)} (h : block.Scoped callable seen) :
    ∀ r ∈ block.used.filterMap Use.callee?, callable r := by
  induction block generalizing seen with
  | nil => exact List.forall_mem_nil _
  | use u rest ih =>
      cases u with
      | read x => exact ih h.2
      | call r => exact List.forall_mem_cons.mpr ⟨h.1, ih h.2⟩
  | bind x rest ih => exact ih h.2
  | block inner rest ihinner ih =>
      rw [used, List.filterMap_append]
      exact List.forall_mem_append.mpr ⟨ihinner h.1, ih h.2⟩

theorem mem_importedNames {rs : List Reference} {n : String} :
    n ∈ importedNames rs ↔ ⟨n, true⟩ ∈ rs := by
  rw [importedNames, List.mem_mergeSort, List.mem_eraseDups, List.mem_map]
  constructor
  · rintro ⟨⟨name, imported⟩, hr, rfl⟩
    obtain ⟨hr, himported⟩ := List.mem_filter.mp hr
    obtain rfl : imported = true := himported
    exact hr
  · intro hr
    exact ⟨⟨n, true⟩, List.mem_filter.mpr ⟨hr, rfl⟩, rfl⟩

theorem nodup_importedNames (rs : List Reference) : (importedNames rs).Nodup :=
  (List.mergeSort_perm _ _).nodup_iff.mpr (nodup_eraseDups _)

namespace Program.Scoped

variable {p : Program} {registry : Registry} (h : p.Scoped registry)

include h

theorem callees : ∀ r ∈ p.callees, p.Calls registry r := by
  intro r hr
  obtain ⟨f, hf, hr⟩ := List.mem_flatMap.mp hr
  exact (h.functions f hf).names.callees r hr

/-- Everything that a program calls is among its values. -/
theorem mem_values : ∀ r ∈ p.callees, r ∈ p.values := by
  rintro ⟨name, imported⟩ hr
  have hcalls := h.callees _ hr
  cases imported with
  | true =>
      have himported := mem_importedNames.mpr hr
      exact List.mem_append_right _ (List.mem_map_of_mem himported)
  | false =>
      obtain ⟨f, hf, rfl⟩ := List.mem_map.mp hcalls
      exact List.mem_append_left _ (List.mem_map.mpr ⟨f, hf, rfl⟩)

/-- The values of a program have different names, as functions are named differently from everything
in the registry. -/
theorem nodup_values : (p.values.map Reference.name).Nodup := by
  have hfunctions : (p.functions.map fun f => (⟨f.name.text, false⟩ : Reference)).map
      Reference.name = p.functions.map fun f => f.name.text := by
    rw [List.map_map]
    rfl
  have himports : ((importedNames p.callees).map fun n => (⟨n, true⟩ : Reference)).map
      Reference.name = importedNames p.callees := by
    rw [List.map_map]
    exact List.map_id _
  rw [values, List.map_append, hfunctions, himports]
  apply h.distinct.append (nodup_importedNames _)
  intro name hname himported
  obtain ⟨f, hf, rfl⟩ := List.mem_map.mp hname
  have hcalls := h.callees _ (mem_importedNames.mp himported)
  rw [Calls, if_pos rfl, h.free f hf] at hcalls
  cases hcalls

end Program.Scoped

/-- Whatever can be called has its identifier among those of the module. -/
theorem Program.Calls.mem_moduleNames {p : Program} {registry : Registry} {r : Reference}
    (h : p.Calls registry r) : identifier r.name ∈ moduleNames p registry := by
  apply List.mem_map_of_mem
  unfold Calls at h
  split at h
  · rcases Registry.isSome_callable?.mp h with hoperation | hhelper
    · exact List.mem_append_left _ (List.mem_append_right _ hoperation)
    · exact List.mem_append_right _ hhelper
  · exact List.mem_append_left _ (List.mem_append_left _ h)

/-! ### Modules -/

theorem TypeScript.Item.Resolves.nodup_parameters {values : List Reference} {d : Decl} {i : Item}
    (h : Item.Resolves values d i) : i.parameters.Nodup := by
  cases i with
  | function name isAsync parameters returns body =>
      cases d with
      | function f => exact h.1
      | type t => cases h
      | record r => cases h
  | type name body => exact List.nodup_nil
  | interface name fields => exact List.nodup_nil

section

variable {registry : Registry} {names : List String}

/-- What the item of a declaration declares and refers to beside types. -/
structure ItemOf (d : Decl) (i : Item) : Prop where
  function : i.function? = d.function?.map fun f => f.name.text
  callees : i.references.values = (d.function?.map FunctionDecl.names).elim []
    fun ns => ns.used.filterMap Use.callee?

theorem lowerFunction_cases {f : FunctionDecl} {i : Item}
    (h : lowerFunction registry names f = .ok i) :
    ∃ purity parameters returns body l, f.resolved = some purity ∧
      i = .function f.name.text (purity = .effectful) parameters returns body ∧
        parameters.map Prod.fst = (f.parameters.map Typed.name).map identifier ∧
        lowerReturns registry f.returns = .ok returns ∧
        lowerStmts registry (Locals.ofFunction names f).enter f.body = .ok (body, l) := by
  obtain ⟨purity, hresolved, parameters, hparameters, returns, hreturns, body, l, hbody, rfl⟩ :=
    lowerDecl_function.mp h
  refine ⟨purity, parameters, returns, body, l, hresolved, rfl, ?_, hreturns, hbody⟩
  rw [List.map_map]
  exact (map_eq_of_forall₂ (hparameters.imp fun p q hpq => (lowerParameter_eq_ok.mp hpq).2)).symm

theorem itemOf_lowerDecl {d : Decl} {i : Item} (h : lowerDecl registry names d = .ok i) :
    ItemOf d i := by
  cases d with
  | type t =>
      obtain ⟨name, body, span⟩ := t
      cases body with
      | literals values =>
          obtain rfl := lowerDecl_literals.mp h
          exact ⟨rfl, rfl⟩
      | reference ref =>
          obtain ⟨a, -, rfl⟩ := lowerDecl_reference.mp h
          exact ⟨rfl, rfl⟩
  | record d =>
      obtain ⟨fields, -, rfl⟩ := lowerDecl_record.mp h
      exact ⟨rfl, rfl⟩
  | function f =>
      obtain ⟨purity, parameters, returns, body, l, -, rfl, -, -, hbody⟩ := lowerFunction_cases h
      have hwritten := blockWritten_of (fun s _ => written_lowerStmt) hbody
      refine ⟨rfl, ?_⟩
      show (Command.referencesAll body).values = f.names.used.filterMap Use.callee?
      rw [← hwritten.callees, FunctionDecl.names, Names.used, Names.used, List.append_nil]

/-- The item of a declaration resolves like the declaration exactly if no rivals meet in it. -/
theorem item_resolves_iff {callable : Reference → Prop} {values : List Reference}
    (hcallable : ∀ r, callable r → identifier r.name ∈ names)
    (hvalues : (values.map fun r => identifier r.name).Nodup) {d : Decl} {i : Item}
    (hd : ∀ f ∈ d.function?, f.Scoped callable ∧
      ∀ r ∈ f.names.used.filterMap Use.callee?, r ∈ values)
    (h : lowerDecl registry names d = .ok i) :
    Item.Resolves values d i ↔ ∀ f ∈ d.function?, f.Clear := by
  cases d with
  | type t =>
      obtain ⟨name, body, span⟩ := t
      cases body with
      | literals literals =>
          obtain rfl := lowerDecl_literals.mp h
          exact iff_of_true trivial nofun
      | reference ref =>
          obtain ⟨a, -, rfl⟩ := lowerDecl_reference.mp h
          exact iff_of_true trivial nofun
  | record d =>
      obtain ⟨fields, -, rfl⟩ := lowerDecl_record.mp h
      exact iff_of_true trivial nofun
  | function f =>
      obtain ⟨hscoped, hused⟩ := hd f rfl
      obtain ⟨purity, parameters, returns, body, l, -, rfl, hparameters, -, hbody⟩ :=
        lowerFunction_cases h
      rw [Item.Resolves, hparameters, function_agree_iff hscoped hused hvalues hcallable hbody]
      simp [Decl.function?]

end

section

variable {p : Program} {m : Module} (h : List.Forall₂ ItemOf p.declarations m.items)

include h

/-- A lowered program has the same functions. -/
theorem functions_lower :
    m.items.filterMap Item.function? = p.functions.map fun f => f.name.text := by
  rw [Program.functions_eq]
  generalize p.declarations = ds at h ⊢
  generalize m.items = items at h ⊢
  induction h with
  | nil => rfl
  | @cons d i ds items hdi _ ih =>
      rw [List.filterMap_cons, List.filterMap_cons, hdi.function, ih]
      cases d.function? with
      | none => rfl
      | some f => rfl

/-- A lowered program calls the same. -/
theorem callees_lower : m.references.values = p.callees := by
  rw [Program.callees, Program.functions_eq, Module.references]
  generalize p.declarations = ds at h ⊢
  generalize m.items = items at h ⊢
  induction h with
  | nil => rfl
  | @cons d i ds items hdi _ ih =>
      rw [List.filterMap_cons, List.foldr_cons, References.values_append, hdi.callees, ih]
      cases d.function? with
      | none => rfl
      | some f => rfl

/-- A lowered program has the same values. -/
theorem values_lower : m.values = p.values := by
  rw [Module.values, Module.valueImports, functions_lower h, callees_lower h, List.map_map]
  rfl

end

/-- Of a program whose names are as the type check asks, the module resolves like the program
exactly if no rivals meet in the program. -/
theorem resolves_iff {p : Program} {registry : Registry} {m : Module} (h : p.Scoped registry)
    (hlower : lower p registry = .ok m) : m.Resolves p ↔ p.Clear := by
  obtain ⟨items⟩ := m
  have hlowered := lower_eq_ok.mp hlower
  have hvalues := values_lower (m := ⟨items⟩)
    (hlowered.imp fun d i => itemOf_lowerDecl)
  have hnodup : (p.values.map fun r => identifier r.name).Nodup ↔
      (p.values.map Reference.name).Pairwise fun x y => ¬Rivals x y := by
    rw [← nodup_map_identifier h.nodup_values, List.map_map]
    rfl
  rw [Module.Resolves, Program.Clear, hvalues, ← hnodup]
  refine and_congr_right fun hdistinct => ?_
  have hdecls : ∀ d ∈ p.declarations, ∀ f ∈ d.function?, f.Scoped (p.Calls registry) ∧
      ∀ r ∈ f.names.used.filterMap Use.callee?, r ∈ p.values := by
    intro d hd f hf
    have hmem : f ∈ p.functions := List.mem_filterMap.mpr ⟨d, hd, hf⟩
    refine ⟨h.functions f hmem, fun r hr => h.mem_values r ?_⟩
    exact List.mem_flatMap.mpr ⟨f, hmem, hr⟩
  -- each declaration resolves on its own, once the values of the module are apart
  have hiff : List.Forall₂ (fun d i => Item.Resolves p.values d i ↔ ∀ f ∈ d.function?, f.Clear)
      p.declarations items := by
    have hboth := (List.forall₂_and_left _ _).mpr ⟨hdecls, hlowered⟩
    exact hboth.imp fun d i hdi => item_resolves_iff (fun r => Program.Calls.mem_moduleNames)
      hdistinct hdi.1 hdi.2
  rw [Program.functions_eq]
  constructor
  · intro hresolves f hf
    obtain ⟨d, hd, hf⟩ := List.mem_filterMap.mp hf
    have hclear := List.Forall₂.mp (fun d i hdi hres => And.intro (hdi.mp hres) hres) hiff hresolves
    exact ((List.forall₂_and_left _ _).mp hclear).1 d hd f hf
  · intro hclear
    have hboth := (List.forall₂_and_left _ _).mpr ⟨fun d hd => hd, hiff⟩
    refine hboth.imp fun d i hdi => hdi.2.mpr fun f hf => ?_
    exact hclear f (List.mem_filterMap.mpr ⟨d, hdi.1, hf⟩)

/-! ### Programs without rivals -/

open TypeScript (Rivals)

/-! ### Names -/

def Use.name : Use → String
  | read x => x
  | call callee => callee.name

/-- Everything that is used or bound, at whatever depth. -/
def Names.mentioned : Names Use → List String
  | nil => []
  | use u rest => u.name :: rest.mentioned
  | bind x rest => x :: rest.mentioned
  | block inner rest => inner.mentioned ++ rest.mentioned

/-- The names of functions, parameters and locals of a program, and of what it reads and calls. -/
def Program.mentioned (p : Program) : List String :=
  p.functions.flatMap fun f =>
    f.name.text :: (f.parameters.map Typed.name ++ f.names.mentioned)

theorem bound_subset_mentioned (block : Names Use) : block.bound ⊆ block.mentioned := by
  induction block with
  | nil => exact List.Subset.refl _
  | use u rest ih => exact List.subset_cons_of_subset _ ih
  | bind x rest ih => exact List.cons_subset_cons _ ih
  | block inner rest _ ih => exact List.subset_append_of_subset_right _ ih

theorem name_mem_mentioned {block : Names Use} {u : Use} (h : u ∈ block.used) :
    u.name ∈ block.mentioned := by
  induction block with
  | nil => cases h
  | use v rest ih =>
      rcases List.mem_cons.mp h with rfl | h
      · exact List.mem_cons_self
      · exact List.mem_cons_of_mem _ (ih h)
  | bind x rest ih => exact List.mem_cons_of_mem _ (ih h)
  | block inner rest ihinner ih =>
      rcases List.mem_append.mp h with h | h
      · exact List.mem_append_left _ (ihinner h)
      · exact List.mem_append_right _ (ih h)

/-! ### Clear names -/

theorem exists_rival_of_captured {blocks : List BlockNames} {x : String}
    (h : Captured blocks x) : ∃ b ∈ blocks, ∃ y ∈ b.all, Rivals x y := by
  induction blocks with
  | nil => exact h.elim
  | cons b outer ih =>
      obtain ⟨-, ⟨y, hy, -, hrivals⟩ | houter⟩ := h
      · exact ⟨b, List.mem_cons_self, y, hy, hrivals⟩
      · obtain ⟨c, hc, hrival⟩ := ih houter
        exact ⟨c, List.mem_cons_of_mem _ hc, hrival⟩

section

variable {names : List String} (hnames : ∀ x ∈ names, ∀ y ∈ names, ¬Rivals x y)

include hnames

theorem clear_of_mentioned {block : Names Use} {blocks : List BlockNames}
    (hblocks : ∀ b ∈ blocks, b.all ⊆ names) (hblock : block.mentioned ⊆ names) :
    block.Clear blocks := by
  have hfree : ∀ x ∈ names, ∀ blocks : List BlockNames, (∀ b ∈ blocks, b.all ⊆ names) →
      ¬Captured blocks x := by
    intro x hx blocks hblocks hcaptured
    obtain ⟨b, hb, y, hy, hrivals⟩ := exists_rival_of_captured hcaptured
    exact hnames x hx y (hblocks b hb hy) hrivals
  induction block generalizing blocks with
  | nil => trivial
  | use u rest ih =>
      obtain ⟨hu, hrest⟩ := List.cons_subset.mp hblock
      refine ⟨?_, ih hblocks hrest⟩
      cases u with
      | read x => exact .inr (hfree x hu blocks hblocks)
      | call callee => exact hfree callee.name hu blocks hblocks
  | bind x rest ih =>
      obtain ⟨hx, hrest⟩ := List.cons_subset.mp hblock
      refine ih ?_ hrest
      cases blocks with
      | nil => simpa [BlockNames.bindIn] using hx
      | cons b outer => exact List.forall_mem_cons.mpr (List.forall_mem_cons.mp hblocks)
  | block inner rest ihinner ih =>
      obtain ⟨hinner, hrest⟩ := List.append_subset.mp hblock
      have hbound := List.Subset.trans (bound_subset_mentioned inner) hinner
      refine ⟨⟨?_, ihinner (List.forall_mem_cons.mpr ⟨hbound, hblocks⟩) hinner⟩, ih hblocks hrest⟩
      apply List.pairwise_of_forall_mem_list
      exact fun x hx y hy hrivals => absurd hrivals (hnames x (hbound hx) y (hbound hy))

end

/-- A program is clear if no two of its names are rivals. -/
theorem Program.clear_of_no_rivals {p : Program}
    (h : ∀ x ∈ p.mentioned, ∀ y ∈ p.mentioned, ¬Rivals x y) : p.Clear := by
  have hfunction : ∀ f ∈ p.functions,
      f.name.text :: (f.parameters.map Typed.name ++ f.names.mentioned) ⊆ p.mentioned :=
    fun f hf x hx => List.mem_flatMap.mpr ⟨f, hf, hx⟩
  have hvalues : ∀ r ∈ p.values, r.name ∈ p.mentioned := by
    intro r hr
    rcases List.mem_append.mp hr with hr | hr
    · obtain ⟨f, hf, rfl⟩ := List.mem_map.mp hr
      exact hfunction f hf List.mem_cons_self
    · obtain ⟨n, hn, rfl⟩ := List.mem_map.mp hr
      obtain ⟨f, hf, hcallee⟩ := List.mem_flatMap.mp (mem_importedNames.mp hn)
      obtain ⟨u, hu, hcall⟩ := List.mem_filterMap.mp hcallee
      have hname := name_mem_mentioned hu
      cases u with
      | read x => cases hcall
      | call callee =>
          obtain rfl := Option.some.inj hcall
          exact hfunction f hf (List.mem_cons_of_mem _ (List.mem_append_right _ hname))
  refine ⟨?_, fun f hf => ?_⟩
  · rw [List.pairwise_map]
    exact List.pairwise_of_forall_mem_list fun r hr s hs => h _ (hvalues r hr) _ (hvalues s hs)
  · obtain ⟨-, hinside⟩ := List.cons_subset.mp (hfunction f hf)
    obtain ⟨hparameters, hnames⟩ := List.append_subset.mp hinside
    refine ⟨?_, clear_of_mentioned h ?_ hnames⟩
    · exact List.pairwise_of_forall_mem_list fun x hx y hy =>
        h x (hparameters hx) y (hparameters hy)
    · exact List.forall_mem_cons.mpr ⟨hparameters, List.forall_mem_nil _⟩

end Prosaic
