import Prosaic.Proofs.Gating
import Prosaic.Proofs.Purity.Extension
import Prosaic.Proofs.Typing.Extension

/-!
Compilations against a registry that extends another one. The names that are added do not occur in
the program, so no phase asks for them but to propose one in a hint: the outcomes are both modules,
or the same findings up to hints.
-/

namespace Prosaic

/-! ### Findings -/

/-- Repetitions are told without the hints. -/
theorem Findings.add_congr {f g : Findings} (h : SameFound f.entries g.entries) {d e : Diagnostic}
    (hde : d.hintless = e.hintless) : SameFound (f.add d).entries (g.add e).entries := by
  have hany : ∀ (ds : List Diagnostic) (d : Diagnostic),
      ds.any d.repeats = (ds.map Diagnostic.hintless).any d.hintless.repeats := by
    intro ds d
    rw [List.any_map]
    rfl
  have hrepeats : f.entries.any d.repeats = g.entries.any e.repeats := by
    rw [hany, hany g.entries, hde]
    exact congrArg (List.any · _) h
  unfold add
  rw [hrepeats]
  split
  · exact h
  · exact h.append (.cons hde rfl)

theorem Findings.extend_congr {f g : Findings} (h : SameFound f.entries g.entries)
    {ds es : List Diagnostic} (hds : SameFound ds es) :
    SameFound (f.extend ds).entries (g.extend es).entries := by
  induction ds generalizing f g es with
  | nil =>
      rw [List.map_eq_nil_iff.mp hds.symm]
      exact h
  | cons d ds ih =>
      obtain ⟨e, es, rfl, hde, hds⟩ := List.map_eq_cons_iff.mp hds.symm
      exact ih (Findings.add_congr h hde.symm) hds.symm

/-- What is the same up to hints is reported so, in the same order. -/
theorem SameFound.sorted {ds es : List Diagnostic} (h : SameFound ds es) :
    SameFound (Findings.ofList ds).sorted (Findings.ofList es).sorted := by
  have hentries : SameFound (Findings.ofList ds).entries (Findings.ofList es).entries :=
    Findings.extend_congr rfl h
  have hsort : ∀ f : Findings, f.sorted.map Diagnostic.hintless =
      (f.entries.map Diagnostic.hintless).mergeSort Diagnostic.precedes :=
    fun f => List.map_mergeSort fun _ _ _ _ => rfl
  exact ((hsort _).trans (congrArg (List.mergeSort · _) hentries)).trans (hsort _).symm

/-- Checks that exceed the same limit, or find the same up to hints, report the same up to hints. -/
theorem Checked.found_congr {α : Type} {c c' : Checked α} (phase : Phase)
    {findings : α → List Diagnostic}
    (h : (∃ e, c.result = .error e ∧ c'.result = .error e) ∨
      ∃ a b, c.result = .ok a ∧ c'.result = .ok b ∧ SameFound (findings a) (findings b)) :
    SameFound (c.found phase findings) (c'.found phase findings) := by
  rw [found, found]
  obtain ⟨e, he, he'⟩ | ⟨a, b, ha, hb, hab⟩ := h
  · rw [he, he']
    exact .refl _
  · rw [ha, hb]
    exact hab

/-! ### Programs with other notes -/

section

variable {occurs : String → Prop} {p q : Program}

/-- Notes do not call anything. -/
theorem Program.SameBare.callees (h : q.SameBare p) (hp : p.Within occurs) :
    ∀ f ∈ q.functions, ∀ site ∈ Stmt.callsAll f.body, occurs site.callee.text := by
  intro f hf site hsite
  obtain ⟨d, hd, heq⟩ : ∃ d ∈ p.declarations, d.bare = (Decl.function f).bare :=
    List.mem_map.mp (h ▸ List.mem_map_of_mem (Program.mem_functions.mp hf))
  have hcalls : ∀ g ∈ d.function?, Stmt.EverywhereIn (Expr.CallsWithin occurs) g.body :=
    fun g hg => Stmt.everywhereIn_iff.mpr fun s hs =>
      (hp.bodies g (List.mem_filterMap.mpr ⟨d, hd, hg⟩) s hs).calls
  have hbare : ∀ e : Expr, e.bare.CallsWithin occurs ↔ e.CallsWithin occurs := fun e => by
    cases e <;> rfl
  obtain ⟨args, hcall⟩ := (everywhere_of_bare_eq hbare heq.symm hcalls f rfl).at_call site hsite
  exact hcall

theorem Program.SameBare.functions_occur (h : q.SameBare p) (hp : p.Within occurs) :
    ∀ f ∈ q.functions, occurs f.name.text := by
  intro f hf
  have hmem : f.name.text ∈ p.functions.map fun f => f.name.text :=
    h.functionNames ▸ List.mem_map_of_mem hf
  obtain ⟨g, hg, hname⟩ := List.mem_map.mp hmem
  exact hname ▸ hp.declared _ (Program.mem_functions.mp hg)

end

/-! ### Phases -/

section

variable {r : Reading} {registry registry' : Registry}
  (h : registry.ExtendedBy (· ∈ r.program.mentions) registry') (hclosed : registry.Closed)

include h hclosed

/-- The type check finds the same up to hints, and if it finds nothing it leaves the same to the
purity check. -/
theorem Reading.typed_extended :
    SameFound ((r.typed registry).found .types id) ((r.typed registry').found .types id) ∧
      ((r.typed registry).found .types id = [] →
        (r.typed registry).program = (r.typed registry').program ∧
          (r.typed registry).budget = (r.typed registry').budget) := by
  obtain ⟨hbudget, ⟨e, he, he'⟩ | ⟨found, found', hok, hok', hfound, hprogram⟩⟩ :=
    Program.checkTypes_extended h hclosed r.program.within_mentions r.budget
  · refine ⟨Checked.found_congr .types (.inl ⟨e, he, he'⟩), fun hnone => ?_⟩
    obtain ⟨types, htypes, -⟩ := Checked.found_eq_nil hnone
    cases htypes.symm.trans he
  · exact ⟨Checked.found_congr .types (.inr ⟨found, found', hok, hok', hfound⟩),
      fun _ => ⟨hprogram, hbudget⟩⟩

/-- Behind a type check that finds nothing, the purity check finds the same up to hints. -/
theorem Reading.labelled_extended (hdistinct : (registry.types.map Prod.fst).Nodup)
    (hdistinct' : (registry'.types.map Prod.fst).Nodup)
    (hnone : (r.typed registry).found .types id = []) :
    SameFound ((r.labelled registry).found .effects PurityReport.found)
      ((r.labelled registry').found .effects PurityReport.found) := by
  obtain ⟨hprogram, hbudget⟩ := (r.typed_extended h hclosed).2 hnone
  have hsame := r.sameBare_typed registry
  have hwithin := r.program.within_mentions
  rw [labelled, labelled, ← hprogram, ← hbudget]
  exact Checked.found_congr .effects (Program.checkPurity_extended h hclosed hdistinct hdistinct'
    (hsame.functions_occur hwithin) (hsame.callees hwithin) _)

end

/-! ### Compilations -/

/-- Two outcomes that are both modules, or the same findings up to hints. -/
inductive Outcome.Alike : Outcome → Outcome → Prop
  | emitted (text text' : String) : Alike (.emitted text) (.emitted text')
  | rejected {ds es : List Diagnostic} (h : SameFound ds es) : Alike (.rejected ds) (.rejected es)

/-- Two compilations with outcomes that are alike. -/
def SettlesAlike (result result' : Except TypeScript.Defect Outcome) : Prop :=
  ∃ o o', result = .ok o ∧ result' = .ok o' ∧ o.Alike o'

theorem settlesAlike_ofFound {ds es : List Diagnostic} (h : SameFound ds es) :
    SettlesAlike (.ok (.ofFound ds)) (.ok (.ofFound es)) :=
  ⟨_, _, rfl, rfl, .rejected h.sorted⟩

/-- A phase that finds the same up to hints goes on or ends alike. -/
theorem settlesAlike_unlessFound {ds es : List Diagnostic}
    {next next' : Except TypeScript.Defect Outcome} (h : SameFound ds es)
    (hnext : ds = [] → es = [] → SettlesAlike next next') :
    SettlesAlike (unlessFound ds next) (unlessFound es next') := by
  by_cases hds : ds = []
  · have hes := h.eq_nil_iff.mp hds
    subst hds hes
    exact hnext rfl rfl
  · have hes := mt h.eq_nil_iff.mpr hds
    rw [unlessFound, unlessFound, if_neg (mt List.isEmpty_iff.mp hds),
      if_neg (mt List.isEmpty_iff.mp hes)]
    exact settlesAlike_ofFound h

/-- A registry from a document compiles a text like one from a document that extends it by types,
operations and helpers whose names do not occur in the program: to a module or not, and if not, with
the same findings up to hints. -/
theorem extension_inert {doc doc' : Keyed Document} {registry registry' : Registry}
    (hdoc : Registry.ofDocument doc = .ok registry)
    (hdoc' : Registry.ofDocument doc' = .ok registry') {source : String} {budget : Budget}
    (hextended : ∀ r, reading? source budget = some r → r.found = [] →
      registry.ExtendedBy (· ∈ r.program.mentions) registry') (target : Target) :
    SettlesAlike (compile source registry target budget)
      (compile source registry' target budget) := by
  unfold compile
  cases hscan : Token.scan source with
  | error e => exact settlesAlike_ofFound (.refl _)
  | ok tokens =>
      obtain ⟨r, hr, hsound⟩ := read_sound hscan registry target budget
      obtain ⟨_, hr', hsound'⟩ := read_sound hscan registry' target budget
      obtain rfl := Option.some.inj (hr.symm.trans hr')
      have hreading : reading? source budget = some r := by rw [reading?, hscan]; exact hr
      have hclosed := Registry.ofDocument_closed hdoc
      simp only [hr]
      refine settlesAlike_unlessFound (.refl _) fun hfound _ => ?_
      have hext := hextended r hreading hfound
      refine settlesAlike_unlessFound (Reading.typed_extended hext hclosed).1 fun hnone hnone' => ?_
      refine settlesAlike_unlessFound (Reading.labelled_extended hext hclosed
        (Registry.nodup_ofDocument hdoc) (Registry.nodup_ofDocument hdoc') hnone)
        fun hclean hclean' => ?_
      obtain ⟨-, text, htext⟩ := hsound.emits hfound hnone hclean
      obtain ⟨-, text', htext'⟩ := hsound'.emits hfound hnone' hclean'
      exact ⟨_, _, by rw [← Reading.typed, ← Reading.labelled, htext]; rfl,
        by rw [← Reading.typed, ← Reading.labelled, htext']; rfl, .emitted text text'⟩

/-- An operation, a helper and a record are added. A program that does not mention them is accepted
as before, and one that misspells the operation is rejected as before, with another hint. -/
theorem extension_inert_stores :
    let amount : Document := .table [("kind", .string "domain"), ("underlying", .string "Number")]
    let invoice : Document := .table [("kind", .string "record"),
      ("fields", .table [("total", .string "Amount")])]
    let send : Document := .table [("parameters", .array
      [.table [("name", .string "amount"), ("type", .string "Amount")]])]
    let doc : Keyed Document := [("types", .table [("Amount", amount)]),
      ("operations", .table [("send", send)])]
    let doc' : Keyed Document := [("types", .table [("Amount", amount), ("Invoice", invoice)]),
      ("operations", .table [("send", send), ("stores", .table [])]),
      ("helpers", .table [("tax", .table [("returns", .string "Amount")])])]
    let paying := "Define effectful function pay taking total as Number: " ++
      "Call send with Amount of total. End function."
    let misspelt := "Define effectful function pay: Call store. End function."
    let budget := Budget.start .standard .still
    ∃ registry registry', Registry.ofDocument doc = .ok registry ∧
      Registry.ofDocument doc' = .ok registry' ∧
        (∃ text, compile paying registry' .standard budget = .ok (.emitted text)) ∧
          SettlesAlike (compile misspelt registry .standard budget)
            (compile misspelt registry' .standard budget) ∧
              compile misspelt registry .standard budget ≠
                compile misspelt registry' .standard budget := by
  intro amount invoice send doc doc' paying misspelt budget
  let e : Registry.Entries := ⟨[("Amount", .domain (some "Number") [])],
    [("send", ⟨[⟨"amount", "Amount"⟩], none⟩)], []⟩
  let more : Registry.Entries := ⟨[("Invoice", .record [("total", "Amount")])],
    [("stores", ⟨[], none⟩)], [("tax", ⟨[], some "Amount"⟩)]⟩
  have hread : ((Registry.readEntries doc).toOption.any fun read =>
      (Registry.readEntries doc').toOption.any fun read' =>
        read = e ∧ read' = ⟨e.types ++ more.types, e.operations ++ more.operations,
          e.helpers ++ more.helpers⟩) = true := by decide +kernel
  have hnew : ([paying, misspelt].all fun source => (reading? source budget).all fun r =>
      ["Invoice", "stores", "tax"].all fun n => n ∉ r.program.mentions) = true := by decide +kernel
  have hruns : ((Registry.ofDocument doc).toOption.any fun registry =>
      (Registry.ofDocument doc').toOption.any fun registry' =>
        (compile paying registry .standard budget).toOption.any Outcome.isEmitted &&
          (compile misspelt registry .standard budget).toOption !=
            (compile misspelt registry' .standard budget).toOption) = true := by decide +kernel
  obtain ⟨_, hread, hread'⟩ := any_toOption.mp hread
  obtain ⟨_, hread', heq⟩ := any_toOption.mp hread'
  obtain ⟨rfl, rfl⟩ := of_decide_eq_true heq
  obtain ⟨registry, hdoc, hdoc'⟩ := any_toOption.mp hruns
  obtain ⟨registry', hdoc', hruns⟩ := any_toOption.mp hdoc'
  obtain ⟨hpaying, hdiffer⟩ := Bool.and_eq_true_iff.mp hruns
  have hextended : ∀ source ∈ [paying, misspelt], ∀ r, reading? source budget = some r →
      r.found = [] → registry.ExtendedBy (· ∈ r.program.mentions) registry' := by
    intro source hsource r hr _
    have hfresh := List.all_eq_true.mp hnew source hsource
    simp only [hr, Option.all_some, List.all_cons, List.all_nil, Bool.and_true, Bool.and_eq_true,
      decide_eq_true_eq] at hfresh
    obtain ⟨hinvoice, hstores, htax⟩ := hfresh
    exact Registry.ofDocument_extended hread hread' (Registry.Entries.extendedBy_append
      (List.forall_mem_singleton.mpr ⟨hinvoice, by decide⟩)
      (List.forall_mem_singleton.mpr ⟨hstores, by decide⟩)
      (List.forall_mem_singleton.mpr ⟨htax, by decide⟩)) hdoc hdoc'
  refine ⟨registry, registry', hdoc, hdoc', ?_, ?_, ?_⟩
  · obtain ⟨o, o', ho, ho', halike⟩ :=
      extension_inert hdoc hdoc' (hextended paying (by simp)) .standard
    rw [ho] at hpaying
    cases halike with
    | emitted text text' => exact ⟨text', ho'⟩
    | rejected => cases hpaying
  · exact extension_inert hdoc hdoc' (hextended misspelt (by simp)) .standard
  · intro hsame
    rw [hsame] at hdiffer
    exact absurd hdiffer (by simp)

end Prosaic
