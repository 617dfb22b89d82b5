import Prosaic.Proofs.Program.Bare
import Prosaic.Proofs.Program.Names
import Prosaic.Proofs.Purity.Building

/-!
The labels that the purity check writes into a tree: it changes nothing else, and where it finds
nothing it leaves no call without a label.
-/

namespace Prosaic

/-! ### The calls of a tree -/

section

variable {P : Expr → Prop}

/-- Every call of an expression stands at a node of it. -/
theorem Expr.Everywhere.at_call {e : Expr} (h : e.Everywhere P) :
    ∀ site ∈ e.calls, ∃ args, P (.call site.callee args site.note) := by
  have hmembers : ∀ es : List Expr, (∀ e ∈ es, e.Everywhere P →
      ∀ site ∈ e.calls, ∃ args, P (.call site.callee args site.note)) → EverywhereIn P es →
      ∀ site ∈ callsAll es, ∃ args, P (.call site.callee args site.note) := by
    intro es ih hes site hsite
    rw [callsAll_eq, List.mem_flatMap] at hsite
    obtain ⟨e, he, hsite⟩ := hsite
    exact ih e he (everywhereIn_iff.mp hes e he) site hsite
  induction e with
  | literal | var => exact List.forall_mem_nil _
  | list es note ih => exact hmembers es ih h.2
  | unary op e note ih | field e name note ih => exact ih h.2
  | binary op l r note ihl ihr => exact List.forall_mem_append.mpr ⟨ihl h.2.1, ihr h.2.2⟩
  | call f es note ih => exact List.forall_mem_cons.mpr ⟨⟨es, h.1⟩, hmembers es ih h.2⟩

theorem Stmt.EverywhereIn.at_call {ss : List Stmt} (h : EverywhereIn P ss) :
    ∀ site ∈ callsAll ss, ∃ args, P (.call site.callee args site.note) := by
  have hblock : ∀ ss : List Stmt, (∀ s ∈ ss, s.Everywhere P →
      ∀ site ∈ s.calls, ∃ args, P (.call site.callee args site.note)) → EverywhereIn P ss →
      ∀ site ∈ callsAll ss, ∃ args, P (.call site.callee args site.note) := by
    intro ss ih hss site hsite
    rw [callsAll_eq, List.mem_flatMap] at hsite
    obtain ⟨s, hs, hsite⟩ := hsite
    exact ih s hs (everywhereIn_iff.mp hss s hs) site hsite
  refine hblock ss (fun s hs => ?_) h
  clear hs
  induction s with
  | bind name e span => exact Expr.Everywhere.at_call
  | branch c t span iht =>
      exact fun hs => List.forall_mem_append.mpr ⟨hs.1.at_call, hblock t iht hs.2⟩
  | branchOtherwise c t o span iht iho =>
      exact fun hs => List.forall_mem_append.mpr
        ⟨List.forall_mem_append.mpr ⟨hs.1.at_call, hblock t iht hs.2.1⟩, hblock o iho hs.2.2⟩
  | forEach item e body span ih =>
      exact fun hs => List.forall_mem_append.mpr ⟨hs.1.at_call, hblock body ih hs.2⟩
  | call f es note span => exact Expr.Everywhere.at_call
  | returns value span =>
      cases value with
      | none => exact fun _ => List.forall_mem_nil _
      | some e => exact Expr.Everywhere.at_call
  | expression e span => exact Expr.Everywhere.at_call

end

/-! ### Labelling a tree -/

section

variable (label : String → Option Purity)

@[simp] theorem Expr.labelledAll_eq (es : List Expr) :
    Expr.labelledAll label es = es.map (Expr.labelled label) := by
  induction es with
  | nil => rfl
  | cons e es ih => rw [Expr.labelledAll, ih, List.map_cons]

@[simp] theorem Stmt.labelledAll_eq (ss : List Stmt) :
    Stmt.labelledAll label ss = ss.map (Stmt.labelled label) := by
  induction ss with
  | nil => rfl
  | cons s ss ih => rw [Stmt.labelledAll, ih, List.map_cons]

theorem Expr.map_bare_labelled {es : List Expr} (h : ∀ e ∈ es, (e.labelled label).bare = e.bare) :
    (es.map (Expr.labelled label)).map Expr.bare = es.map Expr.bare := by
  rw [List.map_map]
  exact List.map_congr_left h

theorem Expr.bare_labelled (e : Expr) : (e.labelled label).bare = e.bare := by
  induction e with
  | literal | var => rfl
  | list es note ih =>
      simp only [Expr.labelled, Expr.bare, labelledAll_eq, bareAll_eq, map_bare_labelled label ih]
  | call f es note ih =>
      simp only [Expr.labelled, Expr.bare, labelledAll_eq, bareAll_eq, map_bare_labelled label ih,
        relabel]
  | unary op e note ih | field e name note ih => simp only [Expr.labelled, Expr.bare, ih]
  | binary op l r note ihl ihr => simp only [Expr.labelled, Expr.bare, ihl, ihr]

theorem Stmt.map_bare_labelled {ss : List Stmt} (h : ∀ s ∈ ss, (s.labelled label).bare = s.bare) :
    (ss.map (Stmt.labelled label)).map Stmt.bare = ss.map Stmt.bare := by
  rw [List.map_map]
  exact List.map_congr_left h

theorem Stmt.bare_labelled (s : Stmt) : (s.labelled label).bare = s.bare := by
  induction s with
  | bind name e span => simp only [Stmt.labelled, Stmt.bare, Expr.bare_labelled]
  | branch c t span iht =>
      simp only [Stmt.labelled, Stmt.bare, Expr.bare_labelled, labelledAll_eq, bareAll_eq,
        map_bare_labelled label iht]
  | branchOtherwise c t o span iht iho =>
      simp only [Stmt.labelled, Stmt.bare, Expr.bare_labelled, labelledAll_eq, bareAll_eq,
        map_bare_labelled label iht, map_bare_labelled label iho]
  | forEach item e body span ih =>
      simp only [Stmt.labelled, Stmt.bare, Expr.bare_labelled, labelledAll_eq, bareAll_eq,
        map_bare_labelled label ih]
  | call f es note span =>
      simp only [Stmt.labelled, Stmt.bare, relabel, Expr.labelledAll_eq, Expr.bareAll_eq,
        Expr.map_bare_labelled label fun e _ => Expr.bare_labelled label e]
  | returns value span =>
      cases value with
      | none => rfl
      | some e => simp only [Stmt.labelled, Stmt.bare, Expr.bare_labelled]
  | expression e span => simp only [Stmt.labelled, Stmt.bare, Expr.bare_labelled]

/-- A call with the label of its name. -/
def CallSite.labelled (site : CallSite) : CallSite :=
  ⟨site.callee, relabel label site.callee site.note⟩

theorem Expr.flatMap_calls_labelled {es : List Expr}
    (h : ∀ e ∈ es, (e.labelled label).calls = e.calls.map (CallSite.labelled label)) :
    (es.map (Expr.labelled label)).flatMap Expr.calls =
      (es.flatMap Expr.calls).map (CallSite.labelled label) := by
  rw [List.flatMap_map, List.map_flatMap]
  exact List.flatMap_congr h

theorem Expr.calls_labelled (e : Expr) :
    (e.labelled label).calls = e.calls.map (CallSite.labelled label) := by
  induction e with
  | literal | var => rfl
  | list es note ih =>
      simp only [Expr.labelled, Expr.calls, labelledAll_eq, callsAll_eq,
        flatMap_calls_labelled label ih]
  | call f es note ih =>
      simp only [Expr.labelled, Expr.calls, labelledAll_eq, callsAll_eq,
        flatMap_calls_labelled label ih, List.map_cons, CallSite.labelled]
  | unary op e note ih | field e name note ih => simp only [Expr.labelled, Expr.calls, ih]
  | binary op l r note ihl ihr => simp only [Expr.labelled, Expr.calls, ihl, ihr, List.map_append]

theorem Stmt.callsAll_labelledAll (ss : List Stmt) :
    callsAll (labelledAll label ss) = (callsAll ss).map (CallSite.labelled label) := by
  have hblock : ∀ ss : List Stmt,
      (∀ s ∈ ss, (s.labelled label).calls = s.calls.map (CallSite.labelled label)) →
      callsAll (labelledAll label ss) = (callsAll ss).map (CallSite.labelled label) := by
    intro ss h
    rw [labelledAll_eq, callsAll_eq, callsAll_eq, List.flatMap_map, List.map_flatMap]
    exact List.flatMap_congr h
  refine hblock ss fun s hs => ?_
  clear hs
  induction s with
  | bind name e span => exact Expr.calls_labelled label e
  | branch c t span iht =>
      simp only [labelled, calls, Expr.calls_labelled, hblock t iht, List.map_append]
  | branchOtherwise c t o span iht iho =>
      simp only [labelled, calls, Expr.calls_labelled, hblock t iht, hblock o iho, List.map_append]
  | forEach item e body span ih =>
      simp only [labelled, calls, Expr.calls_labelled, hblock body ih, List.map_append]
  | call f es note span =>
      simp only [labelled, calls, Expr.labelledAll_eq, Expr.callsAll_eq,
        Expr.flatMap_calls_labelled label fun e _ => Expr.calls_labelled label e, List.map_cons,
        CallSite.labelled]
  | returns value span =>
      cases value with
      | none => rfl
      | some e => exact Expr.calls_labelled label e
  | expression e span => exact Expr.calls_labelled label e

end

/-! ### Properties of labelled trees -/

section

variable {label : String → Option Purity} {P Q : Expr → Prop}

/-- A property that labelling establishes at every node whose calls have labels holds everywhere in
a tree whose calls have labels. -/
theorem Expr.everywhere_labelled
    (hPQ : ∀ e, P e → (∀ site ∈ e.calls, (label site.callee.text).isSome = true) →
      Q (e.labelled label)) {e : Expr} (h : e.Everywhere P)
    (hcalls : ∀ site ∈ e.calls, (label site.callee.text).isSome = true) :
    (e.labelled label).Everywhere Q := by
  induction e with
  | literal | var => exact hPQ _ h hcalls
  | list es note ih =>
      refine ⟨hPQ _ h.1 hcalls, ?_⟩
      simp only [labelledAll_eq, everywhereIn_iff, List.forall_mem_map]
      intro e he
      refine ih e he (everywhereIn_iff.mp h.2 e he) fun site hsite => hcalls site ?_
      rw [Expr.calls, callsAll_eq]
      exact List.mem_flatMap_of_mem he hsite
  | unary op e note ih | field e name note ih => exact ⟨hPQ _ h.1 hcalls, ih h.2 hcalls⟩
  | binary op l r note ihl ihr =>
      rw [Expr.calls] at hcalls
      obtain ⟨hl, hr⟩ := List.forall_mem_append.mp hcalls
      exact ⟨hPQ (.binary op l r note) h.1 hcalls, ihl h.2.1 hl, ihr h.2.2 hr⟩
  | call f es note ih =>
      refine ⟨hPQ _ h.1 hcalls, ?_⟩
      simp only [labelledAll_eq, everywhereIn_iff, List.forall_mem_map]
      intro e he
      refine ih e he (everywhereIn_iff.mp h.2 e he) fun site hsite => hcalls site ?_
      rw [Expr.calls, callsAll_eq]
      exact List.mem_cons_of_mem _ (List.mem_flatMap_of_mem he hsite)

theorem Stmt.everywhere_labelled
    (hPQ : ∀ e, P e → (∀ site ∈ e.calls, (label site.callee.text).isSome = true) →
      Q (e.labelled label)) {s : Stmt} (h : s.Everywhere P)
    (hcalls : ∀ site ∈ s.calls, (label site.callee.text).isSome = true) :
    (s.labelled label).Everywhere Q := by
  have hblock : ∀ ss : List Stmt, (∀ s ∈ ss, s.Everywhere P →
      (∀ site ∈ s.calls, (label site.callee.text).isSome = true) →
      (s.labelled label).Everywhere Q) → Stmt.EverywhereIn P ss →
      (∀ site ∈ Stmt.callsAll ss, (label site.callee.text).isSome = true) →
      Stmt.EverywhereIn Q (Stmt.labelledAll label ss) := by
    intro ss ih hss hsites
    simp only [labelledAll_eq, everywhereIn_iff, List.forall_mem_map]
    intro s hs
    refine ih s hs (everywhereIn_iff.mp hss s hs) fun site hsite => hsites site ?_
    rw [callsAll_eq]
    exact List.mem_flatMap_of_mem hs hsite
  induction s with
  | bind name e span => exact Expr.everywhere_labelled hPQ h hcalls
  | branch c t span iht =>
      obtain ⟨hc, ht⟩ := List.forall_mem_append.mp hcalls
      exact ⟨Expr.everywhere_labelled hPQ h.1 hc, hblock t iht h.2 ht⟩
  | branchOtherwise c t o span iht iho =>
      obtain ⟨hct, ho⟩ := List.forall_mem_append.mp hcalls
      obtain ⟨hc, ht⟩ := List.forall_mem_append.mp hct
      exact ⟨Expr.everywhere_labelled hPQ h.1 hc, hblock t iht h.2.1 ht, hblock o iho h.2.2 ho⟩
  | forEach item e body span ih =>
      obtain ⟨he, hb⟩ := List.forall_mem_append.mp hcalls
      exact ⟨Expr.everywhere_labelled hPQ h.1 he, hblock body ih h.2 hb⟩
  | call f es note span => exact Expr.everywhere_labelled hPQ h hcalls
  | returns value span =>
      cases value with
      | none => trivial
      | some e => exact Expr.everywhere_labelled hPQ h hcalls
  | expression e span => exact Expr.everywhere_labelled hPQ h hcalls

end

/-! ### Labelling a program -/

theorem bare_buildGraph (c : Callables) (seen : List String) (ds : List Decl) (g : CallGraph)
    (timer : Timer) : (buildGraph c seen ds g timer).decls.map Decl.bare = ds.map Decl.bare := by
  induction ds generalizing seen g timer with
  | nil => rfl
  | cons d ds ih =>
      cases d with
      | type t => simp only [buildGraph, List.map_cons, ih]
      | record r => simp only [buildGraph, List.map_cons, ih]
      | function f =>
          rw [buildGraph]
          split
          · simp only [List.map_cons, ih]
          · dsimp only
            split
            · rfl
            · simp only [List.map_cons, ih, Decl.bare, FunctionDecl.bare, Stmt.bareAll_eq,
                Stmt.labelledAll_eq,
                Stmt.map_bare_labelled _ fun s _ => Stmt.bare_labelled _ s]

theorem Program.sameBare_withLabels (p : Program) : p.withLabels.SameBare p := by
  unfold SameBare withLabels
  rw [List.map_map]
  refine List.map_congr_left fun d _ => ?_
  cases d <;> rfl

theorem Program.sameBare_checkPurity (p : Program) (registry : Registry) (budget : Budget) :
    (p.checkPurity registry budget).program.SameBare p :=
  (bare_buildGraph _ _ _ _ _).trans p.sameBare_withLabels

/-- A function that is labelled: with a label for every call in its body. -/
def LabelledFrom (f f' : FunctionDecl) : Prop :=
  ∃ label : String → Option Purity, f' = { f with body := Stmt.labelledAll label f.body } ∧
    ∀ site ∈ Stmt.callsAll f.body, (label site.callee.text).isSome = true

/-- In a graph that is built in time without findings, all functions with distinct names are
labelled. -/
theorem buildGraph_labels {c : Callables} {ds : List Decl} {seen : List String} {g : CallGraph}
    {timer : Timer} (hs : c.Seeded g)
    (hdistinct : ((ds.filterMap Decl.function?).map fun f => f.name.text).Nodup)
    (hseen : ∀ f ∈ ds.filterMap Decl.function?, f.name.text ∉ seen)
    (htime : (buildGraph c seen ds g timer).timer.exceeded = none)
    (hfound : (buildGraph c seen ds g timer).found = []) :
    List.Forall₂ LabelledFrom (ds.filterMap Decl.function?)
      ((buildGraph c seen ds g timer).decls.filterMap Decl.function?) := by
  induction ds generalizing seen g timer with
  | nil => simp [buildGraph]
  | cons d ds ih =>
      cases d with
      | type t => exact ih hs hdistinct hseen htime hfound
      | record r => exact ih hs hdistinct hseen htime hfound
      | function f =>
          have hpick : (Decl.function f :: ds).filterMap Decl.function? =
              f :: ds.filterMap Decl.function? := rfl
          rw [hpick] at hdistinct hseen ⊢
          rw [List.map_cons, List.nodup_cons] at hdistinct
          obtain ⟨hf, hfs⟩ := List.forall_mem_cons.mp hseen
          have hnew : ¬ seen.contains f.name.text = true := by simpa using hf
          simp only [buildGraph, if_neg hnew] at htime hfound ⊢
          split at htime
          · next e he => rw [he] at htime; cases htime
          · next hcheck =>
              simp only [hcheck] at hfound ⊢
              obtain ⟨hnone, hmoreNone⟩ := List.append_eq_nil_iff.mp hfound
              obtain ⟨hgrown, -, -, -, hall⟩ :=
                Callables.addCalls_spec f.name.text (Stmt.callsAll f.body) hs
              -- the graph in which a call was resolved has its label
              refine .cons ⟨_, rfl, fun site hsite => ?_⟩ (ih (hs.grown hgrown) hdistinct.2 ?_ htime
                hmoreNone)
              · rw [Callables.isSome_label (hs.grown hgrown)]
                exact hall.mp hnone site hsite
              · intro h hh hmem
                rcases List.mem_cons.mp hmem with heq | hmem
                · exact hdistinct.1 (heq ▸ List.mem_map_of_mem hh)
                · exact hfs h hh hmem

/-- After a check without findings all functions with distinct names are labelled. -/
theorem Program.checkPurity_labels {p : Program} {registry : Registry} {budget : Budget}
    {report : PurityReport} (h : (p.checkPurity registry budget).result = .ok report)
    (hfound : report.found = []) (hdistinct : (p.functions.map fun f => f.name.text).Nodup) :
    List.Forall₂ LabelledFrom p.withLabels.functions
      (p.checkPurity registry budget).program.functions := by
  rw [← p.sameBare_withLabels.functionNames] at hdistinct
  simp only [checkPurity] at h ⊢
  split at h
  · cases h
  · next htime =>
      obtain rfl := Except.ok.inj h
      exact buildGraph_labels (Callables.seeded_nodes registry p.withLabels) hdistinct
        (fun f _ => List.not_mem_nil) htime (List.append_eq_nil_iff.mp hfound).1

end Prosaic
