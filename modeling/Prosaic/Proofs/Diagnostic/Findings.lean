import Mathlib.Data.List.Pairwise
import Mathlib.Data.Prod.Lex
import Mathlib.Data.String.Basic
import Prosaic.Diagnostic.Findings

/-!
Findings, each once and in order. The order is that of a key, so it is total, and sorting what is
sorted changes nothing; neither does collecting what is already free of repetitions.

A diagnostic that is added may say what an earlier one said at another phase or with another hint;
then the earlier one stands. So after any history of additions the entries are the first of their
kind, in the order in which they came. Sorting them moves none past another of its key.
-/

namespace Prosaic

namespace Diagnostic

variable {a b c : Diagnostic}

/-- What diagnostics are ordered by: phase, line, column and code. -/
def key (d : Diagnostic) : Nat ×ₗ Int ×ₗ Int ×ₗ String :=
  toLex (d.phase.rank, toLex (d.location.line, toLex (d.location.column, d.code)))

theorem precedes_iff : a.precedes b = true ↔ a.key ≤ b.key := by
  unfold precedes key
  rw [Prod.Lex.toLex_le_toLex, Prod.Lex.toLex_le_toLex, Prod.Lex.toLex_le_toLex]
  by_cases hphase : a.phase.rank = b.phase.rank
  · by_cases hline : a.location.line = b.location.line
    · by_cases hcolumn : a.location.column = b.location.column
      · simp [hphase, hline, hcolumn]
      · simp [hphase, hline, hcolumn]
    · simp [hphase, hline]
  · simp [hphase]

theorem precedes_trans (a b c : Diagnostic) (hab : a.precedes b = true)
    (hbc : b.precedes c = true) :
    a.precedes c = true := by
  rw [precedes_iff] at *
  exact hab.trans hbc

theorem precedes_total (a b : Diagnostic) : (a.precedes b || b.precedes a) = true := by
  rw [Bool.or_eq_true, precedes_iff, precedes_iff]
  exact le_total _ _

/-- Two diagnostics that differ in code, place or message. -/
def Differs (a b : Diagnostic) : Prop :=
  ¬(a.code = b.code ∧ a.location = b.location ∧ a.message = b.message)

theorem repeats_iff : a.repeats b = true ↔ ¬a.Differs b := by
  simp [repeats, Differs, and_assoc]

/-- A finding of a phase itself: none about a limit. -/
structure Plain (phase : Phase) (d : Diagnostic) : Prop where
  phase : d.phase = phase
  code : d.code ≠ resourceLimit

/-- Findings of a phase itself. -/
def AllPlain (phase : Phase) (ds : List Diagnostic) : Prop := ∀ d ∈ ds, d.Plain phase

section

variable {phase : Phase} {d : Diagnostic}

@[simp] theorem allPlain_nil : AllPlain phase [] := List.forall_mem_nil _

theorem allPlain_singleton : AllPlain phase [d] ↔ d.Plain phase :=
  List.forall_mem_singleton

end

/-- A finding of a phase itself, at one of some places. -/
structure PlainAt (phase : Phase) (mark : Location → Prop) (d : Diagnostic) : Prop
    extends Plain phase d where
  location : mark d.location

/-- Findings of a phase itself, at some places. -/
def AllPlainAt (phase : Phase) (mark : Location → Prop) (ds : List Diagnostic) : Prop :=
  ∀ d ∈ ds, d.PlainAt phase mark

section

variable {phase : Phase} {mark : Location → Prop} {d : Diagnostic} {ds es : List Diagnostic}

@[simp] theorem allPlainAt_nil : AllPlainAt phase mark [] := List.forall_mem_nil _

@[simp] theorem allPlainAt_cons :
    AllPlainAt phase mark (d :: ds) ↔ d.PlainAt phase mark ∧ AllPlainAt phase mark ds :=
  List.forall_mem_cons

@[simp] theorem allPlainAt_append :
    AllPlainAt phase mark (ds ++ es) ↔ AllPlainAt phase mark ds ∧ AllPlainAt phase mark es :=
  List.forall_mem_append

theorem AllPlainAt.plain (h : AllPlainAt phase mark ds) : AllPlain phase ds :=
  fun d hd => (h d hd).toPlain

end

theorem Differs.symm (h : a.Differs b) : b.Differs a :=
  fun ⟨hcode, hlocation, hmessage⟩ => h ⟨hcode.symm, hlocation.symm, hmessage.symm⟩

end Diagnostic

namespace Findings

variable {f : Findings} {ds : List Diagnostic}

/-- Nothing is added but what is to be added, and all of it in order. -/
theorem extend_sublist (f : Findings) (ds : List Diagnostic) :
    (f.extend ds).entries.Sublist (f.entries ++ ds) := by
  induction ds generalizing f with
  | nil => exact (List.append_nil _).symm ▸ List.Sublist.refl _
  | cons d ds ih =>
      refine (ih (f.add d)).trans ?_
      unfold add
      split
      · exact (List.sublist_cons_self d ds).append_left f.entries
      · exact (List.append_assoc f.entries [d] ds).symm ▸ List.Sublist.refl _

/-- Nothing is added twice. -/
theorem differs_extend (h : f.entries.Pairwise Diagnostic.Differs) :
    (f.extend ds).entries.Pairwise Diagnostic.Differs := by
  induction ds generalizing f with
  | nil => exact h
  | cons d ds ih =>
      apply ih
      unfold add
      split
      · exact h
      · next hnew =>
          refine List.pairwise_append.mpr ⟨h, List.pairwise_singleton _ _, ?_⟩
          intro a ha b hb
          obtain rfl := List.mem_singleton.mp hb
          apply Diagnostic.Differs.symm
          by_contra hsame
          exact hnew (List.any_eq_true.mpr ⟨a, ha, Diagnostic.repeats_iff.mpr hsame⟩)

/-- What repeats nothing is added as it is. -/
theorem extend_of_differs (h : (f.entries ++ ds).Pairwise Diagnostic.Differs) :
    (f.extend ds).entries = f.entries ++ ds := by
  induction ds generalizing f with
  | nil => exact (List.append_nil _).symm
  | cons d ds ih =>
      have hnew : f.entries.any d.repeats = false := by
        rw [Bool.eq_false_iff]
        intro hany
        obtain ⟨a, ha, hrepeats⟩ := List.any_eq_true.mp hany
        have hdiffers := (List.pairwise_append.mp h).2.2 a ha d List.mem_cons_self
        exact Diagnostic.repeats_iff.mp hrepeats hdiffers.symm
      have hadd : f.add d = ⟨f.entries ++ [d]⟩ := by simp [add, hnew]
      have hrest : ((f.entries ++ [d]) ++ ds).Pairwise Diagnostic.Differs := by
        rwa [List.append_assoc]
      change ((f.add d).extend ds).entries = _
      rw [hadd, ih hrest, List.append_assoc]
      rfl

/-- What is reported of some findings: nothing else, and nothing more often. -/
theorem subperm_sorted (ds : List Diagnostic) : (ofList ds).sorted.Subperm ds :=
  ⟨(ofList ds).entries, (List.mergeSort_perm _ _).symm, extend_sublist empty ds⟩

theorem sorted_ordered (f : Findings) : f.sorted.Pairwise fun a b => a.key ≤ b.key :=
  (List.pairwise_mergeSort Diagnostic.precedes_trans Diagnostic.precedes_total f.entries).imp
    Diagnostic.precedes_iff.mp

theorem sorted_differs (h : f.entries.Pairwise Diagnostic.Differs) :
    f.sorted.Pairwise Diagnostic.Differs :=
  (List.mergeSort_perm f.entries _).symm.pairwise h fun hab => hab.symm

/-- Collecting and sorting what was collected and sorted changes nothing. -/
theorem sorted_ofList (hordered : ds.Pairwise fun a b => a.key ≤ b.key)
    (hdiffers : ds.Pairwise Diagnostic.Differs) : (ofList ds).sorted = ds := by
  have hentries : (ofList ds).entries = ds := extend_of_differs (f := empty) hdiffers
  rw [sorted, hentries]
  exact List.mergeSort_of_pairwise (hordered.imp Diagnostic.precedes_iff.mpr)

end Findings

namespace Diagnostic

variable {added : List Diagnostic} {c d e : Diagnostic}

theorem not_differs_self (d : Diagnostic) : ¬d.Differs d := fun h => h ⟨rfl, rfl, rfl⟩

instance : Std.Symm Differs := ⟨fun _ _ => Differs.symm⟩

/-- What differs from one of two diagnostics that say the same differs from the other. -/
theorem Differs.of_same (h : c.Differs e) (hsame : ¬d.Differs e) : c.Differs d := by
  obtain ⟨hcode, hlocation, hmessage⟩ := not_not.mp hsame
  rintro ⟨hcode', hlocation', hmessage'⟩
  exact h ⟨hcode'.trans hcode, hlocation'.trans hlocation, hmessage'.trans hmessage⟩

/-- A diagnostic that is added before every other one that says the same. -/
def IsFirst (added : List Diagnostic) (d : Diagnostic) : Prop :=
  ∃ before after, added = before ++ d :: after ∧ ∀ e ∈ before, e.Differs d

theorem IsFirst.mem (h : IsFirst added d) : d ∈ added := by
  obtain ⟨before, after, rfl, -⟩ := h
  exact List.mem_append_right _ List.mem_cons_self

theorem isFirst_concat :
    IsFirst (added ++ [e]) d ↔ IsFirst added d ∨ d = e ∧ ∀ c ∈ added, c.Differs e := by
  constructor
  · rintro ⟨before, after, heq, hbefore⟩
    rcases List.eq_nil_or_concat' after with rfl | ⟨after, last, rfl⟩
    · obtain ⟨rfl, hlast⟩ := List.append_inj' heq rfl
      obtain rfl := List.head_eq_of_cons_eq hlast
      exact .inr ⟨rfl, hbefore⟩
    · rw [← List.cons_append, ← List.append_assoc] at heq
      exact .inl ⟨before, after, (List.append_inj' heq rfl).1, hbefore⟩
  · rintro (⟨before, after, rfl, hbefore⟩ | ⟨rfl, hadded⟩)
    · exact ⟨before, after ++ [e], by simp, hbefore⟩
    · exact ⟨added, [], rfl, hadded⟩

/-- Whatever is added, some diagnostic is the first to say it. -/
theorem exists_isFirst (h : d ∈ added) : ∃ e, IsFirst added e ∧ ¬e.Differs d := by
  induction added with
  | nil => exact absurd h List.not_mem_nil
  | cons a added ih =>
      by_cases hdiffers : a.Differs d
      · have hmem : d ∈ added := by
          rcases List.mem_cons.mp h with rfl | hmem
          · exact absurd hdiffers (not_differs_self d)
          · exact hmem
        obtain ⟨e, ⟨before, after, rfl, hbefore⟩, hsame⟩ := ih hmem
        exact ⟨e, ⟨a :: before, after, rfl,
          List.forall_mem_cons.mpr ⟨hdiffers.of_same hsame, hbefore⟩⟩, hsame⟩
      · exact ⟨a, ⟨[], added, rfl, List.forall_mem_nil _⟩, hdiffers⟩

end Diagnostic

namespace Findings

open Diagnostic

/-! ### Histories -/

/-- One call that adds to findings. -/
inductive Call
  | add (d : Diagnostic)
  | extend (ds : List Diagnostic)

/-- What a call adds, in order. -/
def Call.added : Call → List Diagnostic
  | .add d => [d]
  | .extend ds => ds

/-- The findings after a call. -/
def after (f : Findings) : Call → Findings
  | .add d => f.add d
  | .extend ds => f.extend ds

/-- The findings after some calls. -/
def replay (f : Findings) (calls : List Call) : Findings := calls.foldl after f

variable {f : Findings} {d : Diagnostic} {added ds : List Diagnostic} {calls : List Call}

/-- How additions are grouped into calls does not matter. -/
theorem replay_eq (f : Findings) (calls : List Call) :
    f.replay calls = f.extend (calls.flatMap Call.added) := by
  induction calls generalizing f with
  | nil => rfl
  | cons call calls ih =>
      have hcall : f.after call = f.extend call.added := by cases call <;> rfl
      calc f.replay (call :: calls) = (f.after call).replay calls := rfl
        _ = (f.extend call.added).extend (calls.flatMap Call.added) := by rw [ih, hcall]
        _ = f.extend ((call :: calls).flatMap Call.added) := by
          rw [List.flatMap_cons, extend, extend, extend, List.foldl_append]

/-! ### The entries -/

/-- Findings that hold the first diagnostics of each kind, in the order in which they were added. -/
structure Collects (added : List Diagnostic) (f : Findings) : Prop where
  mem_iff : ∀ d, d ∈ f.entries ↔ IsFirst added d
  ordered : f.entries.Pairwise fun a b => added.idxOf a < added.idxOf b

theorem collects_empty : Collects [] empty where
  mem_iff _ := ⟨fun h => absurd h List.not_mem_nil, fun h => absurd h.mem List.not_mem_nil⟩
  ordered := .nil

/-- Findings repeat a diagnostic exactly when it was said before. -/
theorem Collects.any_repeats (h : Collects added f) :
    f.entries.any d.repeats = true ↔ ∃ e ∈ added, ¬e.Differs d := by
  rw [List.any_eq_true]
  constructor
  · rintro ⟨e, he, hrepeats⟩
    exact ⟨e, ((h.mem_iff e).mp he).mem, fun hdiffers => repeats_iff.mp hrepeats hdiffers.symm⟩
  · rintro ⟨e, he, hsame⟩
    obtain ⟨c, hfirst, hc⟩ := exists_isFirst he
    refine ⟨c, (h.mem_iff c).mpr hfirst, repeats_iff.mpr fun hdiffers => ?_⟩
    exact hsame ((hdiffers.of_same (d := e) fun h => hc h.symm).symm)

theorem Collects.add (h : Collects added f) (d : Diagnostic) :
    Collects (added ++ [d]) (f.add d) := by
  have hkept : f.entries.Pairwise fun a b => (added ++ [d]).idxOf a < (added ++ [d]).idxOf b := by
    refine h.ordered.imp_of_mem fun {a b} ha hb hlt => ?_
    have ha := ((h.mem_iff a).mp ha).mem
    have hb := ((h.mem_iff b).mp hb).mem
    rwa [List.idxOf_append_of_mem ha, List.idxOf_append_of_mem hb]
  unfold Findings.add
  split
  next hany =>
    obtain ⟨e, he, hsame⟩ := h.any_repeats.mp hany
    refine ⟨fun x => ?_, hkept⟩
    rw [isFirst_concat, h.mem_iff]
    exact ⟨.inl, fun hx => hx.resolve_right fun hnew => hsame (hnew.2 e he)⟩
  next hany =>
    have hnew : ∀ e ∈ added, e.Differs d := by
      intro e he
      by_contra hsame
      exact hany (h.any_repeats.mpr ⟨e, he, hsame⟩)
    refine ⟨fun x => ?_, List.pairwise_append.mpr ⟨hkept, List.pairwise_singleton _ _, ?_⟩⟩
    · rw [isFirst_concat, List.mem_append, List.mem_singleton, h.mem_iff]
      exact or_congr_right (iff_self_and.mpr fun _ => hnew)
    · intro a ha b hb
      obtain rfl := List.mem_singleton.mp hb
      have ha := ((h.mem_iff a).mp ha).mem
      have hb : b ∉ added := fun hb => not_differs_self b (hnew b hb)
      rw [List.idxOf_append_of_mem ha, List.idxOf_append_of_notMem hb]
      exact (List.idxOf_lt_length_of_mem ha).trans_le (Nat.le_add_right _ _)

theorem Collects.extend (h : Collects added f) (ds : List Diagnostic) :
    Collects (added ++ ds) (f.extend ds) := by
  induction ds generalizing added f with
  | nil => rwa [List.append_nil]
  | cons d ds ih =>
      rw [List.append_cons]
      exact ih (h.add d)

/-- Adding what was said before changes nothing. -/
theorem Collects.extend_repeated (h : Collects added f)
    (hds : ∀ d ∈ ds, ∃ e ∈ added, ¬e.Differs d) : f.extend ds = f := by
  induction ds with
  | nil => rfl
  | cons d ds ih =>
      obtain ⟨hd, hds⟩ := List.forall_mem_cons.mp hds
      have hadd : f.add d = f := if_pos (h.any_repeats.mpr hd)
      calc f.extend (d :: ds) = (f.add d).extend ds := rfl
        _ = f := by rw [hadd, ih hds]

theorem collects_replay (calls : List Call) :
    Collects (calls.flatMap Call.added) (empty.replay calls) := by
  rw [replay_eq]
  exact collects_empty.extend _

/-! ### The report -/

theorem mem_sorted : d ∈ f.sorted ↔ d ∈ f.entries := List.mem_mergeSort

/-- Sorting is stable: the diagnostics of one key stay in the order in which they were found. -/
theorem filter_key_sorted (f : Findings) (d : Diagnostic) :
    f.sorted.filter (·.key = d.key) = f.entries.filter (·.key = d.key) := by
  have hle : (f.entries.filter (·.key = d.key)).Pairwise fun a b => a.precedes b = true := by
    refine List.pairwise_of_forall_mem_list fun a ha b hb => precedes_iff.mpr (le_of_eq ?_)
    exact (of_decide_eq_true (List.mem_filter.mp ha).2).trans
      (of_decide_eq_true (List.mem_filter.mp hb).2).symm
  have hsub : (f.entries.filter (·.key = d.key)).Sublist f.sorted :=
    List.sublist_mergeSort precedes_trans precedes_total hle List.filter_sublist
  have hperm : (f.sorted.filter (·.key = d.key)).Perm (f.entries.filter (·.key = d.key)) :=
    (List.mergeSort_perm f.entries _).filter _
  have hfilter := hsub.filter (·.key = d.key)
  rw [List.filter_filter] at hfilter
  simp only [Bool.and_self] at hfilter
  exact (hfilter.eq_of_length hperm.length_eq.symm).symm

/-- What is reported comes by key, and at one key in the order in which it was first added. -/
theorem Collects.sorted_ordered (h : Collects added f) :
    f.sorted.Pairwise fun a b =>
      a.key < b.key ∨ a.key = b.key ∧ added.idxOf a < added.idxOf b := by
  rw [List.pairwise_iff_forall_sublist]
  intro a b hab
  have hle : a.key ≤ b.key := List.pairwise_iff_forall_sublist.mp f.sorted_ordered hab
  refine hle.lt_or_eq.imp_right fun hkey => ⟨hkey, ?_⟩
  have hfilter := hab.filter (·.key = b.key)
  rw [filter_key_sorted, List.filter_eq_self.mpr (by simp [hkey])] at hfilter
  exact List.pairwise_iff_forall_sublist.mp h.ordered (hfilter.trans List.filter_sublist)

theorem differs_replay (calls : List Call) :
    (empty.replay calls).entries.Pairwise Differs := by
  rw [replay_eq]
  exact differs_extend .nil

/-- After any history the report holds of every code, place and message that was added just one
diagnostic, the first; it is ordered by key and at one key by when the diagnostic was added. To
collect and sort the report changes nothing, nor does it change anything to add more of the same. -/
theorem replay_report (calls : List Call) :
    let added := calls.flatMap Call.added
    let f := empty.replay calls
    (∀ d, d ∈ f.sorted ↔ IsFirst added d) ∧
      (∀ d ∈ added, ∃! e, e ∈ f.sorted ∧ ¬e.Differs d) ∧
      f.sorted.Nodup ∧
      f.sorted.Pairwise (fun a b =>
        a.key < b.key ∨ a.key = b.key ∧ added.idxOf a < added.idxOf b) ∧
      (ofList f.sorted).sorted = f.sorted ∧
      ∀ more : List Call, more.flatMap Call.added ⊆ added → f.replay more = f := by
  intro added f
  have hf : Collects added f := collects_replay calls
  have hdiffers : f.sorted.Pairwise Differs := sorted_differs (differs_replay calls)
  have hmem : ∀ d, d ∈ f.sorted ↔ IsFirst added d := fun d => mem_sorted.trans (hf.mem_iff d)
  refine ⟨hmem, fun d hd => ?_, ?_, hf.sorted_ordered, ?_, fun more hmore => ?_⟩
  · obtain ⟨e, hfirst, hsame⟩ := exists_isFirst hd
    refine ⟨e, ⟨(hmem e).mpr hfirst, hsame⟩, fun c hc => ?_⟩
    by_contra hne
    have hce : c.Differs e := hdiffers.forall hc.1 ((hmem e).mpr hfirst) hne
    exact hc.2 (hce.of_same fun h => hsame h.symm)
  · refine hdiffers.imp ?_
    rintro a _ hab rfl
    exact not_differs_self a hab
  · exact sorted_ofList f.sorted_ordered hdiffers
  · rw [replay_eq]
    exact hf.extend_repeated fun d hd => ⟨d, hmore hd, not_differs_self d⟩

/-- A diagnostic is added, then one that says the same in another phase and with a hint, twice in
one call: the first stands, and to add the other once more changes nothing. -/
theorem replay_report_again :
    let first : Diagnostic := ⟨typeMismatch, "msg", ⟨3, 4⟩, none, .types⟩
    let again : Diagnostic := { first with hint := some "Rename it.", phase := .effects }
    let f := empty.replay [.add first, .extend [again, again]]
    first ∈ f.sorted ∧ (∃! e, e ∈ f.sorted ∧ ¬e.Differs again) ∧ f.replay [.add again] = f := by
  intro first again f
  obtain ⟨hmem, hone, -, -, -, hmore⟩ := replay_report [.add first, .extend [again, again]]
  refine ⟨(hmem first).mpr ⟨[], [again, again], rfl, List.forall_mem_nil _⟩, ?_, ?_⟩
  · exact hone again (by decide)
  · exact hmore [.add again] (by decide)

end Findings

end Prosaic
