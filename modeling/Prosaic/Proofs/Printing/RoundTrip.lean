import Prosaic.Proofs.Printing.Declaration

/-!
Reading inverts printing. A well-formed program is read back from its tokens, with enough room, and
what is read from proper tokens without findings is well formed.
-/

namespace Prosaic

open Token (Kind)

/-! ### What is printed -/

/-- A sort of token that a program is printed with: like those that the scanner makes of a text, and
not the one that marks the end. -/
structure Token.Kind.Printable (k : Kind) : Prop where
  number : ∀ n, k = .number n → n.IsLiteral
  identifier : ∀ name, k = .identifier name → IsName name
  notEnd : k ≠ .eof

def AllPrintable (ks : List Kind) : Prop := ∀ k ∈ ks, k.Printable

@[simp] theorem allPrintable_nil : AllPrintable [] := by simp [AllPrintable]

@[simp] theorem allPrintable_cons {k : Kind} {ks : List Kind} :
    AllPrintable (k :: ks) ↔ k.Printable ∧ AllPrintable ks := List.forall_mem_cons

@[simp] theorem allPrintable_append {ks ks' : List Kind} :
    AllPrintable (ks ++ ks') ↔ AllPrintable ks ∧ AllPrintable ks' := List.forall_mem_append

@[simp] theorem printable_keyword (word : Keyword) : Kind.Printable (.keyword word) :=
  ⟨nofun, nofun, nofun⟩

@[simp] theorem printable_sign (sign : Sign) : Kind.Printable (.sign sign) := ⟨nofun, nofun, nofun⟩

@[simp] theorem printable_terminator : Kind.Printable .terminator := ⟨nofun, nofun, nofun⟩

@[simp] theorem printable_string (s : String) : Kind.Printable (.string s) := ⟨nofun, nofun, nofun⟩

theorem printable_number {n : Number} (h : n.IsLiteral) : Kind.Printable (.number n) :=
  ⟨fun _ hn => Kind.number.inj hn ▸ h, nofun, nofun⟩

theorem printable_identifier {name : String} (h : IsName name) :
    Kind.Printable (.identifier name) :=
  ⟨nofun, fun _ hname => Kind.identifier.inj hname ▸ h, nofun⟩

@[simp] theorem allPrintable_enclose {ks : List Kind} :
    AllPrintable (enclose ks) ↔ AllPrintable ks := by
  simp [enclose]

/-- A printed token is one that a scanner makes. -/
theorem Token.Kind.Printable.proper_plain {k : Kind} (h : k.Printable) :
    (Token.plain k).Proper := by
  cases k with
  | number n => exact ⟨fun n hn => h.number n hn, nofun⟩
  | identifier name =>
      refine ⟨nofun, fun name' hname => ?_⟩
      obtain rfl := Kind.identifier.inj hname
      exact ⟨rfl, h.identifier name rfl⟩
  | _ => exact ⟨nofun, nofun⟩

theorem allPrintable_continued {es : List Expr} (h : ∀ e ∈ es, AllPrintable e.inside) :
    AllPrintable (Expr.continued es) := by
  induction es with
  | nil => simp [Expr.continued]
  | cons e es ih =>
      obtain ⟨he, hes⟩ := List.forall_mem_cons.mp h
      simp [Expr.continued, he, ih hes]

theorem Expr.AllFresh.printable {e : Expr} (h : e.AllFresh) : AllPrintable e.inside := by
  induction e with
  | literal value note =>
      have hformed := (Expr.Everywhere.here h).formed
      cases value with
      | number n => simpa [Expr.inside, Literal.kind] using printable_number hformed
      | string s => simp [Expr.inside, Literal.kind]
      | boolean b => cases b <;> simp [Expr.inside, Literal.kind]
  | list elements note ih =>
      have hall := fun e he => ih e he (Expr.everywhereIn_iff.mp h.2 e he)
      cases elements with
      | nil => simp [Expr.inside, Expr.listed]
      | cons e es =>
          obtain ⟨he, hes⟩ := List.forall_mem_cons.mp hall
          simp [Expr.inside, Expr.listed, he, allPrintable_continued hes]
  | var name note =>
      have hformed := (Expr.Everywhere.here h).formed
      simpa [Expr.inside] using printable_identifier hformed
  | unary op operand note ih => cases op <;> simp [Expr.inside, UnaryOp.kind, ih h.2]
  | binary op left right note ihl ihr =>
      cases op <;> simp [Expr.inside, BinaryOp.kinds, ihl h.2.1, ihr h.2.2]
  | call callee args note ih =>
      have hcallee := printable_identifier (Expr.Everywhere.here h).formed
      have hall := fun e he => ih e he (Expr.everywhereIn_iff.mp h.2 e he)
      cases args with
      | nil => simp [Expr.inside, hcallee]
      | cons e es =>
          obtain ⟨he, hes⟩ := List.forall_mem_cons.mp hall
          simp [Expr.inside, hcallee, he, allPrintable_continued hes]
  | field base name note ih =>
      have hformed := (Expr.Everywhere.here h).formed
      simpa [Expr.inside, ih h.2] using printable_identifier hformed

theorem allPrintable_blockKinds {ss : List Stmt} (h : ∀ s ∈ ss, AllPrintable s.kinds) :
    AllPrintable (Stmt.blockKinds ss) := by
  induction ss with
  | nil => simp [Stmt.blockKinds]
  | cons s ss ih =>
      obtain ⟨hs, hss⟩ := List.forall_mem_cons.mp h
      simp [Stmt.blockKinds, hs, ih hss]

@[simp] theorem allPrintable_closer (kind : BlockKind) : AllPrintable kind.kinds := by
  simp [BlockKind.kinds]

theorem Expr.AllFresh.printable_kinds {e : Expr} (h : e.AllFresh) : AllPrintable e.kinds :=
  allPrintable_enclose.mpr h.printable

theorem Stmt.WellFormed.printable {s : Stmt} (h : s.WellFormed) : AllPrintable s.kinds := by
  have hblock : ∀ ss : List Stmt, (∀ s ∈ ss, s.WellFormed → AllPrintable s.kinds) →
      Stmt.AllWellFormed ss → AllPrintable (Stmt.blockKinds ss) := by
    intro ss ih hss
    rw [Stmt.allWellFormed_iff] at hss
    exact allPrintable_blockKinds fun s hs => ih s hs (hss s hs)
  induction s with
  | bind name e span => simp [Stmt.kinds, printable_identifier h.1, h.2.printable_kinds]
  | branch e body span ih => simp [Stmt.kinds, h.1.printable_kinds, hblock body ih h.2]
  | branchOtherwise e body others span ih iho =>
      simp [Stmt.kinds, h.1.printable_kinds, hblock body ih h.2.1, hblock others iho h.2.2]
  | forEach item e body span ih =>
      simp [Stmt.kinds, printable_identifier h.1, h.2.1.printable_kinds, hblock body ih h.2.2]
  | call callee args note span => simp [Stmt.kinds, Expr.AllFresh.printable h]
  | returns value span =>
      cases value with
      | none => simp [Stmt.kinds]
      | some e => simp [Stmt.kinds, Expr.AllFresh.printable_kinds h]
  | expression e span => simp [Stmt.kinds, Expr.AllFresh.printable_kinds h]

theorem isName_list : IsName "List" := ⟨by decide, by decide⟩

theorem TypeRef.WellFormed.printable {ty : TypeRef} (h : ty.WellFormed) :
    AllPrintable ty.kinds := by
  induction ty with
  | named name span => simpa [TypeRef.kinds] using printable_identifier h
  | list element span ih => simp [TypeRef.kinds, printable_identifier isName_list, ih h]

theorem Typed.WellFormed.printable {t : Typed} (h : t.WellFormed) : AllPrintable t.kinds := by
  simp [Typed.kinds, printable_identifier h.name, h.ty.printable]

theorem allPrintable_listed {ps : List Typed} (h : ∀ p ∈ ps, p.WellFormed) :
    AllPrintable (Typed.listed ps) := by
  induction ps with
  | nil => simp [Typed.listed]
  | cons p ps ih =>
      obtain ⟨hp, hps⟩ := List.forall_mem_cons.mp h
      cases ps with
      | nil => simpa [Typed.listed] using hp.printable
      | cons q qs => simpa [Typed.listed, hp.printable] using ih hps

theorem FunctionDecl.WellFormed.printable {f : FunctionDecl} (h : f.WellFormed) :
    AllPrintable f.kinds := by
  have htaken : AllPrintable (Typed.taken f.parameters) := by
    have hlisted := allPrintable_listed h.parameters
    cases hps : f.parameters with
    | nil => simp [Typed.taken]
    | cons p ps => simpa [Typed.taken, hps] using hlisted
  have hreturned : AllPrintable (TypeRef.returned f.returns) := by
    have hreturns := h.returns
    cases hty : f.returns with
    | none => simp [TypeRef.returned]
    | some ty => simpa [TypeRef.returned] using (hreturns ty hty).printable
  have hpurity : AllPrintable f.purity.kinds := by
    cases f.purity <;> simp [Purity.kinds]
  have hbody := allPrintable_blockKinds fun s hs => (h.body s hs).printable
  simp [FunctionDecl.kinds, FunctionDecl.header, hpurity, htaken, hreturned, hbody,
    printable_identifier h.name]

theorem TypeBody.WellFormed.printable {body : TypeBody} (h : body.WellFormed) :
    AllPrintable body.kinds := by
  cases body with
  | reference ty => exact TypeRef.WellFormed.printable h
  | literals values =>
      cases values with
      | nil => simp [TypeBody.kinds]
      | cons v vs =>
          suffices AllPrintable (TypeBody.continued vs) by simpa [TypeBody.kinds]
          intro k hk
          obtain ⟨w, -, hk⟩ := List.mem_flatMap.mp hk
          have hboth : AllPrintable [.keyword .or, .string w] := by simp
          exact hboth k hk

theorem Decl.WellFormed.printable {d : Decl} (h : d.WellFormed) : AllPrintable d.kinds := by
  cases d with
  | function f => exact FunctionDecl.WellFormed.printable h
  | type t =>
      have ht : t.WellFormed := h
      simp [Decl.kinds, TypeDecl.kinds, ht.body.printable, printable_identifier ht.name]
  | record r =>
      have hr : r.WellFormed := h
      have hfields : AllPrintable (r.fields.flatMap fun f => f.kinds ++ [.terminator]) := by
        intro k hk
        obtain ⟨f, hf, hk⟩ := List.mem_flatMap.mp hk
        have hf : AllPrintable (f.kinds ++ [.terminator]) := by
          simpa using (hr.fields f hf).printable
        exact hf k hk
      simp [Decl.kinds, RecordDecl.kinds, hfields, printable_identifier hr.name]

/-- A well-formed program is printed with tokens like those of a text. -/
theorem Program.WellFormed.printable {p : Program} (h : p.WellFormed) : AllPrintable p.kinds := by
  intro k hk
  obtain ⟨d, hd, hk⟩ := List.mem_flatMap.mp hk
  exact (h d hd).printable k hk

/-! ### Reading and printing -/

/-- There are limits with so much room. -/
theorem Budget.room_still (n : Nat) : (Budget.start ⟨n, n, Limits.fiveSeconds⟩ .still).Room n where
  depth := by simp [Budget.start]
  nodes := by simp [Budget.start]
  timely := by
    have hlate : (Clock.still.next.add Limits.fiveSeconds).lt Clock.still.next = false := by
      decide +kernel
    intro t ht
    obtain rfl : t = Clock.still.next := by simpa [Budget.start, Clock.tick, Clock.still] using ht
    simpa only [Budget.start] using hlate

/-- With limits large enough, a program is read back from its tokens without findings, up to
places. -/
def Program.ReadsBack (p : Program) : Prop :=
  ∃ n, ∀ budget : Budget, budget.Room n → ∀ tokens stop, Prints p.kinds tokens →
    stop.isEof = true → ∃ r, Program.read (tokens ++ [stop]) budget = some r ∧ r.found = [] ∧
      r.program.spanless = p.spanless

theorem length_le_programKinds (ds : List Decl) : ds.length ≤ (ds.flatMap Decl.kinds).length := by
  induction ds with
  | nil => exact Nat.le_refl _
  | cons d ds ih =>
      have hd : 0 < d.kinds.length := by cases d <;> exact Nat.succ_pos _
      simp only [List.flatMap_cons, List.length_append, List.length_cons]
      omega

theorem Program.WellFormed.readsBack {p : Program} (h : p.WellFormed) : p.ReadsBack := by
  obtain ⟨n, hn⟩ := Parser.exists_reads_declarations p.declarations h
  refine ⟨n, fun budget hroom tokens stop hprints hstop => ?_⟩
  have hpending : ∀ t ∈ tokens, t.isEof = false := by
    intro t ht
    have hkind : t.kind ∈ p.kinds := hprints.kinds ▸ List.mem_map_of_mem ht
    simpa [Token.isEof] using (h.printable _ hkind).notEnd
  let start := Parser.State.start tokens stop budget
  have hshows : start.Shows (p.declarations.flatMap Decl.kinds) [] :=
    ⟨hprints.kinds, rfl, hprints.faithful, of_decide_eq_true hstop, rfl⟩
  have hfuel : p.declarations.length ≤ start.left := calc
    p.declarations.length ≤ p.kinds.length := length_le_programKinds p.declarations
    _ = tokens.length := by rw [← hprints.kinds, List.length_map]
    _ = start.left := start.left_eq.symm
  obtain ⟨hfound, hmap⟩ := hn start.left start hshows hroom hfuel
  refine ⟨_, Program.read_append hpending hstop budget, ?_, ?_⟩
  · simp [Reading.of, start, hfound]
  · exact congrArg (Program.mk · default) hmap

/-- What is read from proper tokens without findings is well formed. -/
theorem Program.wellFormed_of_read {tokens : List Token} {budget : Budget} {r : Reading}
    (hproper : ∀ t ∈ tokens, t.Proper) (h : Program.read tokens budget = some r)
    (hfound : r.found = []) : r.program.WellFormed := by
  unfold Program.read at h
  split at h
  · cases h
  · next stop hstop =>
      split at h
      · obtain rfl := Option.some.inj h
        let start := Parser.State.start (tokens.takeWhile fun t => !t.isEof) stop budget
        have hstart : start.Proper := by
          refine ⟨hproper stop (List.mem_of_find?_eq_some hstop), fun t ht => ?_⟩
          exact hproper t ((List.takeWhile_sublist _).subset ht)
        have hread : start.Proper →
            (True → (Parser.declarations start.left start).2.found = start.found) →
              ∀ d ∈ (Parser.declarations start.left start).1, d.WellRead True :=
          (Parser.declarations_wellRead start.left start).2
        intro d hd
        exact (hread hstart (fun _ => List.reverse_eq_nil_iff.mp hfound) d hd).formed trivial
      · cases h

/-- Reading inverts printing: every well-formed program is read back, and so is every program that
was read without findings, as it is well formed. The tokens of a text are proper. -/
theorem Program.read_printed :
    (∀ p : Program, p.WellFormed → p.ReadsBack) ∧
      (∀ tokens budget r, (∀ t ∈ tokens, t.Proper) → Program.read tokens budget = some r →
        r.found = [] → r.program.WellFormed ∧ r.program.ReadsBack) ∧
      ∀ source tokens, Token.scan source = .ok tokens → ∀ t ∈ tokens, t.Proper := by
  refine ⟨fun p hp => hp.readsBack, fun tokens budget r hproper hread hfound => ?_,
    fun source tokens hscan => Token.scan_proper hscan⟩
  have hformed := Program.wellFormed_of_read hproper hread hfound
  exact ⟨hformed, hformed.readsBack⟩

/-- A function with a statement that may be left out, and a set of literals. -/
def sampler : Program :=
  let x : Expr := .variable "x" ⟨default, none⟩
  let same : Expr := .binary .isNot x (.literal (.string "a") ⟨default, none⟩) ⟨default, none⟩
  let given : Expr := .unary .not same ⟨default, none⟩
  let again : Stmt := .call ⟨"f", default⟩ [x] ⟨default, none, none, none⟩ default
  let body : List Stmt := [.branch given [again] (some [.return none default]) default]
  ⟨[.type ⟨"Choice", .literals ["a", "b"], default⟩,
    .function ⟨⟨"f", default⟩, [⟨"x", .named "Choice" default, default⟩], none, .effectful, body,
      none, default, none⟩], default⟩

theorem sampler_wellFormed : sampler.WellFormed := by
  have hf : IsName "f" := ⟨by decide, by decide⟩
  have hx : IsName "x" := ⟨by decide, by decide⟩
  have hchoice : IsName "Choice" := ⟨by decide, by decide⟩
  intro d hd
  simp only [sampler, List.mem_cons, List.not_mem_nil, or_false] at hd
  rcases hd with rfl | rfl
  · exact ⟨hchoice, List.cons_ne_nil _ _, by decide⟩
  · refine ⟨hf, ?_, nofun, ?_, rfl⟩
    · simpa using ⟨hx, hchoice⟩
    · have hsame : (Expr.binary .isNot (.variable "x" ⟨default, none⟩)
          (.literal (.string "a") ⟨default, none⟩) ⟨default, none⟩).AllFresh :=
        ⟨⟨rfl, trivial⟩, ⟨rfl, hx⟩, ⟨rfl, trivial⟩⟩
      have hagain : (Expr.call ⟨"f", default⟩ [.variable "x" ⟨default, none⟩]
          ⟨default, none, none, none⟩).AllFresh :=
        ⟨⟨⟨rfl, rfl, rfl⟩, hf⟩, ⟨rfl, hx⟩, trivial⟩
      refine List.forall_mem_singleton.mpr ⟨⟨⟨rfl, trivial⟩, hsame⟩, ⟨hagain, trivial⟩, ?_⟩
      exact ⟨trivial, trivial⟩

/-- The sampler is read back from its tokens, and what is read is read back again. -/
theorem Program.read_sampler : sampler.WellFormed ∧ ∃ tokens budget r,
    Prints sampler.kinds tokens ∧ Program.read (tokens ++ [.plain .eof]) budget = some r ∧
      r.found = [] ∧ r.program.spanless = sampler.spanless ∧ r.program.ReadsBack := by
  obtain ⟨n, hn⟩ := Program.read_printed.1 sampler sampler_wellFormed
  let tokens := sampler.kinds.map Token.plain
  have hprints : Prints sampler.kinds tokens := prints_plain sampler.kinds
  obtain ⟨r, hread, hfound, hlike⟩ := hn _ (Budget.room_still n) tokens (.plain .eof) hprints rfl
  have hproper : ∀ t ∈ tokens ++ [.plain .eof], t.Proper := by
    intro t ht
    rcases List.mem_append.mp ht with ht | ht
    · obtain ⟨k, hk, rfl⟩ := List.mem_map.mp ht
      exact (sampler_wellFormed.printable k hk).proper_plain
    · obtain rfl := List.mem_singleton.mp ht
      exact ⟨nofun, nofun⟩
  obtain ⟨-, hagain⟩ := Program.read_printed.2.1 _ _ r hproper hread hfound
  exact ⟨sampler_wellFormed, tokens, _, r, hprints, hread, hfound, hlike, hagain⟩

end Prosaic
