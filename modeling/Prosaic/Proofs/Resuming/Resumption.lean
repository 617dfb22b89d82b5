import Prosaic.Proofs.Except
import Prosaic.Proofs.Resuming.Boundary
import Prosaic.Proofs.Resuming.Failure

/-!
Where a block goes on behind a statement that cannot be read. The reading resumes at a boundary, and
the main statement says when that is the first one behind the place of the failure: unless the
statement starts with a period, or is a header that fails at its first token or ends at a period,
and something else than a word that resumes the reading follows. A header that ends at a period is
resumed twice, once by itself and once by its statement, so the statement behind the period is lost.
-/

namespace Prosaic.Parser

variable {block : Parser (List Stmt)} {s e r : State} {d : Diagnostic} {t : Token}

/-- Where the reading goes on behind such a failure. -/
inductive Resumes (block : Parser (List Stmt)) (s : State) (d : Diagnostic) (e : State) :
    State → Prop
  /-- Behind the colon of the header, with the block that the header is for. -/
  | header {r : State} (hs : s.current.headed = true)
      (h : recoverHeader s.advance.left (some d) e = .done ⟨⟩ r) : Resumes block s d e r
  /-- Behind the statement, with the rest of the block that it stands in. -/
  | statement {r e' : State} (h : Parser.statement block s = .failed d e')
      (hr : recoveringStatement block s = .done none r) : Resumes block s d e r

/-- The reading resumes no later than the first boundary at or behind the place of the failure that
is behind the first token of the statement. -/
def Timely (s e r : State) : Prop :=
  ∀ before after, s.rest = before ++ after → before ≠ [] → after.length ≤ e.left →
    Boundary s.current.headed before after → after.length ≤ r.left

/-- The tokens behind whose failure the reading resumes too late. -/
inductive Overruns : Bool → List Token → Prop
  /-- A header that fails at once, at a word before which the reading could resume: the word is
  skipped. -/
  | word {opener t : Token} {later : List Token} (ht : t.resumes = true) :
      Overruns true (opener :: t :: later)
  /-- A header that fails at once, at a colon: the colon is skipped, not taken for its end. -/
  | colon {opener t : Token} {later : List Token} (ht : t.isSign .colon = true)
      (hlater : GoesOn later) : Overruns true (opener :: t :: later)
  /-- A header that ends at a period: the reading is resumed behind it, and then once more. -/
  | period {opener period : Token} {header later : List Token}
      (hheader : ∀ t ∈ header, t.inner = true) (hperiod : period.isTerminator = true)
      (hlater : GoesOn later) : Overruns true (opener :: (header ++ period :: later))
  /-- A period where a statement should start is skipped before its end is looked for. -/
  | stray {period : Token} {later : List Token} (hperiod : period.isTerminator = true)
      (hlater : GoesOn later) : Overruns false (period :: later)

/-! ### Resuming -/

/-- What is skipped or looked through from the place of a failure on is all that is behind the first
token, but for inner tokens. -/
theorem State.Breaks.behind (h : s.Breaks e) :
    ∃ taken, (∀ t ∈ taken, t.inner = true) ∧
      s.rest.tail = taken ++ if e.left = s.left then e.rest.tail else e.rest := by
  obtain hrest | ⟨-, taken, htaken, hinner⟩ := h
  · have hleft : e.left = s.left := by rw [e.left_eq, s.left_eq, hrest]
    exact ⟨[], List.forall_mem_nil _, by rw [if_pos hleft, hrest, List.nil_append]⟩
  · rw [State.rest_advance] at htaken
    refine ⟨taken, hinner, ?_⟩
    split
    · next hleft =>
        -- nothing was taken, so there was nothing to take
        have hlength := congrArg List.length htaken
        rw [List.length_tail, List.length_append, ← s.left_eq, ← e.left_eq, hleft] at hlength
        have hnil : e.rest = [] := List.eq_nil_of_length_eq_zero (by rw [← e.left_eq]; omega)
        rw [htaken, hnil, List.tail_nil]
    · exact htaken

/-- Resuming behind a failure. -/
theorem synchronize_behind (h : s.Breaks e) (colonToo : Bool) :
    ∃ r, synchronize s.left colonToo e = .done (colonToo && meetsColon s.rest.tail) r ∧
      r.rest = fromBoundary colonToo s.rest.tail ∧ r.found = e.found := by
  obtain ⟨taken, hinner, htail⟩ := h.behind
  obtain ⟨r, hr, hrest, hfound⟩ := synchronize_eq s.left colonToo e
  rw [htail, meetsColon_inner hinner, fromBoundary_inner hinner]
  exact ⟨r, hr, hrest, hfound⟩

/-- A failed statement is resumed from where it failed. -/
theorem recoveringStatement_eq (h : statement block s = .failed d e) :
    ∃ r, recoveringStatement block s = .done none r ∧
      r.rest = fromBoundary false (if e.left = s.left then e.rest.tail else e.rest) ∧
      r.found = d :: e.found := by
  obtain ⟨r, hr, hrest, hfound⟩ := synchronize_eq s.left false { e with found := d :: e.found }
  refine ⟨r, ?_, hrest, hfound⟩
  simp only [recoveringStatement, liftM_eq, lift_eq, Bind.bind, remaining, BlockReader.attempt,
    attempt, h, report]
  rw [hr]
  rfl

theorem resumes_statement (hs : s.current.headed = false) (h : statement block s = .failed d e) :
    ∃ r, Resumes block s d e r ∧ r.rest = fromBoundary false s.rest.tail ∧
      r.found = d :: e.found := by
  obtain ⟨taken, hinner, htail⟩ := (breaksOff_statement hs rfl h).1.behind
  obtain ⟨r, hr, hrest, hfound⟩ := recoveringStatement_eq h
  exact ⟨r, .statement h hr, by rw [hrest, htail, fromBoundary_inner hinner], hfound⟩

/-- The tokens to come behind a failed header, of those behind its word. Without a colon it is
resumed once more, by its statement. -/
def resumedHeader (ts : List Token) : List Token :=
  if meetsColon ts.tail then fromBoundary true ts.tail
  else fromBoundary false (fromBoundary true ts.tail)

theorem resumes_header (hs : s.current.headed = true)
    (h : headerFailure s.current s.advance = .done (some d) e) :
    ∃ r, Resumes block s d e r ∧ r.rest = resumedHeader s.rest.tail ∧ r.found = d :: e.found := by
  obtain ⟨r, hr, hrest, hfound⟩ := synchronize_behind (inner_headerFailure h).1.breaks true
  rw [Bool.true_and] at hr
  rw [State.rest_advance] at hr hrest
  unfold resumedHeader
  cases hcolon : meetsColon s.rest.tail.tail with
  | true =>
      refine ⟨{ r with found := d :: r.found }, .header hs ?_, hrest, congrArg (d :: ·) hfound⟩
      simp only [recoverHeader, Bind.bind, hr, hcolon]
      rfl
  | false =>
      have hrecover : recoverHeader s.advance.left (some d) e = .failed d r := by
        simp only [recoverHeader, Bind.bind, hr, hcolon]
        rfl
      have hfailed : statement block s = .failed d r := statement_of_headerFailure hs h hrecover
      obtain ⟨r', hr', hrest', hfound'⟩ := recoveringStatement_eq hfailed
      refine ⟨r', .statement hfailed hr', ?_, hfound'.trans (congrArg (d :: ·) hfound)⟩
      have hleft : r.rest.length + 2 ≤ s.rest.length ∨ r.rest = [] := by
        have hle := (hrest ▸ fromBoundary_suffix true s.rest.tail.tail).length_le
        simp only [List.length_tail] at hle
        rw [← List.length_eq_zero_iff]
        omega
      rw [hrest', ← hrest, if_neg Bool.false_ne_true, r.left_eq, s.left_eq]
      obtain hlt | hnil := hleft
      · rw [if_neg (by omega)]
      · rw [hnil, List.tail_nil, ite_self]

/-! ### Whether it is in time -/

theorem meetsColon_of_not_goesOn {ts : List Token} (h : ¬GoesOn ts) : meetsColon ts = false := by
  cases ts with
  | nil => rfl
  | cons t ts =>
      have ht : t.resumes = true := by
        by_contra ht
        exact h ⟨t, rfl, Bool.eq_false_iff.mpr ht⟩
      have hcolon : t.isSign .colon = false :=
        Bool.eq_false_iff.mpr fun hsign => by simp [Token.not_resumes_of_isSign hsign] at ht
      simp [meetsColon, hcolon, Token.inner, ht]

theorem length_resumedHeader_le (ts : List Token) :
    (resumedHeader ts).length ≤ (fromBoundary true ts.tail).length := by
  unfold resumedHeader
  split
  · exact Nat.le_refl _
  · exact (fromBoundary_suffix false _).length_le

/-- Behind a token that ends the header, resuming comes no further if the reading resumes there. -/
theorem resumedHeader_lt_iff {ts : List Token} :
    (resumedHeader (t :: ts)).length < ts.length ↔ GoesOn ts := by
  constructor
  · intro hlt
    by_contra hgoes
    have hfirst : ∀ header, fromBoundary header ts = ts := fun header =>
      (fromBoundary_suffix header ts).eq_of_length_le <| Nat.le_of_not_lt
        (length_fromBoundary_lt_iff.not.mpr hgoes)
    simp [resumedHeader, meetsColon_of_not_goesOn hgoes, hfirst] at hlt
  · exact fun hgoes => Nat.lt_of_le_of_lt (length_resumedHeader_le (t :: ts))
      (length_fromBoundary_lt_iff.mpr hgoes)

/-- A header without a colon ends at a period, if the reading does not resume behind it at once. -/
theorem goesOn_fromBoundary_iff {ts : List Token} (h : meetsColon ts = false) :
    GoesOn (fromBoundary true ts) ↔ ∃ header period later, ts = header ++ period :: later ∧
      (∀ t ∈ header, t.inner = true) ∧ period.isTerminator = true ∧ GoesOn later := by
  constructor
  · intro hgoes
    induction ts with
    | nil => obtain ⟨t, ht, -⟩ := hgoes; cases ht
    | cons t ts ih =>
        simp only [meetsColon, Bool.or_eq_false_iff] at h
        obtain hresumes | hperiod | hcolon | hinner := t.cases_boundary
        · rw [fromBoundary, if_pos hresumes] at hgoes
          obtain ⟨u, hu, hfalse⟩ := hgoes
          obtain rfl := Option.mem_some.mp hu
          exact absurd (hresumes.symm.trans hfalse) Bool.false_ne_true.symm
        · refine ⟨[], t, ts, rfl, List.forall_mem_nil _, hperiod, ?_⟩
          rwa [fromBoundary_cons_of_ends hperiod] at hgoes
        · exact absurd (h.1.symm.trans hcolon) Bool.false_ne_true
        · rw [fromBoundary_cons_inner hinner] at hgoes
          obtain ⟨header, period, later, rfl, hheader, hperiod, hlater⟩ :=
            ih (by simpa [hinner] using h.2) hgoes
          exact ⟨t :: header, period, later, rfl, List.forall_mem_cons.mpr ⟨hinner, hheader⟩,
            hperiod, hlater⟩
  · rintro ⟨header, period, later, rfl, hheader, hperiod, hlater⟩
    rwa [fromBoundary_inner hheader, fromBoundary_cons_of_ends hperiod]

/-- Behind a header whose first token is inside it, resuming goes too far at a period only. -/
theorem resumedHeader_inner_iff {ts : List Token} (ht : t.inner = true) :
    (resumedHeader (t :: ts)).length < (fromBoundary true (t :: ts)).length ↔
      meetsColon ts = false ∧ GoesOn (fromBoundary true ts) := by
  rw [fromBoundary_cons_inner ht]
  unfold resumedHeader
  rw [List.tail_cons]
  cases meetsColon ts with
  | true => simp
  | false => simp [length_fromBoundary_lt_iff]

theorem meetsColon_of_period {header later : List Token} {period : Token}
    (hheader : ∀ t ∈ header, t.inner = true) (hperiod : period.isTerminator = true) :
    meetsColon (header ++ period :: later) = false := by
  have hcolon : period.isSign .colon = false := by
    have hkind : period.kind = .terminator := of_decide_eq_true hperiod
    simp [Token.isSign, hkind]
  rw [meetsColon_inner hheader]
  simp [meetsColon, hcolon, Token.inner, hperiod]

theorem overruns_cons_iff {opener : Token} {ts : List Token} :
    Overruns true (opener :: ts) ↔ (resumedHeader ts).length < (fromBoundary true ts).length := by
  constructor
  · rintro (⟨ht⟩ | ⟨ht, hlater⟩ | ⟨hheader, hperiod, hlater⟩)
    · next t later =>
        rw [fromBoundary, if_pos ht, List.length_cons]
        have hle := (fromBoundary_suffix true later).length_le
        exact Nat.lt_succ_of_le (Nat.le_trans (length_resumedHeader_le (t :: later)) hle)
    · rw [fromBoundary_cons_of_colon ht]
      exact resumedHeader_lt_iff.mpr hlater
    · next period header later =>
        cases header with
        | nil =>
            rw [List.nil_append, fromBoundary_cons_of_ends hperiod]
            exact resumedHeader_lt_iff.mpr hlater
        | cons t header =>
            obtain ⟨ht, hheader⟩ := List.forall_mem_cons.mp hheader
            have hcolon : meetsColon (header ++ period :: later) = false :=
              meetsColon_of_period hheader hperiod
            exact (resumedHeader_inner_iff ht).mpr ⟨hcolon, (goesOn_fromBoundary_iff hcolon).mpr
              ⟨header, period, later, rfl, hheader, hperiod, hlater⟩⟩
  · intro hlt
    cases ts with
    | nil => exact absurd hlt (Nat.not_lt_zero _)
    | cons t ts =>
        obtain hresumes | hperiod | hcolon | hinner := t.cases_boundary
        · exact .word hresumes
        · rw [fromBoundary_cons_of_ends hperiod] at hlt
          have hnil : Overruns true (opener :: ([] ++ t :: ts)) :=
            .period (List.forall_mem_nil _) hperiod (resumedHeader_lt_iff.mp hlt)
          exact hnil
        · rw [fromBoundary_cons_of_colon hcolon] at hlt
          exact .colon hcolon (resumedHeader_lt_iff.mp hlt)
        · obtain ⟨hcolon, hgoes⟩ := (resumedHeader_inner_iff hinner).mp hlt
          obtain ⟨header, period, later, rfl, hheader, hperiod, hlater⟩ :=
            (goesOn_fromBoundary_iff hcolon).mp hgoes
          rw [← List.cons_append]
          exact .period (List.forall_mem_cons.mpr ⟨hinner, hheader⟩) hperiod hlater

theorem overruns_header_iff {ts : List Token} :
    Overruns true ts ↔ (resumedHeader ts.tail).length < (fromBoundary true ts.tail).length := by
  cases ts with
  | nil => exact iff_of_false nofun (Nat.not_lt_zero _)
  | cons opener ts => exact overruns_cons_iff

theorem timely_of_rest_nil (hs : s.rest = []) : Timely s e r := by
  intro before after happend hne
  rw [hs] at happend
  exact absurd (List.append_eq_nil_iff.mp happend.symm).1 hne

/-- Where the first token ends nothing, the reading resumes in time if it resumes no later than at
the first boundary behind that token. -/
theorem timely_iff {ts : List Token} (hs : s.rest = t :: ts) (ht : t.isTerminator = false)
    (hcolon : (s.current.headed && t.isSign .colon) = false)
    (he : (fromBoundary s.current.headed ts).length ≤ e.left) :
    Timely s e r ↔ (fromBoundary s.current.headed ts).length ≤ r.left := by
  constructor
  · intro h
    obtain ⟨before, hbefore, hboundary⟩ := fromBoundary_boundary s.current.headed ts
    exact h (t :: before) _ (by rw [hs, List.cons_append, ← hbefore]) (List.cons_ne_nil _ _) he
      hboundary.cons
  · intro hr before after hrest hne _ hboundary
    cases before with
    | nil => exact absurd rfl hne
    | cons u before =>
        rw [hs, List.cons_append, List.cons.injEq] at hrest
        obtain ⟨rfl, rfl⟩ := hrest
        exact Nat.le_trans (hboundary.tail ht hcolon).length_le hr

theorem timely_header_iff (hs : s.current.headed = true) (he : s.advance.Inner e)
    (hr : r.rest = resumedHeader s.rest.tail) : Timely s e r ↔ ¬Overruns true s.rest := by
  cases hrest : s.rest with
  | nil => exact iff_of_true (timely_of_rest_nil hrest) nofun
  | cons t ts =>
      have hcurrent : s.current = t := by rw [State.current, hrest]; rfl
      have ht : t.isTerminator = false ∧ t.isSign .colon = false := by
        rw [hcurrent, Token.headed, Bool.or_eq_true] at hs
        obtain hkind | hkind := hs.imp of_decide_eq_true of_decide_eq_true
        · simp [Token.isTerminator, Token.isSign, hkind]
        · simp [Token.isTerminator, Token.isSign, hkind]
      obtain ⟨taken, htaken, hinner⟩ := he
      rw [State.rest_advance, hrest, List.tail_cons] at htaken
      have hle : (fromBoundary true ts).length ≤ e.left := by
        rw [htaken, fromBoundary_inner hinner, e.left_eq]
        exact (fromBoundary_suffix true e.rest).length_le
      rw [timely_iff hrest ht.1 (by rw [ht.2, Bool.and_false]) (hs ▸ hle), hs, r.left_eq, hr, hrest,
        List.tail_cons, overruns_cons_iff, Nat.not_lt]

theorem overruns_statement_iff {ts : List Token} :
    Overruns false (t :: ts) ↔ t.isTerminator = true ∧ GoesOn ts :=
  ⟨fun | .stray hperiod hlater => ⟨hperiod, hlater⟩, fun h => .stray h.1 h.2⟩

theorem timely_statement_iff (hs : s.current.headed = false) (he : s.Breaks e)
    (hr : r.rest = fromBoundary false s.rest.tail) : Timely s e r ↔ ¬Overruns false s.rest := by
  cases hrest : s.rest with
  | nil => exact iff_of_true (timely_of_rest_nil hrest) nofun
  | cons t ts =>
      have hcurrent : s.current = t := by rw [State.current, hrest]; rfl
      rw [hrest, List.tail_cons] at hr
      rw [overruns_statement_iff]
      cases ht : t.isTerminator with
      | false =>
          have hle : (fromBoundary false ts).length ≤ e.left := by
            rw [e.left_eq]
            obtain heq | ⟨-, taken, htaken, hinner⟩ := he
            · rw [heq, hrest, List.length_cons]
              exact Nat.le_succ_of_le (fromBoundary_suffix false ts).length_le
            · rw [State.rest_advance, hrest, List.tail_cons] at htaken
              rw [htaken, fromBoundary_inner hinner]
              exact (fromBoundary_suffix false e.rest).length_le
          rw [timely_iff hrest ht (by rw [hs, Bool.false_and]) (hs ▸ hle), hs, r.left_eq, hr]
          simp
      | true =>
          -- the period is the first boundary behind itself
          have heq : e.rest = s.rest := he.resolve_right fun h => by simp [hcurrent, ht] at h
          have hboundary : Boundary s.current.headed [t] ts := .inl ⟨t, rfl, .inl ht⟩
          rw [← length_fromBoundary_lt_iff, ← hr]
          simp only [true_and, Nat.not_lt]
          constructor
          · intro h
            rw [← r.left_eq]
            have hle : ts.length ≤ e.left := by rw [e.left_eq, heq, hrest]; simp
            exact h [t] ts hrest (List.cons_ne_nil _ _) hle hboundary
          · intro hle before after happend hne _ _
            cases before with
            | nil => exact absurd rfl hne
            | cons u before =>
                rw [hrest, List.cons_append, List.cons.injEq] at happend
                have hlength := congrArg List.length happend.2
                rw [List.length_append] at hlength
                rw [r.left_eq]
                omega

theorem resumedHeader_boundary {ts us : List Token} (h : ts <:+ us) :
    ∃ before, us = before ++ resumedHeader ts ∧ Boundary true before (resumedHeader ts) := by
  have htail : ts.tail <:+ us := (List.tail_suffix ts).trans h
  unfold resumedHeader
  split
  · exact exists_boundary true htail
  · obtain ⟨before, hbefore, hboundary⟩ :=
      exists_boundary false ((fromBoundary_suffix true ts.tail).trans htail)
    exact ⟨before, hbefore, hboundary.widen⟩

/-- Where a statement fails, or its header does, the reading reports it and resumes at a boundary,
and that is no later than the first one behind the failure, unless the tokens are such as overrun
it. -/
theorem resumes_in_time_iff (hblock : Recovers block) :
    (∀ s d e, statement block s = .failed d e → ∃ e', FailsAt block s d e') ∧
    ∀ s d e, FailsAt block s d e →
      d.location = e.current.span.start.location ∧
      ∃ r, Resumes block s d e r ∧ r.found = d :: e.found ∧
        (∃ before, s.rest = before ++ r.rest ∧ Boundary s.current.headed before r.rest) ∧
        (Timely s e r ↔ ¬Overruns s.current.headed s.rest) := by
  refine ⟨fun s d e => failsAt_of_failed hblock, fun s d e h => ?_⟩
  unfold FailsAt at h
  split at h
  · next hs =>
      obtain ⟨hinner, hlocation⟩ := inner_headerFailure h
      obtain ⟨r, hr, hrest, hfound⟩ := resumes_header hs h
      refine ⟨hlocation, r, hr, hfound, ?_, hs.symm ▸ timely_header_iff hs hinner hrest⟩
      rw [hrest, hs]
      exact resumedHeader_boundary (List.tail_suffix s.rest)
  · next hs =>
      have hs := Bool.eq_false_iff.mpr hs
      obtain ⟨hbreaks, hlocation⟩ := breaksOff_statement hs rfl h
      obtain ⟨r, hr, hrest, hfound⟩ := resumes_statement hs h
      refine ⟨hlocation, r, hr, hfound, ?_, hs.symm ▸ timely_statement_iff hs hbreaks hrest⟩
      rw [hrest, hs]
      exact exists_boundary false (List.tail_suffix s.rest)

/-- A header without its `then` ends at a period, and a word behind it resumes the reading. -/
theorem resumes_in_time_headerBeforeReturn :
    ∃ tokens stop, Token.scan "If x y. Return 5." = .ok (tokens ++ [stop]) ∧
      let s := State.start tokens stop (.start .standard .still)
      ∃ d e r, FailsAt Parser.block s d e ∧ Resumes Parser.block s d e r ∧ r.found = d :: e.found ∧
        Timely s e r := by
  have hrun : ((Token.scan "If x y. Return 5.").toOption.any fun tokens =>
      tokens = tokens.dropLast ++ tokens.getLast?.toList &&
      tokens.getLast?.any fun stop =>
      let s := State.start tokens.dropLast stop (.start .standard .still)
      s.current.headed &&
      (fromBoundary true s.rest.tail).length ≤ (resumedHeader s.rest.tail).length &&
      match (statement Parser.block : Parser _) s with
      | .failed _ _ => true
      | _ => false) = true := by
    decide +kernel
  obtain ⟨tokens, hscan, hrun⟩ := any_toOption.mp hrun
  simp only [Bool.and_eq_true, decide_eq_true_eq] at hrun
  obtain ⟨hsplit, hrun⟩ := hrun
  obtain ⟨stop, hstop, hrun⟩ := (Option.any_eq_true _ _).mp hrun
  simp only [Bool.and_eq_true, decide_eq_true_eq] at hrun
  obtain ⟨⟨hheaded, hintime⟩, hfailed⟩ := hrun
  rw [hstop] at hsplit
  refine ⟨_, _, hscan.trans (congrArg _ hsplit), ?_⟩
  split at hfailed
  · next d e' hstatement =>
      obtain ⟨hfailure, hresumes⟩ := resumes_in_time_iff recovers_block
      obtain ⟨e, hat⟩ := hfailure _ d e' hstatement
      obtain ⟨-, r, hr, hfound, -, htimely⟩ := hresumes _ d e hat
      refine ⟨d, e, r, hat, hr, hfound, htimely.mpr ?_⟩
      rw [hheaded, overruns_header_iff, Nat.not_lt]
      exact hintime
  · cases hfailed

/-- The value that a parser ends with, if it ends with one. -/
def Outcome.value? {α : Type} : Outcome α → Option α
  | .done a _ => some a
  | .failed .. | .stopped .. => none

theorem Outcome.done_of_value? {α : Type} {o : Outcome α} {a : α} (h : o.value? = some a) :
    ∃ s, o = .done a s := by
  cases o with
  | done b s => exact ⟨s, congrArg (Outcome.done · s) (Option.some.inj h)⟩
  | failed | stopped => cases h

/-- A header without its `then` ends at a period, and a call follows: what is wrong with the call is
not reported. -/
theorem not_timely_headerBeforeCall :
    ∃ before tokens stop,
      Token.scan "Define function f: If x y. Call 5. End function." =
        .ok (before ++ tokens ++ [stop]) ∧
      (∃ reading, Program.read (before ++ tokens ++ [stop]) (.start .standard .still) =
        some reading ∧ reading.found.length = 1) ∧
      let s := State.start tokens stop (.start .standard .still)
      ∃ d e r, FailsAt Parser.block s d e ∧ Resumes Parser.block s d e r ∧ ¬Timely s e r := by
  have hrun : ((Token.scan "Define function f: If x y. Call 5. End function.").toOption.any
      fun tokens =>
        tokens = tokens.take 4 ++ (tokens.drop 4).dropLast ++ tokens.getLast?.toList &&
        tokens.getLast?.any fun stop =>
        (Program.read tokens (.start .standard .still)).any fun reading =>
        reading.found.length = 1 &&
        let s := State.start (tokens.drop 4).dropLast stop (.start .standard .still)
        s.current.headed &&
        (resumedHeader s.rest.tail).length < (fromBoundary true s.rest.tail).length &&
        (headerFailure s.current s.advance).value?.any Option.isSome) = true := by
    decide +kernel
  obtain ⟨tokens, hscan, hrun⟩ := any_toOption.mp hrun
  simp only [Bool.and_eq_true, decide_eq_true_eq] at hrun
  obtain ⟨hsplit, hrun⟩ := hrun
  obtain ⟨stop, hstop, hrun⟩ := (Option.any_eq_true _ _).mp hrun
  obtain ⟨reading, hread, hrun⟩ := (Option.any_eq_true _ _).mp hrun
  simp only [Bool.and_eq_true, decide_eq_true_eq] at hrun
  obtain ⟨hcount, ⟨hheaded, hlate⟩, hfails⟩ := hrun
  rw [hstop] at hsplit
  refine ⟨_, _, _, hscan.trans (congrArg _ hsplit), ⟨reading, hsplit ▸ hread, hcount⟩, ?_⟩
  obtain ⟨failure, hvalue, hsome⟩ := (Option.any_eq_true _ _).mp hfails
  obtain ⟨d, rfl⟩ := Option.isSome_iff_exists.mp hsome
  obtain ⟨e, hheader⟩ := Outcome.done_of_value? hvalue
  have hat : FailsAt Parser.block _ d e := (if_pos hheaded).mpr hheader
  obtain ⟨r, hr, hrest, -⟩ := resumes_header hheaded hheader
  refine ⟨d, e, r, hat, hr, fun htimely => ?_⟩
  have htimely := (timely_header_iff hheaded (inner_headerFailure hheader).1 hrest).mp htimely
  exact htimely (overruns_header_iff.mpr hlate)

end Prosaic.Parser
