import Prosaic.Proofs.Resuming.Inner

/-!
Boundaries: the points at which a reading can resume. Skipping stops at the first one, and
`fromBoundary` says which tokens are then to come.
-/

namespace Prosaic

/-- Between these tokens a reading can resume: behind a period, before a word that resumes it, or at
the end; inside a header also behind a colon. -/
def Boundary (header : Bool) (before after : List Token) : Prop :=
  (∃ t ∈ before.getLast?, t.isTerminator = true ∨ header = true ∧ t.isSign .colon = true) ∨
    ∀ t ∈ after.head?, t.resumes = true

/-- The tokens from the first boundary on. -/
def fromBoundary (header : Bool) : List Token → List Token
  | [] => []
  | t :: ts =>
    if t.resumes then t :: ts
    else if t.isTerminator || header && t.isSign .colon then ts
    else fromBoundary header ts

/-- The first boundary of a header is a colon. -/
def meetsColon : List Token → Bool
  | [] => false
  | t :: ts => t.isSign .colon || t.inner && meetsColon ts

section

variable {header : Bool} {before after front ts : List Token} {t : Token}

theorem Boundary.append (h : Boundary header before after) :
    Boundary header (front ++ before) after := by
  refine h.imp_left fun ⟨t, ht, hends⟩ => ⟨t, ?_, hends⟩
  exact List.mem_getLast?_append_of_mem_getLast? ht

theorem Boundary.cons (h : Boundary header before after) : Boundary header (t :: before) after :=
  List.singleton_append ▸ h.append

theorem Boundary.widen (h : Boundary false before after) : Boundary header before after :=
  h.imp_left fun ⟨t, ht, hends⟩ => ⟨t, ht, .inl (hends.resolve_right fun h => nomatch h.1)⟩

/-- Behind a token that ends nothing there is a boundary only for what follows. -/
theorem Boundary.tail (h : Boundary header (t :: before) after) (ht : t.isTerminator = false)
    (hcolon : (header && t.isSign .colon) = false) : Boundary header before after := by
  refine h.imp_left fun ⟨u, hu, hends⟩ => ⟨u, ?_, hends⟩
  cases before with
  | nil =>
      obtain rfl : t = u := by simpa using hu
      obtain hends | hends := hends
      · exact absurd (ht.symm.trans hends) Bool.false_ne_true
      · simp [hends] at hcolon
  | cons v before => rwa [List.getLast?_cons_cons] at hu

theorem fromBoundary_of_resumes (h : ∀ t ∈ ts.head?, t.resumes = true) :
    fromBoundary header ts = ts := by
  cases ts with
  | nil => rfl
  | cons t ts => exact if_pos (h t rfl)

theorem fromBoundary_cons_of_ends (ht : t.isTerminator = true) :
    fromBoundary header (t :: ts) = ts := by
  simp [fromBoundary, Token.not_resumes_of_isTerminator ht, ht]

theorem fromBoundary_cons_of_colon (ht : t.isSign .colon = true) :
    fromBoundary true (t :: ts) = ts := by
  simp [fromBoundary, Token.not_resumes_of_isSign ht, ht]

theorem fromBoundary_cons_inner (ht : t.inner = true) :
    fromBoundary header (t :: ts) = fromBoundary header ts := by
  simp [fromBoundary, Token.not_resumes_of_inner ht, Token.not_isTerminator_of_inner ht,
    Token.not_colon_of_inner ht]

theorem fromBoundary_inner (h : ∀ t ∈ front, t.inner = true) :
    fromBoundary header (front ++ ts) = fromBoundary header ts := by
  induction front with
  | nil => rfl
  | cons t front ih =>
      obtain ⟨ht, hfront⟩ := List.forall_mem_cons.mp h
      rw [List.cons_append, fromBoundary_cons_inner ht, ih hfront]

theorem fromBoundary_suffix (header : Bool) (ts : List Token) : fromBoundary header ts <:+ ts := by
  induction ts with
  | nil => exact List.suffix_rfl
  | cons t ts ih =>
      unfold fromBoundary
      split
      · exact List.suffix_rfl
      · split
        · exact List.suffix_cons t ts
        · exact ih.trans (List.suffix_cons t ts)

theorem fromBoundary_boundary (header : Bool) (ts : List Token) :
    ∃ before, ts = before ++ fromBoundary header ts ∧
      Boundary header before (fromBoundary header ts) := by
  induction ts with
  | nil => exact ⟨[], rfl, .inr nofun⟩
  | cons t ts ih =>
      unfold fromBoundary
      split
      · next ht => exact ⟨[], rfl, .inr fun u hu => Option.mem_some.mp hu ▸ ht⟩
      · split
        · next ht => exact ⟨[t], rfl, .inl ⟨t, rfl, by simpa using ht⟩⟩
        · obtain ⟨before, hbefore, hboundary⟩ := ih
          exact ⟨t :: before, congrArg (t :: ·) hbefore, hboundary.cons⟩

/-- Wherever the search starts, it ends at a boundary of all tokens. -/
theorem exists_boundary (header : Bool) (h : ts <:+ front) :
    ∃ before, front = before ++ fromBoundary header ts ∧
      Boundary header before (fromBoundary header ts) := by
  obtain ⟨skipped, rfl⟩ := h
  obtain ⟨before, hbefore, hboundary⟩ := fromBoundary_boundary header ts
  exact ⟨skipped ++ before, by rw [List.append_assoc, ← hbefore], hboundary.append⟩

/-- No boundary comes before the first one. -/
theorem Boundary.length_le (h : Boundary header before after) :
    after.length ≤ (fromBoundary header (before ++ after)).length := by
  induction before with
  | nil =>
      have hafter : fromBoundary header after = after :=
        fromBoundary_of_resumes (h.resolve_left nofun)
      exact Nat.le_of_eq (congrArg List.length hafter).symm
  | cons t before ih =>
      rw [List.cons_append]
      unfold fromBoundary
      split
      · simp only [List.length_cons, List.length_append]
        omega
      · split
        · simp only [List.length_append]
          omega
        · next hends =>
            rw [Bool.not_eq_true, Bool.or_eq_false_iff] at hends
            exact ih (h.tail hends.1 hends.2)

/-- The tokens at which a reading does not resume at once. -/
def GoesOn (ts : List Token) : Prop := ∃ t ∈ ts.head?, t.resumes = false

theorem length_fromBoundary_lt_iff :
    (fromBoundary header ts).length < ts.length ↔ GoesOn ts := by
  cases ts with
  | nil => simp [fromBoundary, GoesOn]
  | cons t ts =>
      have hle := (fromBoundary_suffix header ts).length_le
      unfold fromBoundary
      split
      · next ht => simp [GoesOn, ht]
      · next ht =>
          have hgoes : GoesOn (t :: ts) := ⟨t, rfl, Bool.eq_false_iff.mpr ht⟩
          refine iff_of_true ?_ hgoes
          rw [List.length_cons]
          split <;> omega

theorem meetsColon_inner (h : ∀ t ∈ front, t.inner = true) :
    meetsColon (front ++ ts) = meetsColon ts := by
  induction front with
  | nil => rfl
  | cons t front ih =>
      obtain ⟨ht, hfront⟩ := List.forall_mem_cons.mp h
      simp [meetsColon, ht, Token.not_colon_of_inner ht, ih hfront]

end

namespace Parser

/-! ### Skipping -/

/-- One turn of skipping. -/
theorem skipToBoundary_succ (colonToo : Bool) (fuel : Nat) (s : State) :
    skipToBoundary colonToo (fuel + 1) s =
      if s.current.resumes then .done false s
      else if s.current.isTerminator then .done false s.advance
      else if colonToo && s.current.isSign .colon then .done true s.advance
      else skipToBoundary colonToo fuel s.advance := by
  simp only [skipToBoundary, Bind.bind, Parser.current, Token.resumes, Token.isTerminator,
    Token.isSign]
  obtain ⟨kind, hkind⟩ : ∃ kind, s.current.kind = kind := ⟨_, rfl⟩
  cases kind with
  | keyword word => cases h : isBoundaryWord word <;> simp [hkind, h, Pure.pure, advance]
  | sign sign => cases sign <;> cases colonToo <;> simp [hkind, Pure.pure, advance]
  | _ => simp [hkind, Pure.pure, advance]

/-- Skipping comes to the first boundary, and tells whether it is a colon. -/
theorem skipToBoundary_eq (colonToo : Bool) (fuel : Nat) (s : State) (hs : s.left = fuel) :
    ∃ r, skipToBoundary colonToo fuel s = .done (colonToo && meetsColon s.rest) r ∧
      r.rest = fromBoundary colonToo s.rest ∧ r.found = s.found := by
  induction fuel generalizing s with
  | zero =>
      have hrest : s.rest = [] := List.eq_nil_of_length_eq_zero (s.left_eq ▸ hs)
      exact ⟨s, by simp [skipToBoundary, hrest, meetsColon, Pure.pure], by rw [hrest]; rfl, rfl⟩
  | succ fuel ih =>
      obtain ⟨t, rest, hrest⟩ := List.exists_cons_of_length_eq_add_one (s.left_eq ▸ hs)
      have hcurrent : s.current = t := by rw [State.current, hrest]; rfl
      have hadvance : s.advance.rest = rest := by rw [State.rest_advance, hrest]; rfl
      have hleft : s.advance.left = fuel := by
        rw [s.left_eq, hrest, List.length_cons] at hs
        rw [s.advance.left_eq, hadvance]
        omega
      obtain ⟨r, hr, hfrom, hfound⟩ := ih s.advance hleft
      rw [hadvance] at hr hfrom
      rw [State.found_advance] at hfound
      rw [skipToBoundary_succ, hcurrent, hrest]
      simp only [fromBoundary, meetsColon, Token.inner]
      cases hresumes : t.resumes with
      | true =>
          have hcolon : t.isSign .colon = false :=
            Bool.eq_false_iff.mpr fun h => by simp [Token.not_resumes_of_isSign h] at hresumes
          exact ⟨s, by simp [hcolon], by simpa using hrest, rfl⟩
      | false =>
          cases hends : t.isTerminator with
          | true =>
              have hcolon : t.isSign .colon = false := by
                simp only [Token.isTerminator, decide_eq_true_eq] at hends
                simp [Token.isSign, hends]
              exact ⟨s.advance, by simp [hcolon], by simpa using hadvance, s.found_advance⟩
          | false =>
              cases hcolon : t.isSign .colon with
              | false => exact ⟨r, by simpa using hr, by simpa using hfrom, hfound⟩
              | true =>
                  cases colonToo with
                  | true => exact ⟨s.advance, by simp, by simpa using hadvance, s.found_advance⟩
                  | false => exact ⟨r, by simpa using hr, by simpa using hfrom, hfound⟩

/-- Resuming skips a token if none was taken since a point, and then goes on to the first
boundary. -/
theorem synchronize_eq (start : Nat) (colonToo : Bool) (s : State) :
    let ts := if s.left = start then s.rest.tail else s.rest
    ∃ r, synchronize start colonToo s = .done (colonToo && meetsColon ts) r ∧
      r.rest = fromBoundary colonToo ts ∧ r.found = s.found := by
  intro ts
  by_cases hleft : s.left = start
  · obtain ⟨r, hr, hfrom, hfound⟩ := skipToBoundary_eq colonToo s.advance.left s.advance rfl
    have hts : ts = s.advance.rest := (if_pos hleft).trans (State.rest_advance s).symm
    refine ⟨r, ?_, hts ▸ hfrom, hfound.trans s.found_advance⟩
    rw [hts, ← hr]
    exact congrFun (if_pos hleft) s
  · obtain ⟨r, hr, hfrom, hfound⟩ := skipToBoundary_eq colonToo s.left s rfl
    have hts : ts = s.rest := if_neg hleft
    refine ⟨r, ?_, hts ▸ hfrom, hfound⟩
    rw [hts, ← hr]
    exact congrFun (if_neg hleft) s

end Parser

end Prosaic
