import Prosaic.Proofs.Grammar.Declaration
import Prosaic.Proofs.Printing.Statement
import Prosaic.Proofs.Program.Bare

/-!
Printed declarations are read back, one after the other to the end of the text.
-/

namespace Prosaic

open Token (Kind)

def TypeRef.Like (r r' : TypeRef) : Prop := r'.spanless = r.spanless

def Typed.Like (t t' : Typed) : Prop := t'.spanless = t.spanless

def Decl.Like (d d' : Decl) : Prop := d'.spanless = d.spanless

namespace Parser

variable {ks follow : List Kind} {bs : List Block}

/-! ### Types -/

/-- Whatever follows, except `of`, which would go on the name `List`. -/
def EndsType (ks : List Kind) : Prop := ks.headD .eof ≠ .keyword .of

theorem exists_goes_typeRefUpTo (ty : TypeRef) :
    ∃ c, ∀ d follow bs, ty.kinds.length ≤ d → EndsType follow →
      Goes c (typeRefUpTo d) (ty.kinds ++ follow) bs ty.Like follow bs := by
  induction ty with
  | named name span =>
      refine ⟨0, fun d follow bs _ hfollow => ?_⟩
      have hnamed : ∀ t : Token, t.lexeme = name →
          (TypeRef.named name span).Like (.named t.lexeme t.span) := by
        rintro t rfl
        rfl
      cases d with
      | zero => exact (goes_expectIdentifier name _ _).step fun t ht => .pure (hnamed t ht)
      | succ d =>
          refine (goes_expectIdentifier name _ _).step fun t ht => ?_
          split
          · refine (goes_acceptKeyword_other hfollow).step fun more hmore => ?_
            subst hmore
            exact .pure (hnamed t ht)
          · exact .pure (hnamed t ht)
  | list element span ih =>
      obtain ⟨c, hc⟩ := ih
      refine ⟨1 + c, fun d follow bs hd hfollow => ?_⟩
      simp only [TypeRef.kinds, List.length_append, List.length_cons, List.length_nil] at hd
      cases d with
      | zero => omega
      | succ d =>
          refine (goes_expectIdentifier "List" _ _).step fun t ht => ?_
          rw [if_pos ht]
          refine (goes_acceptKeyword .of).step fun more hmore => ?_
          subst hmore
          refine ((hc d follow bs (by omega) hfollow).nested t).last fun ty hty => ?_
          exact (goes_spanFrom t).step fun _ _ => .pure (congrArg (TypeRef.list · default) hty)

theorem exists_goes_typeRef (ty : TypeRef) :
    ∃ c, ∀ follow bs, EndsType follow →
      Goes c typeRef (ty.kinds ++ follow) bs ty.Like follow bs := by
  obtain ⟨c, hc⟩ := exists_goes_typeRefUpTo ty
  refine ⟨c, fun follow bs hfollow => goes_remaining.step fun fuel hfuel => ?_⟩
  rw [List.length_append] at hfuel
  exact hc fuel follow bs (by omega) hfollow

/-! ### Functions -/

theorem exists_goes_parameter (p : Typed) :
    ∃ c, ∀ follow bs, EndsType follow →
      Goes c parameter (p.kinds ++ follow) bs p.Like follow bs := by
  obtain ⟨c, hc⟩ := exists_goes_typeRef p.ty
  refine ⟨c, fun follow bs hfollow => (goes_expectIdentifier p.name _ _).step fun t ht => ?_⟩
  refine (goes_expectKeyword .as_ _ _).step fun _ _ => (hc follow bs hfollow).last fun ty hty => ?_
  refine (goes_spanFrom t).step fun span _ => .pure ?_
  unfold Typed.Like TypeRef.Like at *
  simp [Typed.spanless, ht, hty]

/-- What may follow a list of parameters. -/
def EndsParameters (ks : List Kind) : Prop := EndsType ks ∧ ks.headD .eof ≠ .sign .comma

theorem exists_goes_parameters (p : Typed) (ps : List Typed) :
    ∃ c, ∀ fuel follow bs, ps.length < fuel → EndsParameters follow →
      Goes c (parameters fuel) (Typed.listed (p :: ps) ++ follow) bs
        (fun r => ∃ ps', r = (ps', none) ∧ ps'.map Typed.spanless = (p :: ps).map Typed.spanless)
        follow bs := by
  induction ps generalizing p with
  | nil =>
      obtain ⟨c, hc⟩ := exists_goes_parameter p
      refine ⟨c, fun fuel follow bs hfuel hfollow => ?_⟩
      cases fuel with
      | zero => cases hfuel
      | succ fuel =>
          refine (hc follow bs hfollow.1).attempt.last fun r ⟨p', hr, hp'⟩ => ?_
          subst hr
          refine (goes_acceptSign_other hfollow.2).step fun more hmore => ?_
          subst hmore
          exact .pure ⟨[p'], rfl, congrArg ([·]) hp'⟩
  | cons q qs ih =>
      obtain ⟨c₁, hfirst⟩ := exists_goes_parameter p
      obtain ⟨c₂, hrest⟩ := ih q
      refine ⟨c₁ + c₂, fun fuel follow bs hfuel hfollow => ?_⟩
      rw [List.length_cons] at hfuel
      cases fuel with
      | zero => cases hfuel
      | succ fuel =>
          have hks : Typed.listed (p :: q :: qs) ++ follow =
              p.kinds ++ (.sign .comma :: (Typed.listed (q :: qs) ++ follow)) := by
            simp [Typed.listed]
          rw [hks]
          refine (hfirst _ bs (by simp [EndsType])).attempt.bind fun r ⟨p', hr, hp'⟩ => ?_
          subst hr
          refine (goes_acceptSign .comma).step fun more hmore => ?_
          subst hmore
          refine (hrest fuel follow bs (by omega) hfollow).last fun r ⟨ps', hr, hps'⟩ => ?_
          subst hr
          exact .pure ⟨p' :: ps', rfl, congrArg₂ List.cons hp' hps'⟩

theorem length_le_listed (ps : List Typed) : ps.length ≤ (Typed.listed ps).length := by
  induction ps with
  | nil => exact Nat.le_refl _
  | cons p ps ih =>
      cases ps with
      | nil => simp [Typed.listed, Typed.kinds]
      | cons q qs =>
          simp only [Typed.listed, Typed.kinds, List.length_append, List.length_cons] at ih ⊢
          omega

theorem exists_goes_returnClause (returns : Option TypeRef) :
    ∃ c, ∀ ks bs, Goes c returnClause (TypeRef.returned returns ++ (.sign .colon :: ks)) bs
      (fun o => o.map TypeRef.spanless = returns.map TypeRef.spanless) (.sign .colon :: ks) bs := by
  cases returns with
  | none =>
      refine ⟨0, fun ks bs => (goes_acceptKeyword_other ?_).step fun more hmore => ?_⟩
      · simp [TypeRef.returned]
      · subst hmore
        exact .pure rfl
  | some ty =>
      obtain ⟨c, hc⟩ := exists_goes_typeRef ty
      refine ⟨c, fun ks bs => (goes_acceptKeyword .returning).step fun more hmore => ?_⟩
      subst hmore
      refine .map ((hc _ bs ?_).imp fun ty' hty' => congrArg some hty')
      simp [EndsType]

theorem goes_headerEnd (name : String) :
    Goes 0 (headerEnd name) (.sign .colon :: ks) bs (fun _ => True) ks bs := by
  refine goes_current.step fun t ht => ?_
  rw [if_neg (by simp [ht.isKeyword])]
  exact (goes_expectSign .colon _ _).step fun _ _ => .pure trivial

/-- A header that was read, of some function. -/
structure Header.Of (f : FunctionDecl) (h : Header) : Prop where
  name : h.name = f.name.text
  parameters : h.parameters.map Typed.spanless = f.parameters.map Typed.spanless
  returns : h.returns.map TypeRef.spanless = f.returns.map TypeRef.spanless

theorem endsParameters_returned (returns : Option TypeRef) (ks : List Kind) :
    EndsParameters (TypeRef.returned returns ++ (.sign .colon :: ks)) := by
  cases returns <;> exact ⟨by simp [EndsType, TypeRef.returned], by simp [TypeRef.returned]⟩

theorem exists_goes_functionHeader (f : FunctionDecl) :
    ∃ c, ∀ ks bs, Goes c functionHeader (f.header ++ ks) bs
      (fun r => ∃ h, r = (h, none) ∧ Header.Of f h) ks bs := by
  obtain ⟨c₂, hreturns⟩ := exists_goes_returnClause f.returns
  -- what is behind the parameters does not depend on whether there are any
  have hrest : ∀ (t : Token) (ps : List Typed) (ks : List Token.Kind) (bs)
      {behind : Except Diagnostic (Option TypeRef) → Parser (Header × Option Diagnostic)}
      {last : Option TypeRef → Except Diagnostic PUnit → Parser (Header × Option Diagnostic)},
      t.lexeme = f.name.text → ps.map Typed.spanless = f.parameters.map Typed.spanless →
      (∀ returns, behind (.ok returns) = attempt (headerEnd t.lexeme) >>= last returns) →
      (∀ returns, last returns (.ok ()) = pure (⟨t.lexeme, ps, returns⟩, none)) →
        Goes c₂ (attempt returnClause >>= behind)
          (TypeRef.returned f.returns ++ (.sign .colon :: ks)) bs
          (fun r => ∃ h, r = (h, none) ∧ Header.Of f h) ks bs := by
    intro t ps ks bs behind last ht hps hbehind hlast
    refine (hreturns ks bs).attempt.last fun r hr => ?_
    obtain ⟨returns, rfl, hreturns⟩ := hr
    rw [hbehind]
    refine (goes_headerEnd _).attempt.step fun r hr => ?_
    obtain ⟨_, rfl, -⟩ := hr
    rw [hlast]
    exact .pure ⟨_, rfl, ht, hps, hreturns⟩
  cases hparameters : f.parameters with
  | nil =>
      refine ⟨c₂, fun ks bs => ?_⟩
      have hks : f.header ++ ks =
          .identifier f.name.text :: (TypeRef.returned f.returns ++ (.sign .colon :: ks)) := by
        simp [FunctionDecl.header, hparameters, Typed.taken]
      have hnone : (TypeRef.returned f.returns ++ (.sign .colon :: ks)).headD .eof ≠
          .keyword .taking := by
        cases f.returns <;> simp [TypeRef.returned]
      rw [hks]
      refine (goes_expectIdentifier f.name.text _ _).attempt.step fun r hr => ?_
      obtain ⟨t, rfl, ht⟩ := hr
      refine goes_remaining.step fun fuel _ => ?_
      refine (goes_acceptKeyword_other hnone).step fun more hmore => ?_
      subst hmore
      exact hrest t [] ks bs ht (by rw [hparameters]) (fun _ => rfl) fun _ => rfl
  | cons p ps =>
      obtain ⟨c₁, hps⟩ := exists_goes_parameters p ps
      refine ⟨c₁ + c₂, fun ks bs => ?_⟩
      have hks : f.header ++ ks = .identifier f.name.text :: .keyword .taking ::
          (Typed.listed (p :: ps) ++ (TypeRef.returned f.returns ++ (.sign .colon :: ks))) := by
        simp [FunctionDecl.header, hparameters, Typed.taken]
      rw [hks]
      refine (goes_expectIdentifier f.name.text _ _).attempt.step fun r hr => ?_
      obtain ⟨t, rfl, ht⟩ := hr
      refine goes_remaining.step fun fuel hfuel => ?_
      refine (goes_acceptKeyword .taking).step fun more hmore => ?_
      subst hmore
      have hlength : ps.length < fuel + 1 := by
        have := length_le_listed (p :: ps)
        simp only [List.length_cons, List.length_append] at hfuel this
        omega
      refine (hps _ _ bs hlength (endsParameters_returned f.returns ks)).bind ?_
      rintro _ ⟨ps', rfl, hps'⟩
      exact hrest t ps' ks bs ht (by rw [hps', hparameters]) (fun _ => rfl) fun _ => rfl

theorem exists_goes_functionDecl {f : FunctionDecl} (h : f.WellFormed) :
    ∃ c, ∀ ks bs define, Goes c (functionDecl define f.purity) (.keyword .function ::
      (f.header ++ (Stmt.blockKinds f.body ++ (BlockKind.function.kinds ++ ks)))) bs
      (fun f' => f'.spanless = f.spanless) ks bs := by
  obtain ⟨c₁, hheader⟩ := exists_goes_functionHeader f
  obtain ⟨c₂, hbody⟩ := exists_goes_block h.body
  refine ⟨c₁ + (1 + (c₂ + 1)), fun ks bs define => ?_⟩
  refine (goes_expectKeyword .function _ _).step fun _ _ => goes_current.step fun nameToken _ => ?_
  refine goes_remaining.step fun headerStart _ => (hheader _ bs).bind ?_
  rintro _ ⟨header, rfl, hheader⟩
  refine (goes_recoverHeader _).step fun _ _ => ?_
  extract_lets opening context
  refine (goes_openBlock context define).bind fun _ _ => ?_
  refine (hbody context ks bs).bind fun body hbody =>
    (goes_closeBlock context).step fun closer _ => ?_
  refine goes_finish define fun span => ?_
  simp [FunctionDecl.spanless, Name.spanless, hheader.name, hheader.parameters, hheader.returns,
    hbody, h.unresolved]

/-! ### Types and records -/

theorem length_le_continued (values : List String) :
    values.length ≤ (TypeBody.continued values).length := by
  induction values with
  | nil => exact Nat.le_refl _
  | cons v vs ih =>
      simp only [TypeBody.continued, List.flatMap_cons, List.length_append,
        List.length_cons] at ih ⊢
      omega

theorem goes_literalsRest (name : String) (values : List String) {fuel : Nat}
    (hfuel : values.length ≤ fuel) :
    Goes 0 (literalsRest name fuel) (TypeBody.continued values ++ (.terminator :: ks)) bs
      (· = values) (.terminator :: ks) bs := by
  induction values generalizing fuel with
  | nil =>
      cases fuel with
      | zero => exact .pure rfl
      | succ fuel =>
          refine (goes_acceptKeyword_other ?_).step fun more hmore => ?_
          · simp [TypeBody.continued]
          · subst hmore
            exact .pure rfl
  | cons v vs ih =>
      cases fuel with
      | zero => cases hfuel
      | succ fuel =>
          refine (goes_acceptKeyword .or).step fun more hmore => ?_
          subst hmore
          refine goes_current.step fun t ht => ?_
          have hkind : t.kind = .string v := ht.1
          simp only [hkind]
          refine goes_advance.step fun _ _ =>
            (ih (Nat.le_of_succ_le_succ hfuel)).step fun _ hvs => ?_
          subst hvs
          exact .pure rfl

/-- Of distinct values none is repeated. -/
theorem repeated_eq_nil {values : List String} (h : values.Nodup) : repeated values = [] := by
  have hnone : values.filter (fun v => 1 < values.count v) = [] := by
    rw [List.filter_eq_nil_iff]
    intro v _
    have := List.nodup_iff_count_le_one.mp h v
    simp only [decide_eq_true_eq]
    omega
  simp [repeated, hnone]

theorem exists_goes_typeDecl {d : TypeDecl} (h : d.WellFormed) :
    ∃ c, ∀ ks bs define, Goes c (typeDecl define) (.keyword .type :: .identifier d.name ::
      .keyword .as_ :: (d.body.kinds ++ (.terminator :: ks))) bs
      (fun d' => d'.spanless = d.spanless) ks bs := by
  cases hbody : d.body with
  | reference ty =>
      obtain ⟨c, hty⟩ := exists_goes_typeRef ty
      refine ⟨c + 1, fun ks bs define => (goes_expectKeyword .type _ _).step fun _ _ => ?_⟩
      refine (goes_expectIdentifier d.name _ _).step fun name hname => ?_
      extract_lets text context rest
      refine (goes_expectKeyword .as_ _ _).step fun _ _ => goes_current.step fun t ht => ?_
      have hreference : Goes c (TypeBody.reference <$> typeRef) (ty.kinds ++ (.terminator :: ks)) bs
          (fun body => body.spanless = d.body.spanless) (.terminator :: ks) bs := by
        refine .map ((hty _ bs (by simp [EndsType])).imp fun ty' hty' => ?_)
        rw [hbody]
        exact congrArg TypeBody.reference hty'
      obtain ⟨first, hfirst⟩ : ∃ first, t.kind = .identifier first := by
        cases ty <;> exact ⟨_, ht.1⟩
      simp only [hfirst]
      refine hreference.bind fun body hbody => (goes_expectTerminator _).step fun _ _ => ?_
      refine goes_finish define fun span => ?_
      simp [TypeDecl.spanless, text, hname, hbody]
  | literals values =>
      have hformed : (TypeBody.literals values).WellFormed := hbody ▸ h.body
      cases values with
      | nil => exact absurd rfl hformed.1
      | cons v vs =>
          refine ⟨1, fun ks bs define => (goes_expectKeyword .type _ _).step fun _ _ => ?_⟩
          have hks : (TypeBody.literals (v :: vs)).kinds ++ (.terminator :: ks) =
              .string v :: (TypeBody.continued vs ++ (.terminator :: ks)) := rfl
          rw [hks]
          refine (goes_expectIdentifier d.name _ _).step fun name hname => ?_
          extract_lets text context rest
          refine (goes_expectKeyword .as_ _ _).step fun _ _ => goes_current.step fun t ht => ?_
          have hfirst : t.kind = .string v := ht.1
          simp only [hfirst]
          refine goes_advance.step fun _ _ => goes_remaining.step fun fuel hfuel => ?_
          have hlength : vs.length ≤ fuel := by
            have := length_le_continued vs
            rw [List.length_append] at hfuel
            omega
          refine (goes_literalsRest _ vs hlength).step fun values hvalues => ?_
          rw [hvalues, if_pos (List.isEmpty_iff.mpr (repeated_eq_nil hformed.2))]
          refine Goes.step (.pure (Q := (· = .literals (v :: vs))) rfl) fun body hvalues => ?_
          subst hvalues
          refine (goes_expectTerminator _).step fun _ _ => goes_finish define fun span => ?_
          simp [TypeDecl.spanless, text, hname, hbody]

theorem exists_goes_recordField (record : String) (f : Typed) :
    ∃ c, ∀ ks bs, Goes c (recordField record) (f.kinds ++ (.terminator :: ks)) bs f.Like ks bs := by
  obtain ⟨c, hc⟩ := exists_goes_typeRef f.ty
  refine ⟨c, fun ks bs => (goes_expectIdentifier f.name _ _).step fun t ht => ?_⟩
  refine (goes_expectKeyword .as_ _ _).step fun _ _ => (hc _ bs (by simp [EndsType])).last ?_
  refine fun ty hty => (goes_expectTerminator _).step fun _ _ => ?_
  refine (goes_spanFrom t).step fun span _ => .pure ?_
  unfold Typed.Like TypeRef.Like at *
  simp [Typed.spanless, ht, hty]

theorem exists_goes_recordFields (record : String) (fs : List Typed) :
    ∃ c, ∀ fuel ks bs, fs.length ≤ fuel →
      Goes c (recordFields record fuel)
        ((fs.flatMap fun f => f.kinds ++ [.terminator]) ++ (.keyword .end_ :: ks)) bs
        (fun fs' => fs'.map Typed.spanless = fs.map Typed.spanless) (.keyword .end_ :: ks) bs := by
  induction fs with
  | nil =>
      refine ⟨0, fun fuel ks bs _ => ?_⟩
      cases fuel with
      | zero => exact .pure rfl
      | succ fuel =>
          refine goes_current.step fun t ht => ?_
          have hkind : t.kind = .keyword .end_ := ht.1
          simp only [hkind]
          exact .pure rfl
  | cons f fs ih =>
      obtain ⟨c₁, hfirst⟩ := exists_goes_recordField record f
      obtain ⟨c₂, hrest⟩ := ih
      refine ⟨c₁ + c₂, fun fuel ks bs hfuel => ?_⟩
      cases fuel with
      | zero => cases hfuel
      | succ fuel =>
          have hks : ((f :: fs).flatMap fun f => f.kinds ++ [.terminator]) ++
                (.keyword .end_ :: ks) =
              f.kinds ++ (.terminator ::
                ((fs.flatMap fun f => f.kinds ++ [.terminator]) ++ (.keyword .end_ :: ks))) := by
            simp
          rw [hks]
          refine goes_current.step fun t ht => ?_
          have hkind : t.kind = .identifier f.name := ht.1
          simp only [hkind]
          refine goes_remaining.step fun _ _ => (hfirst _ bs).attempt.bind ?_
          rintro _ ⟨f', rfl, hf'⟩
          refine (hrest fuel ks bs (Nat.le_of_succ_le_succ hfuel)).last fun fs' hfs' => ?_
          exact .pure (congrArg₂ List.cons hf' hfs')

theorem length_le_fields (fs : List Typed) :
    fs.length ≤ (fs.flatMap fun f => f.kinds ++ [.terminator]).length := by
  induction fs with
  | nil => exact Nat.le_refl _
  | cons f fs ih =>
      simp only [List.flatMap_cons, List.length_append, List.length_cons]
      omega

theorem exists_goes_recordDecl (r : RecordDecl) :
    ∃ c, ∀ ks bs define, Goes c (recordDecl define) (.keyword .record :: .identifier r.name ::
      .sign .colon :: ((r.fields.flatMap fun f => f.kinds ++ [.terminator])
        ++ (BlockKind.record.kinds ++ ks))) bs
      (fun r' => r'.spanless = r.spanless) ks bs := by
  obtain ⟨c, hc⟩ := exists_goes_recordFields r.name r.fields
  refine ⟨1 + (c + 1), fun ks bs define => (goes_expectKeyword .record _ _).step fun _ _ => ?_⟩
  refine (goes_expectIdentifier r.name _ _).step fun name hname => ?_
  rw [hname]
  refine (goes_expectSign .colon _ _).step fun _ _ => ?_
  extract_lets context
  refine (goes_openBlock context define).bind fun _ _ => goes_remaining.step fun fuel hfuel => ?_
  have hlength : r.fields.length ≤ fuel := by
    have := length_le_fields r.fields
    rw [List.length_append] at hfuel
    omega
  refine (hc fuel _ _ hlength).bind fun fields hfields => ?_
  refine (goes_closeBlock context).step fun _ _ => goes_finish define fun span => ?_
  simp [RecordDecl.spanless, hfields]

/-! ### Declarations -/

theorem exists_goes_declaration {d : Decl} (h : d.WellFormed) :
    ∃ c, ∀ ks bs, Goes c declaration (d.kinds ++ ks) bs d.Like ks bs := by
  cases d with
  | function f =>
      obtain ⟨c, hc⟩ := exists_goes_functionDecl h
      have hfunction : ∀ ks bs define, Goes c (Decl.function <$> functionDecl define f.purity)
          (.keyword .function ::
            (f.header ++ (Stmt.blockKinds f.body ++ (BlockKind.function.kinds ++ ks)))) bs
          (Decl.function f).Like ks bs := fun ks bs define =>
        .map ((hc ks bs define).imp fun f' hf' => congrArg Decl.function hf')
      have hks : ∀ ks, (Decl.function f).kinds ++ ks = .keyword .define :: (f.purity.kinds ++
          (.keyword .function ::
            (f.header ++ (Stmt.blockKinds f.body ++ (BlockKind.function.kinds ++ ks))))) := by
        simp [Decl.kinds, FunctionDecl.kinds]
      refine ⟨c, fun ks bs => ?_⟩
      rw [hks]
      refine (goes_expectKeyword .define _ _).step fun define _ => ?_
      have hrest := hfunction ks bs define
      cases hpurity : f.purity with
      | pure =>
          refine (goes_acceptKeyword_other (by simp [Purity.kinds])).step
            fun effectful heffectful => ?_
          subst heffectful
          refine goes_current.step fun t ht => ?_
          have hkind : t.kind = .keyword .function := ht.1
          simp only [hkind]
          rw [hpurity] at hrest
          exact hrest
      | effectful =>
          refine (goes_acceptKeyword .effectful).step fun effectful heffectful => ?_
          subst heffectful
          refine goes_current.step fun t ht => ?_
          have hkind : t.kind = .keyword .function := ht.1
          simp only [hkind]
          rw [hpurity] at hrest
          exact hrest
  | type d =>
      obtain ⟨c, hc⟩ := exists_goes_typeDecl h
      have hks : ∀ ks, (Decl.type d).kinds ++ ks = .keyword .define :: .keyword .type ::
          .identifier d.name :: .keyword .as_ :: (d.body.kinds ++ (.terminator :: ks)) := by
        simp [Decl.kinds, TypeDecl.kinds]
      refine ⟨c, fun ks bs => ?_⟩
      rw [hks]
      refine (goes_expectKeyword .define _ _).step fun define _ => ?_
      refine (goes_acceptKeyword_other (by simp)).step fun effectful heffectful => ?_
      subst heffectful
      refine goes_current.step fun t ht => ?_
      have hkind : t.kind = .keyword .type := ht.1
      simp only [hkind]
      exact .map ((hc ks bs define).imp fun d' hd' => congrArg Decl.type hd')
  | record r =>
      obtain ⟨c, hc⟩ := exists_goes_recordDecl r
      have hks : ∀ ks, (Decl.record r).kinds ++ ks = .keyword .define :: .keyword .record ::
          .identifier r.name :: .sign .colon ::
            ((r.fields.flatMap fun f => f.kinds ++ [.terminator])
            ++ (BlockKind.record.kinds ++ ks)) := by
        simp [Decl.kinds, RecordDecl.kinds]
      refine ⟨c, fun ks bs => ?_⟩
      rw [hks]
      refine (goes_expectKeyword .define _ _).step fun define _ => ?_
      refine (goes_acceptKeyword_other (by simp)).step fun effectful heffectful => ?_
      subst heffectful
      refine goes_current.step fun t ht => ?_
      have hkind : t.kind = .keyword .record := ht.1
      simp only [hkind]
      exact .map ((hc ks bs define).imp fun r' hr' => congrArg Decl.record hr')

theorem exists_goes_topLevel {d : Decl} (h : d.WellFormed) :
    ∃ c, ∀ ks bs, Goes c topLevel (d.kinds ++ ks) bs
      (fun o => ∃ d', o = some d' ∧ d.Like d') ks bs := by
  obtain ⟨c, hc⟩ := exists_goes_declaration h
  have hdefine : ∀ ks, (d.kinds ++ ks).headD .eof = .keyword .define := by
    intro ks
    cases d <;> rfl
  refine ⟨c, fun ks bs => goes_current.step fun t ht => ?_⟩
  rw [hdefine] at ht
  rw [if_pos (by simp [ht.isKeyword])]
  refine goes_remaining.step fun _ _ => (hc ks bs).attempt.last ?_
  rintro _ ⟨d', rfl, hd'⟩
  exact .pure ⟨d', rfl, hd'⟩

/-- With so much room, the declarations are read to the end, and nothing is found. -/
theorem exists_reads_declarations (ds : List Decl) (h : ∀ d ∈ ds, d.WellFormed) :
    ∃ c, ∀ fuel s, s.Shows (ds.flatMap Decl.kinds) [] → s.budget.Room c → ds.length ≤ fuel →
      (declarations fuel s).2.found = [] ∧
        (declarations fuel s).1.map Decl.spanless = ds.map Decl.spanless := by
  induction ds with
  | nil =>
      refine ⟨0, fun fuel s hs _ _ => ?_⟩
      have hend : s.current.isEof = true := by
        simp [Token.isEof, hs.current.1]
      cases fuel with
      | zero => exact ⟨hs.clean, rfl⟩
      | succ fuel =>
          rw [declarations, if_pos hend]
          exact ⟨hs.clean, rfl⟩
  | cons d ds ih =>
      obtain ⟨hd, hds⟩ := List.forall_mem_cons.mp h
      obtain ⟨c₁, hfirst⟩ := exists_goes_topLevel hd
      obtain ⟨c₂, hrest⟩ := ih hds
      refine ⟨c₂ + c₁, fun fuel s hs hroom hfuel => ?_⟩
      cases fuel with
      | zero => cases hfuel
      | succ fuel =>
          have hpending : s.current.isEof = false := by
            have hdefine := hs.current.1
            cases d <;> simp [Token.isEof, hdefine, Decl.kinds, FunctionDecl.kinds, TypeDecl.kinds,
              RecordDecl.kinds]
          obtain ⟨_, s', hturn, ⟨d', rfl, hd'⟩, hs', hroom'⟩ :=
            hfirst (ds.flatMap Decl.kinds) [] s c₂ hs hroom
          obtain ⟨hfound, hmap⟩ := hrest fuel s' hs' hroom' (Nat.le_of_succ_le_succ hfuel)
          simp only [declarations, hpending, hturn]
          exact ⟨hfound, congrArg₂ List.cons hd' hmap⟩

end Parser

end Prosaic
