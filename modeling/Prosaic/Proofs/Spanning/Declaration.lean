import Prosaic.Proofs.Blocks.Discipline
import Prosaic.Proofs.Program.Placed
import Prosaic.Proofs.Spanning.Statement

/-!
The tokens of a declaration and of a whole program. Of a function whose name cannot be read the
token that stands there counts as its name, and nothing else is known of its header.

What a program is read from makes it up: every node in it has the text of its own tokens, and so its
children and names lie in it, one behind the other, whatever was found wrong on the way.
-/

namespace Prosaic

open Prosaic.Parser (Header nameOf)

/-! ### The tokens of a declaration -/

inductive TypeRef.Spans : TypeRef → List Token → Prop
  | named {span : Span} {t : Token} (ht : t.kind.isName = true) (hspan : span.Over [t]) :
      TypeRef.Spans (.named t.lexeme span) [t]
  | list {element : TypeRef} {span : Span} {t o : Token} {run : List Token}
      (ht : t.kind.isName = true) (hlist : t.lexeme = "List") (ho : o.kind = .keyword .of)
      (helement : element.Spans run) (hspan : span.Over (t :: o :: run)) :
      TypeRef.Spans (.list element span) (t :: o :: run)

/-- A parameter, or a field with its period. -/
inductive Typed.Spans : Typed → List Token → Prop
  | parameter {ty : TypeRef} {span : Span} {n a : Token} {run : List Token}
      (hn : n.kind.isName = true) (ha : a.kind = .keyword .as_) (hty : ty.Spans run)
      (hspan : span.Over (n :: a :: run)) : Typed.Spans ⟨n.lexeme, ty, span⟩ (n :: a :: run)
  | field {ty : TypeRef} {span : Span} {n a d : Token} {run : List Token}
      (hn : n.kind.isName = true) (ha : a.kind = .keyword .as_) (hty : ty.Spans run)
      (hd : d.kind = .terminator) (hspan : span.Over (n :: a :: (run ++ [d]))) :
      Typed.Spans ⟨n.lexeme, ty, span⟩ (n :: a :: (run ++ [d]))

/-- The header of a function, from its name on. -/
inductive Parser.Header.Spans : Header → List Token → Prop
  | named {parameters : List Typed} {returns : Option TypeRef} {n : Token}
      {taking returning : List Token} (hn : n.kind.isName = true)
      (hparameters : Laid Typed.Spans parameters taking)
      (hreturns : Laid TypeRef.Spans returns.toList returning) :
      Header.Spans ⟨n.lexeme, parameters, returns⟩ (n :: (taking ++ returning))
  | unreadable {ts : List Token} : Header.Spans ⟨unreadableName, [], none⟩ ts

inductive FunctionDecl.Spans : FunctionDecl → List Token → Prop
  | intro {name : String} {parameters : List Typed} {returns : Option TypeRef} {purity : Purity}
      {statements : List Stmt} {closer : Option Span} {span : Span} {resolved : Option Purity}
      {d f n : Token} {effect header body close : List Token} (hd : d.kind = .keyword .define)
      (heffect : effect.map Token.kind = purity.kinds) (hf : f.kind = .keyword .function)
      (hheader : Header.Spans ⟨name, parameters, returns⟩ (n :: header))
      (hcolon : Headed (n :: header)) (hbody : Laid Stmt.Spans statements body)
      (hclose : Ends .function closer close)
      (hspan : span.Over (d :: (effect ++ f :: n :: (header ++ body ++ close)))) :
      FunctionDecl.Spans
        ⟨⟨name, n.span⟩, parameters, returns, purity, statements, closer, span, resolved⟩
        (d :: (effect ++ f :: n :: (header ++ body ++ close)))

inductive TypeDecl.Spans : TypeDecl → List Token → Prop
  | reference {ty : TypeRef} {span : Span} {d w n a e : Token} {run : List Token}
      (hd : d.kind = .keyword .define) (hw : w.kind = .keyword .type) (hn : n.kind.isName = true)
      (ha : a.kind = .keyword .as_) (hty : ty.Spans run) (he : e.kind = .terminator)
      (hspan : span.Over (d :: w :: n :: a :: (run ++ [e]))) :
      TypeDecl.Spans ⟨n.lexeme, .reference ty, span⟩ (d :: w :: n :: a :: (run ++ [e]))
  | literals {values : List String} {span : Span} {d w n a e : Token} {run : List Token}
      (hd : d.kind = .keyword .define) (hw : w.kind = .keyword .type) (hn : n.kind.isName = true)
      (ha : a.kind = .keyword .as_)
      (hvalues : run.map Token.kind = (TypeBody.literals values).kinds)
      (he : e.kind = .terminator) (hspan : span.Over (d :: w :: n :: a :: (run ++ [e]))) :
      TypeDecl.Spans ⟨n.lexeme, .literals values, span⟩ (d :: w :: n :: a :: (run ++ [e]))

inductive RecordDecl.Spans : RecordDecl → List Token → Prop
  | intro {fields : List Typed} {closer : Option Span} {span : Span} {d w n k : Token}
      {body close : List Token} (hd : d.kind = .keyword .define) (hw : w.kind = .keyword .record)
      (hn : n.kind.isName = true) (hk : k.kind = .sign .colon)
      (hfields : Laid Typed.Spans fields body) (hclose : Ends .record closer close)
      (hspan : span.Over (d :: w :: n :: k :: (body ++ close))) :
      RecordDecl.Spans ⟨n.lexeme, fields, span⟩ (d :: w :: n :: k :: (body ++ close))

/-- A declaration is made of exactly these tokens, and its text is theirs. So it is with everything
in it. -/
inductive Decl.Spans : Decl → List Token → Prop
  | function {f : FunctionDecl} {ts : List Token} (hf : f.Spans ts) : Decl.Spans (.function f) ts
  | type {t : TypeDecl} {ts : List Token} (ht : t.Spans ts) : Decl.Spans (.type t) ts
  | record {r : RecordDecl} {ts : List Token} (hr : r.Spans ts) : Decl.Spans (.record r) ts

/-- A program is read from the first ones of some tokens, and its text is theirs; or from none, and
then it has the text of the token that comes first. -/
structure Program.Spans (p : Program) (ts later : List Token) : Prop where
  span : p.span.Over ts ∨ ts = [] ∧ p.span.Over (later.take 1)
  declarations : Laid Decl.Spans p.declarations ts

section

variable {ts : List Token}

theorem TypeRef.Spans.over {r : TypeRef} (h : r.Spans ts) : r.span.Over ts := by
  cases h <;> assumption

theorem Typed.Spans.over {t : Typed} (h : t.Spans ts) : t.span.Over ts := by cases h <;> assumption

theorem Decl.Spans.over {d : Decl} (h : d.Spans ts) : d.span.Over ts := by
  cases h with
  | function hf => cases hf; assumption
  | type ht => cases ht <;> assumption
  | record hr => cases hr; assumption

theorem Ends.parts {kind : BlockKind} {closer : Option Span} (h : Ends kind closer ts) :
    Laid Span.Over closer.toList ts := by
  cases h with
  | closed _ _ _ hspan => exact (Laid.single hspan).extend _
  | incomplete | missing => exact .nil

/-- What is known of a header comes behind the name, the parameters first. -/
theorem Parser.Header.Spans.laid {h : Header} {n : Token} (hspans : h.Spans (n :: ts)) :
    ∃ taking returning, ts = taking ++ returning ∧ Laid Typed.Spans h.parameters taking ∧
      Laid TypeRef.Spans h.returns.toList returning := by
  cases hspans with
  | named _ hparameters hreturns => exact ⟨_, _, rfl, hparameters, hreturns⟩
  | unreadable => exact ⟨[], ts, rfl, .nil, .nil⟩

theorem Parser.Header.Spans.extend {h : Header} (hspans : h.Spans ts) (us : List Token) :
    h.Spans (ts ++ us) := by
  cases hspans with
  | named hn hparameters hreturns =>
      rw [List.cons_append, List.append_assoc]
      exact .named hn hparameters (hreturns.extend us)
  | unreadable => exact .unreadable

/-! ### Nodes -/

/-- The nodes of a reference to a type. -/
def TypeRef.extents : TypeRef → List Extent
  | .named _ span => [⟨span, []⟩]
  | .list element span => ⟨span, [element.span]⟩ :: element.extents

def Typed.extents (t : Typed) : List Extent := ⟨t.span, [t.ty.span]⟩ :: t.ty.extents

/-- The nodes of a function. Its closer counts as a part. -/
def FunctionDecl.extents (f : FunctionDecl) : List Extent :=
  ⟨f.span, f.name.span :: (f.parameters.map Typed.span ++ f.returns.toList.map TypeRef.span
      ++ f.body.map Stmt.span ++ f.closer.toList)⟩
    :: (f.parameters.flatMap Typed.extents ++ f.returns.toList.flatMap TypeRef.extents
      ++ Stmt.extentsIn f.body)

def TypeDecl.extents (t : TypeDecl) : List Extent :=
  ⟨t.span, t.body.reference?.toList.map TypeRef.span⟩
    :: t.body.reference?.toList.flatMap TypeRef.extents

def RecordDecl.extents (r : RecordDecl) : List Extent :=
  ⟨r.span, r.fields.map Typed.span⟩ :: r.fields.flatMap Typed.extents

def Decl.extents : Decl → List Extent
  | .function f => f.extents
  | .type t => t.extents
  | .record r => r.extents

/-- All the nodes of a program. -/
def Program.extents (p : Program) : List Extent :=
  ⟨p.span, p.declarations.map Decl.span⟩ :: p.declarations.flatMap Decl.extents

theorem TypeRef.Spans.within {r : TypeRef} (h : r.Spans ts) : Extent.AllIn ts r.extents := by
  induction h with
  | named _ hspan => exact .leaf hspan
  | list _ _ _ helement hspan ih =>
      exact .node hspan ((Laid.single helement.over).skip [_, _]) (ih.skip [_, _])

theorem Typed.Spans.within {t : Typed} (h : t.Spans ts) : Extent.AllIn ts t.extents := by
  cases h with
  | parameter _ _ hty hspan =>
      exact .node hspan ((Laid.single hty.over).skip [_, _]) (hty.within.skip [_, _])
  | field _ _ hty _ hspan =>
      exact .node hspan (((Laid.single hty.over).extend [_]).skip [_, _])
        ((hty.within.extend [_]).skip [_, _])

theorem FunctionDecl.Spans.within {f : FunctionDecl} (h : f.Spans ts) :
    Extent.AllIn ts f.extents := by
  cases h with
  | intro _ _ _ hheader _ hbody hclose hspan =>
      obtain ⟨taking, returning, rfl, hparameters, hreturns⟩ := hheader.laid
      have htypes := (hparameters.map fun _ _ => Typed.Spans.over).append
        (hreturns.map fun _ _ => TypeRef.Spans.over)
      refine .node hspan (.skip [_] (.skip _ (.skip [_] ((part_nameOf _).append ?_))))
        (.skip [_] (.skip _ (.skip [_, _] (.extend ?_ _))))
      · exact (htypes.append (Stmt.parts_of_laid hbody)).append hclose.parts
      · have htaken := Extent.AllIn.flatMap hparameters fun _ _ => Typed.Spans.within
        have hreturned := Extent.AllIn.flatMap hreturns fun _ _ => TypeRef.Spans.within
        exact (((htaken.extend _).append (hreturned.skip _)).extend _).append
          ((Stmt.within_of_laid hbody).skip _)

theorem TypeDecl.Spans.within {t : TypeDecl} (h : t.Spans ts) : Extent.AllIn ts t.extents := by
  cases h with
  | reference _ _ _ _ hty _ hspan =>
      refine .node hspan (.skip [_, _, _, _] (.extend (.single hty.over) _)) ?_
      exact .skip [_, _, _, _] (.extend (.flatMap (.single hty) fun _ _ => TypeRef.Spans.within) _)
  | literals _ _ _ _ _ _ hspan => exact .leaf hspan

theorem RecordDecl.Spans.within {r : RecordDecl} (h : r.Spans ts) : Extent.AllIn ts r.extents := by
  cases h with
  | intro _ _ _ _ hfields _ hspan =>
      refine .node hspan (.skip [_, _, _, _] (.extend ?_ _)) (.skip [_, _, _, _] (.extend ?_ _))
      · exact hfields.map fun _ _ => Typed.Spans.over
      · exact .flatMap hfields fun _ _ => Typed.Spans.within

theorem Decl.Spans.within {d : Decl} (h : d.Spans ts) : Extent.AllIn ts d.extents := by
  cases h with
  | function hf => exact hf.within
  | type ht => exact ht.within
  | record hr => exact hr.within

end

namespace Parser

variable {c : Lead} {ts : List Token} {t define : Token}

/-! ### Types -/

theorem begins_typeRefWith {inner : Parser TypeRef}
    (hinner : Begins inner fun run r => r.Spans run) :
    Begins (typeRefWith inner) fun run r => r.Spans run := by
  refine fun c => (begins_expectIdentifier _ _).then ?_
  rintro _ t ⟨rfl, ht⟩
  have hnamed : (TypeRef.named t.lexeme t.span).Spans [t] := .named ht (Span.over_singleton t)
  refine .ite (fun hlist => ?_) fun _ => .pure hnamed
  refine (begins_acceptKeyword .of).then fun run takes hof => .ite (fun h => ?_) fun h => ?_
  · obtain ⟨o, rfl, ho⟩ := hof.yes h
    refine (hinner.nested t).then fun run element helement => ?_
    exact .spanFrom rfl fun span hspan => .pure (.list ht hlist ho helement hspan)
  · obtain rfl := hof.no h
    exact .pure hnamed

theorem begins_typeRefUpTo (fuel : Nat) : Begins (typeRefUpTo fuel) fun run r => r.Spans run := by
  induction fuel with
  | zero =>
      refine fun c => (begins_expectIdentifier _ _).then ?_
      rintro _ t ⟨rfl, ht⟩
      exact .pure (.named ht (Span.over_singleton t))
  | succ fuel ih => exact begins_typeRefWith ih

theorem begins_typeRef : Begins typeRef fun run r => r.Spans run :=
  fun c => .look fun fuel => begins_typeRefUpTo fuel c

/-! ### Functions -/

theorem begins_parameter : Begins parameter fun run p => p.Spans run := by
  refine fun c => (begins_expectIdentifier _ _).then ?_
  rintro _ n ⟨rfl, hn⟩
  refine (begins_expectKeyword _ _ _).then ?_
  rintro _ a ⟨rfl, ha⟩
  refine begins_typeRef.then fun run ty hty => ?_
  exact .spanFrom rfl fun span hspan => .pure (.parameter hn ha hty hspan)

theorem begins_parameters (fuel : Nat) :
    Begins (parameters fuel) fun run v => Laid Typed.Spans v.1 run := by
  induction fuel with
  | zero => exact fun c => .pure .nil
  | succ fuel ih =>
      refine fun c => begins_parameter.attempt.then fun run r hr => ?_
      cases r with
      | error d => exact .pure .nil
      | ok p =>
          have hp : Laid Typed.Spans [p] run := .single (hr p rfl)
          refine (begins_acceptSign .comma).then fun comma takes _ => .ite (fun _ => ?_) fun _ => ?_
          · exact ih.then fun rest v hv => .pure ((hp.extend comma).append hv)
          · exact .pure (hp.extend comma)

theorem begins_returnClause :
    Begins returnClause fun run returns => Laid TypeRef.Spans returns.toList run := by
  refine fun c => (begins_acceptKeyword .returning).then fun run takes _ =>
    .ite (fun _ => .map (begins_typeRef.last fun rest r hr => ?_)) fun _ => .pure .nil
  exact (Laid.single hr).skip _

theorem begins_headerEnd (name : String) : Begins (headerEnd name) fun run _ => Headed run := by
  refine fun c => .current fun t _ => .ite (fun _ => consumes_fail _) fun _ => ?_
  refine (begins_expectSign _ _ _).then ?_
  rintro _ k ⟨rfl, hk⟩
  exact .pure (.colon hk)

theorem begins_functionHeader : Begins functionHeader fun run h =>
    h.1.Spans run ∧ (h.2 = none → Headed run) := by
  refine fun c => (begins_expectIdentifier _ _).attempt.then fun run r hr => ?_
  cases r with
  | error d => exact .pure ⟨.unreadable, nofun⟩
  | ok n =>
      obtain ⟨rfl, hn⟩ := hr n rfl
      refine .look fun fuel => (begins_acceptKeyword .taking).then fun run takes _ => ?_
      extract_lets rest
      have hrest : ∀ {taking : List Token} v, Laid Typed.Spans v.1 taking →
          Consumes c (n :: taking) (rest v) fun us h =>
            h.1.Spans us ∧ (h.2 = none → Headed us) := by
        rintro taking ⟨ps, failure⟩ hps
        cases failure with
        | some d =>
            have hnone : Header.Spans ⟨n.lexeme, ps, none⟩ (n :: (taking ++ [])) :=
              .named hn hps .nil
            rw [List.append_nil] at hnone
            exact .pure ⟨hnone, nofun⟩
        | none =>
            refine begins_returnClause.attempt.then fun returning r hreturns => ?_
            cases r with
            | error d => exact .pure ⟨.named hn hps .nil, nofun⟩
            | ok returns =>
                have hnamed : Header.Spans ⟨n.lexeme, ps, returns⟩ (n :: (taking ++ returning)) :=
                  .named hn hps (hreturns returns rfl)
                refine (begins_headerEnd _).attempt.then fun colon r hcolon => ?_
                cases r with
                | error d => exact .pure ⟨hnamed.extend colon, nofun⟩
                | ok _ => exact .pure ⟨hnamed.extend colon, fun _ => (hcolon _ rfl).skip _⟩
      refine .ite (fun h => ?_) fun _ => ?_
      · refine (begins_parameters _).then fun taking v hv => ?_
        rw [List.append_assoc]
        exact hrest v (hv.skip run)
      · exact hrest ([], none) .nil

/-- What stands where the name of a function does is the first token of its header. -/
theorem consumes_functionDecl {purity : Purity} {effect : List Token}
    (hdefine : define.kind = .keyword .define) (heffect : effect.map Token.kind = purity.kinds) :
    Consumes c (define :: effect) (functionDecl define purity) fun us f => f.Spans us := by
  refine (begins_expectKeyword _ _ _).then ?_
  rintro _ f ⟨rfl, hf⟩
  refine .current fun n hn => .look fun headerStart => begins_functionHeader.then ?_
  rintro run ⟨header, failure⟩ ⟨hheader, hcolon⟩
  refine (begins_recoverHeader headerStart failure).then fun skipped _ hskipped => ?_
  have hheaded : Headed (run ++ skipped) := by
    rcases hskipped with ⟨hnone, rfl⟩ | hskipped
    · rw [List.append_nil]
      exact hcolon hnone
    · exact hskipped.skip run
  -- the name was only looked at, but what was taken up to the colon starts with it
  refine .taken fun later hlater => ?_
  rw [List.append_assoc _ run] at hlater ⊢
  obtain ⟨header, hsplit⟩ := List.head?_eq_some_iff.mp (hn.head hlater hheaded.ne_nil)
  have hname := hheader.extend skipped
  rw [hsplit] at hheaded hname ⊢
  refine (begins_openBlock _ _).then ?_
  rintro _ _ rfl
  rw [List.append_nil]
  refine begins_block.then fun body statements hbody => ?_
  refine (begins_closeBlock _).then fun close closer? hclose => ?_
  have htokens : define :: effect ++ [f] ++ n :: header ++ body ++ close =
      define :: (effect ++ f :: n :: (header ++ body ++ close)) := by simp
  rw [htokens]
  exact consumes_finish rfl fun span hspan =>
    .intro hdefine heffect hf hname hheaded hbody hclose hspan

/-! ### Types and records -/

theorem begins_literalsRest (name : String) (fuel : Nat) :
    Begins (literalsRest name fuel) fun run values =>
      run.map Token.kind = TypeBody.continued values := by
  induction fuel with
  | zero => exact fun c => .pure rfl
  | succ fuel ih =>
      refine fun c => (begins_acceptKeyword .or).then fun run takes hor =>
        .ite (fun h => ?_) fun h => ?_
      · obtain ⟨o, rfl, ho⟩ := hor.yes h
        refine .current fun t ht => ?_
        split
        · next value hkind =>
            obtain ⟨later, hlater⟩ := ht.here hkind nofun
            refine .advance hlater (ih.then fun rest values hvalues => .pure ?_)
            have hcontinued : TypeBody.continued (value :: values) =
                .keyword .or :: .string value :: TypeBody.continued values := rfl
            simp [hcontinued, ho, hkind, hvalues]
        · exact consumes_fail _
      · obtain rfl := hor.no h
        exact .pure rfl

theorem consumes_typeDecl (hdefine : define.kind = .keyword .define) :
    Consumes c [define] (typeDecl define) fun us t => t.Spans us := by
  refine (begins_expectKeyword _ _ _).then ?_
  rintro _ w ⟨rfl, hw⟩
  refine (begins_expectIdentifier _ _).then ?_
  rintro _ n ⟨rfl, hn⟩
  extract_lets text context rest
  refine (begins_expectKeyword _ _ _).then ?_
  rintro _ a ⟨rfl, ha⟩
  refine .current fun t ht => ?_
  split
  · next value hkind =>
      obtain ⟨later, hlater⟩ := ht.here hkind nofun
      refine .advance hlater (.look fun fuel => (begins_literalsRest _ fuel).then ?_)
      intro run values hvalues
      extract_lets values' twice body
      have hkinds : (t :: run).map Token.kind = (TypeBody.literals (value :: values)).kinds :=
        congrArg₂ List.cons hkind hvalues
      have hbody : ∀ u, Consumes c ([define, w, n, a] ++ (t :: run)) (body u)
          fun us t => t.Spans us := by
        intro u
        change Consumes c _ (rest (.literals (value :: values))) _
        refine (begins_expectTerminator _).then ?_
        rintro _ e ⟨rfl, he⟩
        exact consumes_finish rfl fun span hspan => .literals hdefine hw hn ha hkinds he hspan
      exact .ite (fun _ => hbody ()) fun _ => .report _ (hbody ())
  · have hreference : Begins (TypeBody.reference <$> typeRef) fun run body =>
        ∃ ty : TypeRef, body = .reference ty ∧ ty.Spans run :=
      fun c => .map ((begins_typeRef c).mono fun _ ty hty => ⟨ty, rfl, hty⟩)
    refine hreference.then ?_
    rintro run _ ⟨ty, rfl, hty⟩
    refine (begins_expectTerminator _).then ?_
    rintro _ e ⟨rfl, he⟩
    exact consumes_finish rfl fun span hspan => .reference hdefine hw hn ha hty he hspan

theorem begins_recordField (record : String) :
    Begins (recordField record) fun run f => f.Spans run := by
  refine fun c => (begins_expectIdentifier _ _).then ?_
  rintro _ n ⟨rfl, hn⟩
  refine (begins_expectKeyword _ _ _).then ?_
  rintro _ a ⟨rfl, ha⟩
  refine begins_typeRef.then fun run ty hty => (begins_expectTerminator _).then ?_
  rintro _ d ⟨rfl, hd⟩
  exact .spanFrom rfl fun span hspan => .pure (.field hn ha hty hd hspan)

theorem begins_recordFields (record : String) (fuel : Nat) :
    Begins (recordFields record fuel) fun run fs => Laid Typed.Spans fs run := by
  induction fuel with
  | zero => exact fun c => .pure .nil
  | succ fuel ih =>
      refine fun c => .current fun t _ => ?_
      split
      · exact .pure .nil
      · exact .pure .nil
      · exact .pure .nil
      · refine .look fun start => (begins_recordField record).attempt.then ?_
        intro run r hr
        cases r with
        | ok f =>
            have hf : Laid Typed.Spans [f] run := .single (hr f rfl)
            exact ih.then fun rest fs hfs => .pure (hf.append hfs)
        | error d =>
            refine .report d ((begins_synchronize start false).then fun _ _ _ => ?_)
            exact ih.last fun rest fs hfs => hfs.skip _

theorem consumes_recordDecl (hdefine : define.kind = .keyword .define) :
    Consumes c [define] (recordDecl define) fun us r => r.Spans us := by
  refine (begins_expectKeyword _ _ _).then ?_
  rintro _ w ⟨rfl, hw⟩
  refine (begins_expectIdentifier _ _).then ?_
  rintro _ n ⟨rfl, hn⟩
  refine (begins_expectSign _ _ _).then ?_
  rintro _ k ⟨rfl, hk⟩
  refine (begins_openBlock _ _).then ?_
  rintro _ _ rfl
  rw [List.append_nil]
  refine .look fun fuel => (begins_recordFields _ fuel).then fun body fields hfields => ?_
  refine (begins_closeBlock _).then fun close closer? hclose => ?_
  exact consumes_finish rfl fun span hspan => .intro hdefine hw hn hk hfields hclose hspan

/-! ### Declarations -/

theorem begins_declaration : Begins declaration fun run d => d.Spans run := by
  refine fun c => (begins_expectKeyword _ _ _).then ?_
  rintro _ define ⟨rfl, hdefine⟩
  refine (begins_acceptKeyword .effectful).then fun effect takes heffect => .current fun t _ => ?_
  split
  · refine .map ((consumes_functionDecl hdefine ?_).mono fun _ _ => .function)
    split
    · next h =>
        obtain ⟨e, rfl, he⟩ := heffect.yes h
        exact congrArg (fun k => [k]) he
    · next h => rw [heffect.no h]; rfl
  · refine .ite (fun _ => consumes_fail _) fun h => ?_
    obtain rfl := heffect.no h
    split
    · exact .map ((consumes_typeDecl hdefine).mono fun _ _ => .type)
    · exact .map ((consumes_recordDecl hdefine).mono fun _ _ => .record)
    · exact consumes_fail _

theorem begins_skipToDefine (fuel : Nat) : Begins (skipToDefine fuel) fun _ _ => True := by
  induction fuel with
  | zero => exact fun c => .pure trivial
  | succ fuel ih =>
      refine fun c => .current fun t _ => .ite (fun _ => .pure trivial) fun _ => ?_
      exact begins_advance.then fun _ _ _ => ih.last fun _ _ _ => trivial

theorem begins_recoveringDeclaration :
    Begins recoveringDeclaration fun run d? => Laid Decl.Spans d?.toList run := by
  refine fun c => .look fun start => begins_declaration.attempt.then fun run r hr => ?_
  cases r with
  | ok d => exact .pure (.single (hr d rfl))
  | error d =>
      refine .report d ((begins_synchronize start false).then fun _ _ _ => .look fun fuel => ?_)
      exact (begins_skipToDefine fuel).then fun _ _ _ => .pure .nil

theorem begins_topLevel : Begins topLevel fun run d? => Laid Decl.Spans d?.toList run := by
  refine fun c => .current fun t _ => .ite (fun _ => begins_recoveringDeclaration c) fun _ => ?_
  refine .report _ (begins_advance.then fun _ _ _ => .look fun fuel => ?_)
  exact (begins_skipToDefine fuel).then fun _ _ _ => .pure .nil

/-- A run of the top level takes the declarations that it yields from tokens of their own, one
behind the other. -/
theorem declarations_behind (fuel : Nat) {s : State} (hs : s.Behind c ts) :
    ∃ us, (declarations fuel s).2.Behind c (ts ++ us) ∧
      Laid Decl.Spans (declarations fuel s).1 us := by
  induction fuel generalizing s ts with
  | zero => exact ⟨[], hs.stay, .nil⟩
  | succ fuel ih =>
      have hturn := begins_topLevel.behind s hs
      unfold declarations
      split
      · exact ⟨[], hs.stay, .nil⟩
      · generalize topLevel s = o at hturn ⊢
        cases hturn with
        | done hs hd =>
            obtain ⟨run, hrun, hd⟩ := hd
            obtain ⟨us, hbehind, hds⟩ := ih hs
            rw [hrun, List.append_assoc] at hbehind
            exact ⟨run ++ us, hbehind, hd.append hds⟩
        | @failed run d s hs =>
            -- what a failed turn took stands before the next declaration
            have hnext : State.Behind c (ts ++ run) { s with found := d :: s.found } := { hs with }
            obtain ⟨us, hbehind, hds⟩ := ih hnext
            rw [List.append_assoc] at hbehind
            exact ⟨run ++ us, hbehind, hds.skip run⟩
        | stopped hs => exact ⟨_, { hs with }, .nil⟩

end Parser

/-! ### Programs -/

/-- The text of what was read goes from the first token to the last one that was taken. Where none
was taken it is the text of the first one. -/
theorem Reading.over_of {start : Parser.State} {run : List Decl × Parser.State} {ts : List Token}
    (h : run.2.Behind ⟨start.rest, none⟩ ts) :
    (Reading.of start run).program.span.Over ts ∨
      ts = [] ∧ (Reading.of start run).program.span.Over [start.current] := by
  have hlast : run.2.last = ts.getLast?.map fun t => t.span.stop := by
    rw [h.last, Option.or_none]
  cases ts with
  | nil =>
      refine .inr ⟨rfl, start.current, rfl, start.current, rfl, ?_⟩
      simp only [Reading.of, hlast]
      rfl
  | cons t ts =>
      obtain ⟨last, hl⟩ : ∃ last, (t :: ts).getLast? = some last :=
        Option.isSome_iff_exists.mp (by simp)
      have hcurrent : start.current = t := by
        have hrest : start.rest = t :: (ts ++ run.2.rest) := h.rest
        rw [Parser.State.current, hrest]
        rfl
      refine .inl ⟨t, rfl, last, hl, ?_⟩
      simp only [Reading.of, hlast, hl, hcurrent]
      rfl

/-- A program is read from tokens of its own. -/
theorem Program.exists_spans {source : String} {tokens : List Token}
    (h : Token.scan source = .ok tokens) (budget : Budget) :
    ∃ r taken left, Program.read tokens budget = some r ∧ tokens = taken ++ left ∧
      r.program.Spans taken left := by
  obtain ⟨init, stop, rfl, hstop, -, hinit⟩ := Token.scan_spec h
  have hend : stop.isEof = true := by simp [Token.isEof, hstop]
  have hother : ∀ t ∈ init, t.isEof = false := fun t ht => by
    simpa [Token.isEof] using (hinit t ht).1
  let start := Parser.State.start init stop budget
  have hstart : start.Behind ⟨init, none⟩ [] := ⟨rfl, rfl, hend⟩
  obtain ⟨taken, hbehind, hds⟩ := Parser.declarations_behind start.left hstart
  have hrest : init = taken ++ (Parser.declarations start.left start).2.rest := hbehind.rest
  refine ⟨_, taken, (Parser.declarations start.left start).2.rest ++ [stop],
    Program.read_append hother hend budget, ?_, ?_, hds⟩
  · rw [← List.append_assoc, ← hrest]
  · have hfirst : (init ++ [stop]).take 1 = [start.current] := by
      unfold start Parser.State.current Parser.State.start
      cases init <;> rfl
    have hstarts : (Parser.declarations start.left start).2.Behind ⟨start.rest, none⟩ taken :=
      hbehind
    rcases Reading.over_of hstarts with hover | ⟨hnil, hover⟩
    · exact .inl hover
    · rw [hnil, List.nil_append] at hrest
      rw [← hrest, hfirst]
      exact .inr ⟨hnil, hover⟩

theorem Program.Spans.within {p : Program} {ts later : List Token} (h : p.Spans ts later) :
    Extent.AllIn (ts ++ later) p.extents := by
  have hds := h.declarations
  rcases h.span with hover | ⟨rfl, hover⟩
  · refine .extend (.node hover (hds.map fun _ _ => Decl.Spans.over) ?_) later
    exact .flatMap hds fun _ _ => Decl.Spans.within
  -- a declaration has tokens, so a program without any has no declaration
  · have hnone : p.declarations = [] := by
      refine List.eq_nil_iff_forall_not_mem.mpr fun d hd => ?_
      obtain ⟨run, hrun, hspans⟩ := hds.exists_run hd
      exact hspans.over.ne_nil (List.infix_nil.mp hrun)
    rw [List.nil_append, Program.extents, hnone]
    exact (Extent.AllIn.leaf hover).mono (List.take_prefix 1 later).isInfix

/-- What a statement or a declaration is read from makes it up, and of these tokens each node in it
has its own: its text goes from the start of the first one to the end of the last one. Its children
and names lie in it, one behind the other. So it is in every text, whatever is found wrong there. -/
theorem Program.read_nests {source : String} {tokens : List Token}
    (h : Token.scan source = .ok tokens) (budget : Budget) :
    (∀ depth, Parser.Begins (Parser.statement (Parser.blockUpTo depth)) fun run s? =>
        ∀ s, s? = some s → s.Spans run) ∧
      (Parser.Begins Parser.declaration fun run d => d.Spans run) ∧
      ∃ r taken left, Program.read tokens budget = some r ∧ tokens = taken ++ left ∧
        r.program.Spans taken left ∧ ∀ x ∈ r.program.extents, x.Nests := by
  refine ⟨fun depth => Parser.begins_statement (Parser.begins_blockUpTo depth),
    Parser.begins_declaration, ?_⟩
  obtain ⟨r, taken, left, hread, rfl, hspans⟩ := Program.exists_spans h budget
  refine ⟨r, taken, left, hread, rfl, hspans, fun x hx => ?_⟩
  exact (hspans.within x hx).nests (Token.ordered_of_scan h)

/-- A function whose name is a reserved word, with a selection from a sum in parentheses, a prefix
before a call, and a loop that is closed by the next declaration. -/
theorem Program.read_nests_unclosed :
    let source := "Define function is taking a as B:\nLet x be (p + not Call f with [q]).y.\n" ++
      "For each i in x:\nReturn i.\nDefine type T as List of B."
    ∃ tokens r taken left, Token.scan source = .ok tokens ∧
      Program.read tokens (.start .standard .still) = some r ∧ r.found.length = 3 ∧
      tokens = taken ++ left ∧ r.program.Spans taken left ∧ r.program.extents.length = 17 ∧
      ∀ x ∈ r.program.extents, x.Nests := by
  intro source
  have hrun : ((Token.scan source).toOption.any fun tokens =>
      (Program.read tokens (.start .standard .still)).any fun r =>
        r.found.length == 3 && r.program.extents.length == 17) = true := by
    decide +kernel
  obtain ⟨tokens, hscan, hread⟩ := any_toOption.mp hrun
  obtain ⟨reading, hreading, hfound⟩ := Option.any_eq_true _ _ |>.mp hread
  obtain ⟨hthree, hnodes⟩ := Bool.and_eq_true_iff.mp hfound
  obtain ⟨-, -, r, taken, left, hr, htokens, hspans, hnests⟩ :=
    Program.read_nests hscan (.start .standard .still)
  cases hreading.symm.trans hr
  exact ⟨tokens, reading, taken, left, hscan, hreading, by simpa using hthree, htokens, hspans,
    by simpa using hnodes, hnests⟩

end Prosaic
