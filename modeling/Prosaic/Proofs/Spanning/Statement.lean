import Prosaic.Proofs.Blocks.Balance
import Prosaic.Proofs.Spanning.Expression

/-!
The tokens of a statement. What was skipped of a header that could not be read lies between its last
readable part and its colon, and what was skipped of a block lies between its statements. A closer
belongs to its statement as far as it is there.
-/

namespace Prosaic

open Prosaic.Parser (nameOf)

/-! ### The tokens of a statement -/

/-- Tokens up to a colon. -/
def Headed (ts : List Token) : Prop := ∃ k ∈ ts.getLast?, k.kind = .sign .colon

/-- The tokens that close a construct, and the closer that is made of them. An `End` that closes
nothing is none, and the period behind it may be missing. -/
inductive Ends (kind : BlockKind) : Option Span → List Token → Prop
  | closed {span : Span} {e w : Token} {dot : List Token} (he : e.kind = .keyword .end_)
      (hw : w.kind = .keyword kind.closer) (hdot : ∀ d ∈ dot, d.kind = .terminator)
      (hspan : span.Over [e, w]) : Ends kind (some span) (e :: w :: dot)
  | incomplete {e : Token} {dot : List Token} (he : e.kind = .keyword .end_)
      (hdot : ∀ d ∈ dot, d.kind = .terminator) : Ends kind none (e :: dot)
  | missing : Ends kind none []

/-- A statement is made of exactly these tokens, and its text is theirs. So it is with everything in
it. -/
inductive Stmt.Spans : Stmt → List Token → Prop
  | bind {init : Expr} {span : Span} {t n b d : Token} {run : List Token}
      (ht : t.kind = .keyword .let_) (hn : n.kind.isName = true) (hb : b.kind = .keyword .be)
      (hinit : init.Enclosed run) (hd : d.kind = .terminator)
      (hspan : span.Over (t :: n :: b :: (run ++ [d]))) :
      Stmt.Spans (.bind (nameOf n) init span) (t :: n :: b :: (run ++ [d]))
  | returnNothing {span : Span} {t d : Token} (ht : t.kind = .keyword .return_)
      (hd : d.kind = .terminator) (hspan : span.Over [t, d]) : Stmt.Spans (.return none span) [t, d]
  | return {value : Expr} {span : Span} {t d : Token} {run : List Token}
      (ht : t.kind = .keyword .return_) (hvalue : value.Enclosed run) (hd : d.kind = .terminator)
      (hspan : span.Over (t :: (run ++ [d]))) :
      Stmt.Spans (.return (some value) span) (t :: (run ++ [d]))
  | call {callee : Name} {args : List Expr} {note : CallNote} {span : Span} {d : Token}
      {run : List Token} (hcall : (Expr.call callee args note).Spans run)
      (hd : d.kind = .terminator) (hspan : span.Over (run ++ [d])) :
      Stmt.Spans (.call callee args note span) (run ++ [d])
  | expression {value : Expr} {span : Span} {d : Token} {run : List Token}
      (hvalue : value.Enclosed run) (hd : d.kind = .terminator) (hspan : span.Over (run ++ [d])) :
      Stmt.Spans (.expression value span) (run ++ [d])
  | branch {condition : Expr} {thenBlock : List Stmt} {otherwise : Option (List Stmt)} {span : Span}
      {closer : Option Span} {t : Token} {run header body other close : List Token}
      (ht : t.kind = .keyword .if_) (hcondition : condition.Enclosed run) (hheader : Headed header)
      (hthen : Laid Stmt.Spans thenBlock body) (hother : Laid Stmt.Spans (otherwise.getD []) other)
      (hclose : Ends .if_ closer close)
      (hspan : span.Over (t :: (run ++ header ++ body ++ other ++ close))) :
      Stmt.Spans (.branch condition thenBlock otherwise span)
        (t :: (run ++ header ++ body ++ other ++ close))
  | forEach {iterable : Expr} {statements : List Stmt} {span : Span} {closer : Option Span}
      {t e n i : Token} {run header body close : List Token} (ht : t.kind = .keyword .for_)
      (he : e.kind = .keyword .each) (hn : n.kind.isName = true) (hi : i.kind = .keyword .in_)
      (hiterable : iterable.Enclosed run) (hheader : Headed header)
      (hbody : Laid Stmt.Spans statements body) (hclose : Ends .for_ closer close)
      (hspan : span.Over (t :: e :: n :: i :: (run ++ header ++ body ++ close))) :
      Stmt.Spans (.forEach (nameOf n) iterable statements span)
        (t :: e :: n :: i :: (run ++ header ++ body ++ close))

theorem Stmt.Spans.over {s : Stmt} {ts : List Token} (h : s.Spans ts) : s.span.Over ts := by
  cases h <;> assumption

theorem Stmt.parts_of_laid {ss : List Stmt} {ts : List Token} (h : Laid Stmt.Spans ss ts) :
    Laid Span.Over (ss.map Stmt.span) ts := h.map fun _ _ => Stmt.Spans.over

/-! ### Nodes -/

mutual

/-- The nodes of a statement. -/
def Stmt.extents : Stmt → List Extent
  | .bind name init span => ⟨span, [name.span, init.span]⟩ :: init.extents
  | .branch condition thenBlock none span =>
    ⟨span, condition.span :: thenBlock.map Stmt.span⟩
      :: (condition.extents ++ Stmt.extentsIn thenBlock)
  | .branch condition thenBlock (some otherwise) span =>
    ⟨span, condition.span :: (thenBlock.map Stmt.span ++ otherwise.map Stmt.span)⟩
      :: (condition.extents ++ (Stmt.extentsIn thenBlock ++ Stmt.extentsIn otherwise))
  | .forEach item iterable body span =>
    ⟨span, item.span :: iterable.span :: body.map Stmt.span⟩
      :: (iterable.extents ++ Stmt.extentsIn body)
  | .call callee args note span => ⟨span, [note.span]⟩ :: (Expr.call callee args note).extents
  | .return none span => [⟨span, []⟩]
  | .return (some value) span => ⟨span, [value.span]⟩ :: value.extents
  | .expression value span => ⟨span, [value.span]⟩ :: value.extents

def Stmt.extentsIn : List Stmt → List Extent
  | [] => []
  | s :: ss => s.extents ++ Stmt.extentsIn ss

end

mutual

theorem Stmt.Spans.within {ts : List Token} : {s : Stmt} → s.Spans ts → Extent.AllIn ts s.extents
  | _, .bind _ _ _ hinit _ hspan =>
    .node hspan (((part_nameOf _).append ((hinit.part.skip [_]).extend [_])).skip [_])
      ((hinit.within.extend [_]).skip [_, _, _])
  | _, .returnNothing _ _ hspan => .leaf hspan
  | _, .return _ hvalue _ hspan =>
    .node hspan ((hvalue.part.extend [_]).skip [_]) ((hvalue.within.extend [_]).skip [_])
  | _, .call hcall _ hspan =>
    .node hspan ((Laid.single hcall.over).extend _) (hcall.within.extend _)
  | _, .expression hvalue _ hspan =>
    .node hspan (hvalue.part.extend _) (hvalue.within.extend _)
  | .branch _ _ otherwise _, .branch _ hcondition _ hthen hother _ hspan => by
      have hblock := Stmt.parts_of_laid hthen
      have hbelow := Stmt.within_of_laid hthen
      have hparts := Stmt.parts_of_laid hother
      have hrest := Stmt.within_of_laid hother
      cases otherwise with
      | none =>
          refine .node hspan (.skip [_] (.extend (.extend ?_ _) _)) (.skip [_] ?_)
          · exact (hcondition.part.extend _).append hblock
          · exact ((((hcondition.within.extend _).extend _).extend _).extend _).append
              (((hbelow.skip _).extend _).extend _)
      | some otherwise =>
          refine .node hspan (.skip [_] (.extend ?_ _)) (.skip [_] (.extend ?_ _))
          · exact ((hcondition.part.extend _).append hblock).append hparts
          · exact (((hcondition.within.extend _).extend _).extend _).append
              (((hbelow.skip _).extend _).append (hrest.skip _))
  | _, .forEach _ _ _ _ hiterable _ hbody _ hspan => by
      have hblock := Stmt.parts_of_laid hbody
      have hbelow := Stmt.within_of_laid hbody
      refine .node hspan (.skip [_, _] ((part_nameOf _).append (.skip [_] (.extend ?_ _))))
        (.skip [_, _, _, _] (.extend ?_ _))
      · exact (hiterable.part.extend _).append hblock
      · exact ((hiterable.within.extend _).extend _).append (hbelow.skip _)

theorem Stmt.within_of_laid {ts : List Token} :
    {ss : List Stmt} → Laid Stmt.Spans ss ts → Extent.AllIn ts (Stmt.extentsIn ss)
  | _, .nil => .nil
  | _, .cons hs hss => ((hs.within.skip _).extend _).append ((Stmt.within_of_laid hss).skip _)

end

theorem Headed.skip {ts : List Token} (h : Headed ts) (skipped : List Token) :
    Headed (skipped ++ ts) := by
  obtain ⟨k, hk, hkind⟩ := h
  exact ⟨k, List.mem_getLast?_append_of_mem_getLast? hk, hkind⟩

theorem Headed.ne_nil {ts : List Token} (h : Headed ts) : ts ≠ [] := by
  obtain ⟨k, hk, -⟩ := h
  rintro rfl
  cases hk

theorem Headed.colon {k : Token} (h : k.kind = .sign .colon) : Headed [k] := ⟨k, rfl, h⟩

namespace Parser

variable {c : Lead} {ts : List Token} {t : Token}

/-! ### Recovery -/

theorem begins_skipToBoundary (colonToo : Bool) (fuel : Nat) :
    Begins (skipToBoundary colonToo fuel) fun run met => met = true → Headed run := by
  induction fuel with
  | zero => exact fun c => .pure nofun
  | succ fuel ih =>
      have hskip : ∀ {c : Lead} {ts : List Token}, Consumes c ts (skipToBoundary colonToo fuel)
          fun us met => met = true → Headed us :=
        ih.last fun run met hmet h => (hmet h).skip _
      refine fun c => .current fun t ht => ?_
      split
      · exact .pure nofun
      · exact begins_advance.then fun run _ _ => .pure nofun
      · next hcolon =>
          obtain ⟨later, hlater⟩ := ht.here hcolon nofun
          exact .advance hlater (.ite (fun _ => .pure fun _ => .colon hcolon) fun _ => hskip)
      · exact .ite (fun _ => .pure nofun) fun _ => begins_advance.then fun run _ _ => hskip
      · exact begins_advance.then fun run _ _ => hskip

theorem begins_synchronize (start : Nat) (colonToo : Bool) :
    Begins (synchronize start colonToo) fun run met => met = true → Headed run := by
  refine fun c => .look fun here => ?_
  extract_lets rest
  have hrest : ∀ {ts : List Token} u, Consumes c ts (rest u) fun us met => met = true → Headed us :=
    fun _ => .look fun fuel =>
      (begins_skipToBoundary colonToo fuel).last fun run met hmet h => (hmet h).skip _
  exact .ite (fun _ => begins_advance.then fun run _ _ => hrest ()) fun _ => hrest ()

/-- Behind a header that was read nothing is taken, and otherwise everything up to a colon. -/
theorem begins_recoverHeader (start : Nat) (failure : Option Diagnostic) :
    Begins (recoverHeader start failure) fun run _ =>
      failure = none ∧ run = [] ∨ Headed run := by
  cases failure with
  | none => exact fun c => .pure (.inl ⟨rfl, rfl⟩)
  | some d =>
      refine fun c => (begins_synchronize start true).then fun run met hmet => .ite (fun h => ?_)
        fun _ => consumes_fail d
      exact .report (f := Pure.pure) d (.pure (.inr (hmet h)))

/-! ### Open constructs -/

theorem begins_openBlock (b : Block) (opener : Token) :
    Begins (openBlock b opener) fun run _ => run = [] :=
  fun _ => .spend fun _ hs => .here { hs with } rfl

theorem begins_popBlock : Begins popBlock fun run _ => run = [] :=
  fun _ _ hs => .here { hs with } rfl

theorem begins_skipStrayCloser (endToken word : Token) :
    Begins (skipStrayCloser endToken word) fun _ _ => True := by
  refine fun c => .look fun blocks => .report _ ?_
  refine begins_advance.then fun _ _ _ => begins_advance.then fun _ _ _ => ?_
  exact begins_acceptTerminator.then fun _ _ _ => .pure trivial

theorem begins_closer (b : Block) :
    Begins (closer b) fun run closer? => Ends b.kind closer? run := by
  refine fun c => .current fun t ht => .second fun word hword => ?_
  split
  · next hend =>
      obtain ⟨later, hlater⟩ := ht.here hend nofun
      split
      · next kind hcloses =>
          refine .ite (fun h => ?_) fun _ => .report _ (.pure .missing)
          have hkind : word.kind = .keyword b.kind.closer :=
            h ▸ of_decide_eq_true (isKeyword_of_closes? hcloses)
          obtain ⟨rest, hrest⟩ := (hword t later hlater).here hkind nofun
          refine .advance hlater (.advance hrest ?_)
          refine begins_acceptTerminator.then fun dot _ hdot => ?_
          have hends : Ends b.kind (some ⟨t.span.start, word.span.stop⟩) (t :: word :: dot) :=
            .closed hend hkind (fun _ => hdot.kind) ⟨t, rfl, word, rfl, rfl⟩
          exact .ite (fun _ => .pure hends) fun _ => .current fun _ _ => .report _ (.pure hends)
      · refine .report _ (.advance hlater (begins_acceptTerminator.then fun dot _ hdot => ?_))
        exact .pure (.incomplete hend fun _ => hdot.kind)
  · exact .report _ (.pure .missing)

theorem begins_closeBlock (b : Block) :
    Begins (closeBlock b) fun run closer? => Ends b.kind closer? run := by
  refine fun c => (begins_closer b).then fun run closer? hclose => begins_popBlock.then ?_
  rintro _ _ rfl
  exact .pure (by simpa using hclose)

/-! ### Simple statements -/

theorem consumes_letStatement {later : List Token} (ht : c.tokens = t :: later)
    (hlet : t.kind = .keyword .let_) : Consumes c [] letStatement fun us s => s.Spans us := by
  refine .advance ht ((begins_expectIdentifier _ _).then ?_)
  rintro _ n ⟨rfl, hn⟩
  refine (begins_expectKeyword _ _ _).then ?_
  rintro _ b ⟨rfl, hb⟩
  refine begins_expression.then fun run init hinit => (begins_expectTerminator _).then ?_
  rintro _ d ⟨rfl, hd⟩
  exact consumes_finish rfl fun span hspan => .bind hlet hn hb hinit hd hspan

theorem consumes_returnStatement {later : List Token} (ht : c.tokens = t :: later)
    (hreturn : t.kind = .keyword .return_) :
    Consumes c [] returnStatement fun us s => s.Spans us := by
  refine .advance ht (.current fun u _ => ?_)
  extract_lets rest
  refine .ite (fun _ => ?_) fun _ => ?_
  · change Consumes c [t] (rest none) _
    refine (begins_expectTerminator _).then ?_
    rintro _ d ⟨rfl, hd⟩
    exact consumes_finish rfl fun span hspan => .returnNothing hreturn hd hspan
  · have hvalue : Begins (some <$> expression) fun run value? =>
        ∃ value : Expr, value? = some value ∧ value.Enclosed run :=
      fun c => .map ((begins_expression c).mono fun _ value hvalue => ⟨value, rfl, hvalue⟩)
    refine hvalue.then ?_
    rintro run _ ⟨value, rfl, hvalue⟩
    refine (begins_expectTerminator _).then ?_
    rintro _ d ⟨rfl, hd⟩
    exact consumes_finish rfl fun span hspan => .return hreturn hvalue hd hspan

theorem consumes_callStatement {later : List Token} (ht : c.tokens = t :: later)
    (hcall : t.kind = .keyword .call) : Consumes c [] callStatement fun us s => s.Spans us := by
  refine .current fun start hstart => (consumes_call ht hcall).bind fun run v hv => ?_
  refine .taken fun _ hrest => (begins_expectTerminator _).then ?_
  rintro _ d ⟨rfl, hd⟩
  have hhead : start ∈ (run ++ [d]).head? :=
    List.mem_head?_append_of_mem_head? (hstart.head hrest hv.over.ne_nil)
  exact consumes_finish hhead fun span hspan => .call hv hd hspan

theorem begins_rejectMisspelt : Begins rejectMisspelt fun run _ => run = [] := by
  refine fun c => .current fun t _ => .second fun next _ => ?_
  split
  · exact consumes_fail _
  · exact .pure rfl

theorem begins_expressionStatement : Begins expressionStatement fun run s => s.Spans run := by
  refine fun c => begins_rejectMisspelt.then ?_
  rintro _ _ rfl
  refine .current fun start hstart => begins_expression.then fun run value hvalue => ?_
  refine .taken fun _ hrest => (begins_expectTerminator _).then ?_
  rintro _ d ⟨rfl, hd⟩
  have hhead : start ∈ (run ++ [d]).head? :=
    List.mem_head?_append_of_mem_head? (hstart.head hrest hvalue.ne_nil)
  exact consumes_finish hhead fun span hspan => .expression hvalue hd hspan

/-! ### Statements with blocks -/

/-- What is known of a header that holds an expression: it is read from its tokens, and if nothing
failed behind it the rest ends with the colon. -/
def HeadedBy (e : Expr) (failure : Option Diagnostic) (ts : List Token) : Prop :=
  ∃ run rest, ts = run ++ rest ∧ e.Enclosed run ∧ (failure = none → Headed rest)

/-- Behind a header that was recovered from its failure, if any, the colon has been taken. -/
theorem HeadedBy.recovered {e : Expr} {failure : Option Diagnostic} {us : List Token}
    (h : HeadedBy e failure ts) (hus : failure = none ∧ us = [] ∨ Headed us) :
    ∃ run header, ts ++ us = run ++ header ∧ e.Enclosed run ∧ Headed header := by
  obtain ⟨run, rest, rfl, he, hrest⟩ := h
  refine ⟨run, rest ++ us, List.append_assoc .., he, ?_⟩
  rcases hus with ⟨hnone, rfl⟩ | hus
  · rw [List.append_nil]
    exact hrest hnone
  · exact hus.skip rest

theorem begins_ifHeader : Begins ifHeader fun run h => ∀ e, h.1 = some e → HeadedBy e h.2 run := by
  refine fun c => begins_expression.attempt.then fun run r hr => ?_
  cases r with
  | error d => exact .pure nofun
  | ok condition =>
      have hcondition : condition.Enclosed run := hr condition rfl
      have hend : Begins (do
          let _ ← expectKeyword .then_ "'If' header" (some "Write 'If <condition> then:'.")
          expectSign .colon "'If' header" (some "Write 'If <condition> then:'.")) fun run _ =>
            Headed run := by
        refine fun c => (begins_expectKeyword _ _ _).then ?_
        rintro _ t ⟨rfl, -⟩
        refine (begins_expectSign _ _ _).last ?_
        rintro _ k ⟨rfl, hk⟩
        exact (Headed.colon hk).skip [t]
      refine hend.attempt.then fun rest r hrest => ?_
      cases r with
      | error d =>
          refine .pure ?_
          rintro e ⟨⟩
          exact ⟨run, rest, rfl, hcondition, nofun⟩
      | ok k =>
          refine .pure ?_
          rintro e ⟨⟩
          exact ⟨run, rest, rfl, hcondition, fun _ => hrest k rfl⟩

theorem begins_forHeader : Begins forHeader fun run h => ∀ n e, h.1 = some (n, some e) →
    ∃ (f i : Token) (rest : List Token), run = f :: n :: i :: rest ∧ f.kind = .keyword .each ∧
      n.kind.isName = true ∧ i.kind = .keyword .in_ ∧ HeadedBy e h.2 rest := by
  have hitem : Begins (do
      let _ ← expectKeyword .each "'For' header" (some "Write 'For each <item> in <list>:'.")
      expectIdentifier "'For each' header" "a loop variable name") fun run n =>
        ∃ f : Token, run = [f, n] ∧ f.kind = .keyword .each ∧ n.kind.isName = true := by
    refine fun c => (begins_expectKeyword _ _ _).then ?_
    rintro _ f ⟨rfl, hf⟩
    refine (begins_expectIdentifier _ _).last ?_
    rintro _ n ⟨rfl, hn⟩
    exact ⟨f, rfl, hf, hn⟩
  have hiterable : Begins (do
      let _ ← expectKeyword .in_ "'For each' header" (some "Write 'For each <item> in <list>:'.")
      expression) fun run e =>
        ∃ (i : Token) (rest : List Token), run = i :: rest ∧ i.kind = .keyword .in_ ∧
          e.Enclosed rest := by
    refine fun c => (begins_expectKeyword _ _ _).then ?_
    rintro _ i ⟨rfl, hi⟩
    exact begins_expression.last fun rest e he => ⟨i, rest, rfl, hi, he⟩
  refine fun c => hitem.attempt.then fun run r hr => ?_
  cases r with
  | error d => exact .pure nofun
  | ok n =>
      obtain ⟨f, rfl, hf, hn⟩ := hr n rfl
      refine hiterable.attempt.then fun run r hr => ?_
      cases r with
      | error d => exact .pure nofun
      | ok e =>
          obtain ⟨i, es, rfl, hi, he⟩ := hr e rfl
          refine (begins_expectSign _ _ _).attempt.then fun rest r hrest => ?_
          cases r with
          | error d =>
              refine .pure ?_
              rintro _ _ ⟨⟩
              exact ⟨f, i, es ++ rest, rfl, hf, hn, hi, es, rest, rfl, he, nofun⟩
          | ok k =>
              obtain ⟨rfl, hk⟩ := hrest k rfl
              refine .pure ?_
              rintro _ _ ⟨⟩
              exact ⟨f, i, es ++ [k], rfl, hf, hn, hi, es, [k], rfl, he, fun _ => .colon hk⟩

section

variable {block : Parser (List Stmt)} (hblock : Begins block fun run ss => Laid Stmt.Spans ss run)

include hblock

theorem begins_repeatedOtherwise (ifLine otherwiseLine fuel : Nat) :
    Begins (repeatedOtherwise block ifLine otherwiseLine fuel) fun run ss =>
      Laid Stmt.Spans ss run := by
  induction fuel with
  | zero => exact fun c => .pure .nil
  | succ fuel ih =>
      refine fun c => .look fun again => .ite (fun _ => ?_) fun _ => .pure .nil
      refine .current fun t _ => .report _ (begins_advance.then fun first _ _ => ?_)
      refine (begins_acceptSign .colon).then fun colon _ _ => hblock.then fun run ss hss => ?_
      exact ih.then fun rest more hmore => .pure ((hss.skip _).append hmore)

theorem begins_otherwiseBranch (ifLine : Nat) :
    Begins (otherwiseBranch block ifLine) fun run other? =>
      Laid Stmt.Spans (other?.getD []) run := by
  refine fun c => .look fun again => .ite (fun _ => ?_) fun _ => .pure .nil
  refine begins_advance.then fun first start _ => ?_
  refine (begins_acceptSign .colon).then fun colon _ _ => ?_
  extract_lets rest
  have hrest : ∀ {ts : List Token} u, Consumes c ts (rest u) fun us other? =>
      Laid Stmt.Spans (other?.getD []) us := by
    refine fun _ => hblock.then fun run ss hss => .look fun fuel => ?_
    refine (begins_repeatedOtherwise hblock _ _ _).then fun run more hmore => .pure ?_
    exact (hss.skip _).append hmore
  exact .ite (fun _ => hrest ()) fun _ => .current fun _ _ => .report _ (hrest ())

theorem consumes_ifStatement {later : List Token} (ht : c.tokens = t :: later)
    (hif : t.kind = .keyword .if_) :
    Consumes c [] (ifStatement block) fun us s? => ∀ s, s? = some s → s.Spans us := by
  refine .advance ht (.look fun headerStart => begins_ifHeader.then ?_)
  rintro header ⟨condition?, failure⟩ hheader
  refine (begins_recoverHeader headerStart failure).then fun skipped _ hskipped => ?_
  refine (begins_openBlock _ _).then ?_
  rintro _ _ rfl
  refine hblock.then fun body thenBlock hthen => ?_
  refine (begins_otherwiseBranch hblock _).then fun other otherwise hother => ?_
  refine (begins_closeBlock _).then fun close closer? hclose => ?_
  cases condition? with
  | none => exact .pure nofun
  | some condition =>
      obtain ⟨run, rest, hsplit, hcondition, hrest⟩ := (hheader condition rfl).recovered hskipped
      rw [List.append_nil, List.append_assoc _ header skipped, hsplit]
      change Consumes c (t :: (run ++ rest ++ body ++ other ++ close)) _ _
      refine consumes_finish rfl fun span hspan => ?_
      rintro _ ⟨⟩
      exact .branch hif hcondition hrest hthen hother hclose hspan

theorem consumes_forStatement {later : List Token} (ht : c.tokens = t :: later)
    (hfor : t.kind = .keyword .for_) :
    Consumes c [] (forStatement block) fun us s? => ∀ s, s? = some s → s.Spans us := by
  refine .advance ht (.look fun headerStart => begins_forHeader.then ?_)
  rintro header ⟨known, failure⟩ hheader
  refine (begins_recoverHeader headerStart failure).then fun skipped _ hskipped => ?_
  refine (begins_openBlock _ _).then ?_
  rintro _ _ rfl
  refine hblock.then fun run body hbody => ?_
  refine (begins_closeBlock _).then fun close closer? hclose => ?_
  split
  · next n e =>
      obtain ⟨f, i, rest, rfl, hf, hn, hi, hheaded⟩ := hheader n e rfl
      obtain ⟨es, header, hsplit, he, hrest⟩ := hheaded.recovered hskipped
      rw [List.append_nil, List.append_assoc _ _ skipped, List.cons_append, List.cons_append,
        List.cons_append, hsplit]
      refine consumes_finish rfl fun span hspan => ?_
      rintro _ ⟨⟩
      exact .forEach hfor hf hn hi he hrest hbody hclose hspan
  · exact .pure nofun

theorem begins_statement :
    Begins (statement block) fun run s? => ∀ s, s? = some s → s.Spans run := by
  have hsome : ∀ {c : Lead} {p : Parser Stmt}, Consumes c [] p (fun us s => s.Spans us) →
      Consumes c [] (some <$> p) fun us s? => ∀ s, s? = some s → s.Spans us :=
    fun hp => .map (hp.mono fun _ _ hs _ heq => Option.some.inj heq ▸ hs)
  refine fun c => .current fun t ht => ?_
  split
  · next hkind =>
      obtain ⟨later, hlater⟩ := ht.here hkind nofun
      exact hsome (consumes_letStatement hlater hkind)
  · next hkind =>
      obtain ⟨later, hlater⟩ := ht.here hkind nofun
      exact consumes_ifStatement hblock hlater hkind
  · next hkind =>
      obtain ⟨later, hlater⟩ := ht.here hkind nofun
      exact consumes_forStatement hblock hlater hkind
  · next hkind =>
      obtain ⟨later, hlater⟩ := ht.here hkind nofun
      exact hsome (consumes_callStatement hlater hkind)
  · next hkind =>
      obtain ⟨later, hlater⟩ := ht.here hkind nofun
      exact hsome (consumes_returnStatement hlater hkind)
  · exact consumes_fail _
  · exact hsome (begins_expressionStatement c)

theorem begins_recoveringStatement :
    Begins (recoveringStatement block) fun run s? => Laid Stmt.Spans s?.toList run := by
  refine fun c => .look fun start => (begins_statement hblock).attempt.then ?_
  intro run r hr
  cases r with
  | ok s? => exact .pure (.toList (hr s? rfl))
  | error d =>
      refine .report d ((begins_synchronize start false).then fun _ _ _ => .pure .nil)

omit hblock in
/-- What comes next is only looked at. -/
theorem begins_blockStep : Begins blockStep fun run _ => run = [] := by
  refine fun c => .current fun t ht => .second fun word hword => .look fun blocks => ?_
  split
  · exact .pure rfl
  · exact .pure rfl
  · exact .pure rfl
  · split
    · exact .pure rfl
    · exact .pure rfl
  · exact .pure rfl

theorem begins_statements (fuel : Nat) :
    Begins (statements block fuel) fun run ss => Laid Stmt.Spans ss run := by
  induction fuel with
  | zero => exact fun c => .pure .nil
  | succ fuel ih =>
      refine fun c => .current fun t ht => begins_blockStep.then ?_
      rintro _ step rfl
      cases step with
      | leave => exact .pure .nil
      | stray word =>
          refine (begins_skipStrayCloser t word).then fun run _ _ => ?_
          exact ih.last fun rest ss hss => hss.skip _
      | statement =>
          refine .checkTime t ((begins_recoveringStatement hblock).then fun run s? hs => ?_)
          exact ih.then fun rest ss hss => .pure ((hs.skip _).append hss)

end

theorem begins_blockUpTo (depth : Nat) :
    Begins (blockUpTo depth) fun run ss => Laid Stmt.Spans ss run := by
  induction depth with
  | zero => exact fun c => .pure .nil
  | succ depth ih => exact fun c => .look fun fuel => begins_statements ih fuel c

/-- The statements of a block are read from tokens of their own, one behind the other. -/
theorem begins_block : Begins block fun run ss => Laid Stmt.Spans ss run :=
  fun c => .look fun depth => begins_blockUpTo depth c

end Parser

end Prosaic
