import Prosaic.Grammar.Block
import Prosaic.Proofs.Grammar.Statement
import Prosaic.Proofs.Program.Parts

/-!
Programs as tokens. Every expression is put in parentheses, and a call is written with `Call`, so
nothing depends on how tightly operators bind. What a token is, is all that is laid down; its place,
and the text of a literal, are left open.

How a parser goes through tokens that are what it wants. `Goes c p ks bs R ks' bs'` says that `p`,
with `ks` to come and `bs` open, ends with a value of which `R` holds, with `ks'` to come and `bs'`
open, and uses up at most `c` of the levels and nodes that are left. Nothing is reported on the way.
Every parser of the grammar has a rule, and the rules compose by adding what is used.
-/

namespace Prosaic

open Token (Kind)

/-! ### Expressions -/

def Literal.kind : Literal → Kind
  | .number n => .number n
  | .string s => .string s
  | .boolean true => .keyword .true_
  | .boolean false => .keyword .false_

def UnaryOp.kind : UnaryOp → Kind
  | .not => .keyword .not
  | .negate => .sign .minus

def BinaryOp.kinds : BinaryOp → List Kind
  | .or => [.keyword .or]
  | .and => [.keyword .and]
  | .is => [.keyword .is]
  | .isNot => [.keyword .is, .keyword .not]
  | .less => [.sign .less]
  | .greater => [.sign .greater]
  | .lessEqual => [.sign .lessEqual]
  | .greaterEqual => [.sign .greaterEqual]
  | .add => [.sign .plus]
  | .subtract => [.sign .minus]
  | .multiply => [.sign .star]
  | .divide => [.sign .slash]

/-- Tokens in parentheses. -/
def enclose (ks : List Kind) : List Kind := .sign .openParen :: (ks ++ [.sign .closeParen])

mutual

/-- An expression as tokens, without the parentheses around it. -/
def Expr.inside : Expr → List Kind
  | .literal value _ => [value.kind]
  | .list elements _ => .sign .openBracket :: (Expr.listed elements ++ [.sign .closeBracket])
  | .variable name _ => [.identifier name]
  | .unary op operand _ => op.kind :: enclose operand.inside
  | .binary op left right _ => enclose left.inside ++ (op.kinds ++ enclose right.inside)
  | .call callee [] _ => [.keyword .call, .identifier callee.text]
  | .call callee (arg :: args) _ =>
    [.keyword .call, .identifier callee.text, .keyword .with_]
      ++ (enclose arg.inside ++ Expr.continued args)
  | .field base name _ => enclose base.inside ++ [.sign .dot, .identifier name.text]

/-- Expressions with commas between them. -/
def Expr.listed : List Expr → List Kind
  | [] => []
  | e :: es => enclose e.inside ++ Expr.continued es

/-- Expressions with a comma before each. -/
def Expr.continued : List Expr → List Kind
  | [] => []
  | e :: es => .sign .comma :: (enclose e.inside ++ Expr.continued es)

end

def Expr.kinds (e : Expr) : List Kind := enclose e.inside

/-! ### Statements -/

/-- What closes a construct. -/
def BlockKind.kinds (kind : BlockKind) : List Kind :=
  [.keyword .end_, .keyword kind.closer, .terminator]

mutual

def Stmt.kinds : Stmt → List Kind
  | .bind name init _ =>
    [.keyword .let_, .identifier name.text, .keyword .be] ++ (init.kinds ++ [.terminator])
  | .branch condition thenBlock none _ =>
    .keyword .if_ :: (condition.kinds ++ ([.keyword .then_, .sign .colon]
      ++ (Stmt.blockKinds thenBlock ++ BlockKind.if_.kinds)))
  | .branch condition thenBlock (some otherwise) _ =>
    .keyword .if_ :: (condition.kinds ++ ([.keyword .then_, .sign .colon]
      ++ (Stmt.blockKinds thenBlock ++ ([.keyword .otherwise, .sign .colon]
        ++ (Stmt.blockKinds otherwise ++ BlockKind.if_.kinds)))))
  | .forEach item iterable body _ =>
    [.keyword .for_, .keyword .each, .identifier item.text, .keyword .in_]
      ++ (iterable.kinds ++ (.sign .colon :: (Stmt.blockKinds body ++ BlockKind.for_.kinds)))
  | .call callee args note _ => (Expr.call callee args note).inside ++ [.terminator]
  | .return none _ => [.keyword .return_, .terminator]
  | .return (some value) _ => .keyword .return_ :: (value.kinds ++ [.terminator])
  | .expression value _ => value.kinds ++ [.terminator]

def Stmt.blockKinds : List Stmt → List Kind
  | [] => []
  | s :: ss => s.kinds ++ Stmt.blockKinds ss

end

/-! ### Declarations -/

def TypeRef.kinds : TypeRef → List Kind
  | .named name _ => [.identifier name]
  | .list element _ => [.identifier "List", .keyword .of] ++ element.kinds

def Typed.kinds (t : Typed) : List Kind := [.identifier t.name, .keyword .as_] ++ t.ty.kinds

/-- Parameters with commas between them. -/
def Typed.listed : List Typed → List Kind
  | [] => []
  | [p] => p.kinds
  | p :: ps => p.kinds ++ (.sign .comma :: Typed.listed ps)

/-- What a function takes, in its header. -/
def Typed.taken : List Typed → List Kind
  | [] => []
  | p :: ps => .keyword .taking :: Typed.listed (p :: ps)

/-- What a function returns, in its header. -/
def TypeRef.returned : Option TypeRef → List Kind
  | none => []
  | some ty => .keyword .returning :: ty.kinds

def FunctionDecl.header (f : FunctionDecl) : List Kind :=
  .identifier f.name.text ::
    (Typed.taken f.parameters ++ (TypeRef.returned f.returns ++ [.sign .colon]))

def Purity.kinds : Purity → List Kind
  | .pure => []
  | .effectful => [.keyword .effectful]

def FunctionDecl.kinds (f : FunctionDecl) : List Kind :=
  .keyword .define :: (f.purity.kinds ++ (.keyword .function ::
    (f.header ++ (Stmt.blockKinds f.body ++ BlockKind.function.kinds))))

/-- String literals with an `or` before each. -/
def TypeBody.continued (values : List String) : List Kind :=
  values.flatMap fun v => [.keyword .or, .string v]

def TypeBody.kinds : TypeBody → List Kind
  | .reference ty => ty.kinds
  | .literals [] => []
  | .literals (v :: vs) => .string v :: TypeBody.continued vs

def TypeDecl.kinds (t : TypeDecl) : List Kind :=
  [.keyword .define, .keyword .type, .identifier t.name, .keyword .as_]
    ++ (t.body.kinds ++ [.terminator])

def RecordDecl.kinds (r : RecordDecl) : List Kind :=
  [.keyword .define, .keyword .record, .identifier r.name, .sign .colon]
    ++ ((r.fields.flatMap fun f => f.kinds ++ [.terminator]) ++ BlockKind.record.kinds)

def Decl.kinds : Decl → List Kind
  | .function f => f.kinds
  | .type t => t.kinds
  | .record r => r.kinds

def Program.kinds (p : Program) : List Kind := p.declarations.flatMap Decl.kinds

/-! ### Tokens -/

/-- A token that spells its name, if it is one. -/
def Token.Faithful (t : Token) : Prop := ∀ name, t.kind = .identifier name → t.lexeme = name

/-- Tokens that print something: of the right kinds, with names as they are. -/
structure Prints (ks : List Kind) (tokens : List Token) : Prop where
  kinds : tokens.map Token.kind = ks
  faithful : ∀ t ∈ tokens, t.Faithful

/-- A token that spells its name, at no place in particular. -/
def Token.plain : Kind → Token
  | .identifier name => ⟨.identifier name, name, default⟩
  | kind => ⟨kind, "", default⟩

/-- Everything can be printed. -/
theorem prints_plain (ks : List Kind) : Prints ks (ks.map Token.plain) where
  kinds := by
    have hkind : ∀ k : Kind, (Token.plain k).kind = k := fun k => by cases k <;> rfl
    rw [List.map_map, funext (f := Token.kind ∘ Token.plain) hkind]
    exact List.map_id ks
  faithful := by
    intro t ht name hname
    obtain ⟨k, -, rfl⟩ := List.mem_map.mp ht
    cases k with
    | identifier n =>
        cases hname
        rfl
    | _ => cases hname

open Token (Kind)

/-! ### Room -/

/-- No reading of the clock is past the deadline. -/
def Budget.Timely (b : Budget) : Prop :=
  ∀ t ∈ b.clock.next :: b.clock.later, b.deadline.lt t = false

theorem Clock.mem_tick {c : Clock} {t : Binary64} (h : t ∈ c.tick.next :: c.tick.later) :
    t ∈ c.next :: c.later := by
  unfold Clock.tick at h
  split at h
  · exact h
  · next next later heq =>
      rw [heq]
      exact List.mem_cons_of_mem _ h

/-- At least so many levels and so many nodes are left, and all the time. -/
structure Budget.Room (b : Budget) (n : Nat) : Prop where
  depth : b.depth + n ≤ b.limits.nestingDepth
  nodes : (b.nodes + n : Int) ≤ b.limits.nodes
  timely : b.Timely

namespace Budget.Room

variable {b : Budget} {n m : Nat}

theorem mono (h : b.Room n) (hm : m ≤ n) : b.Room m where
  depth := by have := h.depth; omega
  nodes := by have := h.nodes; omega
  timely := h.timely

theorem enter (h : b.Room (n + 1)) (l : Location) :
    (b.enter l).1 = none ∧ (b.enter l).2.Room n := by
  have hdepth := h.depth
  have hnodes := h.nodes
  refine ⟨if_neg (by simp only; omega), ⟨?_, ?_, h.timely⟩⟩
  · simp only [Budget.enter]
    omega
  · simp only [Budget.enter]
    omega

theorem exit (h : b.Room n) : b.exit.Room n where
  depth := by
    have := h.depth
    simp only [Budget.exit]
    omega
  nodes := h.nodes
  timely := h.timely

theorem countNode (h : b.Room (n + 1)) (l : Location) :
    (b.countNode l).1 = none ∧ (b.countNode l).2.Room n := by
  have hdepth := h.depth
  have hnodes := h.nodes
  refine ⟨if_neg (by simp only; omega), ⟨?_, ?_, h.timely⟩⟩
  · simp only [Budget.countNode]
    omega
  · simp only [Budget.countNode]
    omega

theorem checkTime (h : b.Room n) (l : Location) :
    (b.checkTime l).1 = none ∧ (b.checkTime l).2.Room n := by
  refine ⟨if_neg ?_, ⟨h.depth, h.nodes, fun t ht => h.timely t (Clock.mem_tick ht)⟩⟩
  rw [h.timely b.clock.next List.mem_cons_self]
  exact Bool.false_ne_true

end Budget.Room

namespace Parser

variable {α β : Type}

/-! ### The judgement -/

/-- What stands before a reading: sorts of tokens to come, and open constructs. Names are as they
are spelled, and nothing has been found so far. -/
structure State.Shows (s : State) (ks : List Kind) (bs : List Block) : Prop where
  kinds : s.rest.map Token.kind = ks
  blocks : s.blocks = bs
  faithful : ∀ t ∈ s.rest, t.Faithful
  stop : s.stop.kind = .eof
  clean : s.found = []

/-- A parser goes through some tokens. -/
def Goes (c : Nat) (p : Parser α) (ks : List Kind) (bs : List Block) (R : α → Prop)
    (ks' : List Kind) (bs' : List Block) : Prop :=
  ∀ s n, s.Shows ks bs → s.budget.Room (n + c) →
    ∃ a s', p s = .done a s' ∧ R a ∧ s'.Shows ks' bs' ∧ s'.budget.Room n

variable {c c₁ c₂ : Nat} {p : Parser α} {f : α → Parser β} {ks ks₁ ks₂ : List Kind}
  {bs bs₁ bs₂ : List Block} {Q : α → Prop} {R : β → Prop}

theorem Goes.mono (h : Goes c₁ p ks bs Q ks₁ bs₁) (hc : c₁ ≤ c) : Goes c p ks bs Q ks₁ bs₁ :=
  fun s n hs hroom => h s n hs (hroom.mono (by omega))

theorem Goes.imp {Q' : α → Prop} (h : Goes c p ks bs Q ks₁ bs₁) (hQ : ∀ a, Q a → Q' a) :
    Goes c p ks bs Q' ks₁ bs₁ := by
  intro s n hs hroom
  obtain ⟨a, s', hps, ha, hs', hroom'⟩ := h s n hs hroom
  exact ⟨a, s', hps, hQ a ha, hs', hroom'⟩

theorem Goes.pure {a : α} (h : Q a) : Goes 0 (Pure.pure a) ks bs Q ks bs :=
  fun s _ hs hroom => ⟨a, s, rfl, h, hs, hroom⟩

theorem Goes.bind (hp : Goes c₁ p ks bs Q ks₁ bs₁)
    (hf : ∀ a, Q a → Goes c₂ (f a) ks₁ bs₁ R ks₂ bs₂) :
    Goes (c₁ + c₂) (p >>= f) ks bs R ks₂ bs₂ := by
  intro s n hs hroom
  obtain ⟨a, s₁, hps, ha, hs₁, hroom₁⟩ := hp s (n + c₂) hs (by rwa [Nat.add_assoc, Nat.add_comm c₂])
  obtain ⟨b, s₂, hfs, hb, hs₂, hroom₂⟩ := hf a ha s₁ n hs₁ hroom₁
  refine ⟨b, s₂, ?_, hb, hs₂, hroom₂⟩
  simp only [Bind.bind, hps]
  exact hfs

/-- A first step that uses nothing up. -/
theorem Goes.step (hp : Goes 0 p ks bs Q ks₁ bs₁)
    (hf : ∀ a, Q a → Goes c (f a) ks₁ bs₁ R ks₂ bs₂) : Goes c (p >>= f) ks bs R ks₂ bs₂ :=
  (hp.bind hf).mono (Nat.le_of_eq (Nat.zero_add c))

/-- A last step that uses nothing up. -/
theorem Goes.last (hp : Goes c p ks bs Q ks₁ bs₁)
    (hf : ∀ a, Q a → Goes 0 (f a) ks₁ bs₁ R ks₂ bs₂) : Goes c (p >>= f) ks bs R ks₂ bs₂ :=
  hp.bind hf

theorem Goes.map {g : α → β} (h : Goes c p ks bs (fun a => R (g a)) ks₁ bs₁) :
    Goes c (g <$> p) ks bs R ks₁ bs₁ := h.bind fun _ ha => .pure ha

theorem Goes.attempt (h : Goes c p ks bs Q ks₁ bs₁) :
    Goes c (attempt p) ks bs (fun r => ∃ a, r = .ok a ∧ Q a) ks₁ bs₁ := by
  intro s n hs hroom
  obtain ⟨a, s', hps, ha, hs', hroom'⟩ := h s n hs hroom
  exact ⟨.ok a, s', by rw [Parser.attempt, hps], ⟨a, rfl, ha⟩, hs', hroom'⟩

/-! ### Tokens -/

/-- A token of some sort. -/
def Spells (k : Kind) (t : Token) : Prop := t.kind = k ∧ t.Faithful

theorem State.Shows.current {s : State} (h : s.Shows ks bs) :
    Spells (ks.headD .eof) s.current := by
  obtain rfl := h.kinds
  unfold State.current
  cases hrest : s.rest with
  | nil =>
      refine ⟨h.stop, fun name hname => ?_⟩
      rw [List.headD_nil, h.stop] at hname
      cases hname
  | cons t rest => exact ⟨rfl, h.faithful t (hrest ▸ List.mem_cons_self)⟩

theorem State.Shows.second {s : State} (h : s.Shows ks bs) :
    s.second.kind = ks.tail.headD .eof := by
  obtain rfl := h.kinds
  unfold State.second
  cases hrest : s.rest with
  | nil => exact h.stop
  | cons t rest =>
      cases rest with
      | nil => exact h.stop
      | cons u rest => rfl

theorem State.Shows.advance {s : State} {k : Kind} (h : s.Shows (k :: ks) bs) :
    s.advance.Shows ks bs := by
  have hkinds := h.kinds
  unfold State.advance
  split
  · next hrest =>
      rw [hrest] at hkinds
      cases hkinds
  · next t rest hrest =>
      rw [hrest, List.map_cons] at hkinds
      refine ⟨(List.cons.inj hkinds).2, h.blocks, fun u hu => ?_, h.stop, h.clean⟩
      exact h.faithful u (hrest ▸ List.mem_cons_of_mem t hu)

theorem State.budget_advance (s : State) : s.advance.budget = s.budget := by
  unfold State.advance
  split <;> rfl

theorem goes_current : Goes 0 current ks bs (Spells (ks.headD .eof)) ks bs :=
  fun s _ hs hroom => ⟨s.current, s, rfl, hs.current, hs, hroom⟩

theorem goes_second : Goes 0 second ks bs (fun t => t.kind = ks.tail.headD .eof) ks bs :=
  fun s _ hs hroom => ⟨s.second, s, rfl, hs.second, hs, hroom⟩

theorem goes_remaining : Goes 0 remaining ks bs (fun n => n = ks.length) ks bs := by
  intro s n hs hroom
  refine ⟨s.left, s, rfl, ?_, hs, hroom⟩
  rw [← hs.kinds, List.length_map, s.left_eq]

theorem goes_advance {k : Kind} : Goes 0 advance (k :: ks) bs (Spells k) ks bs :=
  fun s _ hs hroom => ⟨s.current, s.advance, rfl, hs.current, hs.advance, s.budget_advance ▸ hroom⟩

theorem Spells.isKeyword {k : Kind} {t : Token} (h : Spells k t) (word : Keyword) :
    t.isKeyword word = decide (k = .keyword word) := by
  rw [Token.isKeyword, h.1]

theorem Spells.isSign {k : Kind} {t : Token} (h : Spells k t) (sign : Sign) :
    t.isSign sign = decide (k = .sign sign) := by
  rw [Token.isSign, h.1]

theorem Spells.isTerminator {k : Kind} {t : Token} (h : Spells k t) :
    t.isTerminator = decide (k = .terminator) := by
  rw [Token.isTerminator, h.1]

theorem Spells.lexeme {name : String} {t : Token} (h : Spells (.identifier name) t) :
    t.lexeme = name := h.2 name h.1

theorem goes_acceptKeyword (word : Keyword) :
    Goes 0 (acceptKeyword word) (.keyword word :: ks) bs (· = true) ks bs := by
  intro s n hs hroom
  have hword : s.current.isKeyword word = true := by simp [hs.current.isKeyword]
  exact ⟨true, s.advance, if_pos hword, rfl, hs.advance, s.budget_advance ▸ hroom⟩

/-- A word that does not come next is not taken. -/
theorem goes_acceptKeyword_other {word : Keyword} (h : ks.headD .eof ≠ .keyword word) :
    Goes 0 (acceptKeyword word) ks bs (· = false) ks bs := by
  intro s n hs hroom
  have hword : ¬s.current.isKeyword word = true := by simpa [hs.current.isKeyword] using h
  exact ⟨false, s, if_neg hword, rfl, hs, hroom⟩

theorem goes_acceptSign (sign : Sign) :
    Goes 0 (acceptSign sign) (.sign sign :: ks) bs (· = true) ks bs := by
  intro s n hs hroom
  have hsign : s.current.isSign sign = true := by simp [hs.current.isSign]
  exact ⟨true, s.advance, if_pos hsign, rfl, hs.advance, s.budget_advance ▸ hroom⟩

theorem goes_acceptSign_other {sign : Sign} (h : ks.headD .eof ≠ .sign sign) :
    Goes 0 (acceptSign sign) ks bs (· = false) ks bs := by
  intro s n hs hroom
  have hsign : ¬s.current.isSign sign = true := by simpa [hs.current.isSign] using h
  exact ⟨false, s, if_neg hsign, rfl, hs, hroom⟩

theorem goes_acceptTerminator :
    Goes 0 acceptTerminator (.terminator :: ks) bs (· = true) ks bs := by
  intro s n hs hroom
  have hend : s.current.isTerminator = true := by simp [hs.current.isTerminator]
  exact ⟨true, s.advance, if_pos hend, rfl, hs.advance, s.budget_advance ▸ hroom⟩

theorem goes_atKeyword (word : Keyword) :
    Goes 0 (atKeyword word) ks bs (· = decide (ks.headD .eof = .keyword word)) ks bs :=
  fun s _ hs hroom => ⟨_, s, rfl, hs.current.isKeyword word, hs, hroom⟩

theorem goes_openBlocks : Goes 0 openBlocks ks bs (· = bs) ks bs :=
  fun s _ hs hroom => ⟨s.blocks, s, rfl, hs.blocks, hs, hroom⟩

theorem goes_spanFrom (start : Token) : Goes 0 (spanFrom start) ks bs (fun _ => True) ks bs :=
  fun s _ hs hroom => ⟨_, s, rfl, trivial, hs, hroom⟩

/-! ### Resources -/

theorem goes_spend {use : Budget → Option Exceeded × Budget}
    (h : ∀ b n, b.Room (n + c) → (use b).1 = none ∧ (use b).2.Room n) :
    Goes c (spend use) ks bs (fun _ => True) ks bs := by
  intro s n hs hroom
  obtain ⟨hnone, hroom'⟩ := h s.budget n hroom
  refine ⟨⟨⟩, { s with budget := (use s.budget).2 }, ?_, trivial, ?_, hroom'⟩
  · unfold spend
    split
    · next b hb => rw [hb]
    · next e b hb =>
        rw [hb] at hnone
        cases hnone
  · exact ⟨hs.kinds, hs.blocks, hs.faithful, hs.stop, hs.clean⟩

theorem goes_countNode (t : Token) : Goes 1 (countNode t) ks bs (fun _ => True) ks bs :=
  goes_spend fun _ _ h => h.countNode _

theorem goes_checkTime (t : Token) : Goes 0 (checkTime t) ks bs (fun _ => True) ks bs :=
  goes_spend fun _ _ h => h.checkTime _

theorem goes_enter (t : Token) : Goes 1 (enter t) ks bs (fun _ => True) ks bs :=
  goes_spend fun _ _ h => h.enter _

theorem Goes.nested (h : Goes c p ks bs Q ks₁ bs₁) (t : Token) :
    Goes (1 + c) (nested t p) ks bs Q ks₁ bs₁ := by
  refine (goes_enter t).bind fun _ _ s n hs hroom => ?_
  obtain ⟨a, s', hps, ha, hs', hroom'⟩ := h s n hs hroom
  refine ⟨a, s'.exit, by rw [hps], ha, ?_, hroom'.exit⟩
  exact ⟨hs'.kinds, hs'.blocks, hs'.faithful, hs'.stop, hs'.clean⟩

/-! ### What has to come next -/

theorem goes_expectKeyword (word : Keyword) (context : String) (hint : Option String) :
    Goes 0 (expectKeyword word context hint) (.keyword word :: ks) bs (fun _ => True) ks bs := by
  refine goes_current.step fun t ht => ?_
  rw [if_pos (by simp [ht.isKeyword])]
  exact goes_advance.imp fun _ _ => trivial

theorem goes_expectSign (sign : Sign) (context : String) (hint : Option String) :
    Goes 0 (expectSign sign context hint) (.sign sign :: ks) bs (fun _ => True) ks bs := by
  refine goes_current.step fun t ht => ?_
  rw [if_pos (by simp [ht.isSign])]
  exact goes_advance.imp fun _ _ => trivial

theorem goes_expectIdentifier (name context what : String) :
    Goes 0 (expectIdentifier context what) (.identifier name :: ks) bs (·.lexeme = name) ks bs := by
  refine goes_current.step fun t ht => ?_
  have hkind : t.kind = .identifier name := ht.1
  simp only [hkind]
  exact goes_advance.imp fun u hu => hu.lexeme

theorem goes_expectTerminator (context : String) :
    Goes 0 (expectTerminator context) (.terminator :: ks) bs (fun _ => True) ks bs := by
  refine goes_current.step fun t ht => ?_
  rw [if_pos (by simp [ht.isTerminator])]
  exact goes_advance.imp fun _ _ => trivial

/-- What a construct ends with, behind its last token. -/
theorem goes_finish (start : Token) {value : Span → α} (h : ∀ span, Q (value span)) :
    Goes 1 (do let span ← spanFrom start; countNode start; return value span) ks bs Q ks bs :=
  (goes_spanFrom start).step fun _ _ => (goes_countNode start).bind fun _ _ => .pure (h _)

/-! ### Blocks -/

theorem goes_openBlock (b : Block) (opener : Token) :
    Goes 1 (openBlock b opener) ks bs (fun _ => True) ks (b :: bs) := by
  have hpush : Goes 0 (fun s => .done ⟨⟩ { s with blocks := b :: s.blocks } : Parser PUnit) ks bs
      (fun _ => True) ks (b :: bs) := by
    intro s n hs hroom
    refine ⟨⟨⟩, { s with blocks := b :: s.blocks }, rfl, trivial, ?_, hroom⟩
    exact ⟨hs.kinds, congrArg (b :: ·) hs.blocks, hs.faithful, hs.stop, hs.clean⟩
  exact (goes_enter opener).bind fun _ _ => hpush

theorem goes_popBlock (b : Block) : Goes 0 popBlock ks (b :: bs) (fun _ => True) ks bs := by
  intro s n hs hroom
  refine ⟨⟨⟩, { s.exit with blocks := s.blocks.tail }, rfl, trivial, ?_, hroom.exit⟩
  exact ⟨hs.kinds, by rw [hs.blocks, List.tail_cons], hs.faithful, hs.stop, hs.clean⟩

theorem BlockKind.ofCloser?_closer (kind : BlockKind) :
    BlockKind.ofCloser? kind.closer = some kind := by
  cases kind <;> rfl

/-- The closer of the innermost construct closes it. -/
theorem goes_closeBlock (b : Block) :
    Goes 0 (closeBlock b) (b.kind.kinds ++ ks) (b :: bs) (fun _ => True) ks bs := by
  have hcloser : Goes 0 (closer b) (b.kind.kinds ++ ks) (b :: bs) (fun _ => True) ks (b :: bs) := by
    refine goes_current.step fun t ht => goes_second.step fun word hword => ?_
    have hkind : t.kind = .keyword .end_ := ht.1
    have hcloses : closes? word = some b.kind := by
      have hword : word.kind = .keyword b.kind.closer := hword
      rw [closes?, Token.keyword?, hword]
      exact BlockKind.ofCloser?_closer b.kind
    simp only [hkind, hcloses, if_true]
    refine goes_advance.step fun _ _ => goes_advance.step fun _ _ => ?_
    refine goes_acceptTerminator.step fun closed hclosed => ?_
    rw [if_pos hclosed]
    exact .pure trivial
  exact hcloser.step fun _ _ => (goes_popBlock b).step fun _ _ => .pure trivial

end Parser

end Prosaic
