import Mathlib.Data.List.Forall2
import Prosaic.Proofs.TypeScript.Reader.Lexeme
import Prosaic.TypeScript.Print

/-!
Expressions of the target language, read from their text. The infix operators bind by their
precedence and group to the left; above them stand the prefixes `!`, `-` and `await`, and above
these calls and members. Something can be cast; that binds like a comparison.

Behind an operand, the sign for less starts type arguments wherever there are types with commas
between them behind it, then the sign for greater, and then the arguments of a call or something
that no operand starts with. Otherwise it compares. Types are read as far as they can be made up of
the tokens that there are in expressions. A plainer reader does without type arguments, so that the
two signs always compare, and casts only what stands in parentheses of its own.

Which tokens a reader takes for which expression, whatever follows them. A chain is accepted link by
link: what it has read so far may be followed by whatever its step does not take for an operand.
-/

namespace Prosaic.TypeScript

/-- A type as it is read. -/
inductive TypeTree
  | number (negative : Bool) (digits : String)
  | string (value : String)
  | named (path : List String) (arguments : List TypeTree)
  | under (operator : String) (type : TypeTree)
  | tuple (elements : List TypeTree)
  | listOf (element : TypeTree)
  | indexed (base index : TypeTree)
  deriving Repr, Inhabited

/-- An expression as it is read. There are no parentheses in it. -/
inductive Tree
  | number (digits : String)
  | string (value : String)
  | boolean (b : Bool)
  | array (elements : List Tree)
  | name (identifier : String)
  | unary (op : UnaryOp) (operand : Tree)
  | await (operand : Tree)
  | binary (op : BinaryOp) (left right : Tree)
  | call (callee : Tree) (arguments : List Tree)
  | instantiated (base : Tree) (types : List TypeTree)
  | cast (operand : Tree) (type : String)
  | member (base : Tree) (name : String)
  deriving Repr, Inhabited

mutual

/-- A property holds of everything in an expression. -/
def Tree.Everywhere (P : Tree → Prop) : Tree → Prop
  | .number digits => P (.number digits)
  | .string value => P (.string value)
  | .boolean b => P (.boolean b)
  | .array elements => P (.array elements) ∧ Tree.EverywhereIn P elements
  | .name x => P (.name x)
  | .unary op operand => P (.unary op operand) ∧ operand.Everywhere P
  | .await operand => P (.await operand) ∧ operand.Everywhere P
  | .binary op left right => P (.binary op left right) ∧ left.Everywhere P ∧ right.Everywhere P
  | .call callee args => P (.call callee args) ∧ callee.Everywhere P ∧ Tree.EverywhereIn P args
  | .instantiated base types => P (.instantiated base types) ∧ base.Everywhere P
  | .cast operand type => P (.cast operand type) ∧ operand.Everywhere P
  | .member base field => P (.member base field) ∧ base.Everywhere P

def Tree.EverywhereIn (P : Tree → Prop) : List Tree → Prop
  | [] => True
  | e :: es => e.Everywhere P ∧ Tree.EverywhereIn P es

end

theorem Tree.everywhereIn_iff {P : Tree → Prop} {es : List Tree} :
    Tree.EverywhereIn P es ↔ ∀ e ∈ es, e.Everywhere P := by
  induction es with
  | nil => simp [Tree.EverywhereIn]
  | cons e es ih => simp [Tree.EverywhereIn, ih]

/-- There are no type arguments directly behind it. -/
def Tree.Bare : Tree → Prop
  | .instantiated .. => False
  | _ => True

/-- What reads something from the first tokens, and leaves the others. -/
abbrev Reader (α : Type) := List Lexeme → Option (α × List Lexeme)

/-- The words that are no identifiers in strict code. -/
def keywords : List String :=
  ["await", "break", "case", "catch", "class", "const", "continue", "debugger", "default", "delete",
   "do", "else", "enum", "export", "extends", "false", "finally", "for", "function",
   "if", "implements", "import", "in", "instanceof", "interface", "let", "new", "null", "package",
   "private", "protected", "public", "return", "static", "super", "switch", "this", "throw", "true",
   "try", "typeof", "var", "void", "while", "with", "yield"]

/-- The words behind which a type has to follow where a type is read. -/
def typeOperators : List String := ["infer", "keyof", "readonly", "unique"]

namespace Reader

section

variable {α : Type}

/-- Repeats a step, at most so many times, as long as it can go on. -/
def goOn (step : α → Reader α) : Nat → α → Reader α
  | 0, e, ts => some (e, ts)
  | n + 1, e, ts =>
    match step e ts with
    | some (e, ts) => goOn step n e ts
    | none => some (e, ts)

/-- Something first, and then steps that go on from it. -/
def chain (first : Reader α) (step : α → Reader α) : Reader α := fun ts => do
  let (e, rest) ← first ts
  goOn step ts.length e rest

/-! ### Lists -/

/-- Behind an element: a comma and another element, again and again, up to the closing mark. -/
def listRest (element : Reader α) (close : String) : Nat → Reader (List α)
  | n + 1, .mark m :: ts =>
    if m = close then some ([], ts)
    else if m = "," then do
      let (e, ts) ← element ts
      let (es, ts) ← listRest element close n ts
      return (e :: es, ts)
    else none
  | _, _ => none

/-- Elements with commas between them, up to the closing mark. -/
def list (element : Reader α) (close : String) : Reader (List α) := fun ts =>
  if ts.head? = some (.mark close) then some ([], ts.tail)
  else do
    let (e, ts) ← element ts
    let (es, ts) ← listRest element close ts.length ts
    return (e :: es, ts)

/-- Something in parentheses, behind the opening one. -/
def closed (inner : Reader α) : Reader α := fun ts => do
  let (e, ts) ← inner ts
  if ts.head? = some (.mark ")") then some (e, ts.tail) else none

end

/-! ### Types -/

section

variable (inner : Reader TypeTree)

/-- The members that follow a name. -/
def members : List Lexeme → List String × List Lexeme
  | .mark m :: .word name :: ts =>
    if m = "." then
      let (names, rest) := members ts
      (name :: names, rest)
    else ([], .mark m :: .word name :: ts)
  | ts => ([], ts)

/-- A literal, a name with its arguments, or something in brackets of its own. -/
def typeOperand : Reader TypeTree
  | .number digits :: ts => some (.number false digits, ts)
  | .string value :: ts => some (.string value, ts)
  | .word name :: ts =>
    if name ∈ ["false", "null", "this", "true", "void"] then some (.named [name] [], ts)
    else if name ∈ keywords then none
    else
      let (names, ts) := members ts
      if ts.head? = some (.mark "<") then do
        let (arguments, ts) ← list inner ">" ts.tail
        return (.named (name :: names) arguments, ts)
      else some (.named (name :: names) [], ts)
  | .mark m :: ts =>
    if m = "(" then closed inner ts
    else if m = "[" then do
      let (elements, ts) ← list inner "]" ts
      return (.tuple elements, ts)
    else if m = "-" then
      match ts with
      | .number digits :: ts => some (.number true digits, ts)
      | _ => none
    else none
  | [] => none

/-- The type of the lists of something, or of what stands in it under an index. -/
def typeSuffix (type : TypeTree) : Reader TypeTree
  | .mark m :: ts =>
    if m = "[" then
      if ts.head? = some (.mark "]") then some (.listOf type, ts.tail)
      else do
        let (index, ts) ← inner ts
        if ts.head? = some (.mark "]") then some (.indexed type index, ts.tail) else none
    else none
  | _ => none

def typeOperatorOf? : Lexeme → Option String
  | .word w => if w ∈ typeOperators then some w else none
  -- types of the kind that comments have are read everywhere
  | .mark m => if m = "!" then some m else none
  | _ => none

/-- A type with what follows it at once, and any operators before it. -/
def typePrefixed : Reader TypeTree
  | [] => none
  | t :: ts =>
    match typeOperatorOf? t with
    | some operator => (typePrefixed ts).map fun (type, rest) => (.under operator type, rest)
    | none => chain (typeOperand inner) (typeSuffix inner) (t :: ts)

end

/-- A type with brackets nested less deeply than this. -/
def typeUpTo : Nat → Reader TypeTree
  | 0 => fun _ => none
  | d + 1 => typePrefixed (typeUpTo d)

/-- Whether type arguments can end before a token: it opens the arguments of a call, or no operand
starts with it. Two signs for comparisons are never next to each other. -/
def endsTypes : Option Lexeme → Bool
  | none => true
  | some (.mark m) => m ∉ ["<", ">", "+", "-", "!", "~", "++", "--", "[", "\x7b", "@", "#"]
  | some (.word w) => w ∈ ["as", "in", "instanceof", "satisfies"]
  | some _ => false

/-- Type arguments, behind the sign for less. -/
def typeArguments : Reader (List TypeTree) := fun ts => do
  let (types, rest) ← list (typeUpTo ts.length) ">" ts
  if endsTypes rest.head? then some (types, rest) else none

end Reader

/-- Where a reader of expressions expects types: what it reads behind the sign for less as type
arguments, whether something is cast without parentheses of its own, and to which words nothing
is. -/
structure TypeRules where
  arguments : Reader (List TypeTree)
  castsAnywhere : Bool
  refused : List String

namespace TypeRules

/-- No type arguments, and casts in parentheses only. -/
def plain : TypeRules := ⟨fun _ => none, false, keywords⟩

/-- The rules of the language. -/
def full : TypeRules := ⟨Reader.typeArguments, true, keywords ++ typeOperators⟩

/-- If it is a cast, then to what can be a type. -/
def Casts (rules : TypeRules) : Tree → Prop
  | .cast _ type => type ∉ rules.refused
  | _ => True

end TypeRules

namespace Reader

/-! ### Operands -/

section

variable (rules : TypeRules)

-- an expression; whether it stands in parentheses of its own matters to casts
variable (inner : Bool → Reader Tree)

/-- A literal, a name, or something in brackets of its own. -/
def operand : Reader Tree
  | .number digits :: ts => some (.number digits, ts)
  | .string value :: ts => some (.string value, ts)
  | .word name :: ts =>
    if name = "true" then some (.boolean true, ts)
    else if name = "false" then some (.boolean false, ts)
    else if name ∈ keywords then none
    else some (.name name, ts)
  | .mark m :: ts =>
    if m = "(" then closed (inner true) ts
    else if m = "[" then do
      let (es, ts) ← list (inner rules.castsAnywhere) "]" ts
      return (.array es, ts)
    else none
  | [] => none

/-- A member of something, a call of it, or type arguments for it. -/
def suffix (e : Tree) : Reader Tree
  | .mark m :: ts =>
    if m = "." then
      match ts with
      | .word name :: ts => some (.member e name, ts)
      | _ => none
    else if m = "(" then do
      let (es, ts) ← list (inner rules.castsAnywhere) ")" ts
      return (.call e es, ts)
    else if m = "<" then do
      let (types, ts) ← rules.arguments ts
      return (.instantiated e types, ts)
    else none
  | _ => none

/-! ### Operators -/

def prefixOf? : Lexeme → Option (Tree → Tree)
  | .mark m =>
    if m = unarySymbol .not then some (.unary .not)
    else if m = unarySymbol .negate then some (.unary .negate)
    else none
  | .word w => if w = "await" then some .await else none
  | _ => none

/-- An operand with what follows it at once, and any prefixes before it. -/
def prefixed : Reader Tree
  | [] => none
  | t :: ts =>
    match prefixOf? t with
    | some apply => (prefixed ts).map fun (e, rest) => (apply e, rest)
    | none => chain (operand rules inner) (suffix rules inner) (t :: ts)

def operatorOf? (m : String) : Option BinaryOp :=
  [.or, .and, .is, .isNot, .less, .greater, .lessEqual, .greaterEqual, .add, .subtract, .multiply,
    .divide].find? fun op => binarySymbol op = m

/-- An operator of some precedence and its right operand, or a cast where there can be one. The sign
for less behind a type would go on with the type. -/
def operation (casts : Bool) (p : Nat) (right : Reader Tree) (e : Tree) : Reader Tree
  | .mark m :: ts => do
    let op ← operatorOf? m
    if precedence op = p then do
      let (r, ts) ← right ts
      return (.binary op e r, ts)
    else none
  | .word w :: .word type :: ts =>
    if casts ∧ p = precedence .less ∧ w = "as" ∧ type ∉ rules.refused ∧
        ts.head? ≠ some (.mark "<") then
      some (.cast e type, ts)
    else none
  | _ => none

/-- The operations of the `k` highest precedences. -/
def rung (casts : Bool) (unary : Reader Tree) : Nat → Reader Tree
  | 0 => unary
  | k + 1 => chain (rung casts unary k) (operation rules casts (6 - k) (rung casts unary k))

/-- An expression with brackets nested less deeply than this. -/
def expressionUpTo : Nat → Bool → Reader Tree
  | 0, _ => fun _ => none
  | d + 1, casts => rung rules casts (prefixed rules (expressionUpTo d)) 6

end

end Reader

/-- Reads the text of an expression. -/
def read (rules : TypeRules) (text : String) : Option Tree := do
  let ts ← lexemes? text
  let (e, rest) ← Reader.expressionUpTo rules ts.length rules.castsAnywhere ts
  if rest = [] then return e else none

end Prosaic.TypeScript

namespace Prosaic.TypeScript

/-- No sign for less among the tokens starts type arguments. -/
def TypeRules.Clear (rules : TypeRules) (ts : List Lexeme) : Prop :=
  ∀ us, .mark "<" :: us <:+ ts → rules.arguments us = none

theorem TypeRules.clear_plain (ts : List Lexeme) : plain.Clear ts := fun _ _ => rfl

theorem TypeRules.Clear.suffix {rules : TypeRules} {ts us : List Lexeme} (h : rules.Clear ts)
    (hus : us <:+ ts) : rules.Clear us := fun _ hvs => h _ (hvs.trans hus)

namespace Reader

section

variable {α : Type} {rules : TypeRules} {p : Reader α} {follow follow' : Option Lexeme → Prop}
  {ks : List Lexeme} {a : α}

/-- The reader takes these tokens for that result, if what follows them may follow and no sign for
less starts type arguments. -/
def Accepts (rules : TypeRules) (p : Reader α) (follow : Option Lexeme → Prop) (ks : List Lexeme)
    (a : α) : Prop :=
  ∀ rest, rules.Clear (ks ++ rest) → follow rest.head? → p (ks ++ rest) = some (a, rest)

theorem Accepts.weaken (h : Accepts rules p follow ks a) (hfollow : ∀ t, follow' t → follow t) :
    Accepts rules p follow' ks a := fun rest hclear hrest => h rest hclear (hfollow _ hrest)

end

/-! ### Chains -/

/-- The first link and some steps take these tokens for that expression; further steps can
follow. -/
def Spine (rules : TypeRules) (first : Reader Tree) (step : Tree → Reader Tree)
    (follow : Option Lexeme → Prop) (ks : List Lexeme) (e : Tree) : Prop :=
  ∃ m ≤ ks.length, ∀ rest, rules.Clear (ks ++ rest) → follow rest.head? →
    ∃ e₀ ts, first (ks ++ rest) = some (e₀, ts) ∧
      ∀ n, goOn step (n + m) e₀ ts = goOn step n e rest

section

variable {rules : TypeRules} {first : Reader Tree} {step : Tree → Reader Tree}
  {follow follow' : Option Lexeme → Prop} {ks ks' : List Lexeme} {e e' : Tree}

theorem Accepts.spine (h : Accepts rules first follow ks e) : Spine rules first step follow ks e :=
  ⟨0, Nat.zero_le _, fun rest hclear hrest => ⟨e, rest, h rest hclear hrest, fun _ => rfl⟩⟩

/-- One link more. -/
theorem Spine.snoc (h : Spine rules first step follow ks e) (hne : ks' ≠ [])
    (hfollow : ∀ t ∈ ks'.head?, follow (some t)) (hstep : Accepts rules (step e) follow' ks' e') :
    Spine rules first step follow' (ks ++ ks') e' := by
  obtain ⟨m, hm, hspine⟩ := h
  obtain ⟨t, ts, rfl⟩ := List.exists_cons_of_ne_nil hne
  refine ⟨m + 1, ?_, fun rest hclear hrest => ?_⟩
  · rw [List.length_append, List.length_cons]
    omega
  · rw [List.append_assoc] at hclear ⊢
    have hstep := hstep rest (hclear.suffix (List.suffix_append _ _)) hrest
    obtain ⟨e₀, us, hfirst, hsteps⟩ := hspine (t :: ts ++ rest) hclear (hfollow t rfl)
    refine ⟨e₀, us, hfirst, fun n => ?_⟩
    calc goOn step (n + (m + 1)) e₀ us
      _ = goOn step (n + 1 + m) e₀ us := by rw [Nat.add_right_comm, Nat.add_assoc]
      _ = goOn step (n + 1) e (t :: ts ++ rest) := hsteps (n + 1)
      _ = goOn step n e' rest := by rw [goOn, hstep]

theorem goOn_of_none {rest : List Lexeme} (h : step e rest = none) (n : Nat) :
    goOn step n e rest = some (e, rest) := by
  cases n with
  | zero => rfl
  | succ n => rw [goOn, h]

/-- The chain ends where its step cannot go on. -/
theorem Spine.accepts (h : Spine rules first step follow ks e) (hfollow : ∀ t, follow' t → follow t)
    (hend : ∀ rest, rules.Clear rest → follow' rest.head? → step e rest = none) :
    Accepts rules (chain first step) follow' ks e := by
  obtain ⟨m, hm, hspine⟩ := h
  intro rest hclear hrest
  have hend := hend rest (hclear.suffix (List.suffix_append _ _)) hrest
  obtain ⟨e₀, ts, hfirst, hsteps⟩ := hspine rest hclear (hfollow _ hrest)
  obtain ⟨n, hn⟩ : ∃ n, (ks ++ rest).length = n + m := by
    refine ⟨(ks ++ rest).length - m, ?_⟩
    rw [List.length_append]
    omega
  have hrun : chain first step (ks ++ rest) = goOn step (ks ++ rest).length e₀ ts := by
    simp only [chain, hfirst, Option.bind_eq_bind, Option.bind_some]
  rw [hrun, hn, hsteps n, goOn_of_none hend]

end

/-! ### Operands -/

section

variable {rules : TypeRules} {inner : Bool → Reader Tree}

/-- The tokens make up an operand with what follows it at once, and do not start with a prefix. -/
structure Tight (rules : TypeRules) (inner : Bool → Reader Tree) (ks : List Lexeme) (e : Tree) :
    Prop where
  spine : Spine rules (operand rules inner) (suffix rules inner) (fun _ => True) ks e
  first : ∃ t ts, ks = t :: ts ∧ prefixOf? t = none

theorem Tight.of_operand {ks : List Lexeme} {t : Lexeme} {e : Tree}
    (h : Accepts rules (operand rules inner) (fun _ => True) (t :: ks) e)
    (ht : prefixOf? t = none) :
    Tight rules inner (t :: ks) e :=
  ⟨h.spine, t, ks, rfl, ht⟩

theorem Tight.snoc {ks ks' : List Lexeme} {e e' : Tree} (h : Tight rules inner ks e)
    (hne : ks' ≠ [])
    (hsuffix : Accepts rules (suffix rules inner e) (fun _ => True) ks' e') :
    Tight rules inner (ks ++ ks') e' := by
  obtain ⟨t, ts, rfl, ht⟩ := h.first
  exact ⟨h.spine.snoc hne (fun _ _ => trivial) hsuffix, t, ts ++ ks', rfl, ht⟩

/-- Something in parentheses. -/
theorem tight_parentheses {ks : List Lexeme} {e : Tree}
    (h : Accepts rules (inner true) (· = some (.mark ")")) ks e) :
    Tight rules inner (.mark "(" :: (ks ++ [.mark ")"])) e := by
  refine .of_operand (fun rest hclear _ => ?_) (by decide)
  simp only [List.cons_append, List.append_assoc, List.nil_append] at hclear ⊢
  have hread := h (.mark ")" :: rest) (hclear.suffix (List.suffix_cons _ _)) rfl
  simp only [operand, closed, hread, Option.bind_eq_bind, Option.bind_some, List.head?_cons,
    List.tail_cons, if_true]

/-! ### Lists -/

section

variable {element : Reader Tree} {follow : Option Lexeme → Prop} {close : String}

/-- The tokens of a list's elements, with a comma before each. -/
def commaBefore (kss : List (List Lexeme)) : List Lexeme := kss.flatMap fun ks => .mark "," :: ks

/-- The tokens of a list's elements, with commas between them. -/
def commaBetween : List (List Lexeme) → List Lexeme
  | [] => []
  | ks :: kss => ks ++ commaBefore kss

theorem head?_commaBefore (hclose : follow (some (.mark close)))
    (hcomma : follow (some (.mark ",")))
    (kss : List (List Lexeme)) (rest : List Lexeme) :
    follow (commaBefore kss ++ .mark close :: rest).head? := by
  cases kss with
  | nil => exact hclose
  | cons ks kss => exact hcomma

theorem length_le_commaBefore (kss : List (List Lexeme)) :
    kss.length ≤ (commaBefore kss).length := by
  induction kss with
  | nil => exact Nat.le_refl 0
  | cons ks kss ih =>
      rw [commaBefore, List.flatMap_cons, List.length_append, List.length_cons, List.length_cons,
        ← commaBefore]
      omega

theorem accepts_listRest (hclose : follow (some (.mark close))) (hcomma : follow (some (.mark ",")))
    (hne : close ≠ ",") {kss : List (List Lexeme)} {es : List Tree}
    (h : List.Forall₂ (Accepts rules element follow) kss es) {n : Nat} (hn : kss.length < n)
    (rest : List Lexeme) (hclear : rules.Clear (commaBefore kss ++ .mark close :: rest)) :
    listRest element close n (commaBefore kss ++ .mark close :: rest) = some (es, rest) := by
  induction h generalizing n with
  | nil =>
      obtain ⟨n, rfl⟩ := Nat.exists_eq_add_of_lt hn
      exact if_pos rfl
  | @cons ks e kss es he _ ih =>
      rw [List.length_cons] at hn
      obtain ⟨n, rfl⟩ : ∃ k, n = k + 1 := ⟨n - 1, by omega⟩
      have htokens : commaBefore (ks :: kss) ++ .mark close :: rest =
          .mark "," :: (ks ++ (commaBefore kss ++ .mark close :: rest)) := by
        simp [commaBefore]
      rw [htokens] at hclear ⊢
      have hclear := hclear.suffix (List.suffix_cons _ _)
      have hrest := ih (n := n) (by omega) (hclear.suffix (List.suffix_append _ _))
      have hfirst := he _ hclear (head?_commaBefore hclose hcomma kss rest)
      rw [listRest, if_neg hne.symm, if_pos rfl, hfirst]
      simp only [Option.bind_eq_bind, Option.bind_some, hrest, Option.pure_def]

/-- Elements with commas between them and a closing mark behind, of which no element starts with. -/
theorem accepts_list (hclose : follow (some (.mark close))) (hcomma : follow (some (.mark ",")))
    (hne : close ≠ ",") (hnone : ∀ ts, element (.mark close :: ts) = none)
    {kss : List (List Lexeme)} {es : List Tree}
    (h : List.Forall₂ (Accepts rules element follow) kss es) :
    Accepts rules (list element close) (fun _ => True) (commaBetween kss ++ [.mark close]) es := by
  intro rest hclear _
  cases h with
  | nil => exact if_pos rfl
  | @cons ks e kss es he hes =>
      have htokens : commaBetween (ks :: kss) ++ [.mark close] ++ rest =
          ks ++ (commaBefore kss ++ .mark close :: rest) := by
        simp [commaBetween]
      rw [htokens] at hclear ⊢
      have hrest := hclear.suffix (List.suffix_append _ _)
      have hfirst := he _ hclear (head?_commaBefore hclose hcomma kss rest)
      have hhead : (ks ++ (commaBefore kss ++ .mark close :: rest)).head? ≠ some (.mark close) := by
        intro heq
        obtain ⟨ts, hts⟩ := List.head?_eq_some_iff.mp heq
        rw [hts, hnone] at hfirst
        cases hfirst
      have hlength : kss.length < (commaBefore kss ++ .mark close :: rest).length := by
        have hbefore := length_le_commaBefore kss
        rw [List.length_append, List.length_cons]
        omega
      rw [list, if_neg hhead, hfirst]
      simp only [Option.bind_eq_bind, Option.bind_some,
        accepts_listRest hclose hcomma hne hes hlength rest hrest, Option.pure_def]

end

/-- A list in brackets. -/
theorem tight_brackets {ks : List Lexeme} {es : List Tree}
    (h : Accepts rules (list (inner rules.castsAnywhere) "]") (fun _ => True) ks es) :
    Tight rules inner (.mark "[" :: ks) (.array es) := by
  refine .of_operand (fun rest hclear _ => ?_) (by decide)
  have hread := h rest (hclear.suffix (List.suffix_cons _ _)) trivial
  simp only [List.cons_append, operand, hread, Option.bind_eq_bind, Option.bind_some]
  rfl

/-- A call of what stands before the parentheses. -/
theorem accepts_call {callee : Tree} {ks : List Lexeme} {es : List Tree}
    (h : Accepts rules (list (inner rules.castsAnywhere) ")") (fun _ => True) ks es) :
    Accepts rules (suffix rules inner callee) (fun _ => True) (.mark "(" :: ks)
      (.call callee es) := by
  intro rest hclear _
  have hread := h rest (hclear.suffix (List.suffix_cons _ _)) trivial
  simp only [List.cons_append, suffix, hread, Option.bind_eq_bind, Option.bind_some]
  rfl

/-! ### Operators -/

/-- What cannot go on an expression that the highest `k` precedences make up. -/
structure Stops (k : Nat) (next : Option Lexeme) : Prop where
  point : next ≠ some (.mark ".")
  call : next ≠ some (.mark "(")
  operator : ∀ m op, next = some (.mark m) → operatorOf? m = some op → precedence op + k < 7
  cast : next = some (.word "as") → precedence .less + k < 7

theorem Stops.weaken {k k' : Nat} {next : Option Lexeme} (h : Stops k next) (hk : k' ≤ k) :
    Stops k' next :=
  ⟨h.point, h.call, fun m op hm hop => by have := h.operator m op hm hop; omega,
    fun hcast => by have := h.cast hcast; omega⟩

theorem stops_mark {m : String} (k : Nat) (h : m ∈ [")", "]", ","]) : Stops k (some (.mark m)) := by
  have hall : ∀ m ∈ [")", "]", ","], m ≠ "." ∧ m ≠ "(" ∧ operatorOf? m = none := by decide
  obtain ⟨hpoint, hcall, hnone⟩ := hall m h
  refine ⟨fun heq => ?_, fun heq => ?_, fun m' op heq hop => ?_, nofun⟩
  · exact hpoint (Lexeme.mark.inj (Option.some.inj heq))
  · exact hcall (Lexeme.mark.inj (Option.some.inj heq))
  · obtain rfl := Lexeme.mark.inj (Option.some.inj heq)
    rw [hnone] at hop
    cases hop

theorem operatorOf?_binarySymbol (op : BinaryOp) : operatorOf? (binarySymbol op) = some op := by
  cases op <;> decide

theorem stops_binarySymbol {op : BinaryOp} {k : Nat} (h : precedence op + k < 7) :
    Stops k (some (.mark (binarySymbol op))) := by
  have hsymbol : binarySymbol op ≠ "." ∧ binarySymbol op ≠ "(" := by cases op <;> decide
  refine ⟨fun heq => ?_, fun heq => ?_, fun m op' heq hop => ?_, nofun⟩
  · exact hsymbol.1 (Lexeme.mark.inj (Option.some.inj heq))
  · exact hsymbol.2 (Lexeme.mark.inj (Option.some.inj heq))
  · obtain rfl := Lexeme.mark.inj (Option.some.inj heq)
    obtain rfl := Option.some.inj ((operatorOf?_binarySymbol op).symm.trans hop)
    exact h

theorem stops_none (k : Nat) : Stops k none := ⟨nofun, nofun, nofun, nofun⟩

theorem suffix_eq_none {e : Tree} {rest : List Lexeme} {k : Nat} (hclear : rules.Clear rest)
    (h : Stops k rest.head?) : suffix rules inner e rest = none := by
  unfold suffix
  split
  · next m ts =>
      rw [if_neg fun hm => h.point (by rw [hm]; rfl), if_neg fun hm => h.call (by rw [hm]; rfl)]
      by_cases hless : m = "<"
      · subst hless
        rw [if_pos rfl, hclear ts List.suffix_rfl]
        rfl
      · exact if_neg hless
  · rfl

theorem operation_eq_none {casts : Bool} {right : Reader Tree} {e : Tree} {rest : List Lexeme}
    {k : Nat} (h : Stops (k + 1) rest.head?) :
    operation rules casts (6 - k) right e rest = none := by
  unfold operation
  split
  · next m ts =>
      cases hop : operatorOf? m with
      | none => rfl
      | some op =>
          have hprecedence := h.operator m op rfl hop
          exact if_neg (by omega)
  · next w type ts =>
      refine if_neg fun hcast => ?_
      have hprecedence := h.cast (by rw [hcast.2.2.1]; rfl)
      omega
  · rfl

variable {casts : Bool}

/-- The tokens are read as that expression by the highest `k` precedences. -/
abbrev AcceptsAt (rules : TypeRules) (inner : Bool → Reader Tree) (casts : Bool) (k : Nat)
    (ks : List Lexeme) (e : Tree) : Prop :=
  Accepts rules (rung rules casts (prefixed rules inner) k) (Stops k) ks e

/-- The tokens are read as that expression by the highest `k + 1` precedences, and operators of the
lowest of these can follow. -/
abbrev SpineAt (rules : TypeRules) (inner : Bool → Reader Tree) (casts : Bool) (k : Nat)
    (ks : List Lexeme) (e : Tree) : Prop :=
  Spine rules (rung rules casts (prefixed rules inner) k)
    (operation rules casts (6 - k) (rung rules casts (prefixed rules inner) k)) (Stops k) ks e

theorem prefixed_cons {t : Lexeme} (ts : List Lexeme) (h : prefixOf? t = none) :
    prefixed rules inner (t :: ts) =
      chain (operand rules inner) (suffix rules inner) (t :: ts) := by
  rw [prefixed, h]

theorem Tight.acceptsAt_zero {ks : List Lexeme} {e : Tree} (h : Tight rules inner ks e) :
    AcceptsAt rules inner casts 0 ks e := by
  obtain ⟨t, ts, rfl, ht⟩ := h.first
  have hchain : Accepts rules (chain (operand rules inner) (suffix rules inner))
      (Stops 0) (t :: ts) e :=
    h.spine.accepts (fun _ _ => trivial) fun rest hclear hrest => suffix_eq_none hclear hrest
  intro rest hclear hrest
  exact (prefixed_cons (ts ++ rest) ht).trans (hchain rest hclear hrest)

/-- A prefix before an operand. -/
theorem acceptsAt_prefix {ks : List Lexeme} {t : Lexeme} {e : Tree} {apply : Tree → Tree}
    (h : AcceptsAt rules inner casts 0 ks e) (ht : prefixOf? t = some apply) :
    AcceptsAt rules inner casts 0 (t :: ks) (apply e) := by
  intro rest hclear hrest
  have hread : prefixed rules inner (ks ++ rest) = some (e, rest) :=
    h rest (hclear.suffix (List.suffix_cons _ _)) hrest
  show prefixed rules inner (t :: (ks ++ rest)) = some (apply e, rest)
  simp only [prefixed, ht, hread, Option.map_some]

theorem SpineAt.acceptsAt {k : Nat} {ks : List Lexeme} {e : Tree}
    (h : SpineAt rules inner casts k ks e) :
    AcceptsAt rules inner casts (k + 1) ks e :=
  Spine.accepts h (fun _ hstops => hstops.weaken (Nat.le_succ k)) fun _ _ hstops =>
    operation_eq_none hstops

theorem AcceptsAt.mono {k k' : Nat} {ks : List Lexeme} {e : Tree}
    (h : AcceptsAt rules inner casts k ks e)
    (hk : k ≤ k') : AcceptsAt rules inner casts k' ks e := by
  induction hk with
  | refl => exact h
  | step _ ih => exact SpineAt.acceptsAt (Accepts.spine ih)

/-- An operator and its right operand behind what stands to the left. -/
theorem SpineAt.binary {op : BinaryOp} {k : Nat} {ks ks' : List Lexeme} {e e' : Tree}
    (h : SpineAt rules inner casts k ks e) (hprecedence : precedence op + k = 6)
    (h' : AcceptsAt rules inner casts k ks' e') :
    SpineAt rules inner casts k (ks ++ .mark (binarySymbol op) :: ks') (.binary op e e') := by
  refine Spine.snoc h (List.cons_ne_nil _ _) ?_ fun rest hclear hrest => ?_
  · rintro _ ⟨⟩
    exact stops_binarySymbol (by omega)
  · have hread := h' rest (hclear.suffix (List.suffix_cons _ _)) hrest
    have hlevel : precedence op = 6 - k := by omega
    simp only [List.cons_append, operation, operatorOf?_binarySymbol, hlevel, hread,
      Option.bind_eq_bind, Option.bind_some, if_true, Option.pure_def]

/-- A cast of what stands to the left. -/
theorem SpineAt.cast {ks : List Lexeme} {e : Tree} {type : String}
    (h : SpineAt rules inner true 2 ks e) (htype : type ∉ rules.refused) :
    AcceptsAt rules inner true 3 (ks ++ [.word "as", .word type]) (.cast e type) := by
  have hstep : Accepts rules (operation rules true 4 (rung rules true (prefixed rules inner) 2) e)
      (Stops 3) [.word "as", .word type] (.cast e type) := by
    intro rest _ hrest
    have hless : rest.head? ≠ some (.mark "<") := fun hhead =>
      absurd (hrest.operator "<" .less hhead (by decide)) (by decide)
    exact if_pos ⟨rfl, rfl, rfl, htype, hless⟩
  have hspine := Spine.snoc h (List.cons_ne_nil _ _) ?_ hstep
  · exact hspine.accepts (fun _ hstops => hstops) fun _ _ hstops => operation_eq_none hstops
  · rintro _ ⟨⟩
    exact ⟨nofun, nofun, nofun, fun _ => by decide⟩

/-! ### Nesting -/

theorem rung_eq_none {unary : Reader Tree} {ts : List Lexeme} (h : unary ts = none) (k : Nat) :
    rung rules casts unary k ts = none := by
  induction k with
  | zero => exact h
  | succ k ih => simp only [rung, chain, ih, Option.bind_eq_bind, Option.bind_none]

/-- No expression starts with a closing mark. -/
theorem expressionUpTo_close {m : String} (hm : m ∈ [")", "]"]) (d : Nat) (casts : Bool)
    (ts : List Lexeme) : expressionUpTo rules d casts (.mark m :: ts) = none := by
  have hall : ∀ m ∈ [")", "]"], m ≠ "(" ∧ m ≠ "[" ∧ prefixOf? (.mark m) = none := by decide
  obtain ⟨hparenthesis, hbracket, hprefix⟩ := hall m hm
  cases d with
  | zero => rfl
  | succ d =>
      refine rung_eq_none ?_ 6
      rw [prefixed_cons ts hprefix]
      simp only [chain, operand, if_neg hparenthesis, if_neg hbracket, Option.bind_eq_bind,
        Option.bind_none]

end

end Reader

end Prosaic.TypeScript
