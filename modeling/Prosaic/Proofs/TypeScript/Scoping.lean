import Mathlib.Data.List.Nodup
import Mathlib.Data.List.Perm.Subperm
import Prosaic.TypeScript.Lowering
import Prosaic.TypeScript.Name

/-!
Identifiers. Two names have one identifier only if one of them is a reserved word and the other is
that word with an underscore behind it; and a name that is made up for a local is new.

Scopes. A name of a program refers to the local of the innermost block that has bound it so far, or
to what is called. An identifier of a module refers to the innermost block that binds it anywhere,
or else to a function of the module or an import. A module resolves like its program if every
identifier refers to what the name in its place refers to.
-/

namespace Prosaic.TypeScript

/-! ### Names with the same identifier -/

/-- A reserved word and the same word with an underscore behind it. -/
def Rivals (x y : String) : Prop :=
  (x ∈ reservedWords ∧ y = x ++ "_") ∨ (y ∈ reservedWords ∧ x = y ++ "_")

instance (x y : String) : Decidable (Rivals x y) := by unfold Rivals; infer_instance

theorem identifier_reserved {name : String} (h : name ∈ reservedWords) :
    identifier name = name ++ "_" := by
  rw [identifier, if_pos (List.contains_iff_mem.mpr h)]

theorem identifier_other {name : String} (h : name ∉ reservedWords) : identifier name = name := by
  rw [identifier, if_neg (mt List.contains_iff_mem.mp h)]

/-- No reserved word is another one with an underscore behind it. -/
theorem underscored_not_reserved {name : String} (h : name ∈ reservedWords) :
    name ++ "_" ∉ reservedWords := by
  have hall : ∀ n ∈ reservedWords, n ++ "_" ∉ reservedWords := by decide +kernel
  exact hall name h

/-- Different names have the same identifier exactly if they are rivals. -/
theorem identifier_eq_iff {x y : String} : identifier x = identifier y ↔ x = y ∨ Rivals x y := by
  constructor
  · intro h
    by_cases hx : x ∈ reservedWords
    · rw [identifier_reserved hx] at h
      by_cases hy : y ∈ reservedWords
      · rw [identifier_reserved hy, String.append_left_inj] at h
        exact .inl h
      · rw [identifier_other hy] at h
        exact .inr (.inl ⟨hx, h.symm⟩)
    · rw [identifier_other hx] at h
      by_cases hy : y ∈ reservedWords
      · rw [identifier_reserved hy] at h
        exact .inr (.inr ⟨hy, h⟩)
      · rw [identifier_other hy] at h
        exact .inl h
  · rintro (rfl | ⟨hx, rfl⟩ | ⟨hy, rfl⟩)
    · rfl
    · rw [identifier_reserved hx, identifier_other (underscored_not_reserved hx)]
    · rw [identifier_reserved hy, identifier_other (underscored_not_reserved hy)]

/-- Different names have different identifiers as long as no two of them are rivals. -/
theorem nodup_map_identifier {names : List String} (h : names.Nodup) :
    (names.map identifier).Nodup ↔ names.Pairwise fun x y => ¬Rivals x y := by
  rw [List.Nodup, List.pairwise_map]
  constructor
  · exact List.Pairwise.imp fun hxy hrivals => hxy (identifier_eq_iff.mpr (.inr hrivals))
  · intro hrivals
    refine List.Pairwise.imp₂ (fun x y hne hxy heq => ?_) h hrivals
    exact (identifier_eq_iff.mp heq).elim hne hxy

/-! ### Fresh names -/

theorem numbered_injective (name : String) : Function.Injective (numbered name) := by
  intro i j h
  have hdigits : Nat.toDigits 10 i = Nat.toDigits 10 j := by
    simpa [numbered, Nat.toString_eq_ofList_toDigits] using congrArg String.toList h
  rw [← Nat.ofDigitChars_ten_toDigits (n := i), hdigits, Nat.ofDigitChars_ten_toDigits]

/-- The search ends with a number, and all that it has passed are taken. If that one is taken as
well, it was the last one to try. -/
theorem firstFree_spec (taken : List String) (name : String) (fuel k : Nat) :
    ∃ n, k ≤ n ∧ n ≤ k + fuel ∧ firstFree taken name fuel k = numbered name n ∧
      (∀ j, k ≤ j → j < n → numbered name j ∈ taken) ∧
        (numbered name n ∈ taken → n = k + fuel) := by
  induction fuel generalizing k with
  | zero => exact ⟨k, Nat.le_refl k, Nat.le_refl k, rfl, fun j hj hlt => by omega, fun _ => rfl⟩
  | succ fuel ih =>
      rw [firstFree]
      split
      · next hk =>
          obtain ⟨n, hkn, hn, heq, hall, hlast⟩ := ih (k + 1)
          refine ⟨n, by omega, by omega, heq, fun j hj hlt => ?_,
            fun h => by have := hlast h; omega⟩
          rcases Nat.eq_or_lt_of_le hj with rfl | hj
          · exact List.contains_iff_mem.mp hk
          · exact hall j hj hlt
      · next hk =>
          refine ⟨k, Nat.le_refl k, by omega, rfl, fun j hj hlt => by omega, fun h => ?_⟩
          exact absurd (List.contains_iff_mem.mpr h) hk

theorem freshName_not_mem (taken : List String) (name : String) : freshName taken name ∉ taken := by
  intro h
  obtain ⟨n, -, -, heq, hbefore, hlast⟩ := firstFree_spec taken name taken.length 1
  rw [freshName, heq] at h
  obtain rfl := hlast h
  have hall : ∀ i ≤ taken.length, numbered name (1 + i) ∈ taken := by
    intro i hi
    rcases Nat.eq_or_lt_of_le hi with rfl | hlt
    · exact h
    · exact hbefore (1 + i) (by omega) (by omega)
  -- these are more names than are taken
  have hnodup : ((List.range (taken.length + 1)).map fun i => numbered name (1 + i)).Nodup := by
    refine List.nodup_range.map fun i j hij => ?_
    exact Nat.add_left_cancel (numbered_injective name hij)
  have hsubset : ((List.range (taken.length + 1)).map fun i => numbered name (1 + i)) ⊆ taken := by
    intro n hn
    obtain ⟨i, hi, rfl⟩ := List.mem_map.mp hn
    exact hall i (by rw [List.mem_range] at hi; omega)
  have hlength := (hnodup.subperm hsubset).length_le
  rw [List.length_map, List.length_range] at hlength
  omega

end Prosaic.TypeScript

namespace Prosaic

open TypeScript (Reference Rivals Term Command Item Module identifier)

/-! ### Names of a block -/

/-- The names of a block in order: where they are used, where the block binds them, and the blocks
inside. -/
inductive Names (α : Type)
  | nil
  | use (u : α) (rest : Names α)
  | bind (name : String) (rest : Names α)
  | block (inner rest : Names α)

namespace Names

variable {α : Type}

/-- Some uses in front of other names. -/
def uses (us : List α) (rest : Names α) : Names α := us.foldr use rest

/-- What the block itself binds. -/
def bound : Names α → List String
  | nil => []
  | use _ rest => rest.bound
  | bind x rest => x :: rest.bound
  | block _ rest => rest.bound

/-- What the blocks inside bind, at whatever depth. -/
def boundInside : Names α → List String
  | nil => []
  | use _ rest => rest.boundInside
  | bind _ rest => rest.boundInside
  | block inner rest => inner.bound ++ inner.boundInside ++ rest.boundInside

/-- Everything that is used, at whatever depth. -/
def used : Names α → List α
  | nil => []
  | use u rest => u :: rest.used
  | bind _ rest => rest.used
  | block inner rest => inner.used ++ rest.used

end Names

/-! ### Names of programs and modules -/

/-- A place that uses a name: it reads a local, or it calls a function of the program or of the
registry. -/
inductive Use
  | read (name : String)
  | call (callee : Reference)

def Use.callee? : Use → Option Reference
  | read _ => none
  | call callee => some callee

/-- What a call uses beside its arguments. A conversion is a matter of types alone. -/
def calleeUse (callee : Name) (note : CallNote) : List Use :=
  match note.target with
  | none | some .conversion => []
  | some target => [.call ⟨callee.text, TypeScript.isImported target⟩]

mutual

def Expr.uses : Expr → List Use
  | .literal .. => []
  | .list es _ => Expr.usesAll es
  | .variable x _ => [.read x]
  | .unary _ e _ => e.uses
  | .binary _ l r _ => l.uses ++ r.uses
  | .call callee args note => calleeUse callee note ++ Expr.usesAll args
  | .field e _ _ => e.uses

def Expr.usesAll : List Expr → List Use
  | [] => []
  | e :: es => e.uses ++ Expr.usesAll es

end

mutual

/-- The names of a statement in front of those behind it. A loop is a block for its item, in which
the list comes first and the body is another block. -/
def Stmt.names (rest : Names Use) : Stmt → Names Use
  | .bind name init _ => .uses init.uses (.bind name.text rest)
  | .branch c t none _ => .uses c.uses (.block (Stmt.namesAll t) rest)
  | .branch c t (some o) _ =>
    .uses c.uses (.block (Stmt.namesAll t) (.block (Stmt.namesAll o) rest))
  | .forEach item e body _ =>
    .block (.uses e.uses (.bind item.text (.block (Stmt.namesAll body) .nil))) rest
  | .call callee args note _ => .uses (calleeUse callee note ++ Expr.usesAll args) rest
  | .return none _ => rest
  | .return (some e) _ => .uses e.uses rest
  | .expression e _ => .uses e.uses rest

def Stmt.namesAll : List Stmt → Names Use
  | [] => .nil
  | s :: ss => s.names (Stmt.namesAll ss)

end

/-- The names of a function, with its body as a block inside that of its parameters. -/
def FunctionDecl.names (f : FunctionDecl) : Names Use := .block (Stmt.namesAll f.body) .nil

namespace TypeScript

mutual

def Term.uses : Term → List String
  | .number _ | .string _ | .boolean _ => []
  | .array es => Term.usesAll es
  | .variable x => [x]
  | .unary _ e => e.uses
  | .binary _ l r => l.uses ++ r.uses
  | .call callee _ args => identifier callee.name :: Term.usesAll args
  | .cast e _ => e.uses
  | .member e _ => e.uses

def Term.usesAll : List Term → List String
  | [] => []
  | e :: es => e.uses ++ Term.usesAll es

end

mutual

def Command.names (rest : Names String) : Command → Names String
  | .const x e => .uses e.uses (.bind x rest)
  | .branch c t none => .uses c.uses (.block (Command.namesAll t) rest)
  | .branch c t (some o) =>
    .uses c.uses (.block (Command.namesAll t) (.block (Command.namesAll o) rest))
  | .forOf x e body => .block (.uses e.uses (.bind x (.block (Command.namesAll body) .nil))) rest
  | .return none => rest
  | .return (some e) => .uses e.uses rest
  | .expression e => .uses e.uses rest

def Command.namesAll : List Command → Names String
  | [] => .nil
  | c :: cs => c.names (Command.namesAll cs)

end

end TypeScript

/-! ### References -/

/-- What a name refers to: the local of a block, told by the number of blocks around that one and by
its place in the block, or something that can be called. -/
inductive Referent
  | binding (depth index : Nat)
  | value (r : Reference)

/-- The local of the innermost block that has a name. -/
def binding? : List (List String) → String → Option Referent
  | [], _ => none
  | names :: outer, x =>
    if x ∈ names then some (.binding outer.length (names.idxOf x)) else binding? outer x

/-- What a place of a program refers to, given what the blocks around have bound so far. -/
def Use.referent? (scopes : List (List String)) : Use → Option Referent
  | read x => binding? scopes x
  | call callee => some (.value callee)

/-- What an identifier of a module refers to, given everything that the blocks around bind and the
values of the module. -/
def TypeScript.referent? (values : List Reference) (scopes : List (List String)) (x : String) :
    Option Referent :=
  (binding? scopes x).or ((values.find? fun r => identifier r.name = x).map .value)

/-- Adds a name to the innermost block. -/
def bindIn : List (List String) → String → List (List String)
  | [], x => [[x]]
  | names :: outer, x => (names ++ [x]) :: outer

/-- Every identifier of a block refers to what the name in its place refers to, and no block binds
an identifier twice. -/
def Agree (values : List Reference) (seen scopes : List (List String)) :
    Names Use → Names String → Prop
  | .nil, .nil => True
  | .use u rest, .use x rest' =>
    (∃ d, u.referent? seen = some d ∧ TypeScript.referent? values scopes x = some d) ∧
      Agree values seen scopes rest rest'
  | .bind x rest, .bind _ rest' => Agree values (bindIn seen x) scopes rest rest'
  | .block inner rest, .block inner' rest' =>
    (inner'.bound.Nodup ∧ Agree values ([] :: seen) (inner'.bound :: scopes) inner inner') ∧
      Agree values seen scopes rest rest'
  | _, _ => False

namespace TypeScript

/-- A lowered declaration resolves like the declaration. -/
def Item.Resolves (values : List Reference) : Decl → Item → Prop
  | .function f, .function _ _ parameters _ body =>
    (parameters.map Prod.fst).Nodup ∧
      Agree values [f.parameters.map Typed.name] [parameters.map Prod.fst] f.names
        (.block (Command.namesAll body) .nil)
  | .type _, .type .. => True
  | .record _, .interface .. => True
  | _, _ => False

def Item.function? : Item → Option String
  | .function name .. => some name
  | _ => none

/-- The identifiers of the parameters, of which other items have none. -/
def Item.parameters : Item → List String
  | .function _ _ parameters _ _ => parameters.map Prod.fst
  | _ => []

/-- What a module declares or imports beside types. -/
def Module.values (m : Module) : List Reference :=
  (m.items.filterMap Item.function?).map (fun n => ⟨n, false⟩) ++
    m.valueImports.map fun n => ⟨n, true⟩

/-- All identifiers of a module refer to what the names of the program refer to, and nothing is
declared twice. -/
def Module.Resolves (m : Module) (p : Program) : Prop :=
  (m.values.map fun r => identifier r.name).Nodup ∧
    List.Forall₂ (Item.Resolves m.values) p.declarations m.items

end TypeScript

/-! ### Rivals in a program -/

/-- A block around a place of a program: what it has bound so far and everything that it binds. -/
structure BlockNames where
  seen : List String
  all : List String

/-- A local of that name is in scope. -/
def Visible (blocks : List BlockNames) (x : String) : Prop := ∃ b ∈ blocks, x ∈ b.seen

/-- The local that a name refers to hides another one of the same name. -/
def Shadows : List BlockNames → String → Prop
  | [], _ => False
  | b :: outer, x => (x ∈ b.seen ∧ Visible outer x) ∨ (x ∉ b.seen ∧ Shadows outer x)

/-- A block inside the one that a name refers to binds a rival of the name that hides nothing. -/
def Captured : List BlockNames → String → Prop
  | [], _ => False
  | b :: outer, x =>
    x ∉ b.seen ∧ ((∃ y ∈ b.all, ¬Visible outer y ∧ Rivals x y) ∨ Captured outer x)

/-- A place does not refer to something that a rival captures. What hides another local is out of
the reach of rivals. -/
def Use.Clear (blocks : List BlockNames) : Use → Prop
  | read x => Shadows blocks x ∨ ¬Captured blocks x
  | call callee => ¬Captured blocks callee.name

def BlockNames.bindIn : List BlockNames → String → List BlockNames
  | [], x => [⟨[x], [x]⟩]
  | b :: outer, x => ⟨b.seen ++ [x], b.all⟩ :: outer

/-- No rivals meet in a block or in what it refers to. Of two rivals in one block, one may hide an
outer local. -/
def Names.Clear : List BlockNames → Names Use → Prop
  | _, nil => True
  | blocks, use u rest => u.Clear blocks ∧ rest.Clear blocks
  | blocks, bind x rest => rest.Clear (BlockNames.bindIn blocks x)
  | blocks, block inner rest =>
    (inner.bound.Pairwise (fun x y => Rivals x y → Visible blocks x ∨ Visible blocks y) ∧
      inner.Clear (⟨[], inner.bound⟩ :: blocks)) ∧ rest.Clear blocks

/-- The block that the parameters of a function are. -/
def FunctionDecl.parameterBlock (f : FunctionDecl) : BlockNames :=
  ⟨f.parameters.map Typed.name, f.parameters.map Typed.name⟩

/-- No rivals meet in a function. -/
def FunctionDecl.Clear (f : FunctionDecl) : Prop :=
  (f.parameters.map Typed.name).Pairwise (fun x y => ¬Rivals x y) ∧ f.names.Clear [f.parameterBlock]

namespace Program

/-- Everything that a program calls. -/
def callees (p : Program) : List Reference :=
  p.functions.flatMap fun f => f.names.used.filterMap Use.callee?

/-- The functions of a program and what it calls from the registry. -/
def values (p : Program) : List Reference :=
  p.functions.map (fun f => ⟨f.name.text, false⟩) ++
    (TypeScript.importedNames p.callees).map fun n => ⟨n, true⟩

/-- No rivals meet in a program. -/
def Clear (p : Program) : Prop :=
  (p.values.map Reference.name).Pairwise (fun x y => ¬Rivals x y) ∧ ∀ f ∈ p.functions, f.Clear

end Program

end Prosaic
