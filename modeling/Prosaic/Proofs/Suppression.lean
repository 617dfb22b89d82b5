import Prosaic.Proofs.Compilation
import Prosaic.Proofs.Grammar.Declaration
import Prosaic.Proofs.TypeScript.Spelling
import Prosaic.Proofs.Typing.Careful
import Prosaic.Proofs.Typing.Reached

/-!
One mistake is reported once, as far as that goes. A value whose type is not found gets the error
type, and the checks that come to it pass over it, so that no message shows a type that failed.
There are places that do report on such values. They can be told from the types that the check
writes into the program, and where there are none, nothing that failed is ever shown.
-/

namespace Prosaic

open Diagnostic

/-! ### Registries -/

/-- What a registry declares can be written in messages. -/
structure Registry.Spelled (r : Registry) : Prop where
  types : r.Over Ty.Legible
  helperNames : ∀ e ∈ r.helpers, Unbroken e.1
  operations : ∀ n s, r.operations.lookup n = some s → s.Unbroken
  helpers : ∀ n s, r.helpers.lookup n = some s → s.Unbroken

namespace Registry

theorem unbroken_of_isName {name : String} (h : isName name = true) : Unbroken name :=
  unbroken_of_isWord (TypeScript.isWord_of_isName h)

theorem SignatureMeans.unbroken {types : Keyed TypeEntry} {c : CallableEntry} {s : Signature}
    (h : SignatureMeans types c s) (hc : c.Named) : s.Unbroken := by
  intro p hp
  obtain ⟨q, hq, hname, -⟩ := exists_of_mem_left h.parameters.flip p hp
  exact hname ▸ unbroken_of_isName (hc q hq)

/-- A registry that is made from a document has names only that can be written. -/
theorem ofDocument_spelled {doc : Keyed Document} {r : Registry} (h : ofDocument doc = .ok r) :
    r.Spelled := by
  cases hread : readEntries doc with
  | error problems => simp [ofDocument, hread] at h
  | ok e =>
      have hrealizes := (ofDocument_of_read hread).2 r h
      have hnamed := ofDocument_named h
      obtain ⟨hoperations, hhelpers⟩ := named_readEntries hread
      have hword : ∀ n, r.HasType n → isWord n.toList = true := fun n hn =>
        TypeScript.isWord_of_isName (hnamed.types n (isSome_lookup_iff.mp hn)).1
      exact {
        types := hrealizes.over Ty.family_legible hword hword
        helperNames := fun e he => unbroken_of_isName (hnamed.helpers _ (List.mem_map_of_mem he))
        operations := fun n s hs => by
          obtain ⟨c, hc, hmeans⟩ := exists_of_rel_right (hrealizes.operations n) hs
          exact hmeans.unbroken (hoperations _ (mem_of_lookup hc))
        helpers := fun n s hs => by
          obtain ⟨c, hc, hmeans⟩ := exists_of_rel_right (hrealizes.helpers n) hs
          exact hmeans.unbroken (hhelpers _ (mem_of_lookup hc)) }

end Registry

/-! ### Programs -/

/-- The statements of a program are worded as they are read. -/
theorem Stmt.WellFormed.worded {s : Stmt} (h : s.WellFormed) : s.Worded := by
  have hexpr : ∀ {e : Expr}, e.AllFresh → e.Everywhere Expr.Worded := fun he =>
    he.mono fun e hfresh => by
      have hformed := hfresh.formed
      cases e with
      | call callee args note =>
          rintro n ⟨⟩
          exact IsName.word hformed
      | field base name note =>
          rintro n ⟨⟩
          exact IsName.word hformed
      | _ => exact nofun
  have hblock : ∀ ss : List Stmt, (∀ s ∈ ss, s.WellFormed → s.Worded) →
      Stmt.AllWellFormed ss → Stmt.AllWorded ss := fun ss ih hss =>
    Stmt.allWorded_iff.mpr fun s hs => ih s hs (Stmt.allWellFormed_iff.mp hss s hs)
  induction s with
  | bind name e span => exact ⟨IsName.word h.1, hexpr h.2⟩
  | branch c t span iht => exact ⟨hexpr h.1, hblock t iht h.2⟩
  | branchOtherwise c t o span iht iho =>
      exact ⟨hexpr h.1, hblock t iht h.2.1, hblock o iho h.2.2⟩
  | forEach item e body span ih => exact ⟨IsName.word h.1, hexpr h.2.1, hblock body ih h.2.2⟩
  | call | expression => exact hexpr h
  | returns value span =>
      cases value with
      | none => trivial
      | some e => exact hexpr h

/-- What is read of a declaration, with or without findings, is worded. -/
theorem Decl.Named.worded {d : Decl} (h : d.Named)
    (hbody : ∀ f ∈ d.function?, ∀ s ∈ f.body, s.WellFormed) : d.Worded := by
  cases d with
  | function f =>
      have hnamed : f.Named := h
      exact {
        name := hnamed.name.imp_left IsName.word
        parameters := fun p hp => IsName.word (hnamed.parameters p hp)
        body := Stmt.allWorded_iff.mpr fun s hs => (hbody f rfl s hs).worded }
  | type t => exact IsName.word h
  | record r => exact IsName.word h

/-- A program that is read from a text is worded. -/
theorem Program.worded_of_read {source : String} {tokens : List Token} {budget : Budget}
    {r : Reading} (hscan : Token.scan source = .ok tokens)
    (hread : Program.read tokens budget = some r) : r.program.Worded := by
  obtain ⟨r', hr', hdecls⟩ := Program.exists_read hscan budget
  obtain rfl := Option.some.inj (hread.symm.trans hr')
  exact fun d hd => (hdecls d hd).1.worded (hdecls d hd).2.body

/-! ### Declarations -/

namespace Declared

variable {registry : Registry} {p : Program}

/-- The functions in the table are functions of the program. -/
theorem mem_of_functionTable {e : String × DeclaredFunction}
    (h : e ∈ (Declared.of registry p).env.functions) :
    ∃ f ∈ p.functions, e.1 = f.name.text := by
  rw [of_eq] at h
  obtain ⟨⟨⟨f, ok⟩, s⟩, hmem, he⟩ := List.mem_filterMap.mp h
  cases ok with
  | false => cases he
  | true =>
      obtain rfl := Option.some.inj he
      obtain ⟨⟨d, ok⟩, hd, hf⟩ := List.mem_filterMap.mp (List.of_mem_zip hmem).1
      cases d with
      | function g =>
          cases hf
          have hmem : .function f ∈ registered (registerNames registry [] p.declarations).1 :=
            List.mem_map.mpr ⟨_, List.mem_filter.mpr ⟨hd, rfl⟩, rfl⟩
          exact ⟨f, Program.mem_functions.mpr (mem_registered hmem), rfl⟩
      | type | record => cases hf

theorem unbroken_of_signatures (hp : p.Worded) :
    ∀ s ∈ (Declared.of registry p).signatures, s.Unbroken := by
  simp only [of_eq, TypeEnv.signatures_eq, List.forall_mem_map]
  intro f hf q hq
  have hworded : f.Worded := hp _ (Program.mem_functions.mp hf)
  have hname : q.1 ∈ f.parameters.map Typed.name := by
    unfold TypeEnv.signature at hq
    dsimp only at hq
    split at hq <;> exact (List.of_mem_zip hq).1
  obtain ⟨parameter, hparameter, heq⟩ := List.mem_map.mp hname
  exact heq ▸ unbroken_of_isWord (hworded.parameters parameter hparameter)

/-- What a program declares can be written in messages. -/
theorem legible (hregistry : registry.Spelled) (hp : p.Worded) :
    (Declared.of registry p).env.Legible ∧
      ∀ s ∈ (Declared.of registry p).signatures, s.Over Ty.Legible := by
  obtain ⟨htypes, hsignatures⟩ := Declared.of_over Ty.family_legible hregistry.types
    (fun t ht => hp _ (Program.mem_types.mp ht)) fun r hr => hp _ (Program.mem_records.mp hr)
  refine ⟨⟨htypes, fun e he => ?_, hregistry.helperNames, fun n f hf => ?_, hregistry.helpers,
    hregistry.operations⟩, hsignatures⟩
  · obtain ⟨f, hf, hname⟩ := mem_of_functionTable he
    have hworded : f.Worded := hp _ (Program.mem_functions.mp hf)
    exact hname ▸ hworded.unbroken_name
  · exact unbroken_of_signatures hp _ (signature_mem_of_functionTable (mem_of_lookup hf))

/-- No declaration is reported with a type mismatch. -/
theorem discreet_found : Discreet (Declared.of registry p).found := by
  have hplaced := p.placed_anywhere (fun _ => trivial) (Expr.placed_anywhere (fun _ => trivial))
  exact discreet_of_code_ne ((declaredAt_of registry hplaced).code_ne (by decide))

end Declared

/-! ### The whole check -/

/-- The type mismatches of a program show types that failed exactly if the program that the check
leaves has a place that is reported because of a value that failed. All programs that are read from
a text are worded. -/
theorem Program.checkTypes_discreet {p : Program} (hp : p.Worded) {doc : Keyed Document}
    {registry : Registry} (hregistry : Registry.ofDocument doc = .ok registry) {budget : Budget}
    {found : List Diagnostic} (h : (p.checkTypes registry budget).result = .ok found) :
    (∀ d ∈ found, d.code = typeMismatch → ¬d.ShowsFailure) ↔
      List.Forall₂ FunctionDecl.Careful (p.checkTypes registry budget).program.functions
        (Declared.of registry p).signatures := by
  obtain ⟨htime, rfl⟩ := checkTypes_eq_ok.mp h
  obtain ⟨henv, hsignatures⟩ := Declared.legible (Registry.ofDocument_spelled hregistry) hp
  have hlength : (Declared.of registry p).signatures.length =
      (p.declarations.filterMap Decl.function?).length := by
    simp only [Declared.of_eq, TypeEnv.signatures_eq, List.length_map, functions_eq]
  have hbodies := TypeEnv.discreet_checkDecls henv hp hsignatures hlength htime
  have hfunctions : (p.checkTypes registry budget).program.functions =
      ((Declared.of registry p).env.checkDecls ⟨budget, none⟩ p.declarations
        (Declared.of registry p).signatures).1.filterMap Decl.function? := functions_eq _
  rw [hfunctions, ← hbodies]
  exact discreet_append.trans (and_iff_right Declared.discreet_found)

/-- What is reported about a name that is bound nowhere. -/
def unboundName (start : Location) : Diagnostic :=
  ⟨unresolvedName, "Unknown name 'x'", start, some "Bind it first with 'Let'.", .types⟩

/-- The name is reported, and the sum with it is not. -/
theorem checkTypes_discreet_sum :
    ∃ tokens r registry, Token.scan
        "Define function f returning Number: Return x + 1. End function." = .ok tokens ∧
      Program.read tokens (.start .standard .still) = some r ∧ r.program.Worded ∧
      Registry.ofDocument [] = .ok registry ∧
      (r.typed registry).result = .ok [unboundName ⟨1, 44⟩] ∧
      List.Forall₂ FunctionDecl.Careful (r.typed registry).program.functions
        (Declared.of registry r.program).signatures := by
  have hrun : ((Token.scan
      "Define function f returning Number: Return x + 1. End function.").toOption.any fun tokens =>
        (Program.read tokens (.start .standard .still)).any fun r =>
          (Registry.ofDocument []).toOption.any fun registry =>
            decide ((r.typed registry).result.toOption = some [unboundName ⟨1, 44⟩])) = true := by
    decide +kernel
  obtain ⟨tokens, hscan, hrun⟩ := any_toOption.mp hrun
  obtain ⟨r, hr, hrun⟩ := (Option.any_eq_true _ _).mp hrun
  obtain ⟨registry, hregistry, hrun⟩ := any_toOption.mp hrun
  have hfound := toOption_eq_some.mp (of_decide_eq_true hrun)
  have hworded := Program.worded_of_read hscan hr
  refine ⟨tokens, r, registry, hscan, hr, hworded, hregistry, hfound, ?_⟩
  refine (Program.checkTypes_discreet hworded hregistry hfound).mp ?_
  exact List.forall_mem_singleton.mpr fun hcode => absurd hcode (by decide)

/-- What is reported about a value that failed and is returned where nothing should be. -/
def returnedFailure : Diagnostic :=
  ⟨typeMismatch, "Function 'f' returns nothing, but this 'Return' has a value of type <error>",
    ⟨1, 27⟩, some "Write 'Return.' or declare the function 'returning <error>'.", .types⟩

/-- A name that is bound nowhere is reported again where it is returned, with its type. -/
theorem not_discreet_returnedName :
    ∃ tokens r registry, Token.scan "Define function f: Return x. End function." = .ok tokens ∧
      Program.read tokens (.start .standard .still) = some r ∧
      Registry.ofDocument [] = .ok registry ∧
      (r.typed registry).result = .ok [unboundName ⟨1, 27⟩, returnedFailure] ∧
      returnedFailure.code = typeMismatch ∧ returnedFailure.ShowsFailure := by
  have hrun : ((Token.scan "Define function f: Return x. End function.").toOption.any fun tokens =>
      (Program.read tokens (.start .standard .still)).any fun r =>
        (Registry.ofDocument []).toOption.any fun registry => decide
          ((r.typed registry).result.toOption = some [unboundName ⟨1, 27⟩, returnedFailure])) =
            true := by
    decide +kernel
  obtain ⟨tokens, hscan, hrun⟩ := any_toOption.mp hrun
  obtain ⟨r, hr, hrun⟩ := (Option.any_eq_true _ _).mp hrun
  obtain ⟨registry, hregistry, hrun⟩ := any_toOption.mp hrun
  refine ⟨tokens, r, registry, hscan, hr, hregistry,
    toOption_eq_some.mp (of_decide_eq_true hrun), rfl, .inl ?_⟩
  unfold Shows
  decide +kernel

end Prosaic
