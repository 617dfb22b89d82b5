import Prosaic.Proofs.TypeScript.Reordering
import Prosaic.Proofs.TypeScript.Sites

/-!
The names in the text of a module. The text of the declarations is cut into fragments, of which some
are names of types and some are names that are called; whatever the fragments of these kinds are has
been put there by a reference of the tree, by a declared name or by a type that needs no
declaration.
-/

namespace Prosaic.TypeScript

/-- A part of a text: a name of a type, a name that is called, or anything else, which is
punctuation, a keyword, a literal or the name of a variable or a field. -/
inductive Fragment
  | type (name : String)
  | callee (name : String)
  | plain (text : String)
  deriving DecidableEq, Repr

namespace Fragment

def text : Fragment → String
  | type name => name
  | callee name => name
  | plain text => text

/-- The text of some fragments, one after the other. -/
def texts : List Fragment → String
  | [] => ""
  | f :: fs => f.text ++ texts fs

/-- Fragments with a plain text between any two. -/
def separated (separator : String) (parts : List (List Fragment)) : List Fragment :=
  [plain separator].intercalate parts

def parenthesised (needed : Bool) (fs : List Fragment) : List Fragment :=
  if needed then plain "(" :: (fs ++ [plain ")"]) else fs

@[simp] theorem texts_nil : texts [] = "" := rfl

@[simp] theorem texts_cons (f : Fragment) (fs : List Fragment) :
    texts (f :: fs) = f.text ++ texts fs := rfl

@[simp] theorem texts_append (fs gs : List Fragment) : texts (fs ++ gs) = texts fs ++ texts gs := by
  induction fs with
  | nil => simp
  | cons f fs ih => simp [ih, String.append_assoc]

theorem texts_separated (separator : String) (parts : List (List Fragment)) :
    texts (separated separator parts) = separator.intercalate (parts.map texts) := by
  unfold separated
  induction parts with
  | nil => rfl
  | cons fs parts ih =>
      cases parts with
      | nil => simp
      | cons gs parts =>
          rw [List.intercalate_cons_cons, List.map_cons, List.map_cons,
            String.intercalate_cons_cons, texts_append, texts_append, ih, List.map_cons]
          simp [text]

theorem texts_parenthesised (needed : Bool) (fs : List Fragment) :
    texts (parenthesised needed fs) = TypeScript.parenthesised needed (texts fs) := by
  cases needed with
  | false => rfl
  | true => simp [parenthesised, TypeScript.parenthesised, text, String.append_assoc]

end Fragment

open Fragment (texts)

/-! ### Types -/

/-- The types that need no declaration: what base types are written as, and what stands around the
types of lists and of results. -/
def predefinedTypes : List String :=
  Base.all.map primitiveText ++ ["ReadonlyArray", "Promise", "void"]

def TypeExpr.fragments : TypeExpr → List Fragment
  | primitive b => [.type (primitiveText b)]
  | array e => .type "ReadonlyArray" :: .plain "<" :: (e.fragments ++ [.plain ">"])
  | reference r => [.type (typeIdentifier r.name)]

theorem TypeExpr.texts_fragments (a : TypeExpr) : texts a.fragments = a.text := by
  induction a with
  | primitive b => simp [fragments, text, Fragment.text]
  | array e ih =>
      have harray : "ReadonlyArray" ++ "<" = "ReadonlyArray<" := by decide
      simp [fragments, text, Fragment.text, ih, ← String.append_assoc, harray]
  | reference r => simp [fragments, text, Fragment.text]

/-! ### Expressions -/

namespace Term

mutual

def fragments : Term → List Fragment
  | .number digits => [.plain digits]
  | .string value => [.plain (Text.literal value)]
  | .boolean b => [.plain (if b then "true" else "false")]
  | .array es => .plain "[" :: (Fragment.separated ", " (fragmentsAll es) ++ [.plain "]"])
  | .variable x => [.plain x]
  | .unary op e =>
    .plain (unarySymbol op) :: Fragment.parenthesised (e.groupsUnder op) e.fragments
  | .binary op l r =>
    Fragment.parenthesised (l.groupsLeftOf op) l.fragments
      ++ .plain " " :: .plain (binarySymbol op) :: .plain " "
      :: Fragment.parenthesised (r.groupsRightOf op) r.fragments
  | .call callee awaited args =>
    .plain (if awaited then "await " else "") :: .callee (identifier callee.name) :: .plain "("
      :: (Fragment.separated ", " (fragmentsAll args) ++ [.plain ")"])
  | .cast e t =>
    .plain "(" :: (Fragment.parenthesised e.groupsBefore e.fragments
      ++ .plain " as " :: (t.fragments ++ [.plain ")"]))
  | .member e field =>
    Fragment.parenthesised e.groupsBefore e.fragments ++ [.plain ".", .plain field]

def fragmentsAll : List Term → List (List Fragment)
  | [] => []
  | e :: es => e.fragments :: fragmentsAll es

end

theorem fragmentsAll_eq (es : List Term) : fragmentsAll es = es.map fragments := by
  induction es with
  | nil => rfl
  | cons e es ih => rw [fragmentsAll, ih, List.map_cons]

theorem texts_eq (es : List Term) : texts es = es.map text := by
  induction es with
  | nil => rfl
  | cons e es ih => rw [texts, ih, List.map_cons]

/-- The fragments of an expression make up its text. -/
theorem texts_fragments (e : Term) : Fragment.texts e.fragments = e.text := by
  have hall : ∀ es : List Term, (∀ e ∈ es, Fragment.texts e.fragments = e.text) →
      Fragment.texts (Fragment.separated ", " (fragmentsAll es)) = ", ".intercalate (texts es) := by
    intro es ih
    rw [Fragment.texts_separated, fragmentsAll_eq, texts_eq, List.map_map]
    exact congrArg _ (List.map_congr_left ih)
  induction e with
  | number | string | boolean | var => simp [fragments, text, Fragment.text]
  | array es ih => simp [fragments, text, Fragment.text, hall es ih, String.append_assoc]
  | unary op e ih => simp [fragments, text, Fragment.text, Fragment.texts_parenthesised, ih]
  | binary op l r ihl ihr =>
      simp [fragments, text, Fragment.text, Fragment.texts_parenthesised, ihl, ihr,
        String.append_assoc]
  | call callee awaited args ih =>
      simp [fragments, text, Fragment.text, hall args ih, String.append_assoc]
  | cast e t ih =>
      simp [fragments, text, Fragment.text, Fragment.texts_parenthesised, ih, t.texts_fragments,
        String.append_assoc]
  | member e field ih =>
      simp [fragments, text, Fragment.text, Fragment.texts_parenthesised, ih, String.append_assoc]

end Term

/-! ### Lines -/

/-- A line as fragments, with its distance from the margin. -/
structure FragmentLine where
  depth : Nat
  parts : List Fragment
  deriving DecidableEq, Repr

def FragmentLine.line (l : FragmentLine) : Line := ⟨l.depth, texts l.parts⟩

mutual

def Command.fragmentLines (depth : Nat) : Command → List FragmentLine
  | .const x e => [⟨depth, .plain ("const " ++ x ++ " = ") :: (e.fragments ++ [.plain ";"])⟩]
  | .branch c t none =>
    ⟨depth, .plain "if (" :: (c.fragments ++ [.plain ") \x7b"])⟩
      :: (Command.fragmentLinesAll (depth + 1) t ++ [⟨depth, [.plain "\x7d"]⟩])
  | .branch c t (some o) =>
    ⟨depth, .plain "if (" :: (c.fragments ++ [.plain ") \x7b"])⟩
      :: (Command.fragmentLinesAll (depth + 1) t
        ++ ⟨depth, [.plain "\x7d else \x7b"]⟩
        :: (Command.fragmentLinesAll (depth + 1) o ++ [⟨depth, [.plain "\x7d"]⟩]))
  | .forOf x e b =>
    ⟨depth, .plain ("for (const " ++ x ++ " of ") :: (e.fragments ++ [.plain ") \x7b"])⟩
      :: (Command.fragmentLinesAll (depth + 1) b ++ [⟨depth, [.plain "\x7d"]⟩])
  | .return none => [⟨depth, [.plain "return;"]⟩]
  | .return (some e) => [⟨depth, .plain "return " :: (e.fragments ++ [.plain ";"])⟩]
  | .expression e => [⟨depth, e.fragments ++ [.plain ";"]⟩]

def Command.fragmentLinesAll (depth : Nat) : List Command → List FragmentLine
  | [] => []
  | c :: cs => c.fragmentLines depth ++ Command.fragmentLinesAll depth cs

end

def TypeBody.fragments : TypeBody → List Fragment
  | synonym a => a.fragments
  | literals values => [.plain (" | ".intercalate (values.map Text.literal))]

def parameterFragments (p : String × TypeExpr) : List Fragment :=
  .plain (p.1 ++ ": ") :: p.2.fragments

def returnFragments : Option TypeExpr → List Fragment
  | some a => a.fragments
  | none => [.type "void"]

def Item.fragmentLines : Item → List FragmentLine
  | .type name body =>
    [⟨0, .plain "export type " :: .type (typeIdentifier name) :: .plain " = "
      :: (body.fragments ++ [.plain ";"])⟩]
  | .interface name fields =>
    ⟨0, [.plain "export interface ", .type (typeIdentifier name), .plain " \x7b"]⟩
      :: (fields.map (fun f =>
          (⟨1, .plain "readonly " :: (parameterFragments f ++ [.plain ";"])⟩ : FragmentLine))
        ++ [⟨0, [.plain "\x7d"]⟩])
  | .function name isAsync parameters returns body =>
    let head (opening : String) : List Fragment :=
      .plain (opening ++ identifier name ++ "(")
        :: (Fragment.separated ", " (parameters.map parameterFragments) ++ [.plain "): "])
    let opening :=
      if isAsync then head "export async function " ++ .type "Promise" :: .plain "<"
        :: (returnFragments returns ++ [.plain "> \x7b"])
      else head "export function " ++ returnFragments returns ++ [.plain " \x7b"]
    ⟨0, opening⟩ :: (Command.fragmentLinesAll 1 body ++ [⟨0, [.plain "\x7d"]⟩])

/-- The lines of the declarations, with an empty one between any two. -/
def Module.fragmentLines (m : Module) : List FragmentLine :=
  [(⟨0, []⟩ : FragmentLine)].intercalate (m.items.map Item.fragmentLines)

/-! ### Texts -/

section

open FragmentLine (line)

theorem Command.map_line_of {cs : List Command}
    (h : ∀ c ∈ cs, ∀ depth, (c.fragmentLines depth).map line = c.lines depth) (depth : Nat) :
    (Command.fragmentLinesAll depth cs).map line = Command.linesAll depth cs := by
  induction cs with
  | nil => rfl
  | cons c cs ih =>
      obtain ⟨hc, hcs⟩ := List.forall_mem_cons.mp h
      rw [fragmentLinesAll, linesAll, List.map_append, hc, ih hcs]

theorem Command.map_line (c : Command) (depth : Nat) :
    (c.fragmentLines depth).map line = c.lines depth := by
  induction c generalizing depth with
  | const x e | expression e =>
      simp [fragmentLines, lines, line, Fragment.text, e.texts_fragments, String.append_assoc]
  | branch c t iht =>
      simp [fragmentLines, lines, line, Fragment.text, c.texts_fragments, String.append_assoc,
        map_line_of iht]
  | branchOtherwise c t o iht iho =>
      simp [fragmentLines, lines, line, Fragment.text, c.texts_fragments, String.append_assoc,
        map_line_of iht, map_line_of iho]
  | forOf x e body ih =>
      simp [fragmentLines, lines, line, Fragment.text, e.texts_fragments, String.append_assoc,
        map_line_of ih]
  | returns value =>
      cases value with
      | none => rfl
      | some e =>
          simp [fragmentLines, lines, line, Fragment.text, e.texts_fragments, String.append_assoc]

theorem texts_parameterFragments (p : String × TypeExpr) :
    texts (parameterFragments p) = parameterText p := by
  simp [parameterFragments, parameterText, Fragment.text, p.2.texts_fragments]

theorem texts_returnFragments (returns : Option TypeExpr) :
    texts (returnFragments returns) = returnText returns := by
  cases returns with
  | none => rfl
  | some a => exact a.texts_fragments

theorem TypeBody.texts_fragments (body : TypeBody) : texts body.fragments = body.text := by
  cases body with
  | synonym a => exact a.texts_fragments
  | literals values => simp [fragments, text, Fragment.text]

theorem Item.map_line (i : Item) : i.fragmentLines.map line = i.lines := by
  cases i with
  | type name body =>
      simp [fragmentLines, lines, line, Fragment.text, body.texts_fragments, String.append_assoc]
  | interface name fields =>
      simp [fragmentLines, lines, line, Fragment.text, texts_parameterFragments,
        String.append_assoc]
  | function name isAsync parameters returns body =>
      have hbody : (Command.fragmentLinesAll 1 body).map line = Command.linesAll 1 body :=
        Command.map_line_of (fun c _ => c.map_line) 1
      have hparameters : texts (Fragment.separated ", " (parameters.map parameterFragments)) =
          ", ".intercalate (parameters.map parameterText) := by
        rw [Fragment.texts_separated, List.map_map]
        exact congrArg _ (List.map_congr_left fun p _ => texts_parameterFragments p)
      have hpromise : "): " ++ ("Promise" ++ ("<" ++ (returnText returns ++ "> \x7b"))) =
          "): Promise<" ++ (returnText returns ++ "> \x7b") := by
        have hopening : "): " ++ "Promise" ++ "<" = "): Promise<" := by decide
        simp only [← String.append_assoc, hopening]
      cases isAsync <;> simp [fragmentLines, lines, line, Fragment.text, hbody, hparameters,
        texts_returnFragments, String.append_assoc, hpromise]

/-- The fragments of a module make up the lines of its declarations. -/
theorem Module.map_line (m : Module) : m.fragmentLines.map line = m.body := by
  rw [fragmentLines, body]
  induction m.items with
  | nil => rfl
  | cons i items ih =>
      cases items with
      | nil => simp [i.map_line]
      | cons j items =>
          simp only [List.map_cons, List.intercalate_cons_cons, List.map_append] at ih ⊢
          rw [ih, i.map_line]
          rfl

end

/-! ### Names -/

/-- What a fragment names is a type or a callee of the given kinds. -/
def Fragment.Names (isType isCallee : String → Prop) : Fragment → Prop
  | type name => isType name
  | callee name => isCallee name
  | plain _ => True

/-- What is referred to goes by the names of types and callees of the given kinds. -/
structure References.Names (rs : References) (isType isCallee : String → Prop) : Prop where
  types : ∀ r ∈ rs.types, isType (typeIdentifier r.name)
  values : ∀ r ∈ rs.values, isCallee (identifier r.name)

section

variable {isType isCallee : String → Prop}

theorem References.names_append {rs ss : References} :
    (rs ++ ss).Names isType isCallee ↔ rs.Names isType isCallee ∧ ss.Names isType isCallee := by
  constructor
  · rintro ⟨htypes, hvalues⟩
    rw [types_append, List.forall_mem_append] at htypes
    rw [values_append, List.forall_mem_append] at hvalues
    exact ⟨⟨htypes.1, hvalues.1⟩, ⟨htypes.2, hvalues.2⟩⟩
  · rintro ⟨hrs, hss⟩
    exact ⟨List.forall_mem_append.mpr ⟨hrs.types, hss.types⟩,
      List.forall_mem_append.mpr ⟨hrs.values, hss.values⟩⟩

theorem References.names_ofTypes {as : List TypeExpr} :
    (References.ofTypes as).Names isType isCallee ↔
      ∀ a ∈ as, ∀ r ∈ a.references, isType (typeIdentifier r.name) := by
  rw [← List.forall_mem_flatMap]
  exact ⟨References.Names.types, fun h => ⟨h, List.forall_mem_nil _⟩⟩

variable (isType isCallee) in
/-- All fragments name what they may. -/
def NamesAll (fs : List Fragment) : Prop := ∀ f ∈ fs, f.Names isType isCallee

@[simp] theorem namesAll_nil : NamesAll isType isCallee [] := List.forall_mem_nil _

@[simp] theorem namesAll_cons {f : Fragment} {fs : List Fragment} :
    NamesAll isType isCallee (f :: fs) ↔ f.Names isType isCallee ∧ NamesAll isType isCallee fs :=
  List.forall_mem_cons

@[simp] theorem namesAll_append {fs gs : List Fragment} : NamesAll isType isCallee (fs ++ gs) ↔
    NamesAll isType isCallee fs ∧ NamesAll isType isCallee gs :=
  List.forall_mem_append

@[simp] theorem namesAll_parenthesised {needed : Bool} {fs : List Fragment} :
    NamesAll isType isCallee (Fragment.parenthesised needed fs) ↔ NamesAll isType isCallee fs := by
  cases needed <;> simp [Fragment.parenthesised, Fragment.Names]

theorem namesAll_separated {separator : String} {parts : List (List Fragment)}
    (h : ∀ fs ∈ parts, NamesAll isType isCallee fs) :
    NamesAll isType isCallee (Fragment.separated separator parts) := by
  unfold Fragment.separated
  induction parts with
  | nil => exact namesAll_nil
  | cons fs parts ih =>
      obtain ⟨hfs, hparts⟩ := List.forall_mem_cons.mp h
      cases parts with
      | nil => simpa using hfs
      | cons gs parts =>
          rw [List.intercalate_cons_cons]
          simp [hfs, ih hparts, Fragment.Names]

variable (hpredefined : ∀ x ∈ predefinedTypes, isType x)

include hpredefined

theorem TypeExpr.names_fragments {a : TypeExpr}
    (h : ∀ r ∈ a.references, isType (typeIdentifier r.name)) :
    NamesAll isType isCallee a.fragments := by
  induction a with
  | primitive b =>
      have hb : primitiveText b ∈ predefinedTypes := by cases b <;> decide
      simpa [fragments, Fragment.Names] using hpredefined _ hb
  | array e ih =>
      have harray := hpredefined "ReadonlyArray" (by decide)
      simp [fragments, Fragment.Names, ih h, harray]
  | reference r => simpa [fragments, Fragment.Names] using h r List.mem_cons_self

theorem Term.names_fragments {t : Term} (h : t.references.Names isType isCallee) :
    NamesAll isType isCallee t.fragments := by
  have hall : ∀ es : List Term,
      (∀ e ∈ es, e.references.Names isType isCallee → NamesAll isType isCallee e.fragments) →
        (referencesAll es).Names isType isCallee →
          ∀ fs ∈ fragmentsAll es, NamesAll isType isCallee fs := by
    intro es ih h
    induction es with
    | nil => exact List.forall_mem_nil _
    | cons e es hes =>
        obtain ⟨he, hmore⟩ := List.forall_mem_cons.mp ih
        obtain ⟨hhere, hbehind⟩ := References.names_append.mp h
        exact List.forall_mem_cons.mpr ⟨he hhere, hes hmore hbehind⟩
  induction t with
  | number | string | boolean | var => simp [fragments, Fragment.Names]
  | array es ih => simp [fragments, Fragment.Names, namesAll_separated (hall es ih h)]
  | unary op e ih => simp [fragments, Fragment.Names, ih h]
  | binary op l r ihl ihr =>
      obtain ⟨hl, hr⟩ := References.names_append.mp h
      simp [fragments, Fragment.Names, ihl hl, ihr hr]
  | call callee awaited args ih =>
      obtain ⟨hcallee, hargs⟩ := References.names_append.mp h
      have hname := hcallee.values callee List.mem_cons_self
      simp [fragments, Fragment.Names, hname, namesAll_separated (hall args ih hargs)]
  | cast e t ih =>
      obtain ⟨he, ht⟩ := References.names_append.mp h
      have ht : NamesAll isType isCallee t.fragments :=
        TypeExpr.names_fragments hpredefined (References.names_ofTypes.mp ht t List.mem_cons_self)
      simp [fragments, Fragment.Names, ih he, ht]
  | member e field ih => simp [fragments, Fragment.Names, ih h]

omit hpredefined in
theorem Command.names_fragmentLines_of {cs : List Command}
    (h : ∀ c ∈ cs, ∀ depth, c.references.Names isType isCallee →
      ∀ l ∈ c.fragmentLines depth, NamesAll isType isCallee l.parts)
    (depth : Nat) (hcs : (Command.referencesAll cs).Names isType isCallee) :
    ∀ l ∈ Command.fragmentLinesAll depth cs, NamesAll isType isCallee l.parts := by
  induction cs with
  | nil => exact List.forall_mem_nil _
  | cons c cs ih =>
      obtain ⟨hc, hmore⟩ := List.forall_mem_cons.mp h
      obtain ⟨hhere, hbehind⟩ := References.names_append.mp hcs
      exact List.forall_mem_append.mpr ⟨hc depth hhere, ih hmore hbehind⟩

theorem Command.names_fragmentLines {c : Command} (depth : Nat)
    (h : c.references.Names isType isCallee) :
    ∀ l ∈ c.fragmentLines depth, NamesAll isType isCallee l.parts := by
  have hterm {t : Term} (ht : t.references.Names isType isCallee) :=
    Term.names_fragments hpredefined ht
  induction c generalizing depth with
  | const x e | expression e => simp [fragmentLines, Fragment.Names, hterm h]
  | branch c t iht =>
      obtain ⟨hc, ht⟩ := References.names_append.mp h
      have hthen := names_fragmentLines_of iht (depth + 1) ht
      rw [fragmentLines, List.forall_mem_cons, List.forall_mem_append, List.forall_mem_singleton]
      exact ⟨by simp [Fragment.Names, hterm hc], hthen, by simp [Fragment.Names]⟩
  | branchOtherwise c t o iht iho =>
      obtain ⟨hct, ho⟩ := References.names_append.mp h
      obtain ⟨hc, ht⟩ := References.names_append.mp hct
      have hthen := names_fragmentLines_of iht (depth + 1) ht
      have hotherwise := names_fragmentLines_of iho (depth + 1) ho
      rw [fragmentLines, List.forall_mem_cons, List.forall_mem_append, List.forall_mem_cons,
        List.forall_mem_append, List.forall_mem_singleton]
      exact ⟨by simp [Fragment.Names, hterm hc], hthen, by simp [Fragment.Names], hotherwise,
        by simp [Fragment.Names]⟩
  | forOf x e body ih =>
      obtain ⟨he, hbody⟩ := References.names_append.mp h
      have hbody := names_fragmentLines_of ih (depth + 1) hbody
      rw [fragmentLines, List.forall_mem_cons, List.forall_mem_append, List.forall_mem_singleton]
      exact ⟨by simp [Fragment.Names, hterm he], hbody, by simp [Fragment.Names]⟩
  | returns value =>
      cases value with
      | none => simp [fragmentLines, Fragment.Names]
      | some e => simp [fragmentLines, Fragment.Names, hterm h]

theorem names_parameterFragments {p : String × TypeExpr}
    (h : ∀ r ∈ p.2.references, isType (typeIdentifier r.name)) :
    NamesAll isType isCallee (parameterFragments p) := by
  simp [parameterFragments, Fragment.Names, TypeExpr.names_fragments hpredefined h]

end

/-- The name of a type that is exported. -/
def Item.type? : Item → Option String
  | type name _ => some name
  | interface name _ => some name
  | function .. => none

section

variable {isType isCallee : String → Prop} (hpredefined : ∀ x ∈ predefinedTypes, isType x)

include hpredefined

theorem Item.names_fragmentLines {i : Item} (hname : ∀ n ∈ i.type?, isType (typeIdentifier n))
    (h : i.references.Names isType isCallee) :
    ∀ l ∈ i.fragmentLines, NamesAll isType isCallee l.parts := by
  cases i with
  | type name body =>
      have hexported := hname name rfl
      cases body with
      | literals values => simp [fragmentLines, TypeBody.fragments, Fragment.Names, hexported]
      | synonym a =>
          have ha : NamesAll isType isCallee a.fragments :=
            TypeExpr.names_fragments hpredefined
              (References.names_ofTypes.mp h a List.mem_cons_self)
          simp [fragmentLines, TypeBody.fragments, Fragment.Names, hexported, ha]
  | interface name fields =>
      have hname := hname name rfl
      have hfields := References.names_ofTypes.mp h
      rw [fragmentLines, List.forall_mem_cons, List.forall_mem_append, List.forall_mem_singleton,
        List.forall_mem_map]
      refine ⟨by simp [Fragment.Names, hname], fun f hf => ?_, by simp [Fragment.Names]⟩
      have hf : NamesAll isType isCallee (parameterFragments f) :=
        names_parameterFragments hpredefined (hfields f.2 (List.mem_map_of_mem hf))
      simp [Fragment.Names, hf]
  | function name isAsync parameters returns body =>
      obtain ⟨htypes, hbody⟩ := References.names_append.mp h
      have htypes := References.names_ofTypes.mp htypes
      rw [List.forall_mem_append, List.forall_mem_map] at htypes
      obtain ⟨hparameters, hreturns⟩ := htypes
      have hlist : NamesAll isType isCallee
          (Fragment.separated ", " (parameters.map parameterFragments)) := by
        refine namesAll_separated (List.forall_mem_map.mpr fun p hp => ?_)
        exact names_parameterFragments hpredefined (hparameters p hp)
      have hresult : NamesAll isType isCallee (returnFragments returns) := by
        cases returns with
        | none =>
            have hvoid := hpredefined "void" (by decide)
            simpa [returnFragments, Fragment.Names] using hvoid
        | some a =>
            exact TypeExpr.names_fragments hpredefined (hreturns a (Option.mem_toList.mpr rfl))
      have hpromise := hpredefined "Promise" (by decide)
      have hlines := Command.names_fragmentLines_of
        (fun c _ depth hc => Command.names_fragmentLines hpredefined depth hc) 1 hbody
      rw [fragmentLines, List.forall_mem_cons, List.forall_mem_append, List.forall_mem_singleton]
      refine ⟨?_, hlines, by simp [Fragment.Names]⟩
      cases isAsync <;> simp [Fragment.Names, hlist, hresult, hpromise]

/-- What the text of a module names is what its tree refers to, what it exports, or predefined. -/
theorem Module.names_fragmentLines {m : Module}
    (hexports : ∀ n ∈ m.items.filterMap Item.type?, isType (typeIdentifier n))
    (h : m.references.Names isType isCallee) :
    ∀ l ∈ m.fragmentLines, NamesAll isType isCallee l.parts := by
  have hitems : ∀ i ∈ m.items, ∀ l ∈ i.fragmentLines, NamesAll isType isCallee l.parts := by
    refine fun i hi => Item.names_fragmentLines hpredefined
      (fun n hn => hexports n (List.mem_filterMap.mpr ⟨i, hi, hn⟩)) ⟨fun r hr => ?_, fun r hr => ?_⟩
    · exact h.types r ((mem_references r).1.mpr ⟨i, hi, hr⟩)
    · exact h.values r ((mem_references r).2.mpr ⟨i, hi, hr⟩)
  rw [fragmentLines]
  generalize m.items = items at hitems
  induction items with
  | nil => exact List.forall_mem_nil _
  | cons i items ih =>
      obtain ⟨hi, hrest⟩ := List.forall_mem_cons.mp hitems
      cases items with
      | nil => simpa using hi
      | cons j items =>
          simp only [List.map_cons, List.intercalate_cons_cons] at ih ⊢
          rw [List.append_assoc, List.forall_mem_append, List.forall_mem_append,
            List.forall_mem_singleton]
          exact ⟨hi, namesAll_nil, ih hrest⟩

end

/-! ### Closed modules -/

/-- Every name of a type in the text of the declarations is predefined, exported or imported, and
every name that is called is exported or imported. -/
structure Module.Closed (m : Module) : Prop where
  types : ∀ l ∈ m.fragmentLines, ∀ x, Fragment.type x ∈ l.parts →
    x ∈ predefinedTypes ∨ x ∈ (m.items.filterMap Item.type?).map typeIdentifier ∨
      x ∈ m.typeImports.map typeIdentifier
  callees : ∀ l ∈ m.fragmentLines, ∀ x, Fragment.callee x ∈ l.parts →
    x ∈ (m.items.filterMap Item.function?).map identifier ∨ x ∈ m.valueImports.map identifier

/-- A module is closed if it exports all that it refers to and does not import. -/
theorem Module.closed_of {m : Module}
    (htypes : ∀ r ∈ m.references.types, r.imported = false → r.name ∈ m.items.filterMap Item.type?)
    (hvalues : ∀ r ∈ m.references.values, r.imported = false →
      r.name ∈ m.items.filterMap Item.function?) : m.Closed := by
  have hsplit (rs : List Reference) (names : List String) (rename : String → String)
      (h : ∀ r ∈ rs, r.imported = false → r.name ∈ names) : ∀ r ∈ rs,
      rename r.name ∈ names.map rename ∨ rename r.name ∈ (importedNames rs).map rename := by
    rintro ⟨name, imported⟩ hr
    cases imported with
    | false => exact .inl (List.mem_map_of_mem (h _ hr rfl))
    | true => exact .inr (List.mem_map_of_mem (mem_importedNames.mpr hr))
  have hnames : ∀ l ∈ m.fragmentLines, NamesAll
      (fun x => x ∈ predefinedTypes ∨ x ∈ (m.items.filterMap Item.type?).map typeIdentifier ∨
        x ∈ m.typeImports.map typeIdentifier)
      (fun x => x ∈ (m.items.filterMap Item.function?).map identifier ∨
        x ∈ m.valueImports.map identifier) l.parts :=
    names_fragmentLines (fun _ hx => .inl hx) (fun _ hn => .inr (.inl (List.mem_map_of_mem hn)))
      ⟨fun r hr => .inr (hsplit _ _ _ htypes r hr), hsplit _ _ _ hvalues⟩
  exact ⟨fun l hl x hx => hnames l hl _ hx, fun l hl x hx => hnames l hl _ hx⟩

end Prosaic.TypeScript
