import Prosaic.Proofs.Registry.Names
import Prosaic.Proofs.TypeScript.Pieces
import Prosaic.Proofs.TypeScript.Scoping
import Prosaic.TypeScript.Lowering

/-!
Identifiers are words that the target language does not keep for itself, whether they are those of
names, have been made up for locals or name types.
-/

namespace Prosaic.TypeScript

/-! ### Names -/

theorem isWord_append {cs ds : List Char} (h : isWord cs = true)
    (hds : ∀ c ∈ ds, Token.isNameChar c = true) : isWord (cs ++ ds) = true := by
  cases cs with
  | nil => cases h
  | cons c cs =>
      rw [isWord, Bool.and_eq_true] at h
      rw [List.cons_append, isWord, List.all_append, h.1, h.2, List.all_eq_true.mpr hds]
      rfl

theorem keywords_subset : keywords ⊆ reservedWords := by decide

theorem reservedWords_subset : reservedWords ⊆ reservedTypeNames := List.subset_append_left _ _

theorem isWord_underscored {name : String} (h : isWord name.toList = true) :
    isWord (name ++ "_").toList = true := by
  rw [String.toList_append]
  exact isWord_append h (List.forall_mem_singleton.mpr rfl)

theorem isIdentifier_identifier {name : String} (h : isWord name.toList = true) :
    IsIdentifier (identifier name) := by
  by_cases hreserved : name ∈ reservedWords
  · rw [identifier_reserved hreserved]
    exact ⟨isWord_underscored h, fun hkeyword =>
      underscored_not_reserved hreserved (keywords_subset hkeyword)⟩
  · rw [identifier_other hreserved]
    exact ⟨h, fun hkeyword => hreserved (keywords_subset hkeyword)⟩

theorem isIdentifier_typeIdentifier {name : String} (h : isWord name.toList = true) :
    IsIdentifier (typeIdentifier name) := by
  have hall : ∀ n ∈ reservedTypeNames, n ++ "_" ∉ keywords := by decide +kernel
  unfold typeIdentifier
  split
  · next hreserved => exact ⟨isWord_underscored h, hall name (List.contains_iff_mem.mp hreserved)⟩
  · next hfree =>
      exact ⟨h, fun hkeyword => hfree
        (List.contains_iff_mem.mpr (reservedWords_subset (keywords_subset hkeyword)))⟩

theorem isIdentifier_numbered {name : String} (h : isWord name.toList = true) (k : Nat) :
    IsIdentifier (numbered name k) := by
  have htext : (numbered name k).toList = name.toList ++ '_' :: Nat.toDigits 10 k := by
    simp [numbered]
  refine ⟨?_, fun hkeyword => ?_⟩
  · rw [htext]
    refine isWord_append h (List.forall_mem_cons.mpr ⟨by decide, fun c hc => ?_⟩)
    rw [Token.isNameChar, allDigits_toDigits k c hc, Bool.or_true]
  -- there is no underscore in a keyword
  · have hall : ∀ n ∈ keywords, '_' ∉ n.toList := by decide
    refine hall _ hkeyword ?_
    rw [htext]
    exact List.mem_append_right _ List.mem_cons_self

/-! ### Locals -/

/-- All locals go by identifiers. -/
def Locals.Spelled (l : Locals) : Prop := ∀ block ∈ l.blocks, ∀ e ∈ block, IsIdentifier e.2

namespace Locals

variable {l : Locals} {name : String}

theorem Spelled.enter (h : l.Spelled) : l.enter.Spelled :=
  List.forall_mem_cons.mpr ⟨List.forall_mem_nil _, h⟩

theorem Spelled.leave (h : l.Spelled) : l.leave.Spelled :=
  fun block hblock => h block (List.mem_of_mem_tail hblock)

theorem Spelled.add (h : l.Spelled) {chosen : String} (hchosen : IsIdentifier chosen) :
    (l.add name chosen).Spelled := by
  unfold Locals.add
  split
  · exact List.forall_mem_singleton.mpr (List.forall_mem_singleton.mpr hchosen)
  · next block outer hblocks =>
      unfold Spelled at h
      rw [hblocks] at h
      obtain ⟨hblock, houter⟩ := List.forall_mem_cons.mp h
      exact List.forall_mem_cons.mpr ⟨List.forall_mem_cons.mpr ⟨hchosen, hblock⟩, houter⟩

theorem Spelled.declare (h : l.Spelled) (hname : isWord name.toList = true) :
    (l.declare name).2.Spelled := by
  unfold Locals.declare
  split
  · obtain ⟨k, -, -, hk, -⟩ := firstFree_spec l.taken name l.taken.length 1
    have hfresh : IsIdentifier (freshName l.taken name) := by
      rw [freshName, hk]
      exact isIdentifier_numbered hname k
    exact Spelled.add (l := { l with taken := freshName l.taken name :: l.taken }) h hfresh
  · exact h.add (isIdentifier_identifier hname)

theorem Spelled.resolve (h : l.Spelled) (hname : isWord name.toList = true) :
    IsIdentifier (l.resolve name) := by
  unfold Locals.resolve
  cases hfind : l.find? name with
  | none => exact isIdentifier_identifier hname
  | some chosen =>
      obtain ⟨block, hblock, hlookup⟩ := List.exists_of_findSome?_eq_some hfind
      exact h block hblock _ (mem_of_lookup hlookup)

theorem spelled_ofFunction (names : List String) {f : FunctionDecl}
    (h : ∀ p ∈ f.parameters, isWord p.name.toList = true) : (ofFunction names f).Spelled := by
  refine List.forall_mem_singleton.mpr ?_
  rw [List.forall_mem_map]
  exact fun p hp => isIdentifier_identifier (h p hp)

end Locals

/-! ### Types -/

theorem isNameStart_eq (c : Char) : Registry.isNameStart c = Token.isNameStart c := by
  have hupper : c.isUpper = decide ('A'.val ≤ c.val ∧ c.val ≤ 'Z'.val) := rfl
  have hlower : c.isLower = (decide ('a'.val ≤ c.val) && decide (c.val ≤ 'z'.val)) := rfl
  have halpha : c.isAlpha = (c.isLower || c.isUpper) := Bool.or_comm _ _
  simp only [Registry.isNameStart, Token.isNameStart, halpha, hupper, hlower, Bool.decide_and,
    Char.le_def]

theorem isWord_of_isName {name : String} (h : Registry.isName name = true) :
    isWord name.toList = true := by
  unfold Registry.isName at h
  split at h
  · cases h
  · next c cs hcs =>
      rw [hcs]
      simpa [isWord, Token.isNameChar, isNameStart_eq, Token.isDigit, Char.isDigit,
        Char.le_def] using h

theorem isIdentifier_primitive (b : Base) : IsIdentifier (primitiveText b) :=
  ⟨by cases b <;> decide, by cases b <;> decide⟩

/-- A base type or a domain type has an identifier for its text. -/
theorem isIdentifier_typeOfName {r : Registry} (hnamed : r.Named) {name : String}
    (hname : isWord name.toList = true)
    (h : ∀ t, r.type? name = some t → (∃ b, t = .base b) ∨ ∃ d, t = .domain d) :
    IsIdentifier (typeOfName r name).text := by
  unfold typeOfName
  cases ht : r.type? name with
  | none => exact isIdentifier_typeIdentifier hname
  | some t =>
      rcases h t ht with ⟨b, rfl⟩ | ⟨d, rfl⟩
      · exact isIdentifier_primitive b
      · have hlookup : r.types.lookup name = some (.domain d) := by
          unfold Registry.type? at ht
          split at ht
          · cases ht
          · exact ht
        exact isIdentifier_typeIdentifier
          (isWord_of_isName (hnamed.types d (hnamed.domains name d hlookup)).1)

end Prosaic.TypeScript
