import Mathlib.Data.List.Chain
import Prosaic.Proofs.Token.Strings

/-!
Dots that select a field. The scanner tells them apart by characters alone: the one before the dot
and the word behind it. What holds of the characters holds of the tokens that they turn out to
belong to: such a dot stands right behind a word, a number or a closing bracket, and right before a
name.

`Ready` is what there is to know between two pieces for that: whether the character before ends such
a token, and that behind a dot a name comes next.
-/

namespace Prosaic.Token

/-- What a value can end with, other than a string. -/
def Kind.endsOperand : Kind → Bool
  | .keyword _ | .identifier _ | .number _ | .sign .closeParen | .sign .closeBracket => true
  | _ => false

def Kind.isName : Kind → Bool
  | .identifier _ => true
  | _ => false

/-! ### The last character of a token -/

theorem last_stringBody {cs value raw rest : List Char}
    (h : stringBody cs = some (value, raw, rest)) : raw.getLast? = some '"' := by
  obtain ⟨inside, -, rfl⟩ := inside_of_stringBody h
  exact List.getLast?_concat

/-- No sign but the closing brackets ends like an operand, and a dot is none of the signs that are
told by their characters alone. -/
theorem sign?_ends {cs : List Char} {sign : Sign} (h : sign? cs = some sign) :
    sign ≠ .dot ∧ (sign.text.toList.getLast?.any isOperandEnd = true →
      (Kind.sign sign).endsOperand = true) := by
  unfold sign? at h
  split at h <;> first | (cases h; decide) | cases h

theorem sign?_of_isNameStart {c : Char} {rest : List Char} (hc : isNameStart c = true) :
    sign? (c :: rest) = none := by
  unfold sign?
  split
  all_goals first | rfl | (next heq => obtain rfl := (List.cons.inj heq).1; cases hc)

theorem endsOperand_wordKind (word : String) : (wordKind word).endsOperand = true := by
  unfold wordKind
  split <;> rfl

section

variable {before : Option Char} {c : Char} {rest taken : List Char} {kind : Kind}

/-- A token whose last character may stand before a dot that selects a field is one that a value can
end with. -/
theorem Front.endsOperand (h : Front before c rest taken kind)
    (hlast : taken.getLast?.any isOperandEnd = true) : kind.endsOperand = true := by
  cases h with
  | string body =>
      rw [List.getLast?_cons, last_stringBody body] at hlast
      cases hlast
  | number digit value_eq => rfl
  | word start => exact endsOperand_wordKind _
  | dot rest => cases hlast
  | sign read => exact (sign?_ends read).2 hlast

/-- A dot selects a field where the characters around it say so. -/
theorem Front.of_dot (h : Front before c rest taken kind) (hkind : kind = .sign .dot) :
    c = '.' ∧ taken = ['.'] ∧ before.any isOperandEnd = true ∧ startsName rest = true := by
  cases h with
  | string | number => cases hkind
  | word start =>
      have hends := endsOperand_wordKind (String.ofList ((c :: rest).takeWhile isNameChar))
      rw [hkind] at hends
      cases hends
  | dot rest =>
      split at hkind
      · next hselects =>
          rw [selectsField_eq, Bool.and_eq_true] at hselects
          exact ⟨rfl, rfl, hselects⟩
      · cases hkind
  | sign read =>
      obtain rfl := Kind.sign.inj hkind
      exact absurd rfl (sign?_ends read).1

end

/-- The piece at the front of a text that starts with a name is that name. -/
theorem piece_name {before : Option Char} {c : Char} {rest : List Char} {p : Piece}
    (h : piece before c rest = .ok p) (hname : startsName (c :: rest) = true) :
    ∃ name, p.kind = some (.identifier name) := by
  rw [startsName, Bool.and_eq_true] at hname
  obtain ⟨hstart, hfree⟩ := hname
  have hc : isNameStart c = true := hstart
  cases hkind : p.kind with
  | none =>
      obtain ⟨hseparator, -⟩ | ⟨-, rfl, -, -⟩ := piece_none h hkind
      · simp only [isSeparator, Bool.or_eq_true, beq_iff_eq] at hseparator
        obtain ((rfl | rfl) | rfl) | rfl := hseparator <;> cases hc
      · cases hc
  | some kind =>
      have hfront := piece_some h hkind
      generalize p.taken = taken at hfront
      cases hfront with
      | string | dot => cases hc
      | number digit value_eq =>
          rw [isDigit_of_isNameStart hc] at digit
          cases digit
      | word start =>
          refine ⟨String.ofList ((c :: rest).takeWhile isNameChar), congrArg some ?_⟩
          rw [wordKind, Option.isNone_iff_eq_none.mp hfree]
      | sign read =>
          rw [sign?_of_isNameStart hc] at read
          cases read

/-! ### From one token to the next -/

/-- What stands right before a dot that selects a field, and what right behind it. -/
structure Joined (a b : Token) : Prop where
  before : b.kind = .sign .dot → a.kind.endsOperand = true ∧ a.span.stop = b.span.start
  behind : a.kind = .sign .dot → b.kind.isName = true ∧ a.span.stop = b.span.start

/-- The scanner behind a token: where the character before could be the end of an operand it is the
end of that token, and if the token is a dot that selects a field, the text goes on with a name. -/
structure Ready (a : Token) (before : Option Char) (start : Position) (cs : List Char) : Prop where
  operand : cs.head? = some '.' → before.any isOperandEnd = true →
    a.kind.endsOperand = true ∧ a.span.stop = start
  name : a.kind = .sign .dot → startsName cs = true ∧ a.span.stop = start

section

variable {a : Token} {before : Option Char} {start : Position} {c : Char}
  {rest behind : List Char} {p : Piece}

/-- A gap comes neither between a dot that selects a field and the name, nor before such a dot. -/
theorem Ready.gap (h : Ready a before start (c :: rest)) (hpiece : piece before c rest = .ok p)
    (hkind : p.kind = none) (hsplit : p.taken ++ behind = c :: rest) :
    Ready a p.taken.getLast? (start.after p.taken) behind where
  operand hdot hlast := by
    cases hc : isSeparator c with
    | true =>
        have htaken : p.taken = [c] := by
          rw [piece, if_pos hc] at hpiece
          obtain rfl := Except.ok.inj hpiece
          rfl
        rw [htaken] at hlast
        simp only [isSeparator, Bool.or_eq_true, beq_iff_eq] at hc
        obtain ((rfl | rfl) | rfl) | rfl := hc <;> cases hlast
    | false => cases piece_comment hpiece hkind hc hsplit '.' hdot
  name hdot := by
    obtain ⟨name, hname⟩ := piece_name hpiece (h.name hdot).1
    rw [hkind] at hname
    cases hname

theorem Ready.token {kind : Kind} (h : Ready a before start (c :: rest))
    (hpiece : piece before c rest = .ok p) (hkind : p.kind = some kind)
    (hsplit : p.taken ++ behind = c :: rest) :
    Joined a ⟨kind, String.ofList p.taken, ⟨start, start.after p.taken⟩⟩ ∧
      Ready ⟨kind, String.ofList p.taken, ⟨start, start.after p.taken⟩⟩ p.taken.getLast?
        (start.after p.taken) behind := by
  have hfront := piece_some hpiece hkind
  refine ⟨⟨fun hdot => ?_, fun hdot => ?_⟩, ⟨fun _ hlast => ?_, fun hdot => ?_⟩⟩
  · obtain ⟨rfl, -, hbefore, -⟩ := hfront.of_dot hdot
    exact h.operand rfl hbefore
  · obtain ⟨hname, hstop⟩ := h.name hdot
    obtain ⟨name, hidentifier⟩ := piece_name hpiece hname
    obtain rfl := Option.some.inj (hkind.symm.trans hidentifier)
    exact ⟨rfl, hstop⟩
  · exact ⟨hfront.endsOperand hlast, rfl⟩
  · obtain ⟨rfl, htaken, -, hname⟩ := hfront.of_dot hdot
    obtain rfl : behind = rest := by
      rw [htaken] at hsplit
      exact (List.cons.inj hsplit).2
    exact ⟨hname, rfl⟩

end

/-- Tokens that follow each other are joined, the first one to the token before the text. -/
theorem scanFrom_joined {fuel : Nat} {a : Token} {before : Option Char} {start : Position}
    {cs : List Char} {tokens : List Token} (hfuel : cs.length ≤ fuel)
    (hready : Ready a before start cs) (h : scanFrom fuel before start cs = .ok tokens) :
    (a :: tokens).IsChain Joined := by
  -- where the text ends no name follows, so the last token is no dot that selects a field
  have hend : ∀ {a before start}, Ready a before start [] →
      [a, ⟨.eof, "", ⟨start, start⟩⟩].IsChain Joined := by
    intro a before start hready
    refine .cons_cons ⟨nofun, fun hdot => ?_⟩ (.singleton _)
    cases (hready.name hdot).1
  induction fuel generalizing a before start cs tokens with
  | zero =>
      obtain rfl : cs = [] := List.length_eq_zero_iff.mp (Nat.le_zero.mp hfuel)
      obtain rfl := Except.ok.inj h
      exact hend hready
  | succ fuel ih =>
      cases cs with
      | nil =>
          obtain rfl := Except.ok.inj h
          exact hend hready
      | cons c rest =>
          obtain ⟨p, hpiece⟩ := piece_of_scanFrom h
          obtain ⟨behind, hsplit, hshorter⟩ := piece_split hpiece
          have hbehind : behind.length ≤ fuel :=
            Nat.le_trans hshorter (Nat.le_of_succ_le_succ hfuel)
          rw [scanFrom_piece hpiece hsplit] at h
          obtain ⟨more, hmore, rfl⟩ := map_eq_ok.mp h
          cases hkind : p.kind with
          | none =>
              rw [p.tokens_none hkind]
              exact ih hbehind (hready.gap hpiece hkind hsplit) hmore
          | some kind =>
              obtain ⟨hjoined, hnext⟩ := hready.token hpiece hkind hsplit
              rw [p.tokens_some hkind]
              exact .cons_cons hjoined (ih hbehind hnext hmore)

/-! ### The text as a whole -/

/-- A dot between some tokens stands right behind the end of an operand and right before a name. -/
structure Selects (front : List Token) (dot : Token) (back : List Token) : Prop where
  operand : ∃ t ∈ front.getLast?, t.kind.endsOperand = true ∧ t.span.stop = dot.span.start
  name : ∃ t ∈ back.head?, t.kind.isName = true ∧ t.span.start = dot.span.stop

theorem scan_selects {source : String} {tokens : List Token} (h : scan source = .ok tokens) :
    ∀ front dot back, tokens = front ++ dot :: back → dot.kind = .sign .dot →
      Selects front dot back := by
  intro front dot back hsplit hdot
  -- a token that is nothing stands for what is before the text
  have hready : Ready ⟨.eof, "", ⟨.first, .first⟩⟩ none .first source.toList := ⟨nofun, nofun⟩
  have hchain := scanFrom_joined (Nat.le_refl _) hready h
  rw [hsplit, ← List.cons_append, List.isChain_append] at hchain
  obtain ⟨-, hbehind, hjoined⟩ := hchain
  constructor
  · obtain ⟨t, ht⟩ : ∃ t, (⟨.eof, "", ⟨.first, .first⟩⟩ :: front).getLast? = some t :=
      Option.ne_none_iff_exists'.mp (by simp)
    obtain ⟨hends, hstop⟩ := (hjoined t ht dot rfl).before hdot
    cases front with
    | nil =>
        obtain rfl := Option.some.inj ht
        cases hends
    | cons u front => exact ⟨t, ht, hends, hstop⟩
  · cases back with
    | nil =>
        obtain ⟨init, stop, heq, hstop, -⟩ := scan_spec h
        rw [hsplit] at heq
        obtain ⟨-, hlast⟩ := List.append_inj' heq rfl
        obtain rfl := List.singleton_inj.mp hlast
        rw [hstop] at hdot
        cases hdot
    | cons t back =>
        obtain ⟨hname, hstart⟩ := (List.isChain_cons_cons.mp hbehind).1.behind hdot
        exact ⟨t, rfl, hname, hstart.symm⟩

end Prosaic.Token
