/-!
How alike two texts are, and the most similar of several. Two texts are matched by taking a longest
stretch that they share, and then the texts to its left and to its right in the same way; the
similarity is twice the number of matched characters over the number of all characters.

In a long text a character that occurs very often says little: such characters start no stretch,
though a stretch found without them may be extended over them.
-/

namespace Prosaic.Text

/-- A shared stretch: what precedes it on either side, its length, and what follows it. -/
structure Stretch where
  leftA : List Char
  leftB : List Char
  length : Nat
  rightA : List Char
  rightB : List Char

/-- The lengths of the shared runs that end at the character `a` and at each character of `bs`,
given those that end one character earlier in the other text. `seeds` are the characters that may
take part. -/
def runsAt (seeds : Char → Bool) (a : Char) : Nat → List Char → List Nat → List Nat
  | _, [], _ => []
  | diagonal, b :: bs, above =>
    (if a == b && seeds b then diagonal + 1 else 0)
      :: runsAt seeds a (above.headD 0) bs above.tail

def longestInRow : Nat → List Nat → Nat × Nat
  | _, [] => (0, 0)
  | position, n :: ns =>
    let best := longestInRow (position + 1) ns
    if best.1 ≤ n && 0 < n then (n, position + 1) else best

/-- The longest shared run of seeds as its length and its ends in both texts: of several the one
that ends first in the first text, of those the one that ends first in the second. -/
def longestRun (seeds : Char → Bool) (bs : List Char) :
    Nat → List Nat → Nat × Nat × Nat → List Char → Nat × Nat × Nat
  | _, _, best, [] => best
  | position, above, best, a :: as =>
    let row := runsAt seeds a 0 bs above
    let (length, endB) := longestInRow 0 row
    let best := if best.1 < length then (length, position + 1, endB) else best
    longestRun seeds bs (position + 1) row best as

def sharedStart : List Char → List Char → Nat
  | a :: as, b :: bs => if a == b then sharedStart as bs + 1 else 0
  | _, _ => 0

def splitAtLongest (seeds : Char → Bool) (as bs : List Char) : Stretch :=
  let (length, endA, endB) := longestRun seeds bs 0 (bs.map fun _ => 0) (0, 0, 0) as
  let beforeA := as.take (endA - length)
  let beforeB := bs.take (endB - length)
  let afterA := as.drop endA
  let afterB := bs.drop endB
  let back := sharedStart beforeA.reverse beforeB.reverse
  let forth := sharedStart afterA afterB
  ⟨beforeA.take (beforeA.length - back), beforeB.take (beforeB.length - back),
    back + length + forth, afterA.drop forth, afterB.drop forth⟩

/-- The number of matched characters of two texts. Every split takes characters off the first
text, so its length bounds the number of splits. -/
def matched (seeds : Char → Bool) : Nat → List Char → List Char → Nat
  | 0, _, _ => 0
  | fuel + 1, as, bs =>
    let s := splitAtLongest seeds as bs
    if s.length = 0 then 0
    else s.length + matched seeds fuel s.leftA s.leftB + matched seeds fuel s.rightA s.rightB

/-- The characters of a text that occur too often to start a stretch: none below two hundred
characters, and from there on those that make up more than about a hundredth of it. -/
def frequent (bs : List Char) : List Char :=
  if bs.length < 200 then []
  else bs.eraseDups.filter fun c => bs.length / 100 + 1 < bs.count c

def similarity (word candidate : String) : Nat × Nat :=
  let as := candidate.toList
  let bs := word.toList
  let total := as.length + bs.length
  let often := frequent bs
  let seeds (c : Char) : Bool := !often.contains c
  if total = 0 then (1, 1) else (2 * matched seeds as.length as bs, total)

/-- A candidate replaces the best one so far when it is more similar, or as similar and greater. -/
def improves (score best : Nat × Nat) (candidate current : String) : Bool :=
  best.1 * score.2 < score.1 * best.2
    || (score.1 * best.2 == best.1 * score.2 && current < candidate)

def closest? (least : Nat × Nat) (word : String) (candidates : List String) : Option String :=
  (candidates.foldl (fun best candidate =>
      let score := similarity word candidate
      if least.1 * score.2 ≤ score.1 * least.2 then
        match best with
        | some (s, current) =>
          if improves score s candidate current then some (score, candidate) else best
        | none => some (score, candidate)
      else best) none).map fun (best : (Nat × Nat) × String) => best.2

def suggestName (unknown : String) (candidates : List String) : Option String :=
  closest? (3, 5) unknown candidates

end Prosaic.Text
