/-
Words that are like a word.

The likeness of two words is twice the number of characters that match over the number of all their
characters.  Characters match in blocks: the longest block that both words share, and then the
blocks to the left and to the right of it.

* `matched` — the number of characters that match;
* `similar` — the words of a list that are most like a word.
-/
import StyleImport.Text.Basic

namespace StyleImport

namespace Text

/-- The number of characters at the front that two texts share. -/
def sharedFront : Text → Text → Nat
  | a :: as, b :: bs => if a = b then sharedFront as bs + 1 else 0
  | _, _ => 0

/-- A block that two texts share. -/
structure Block where
  /-- Where it starts in the first text. -/
  left : Nat
  /-- Where it starts in the second text. -/
  right : Nat
  /-- Its length. -/
  size : Nat
  deriving DecidableEq, Repr

/-- The longest block that two texts share; of several, the first one in the first text and then in
the second. -/
def longestBlock (a b : Text) : Block :=
  (List.range a.length).foldl
    (fun best i =>
      (List.range b.length).foldl
        (fun best j =>
          let size := sharedFront (a.drop i) (b.drop j)
          if best.size < size then ⟨i, j, size⟩ else best)
        best)
    ⟨0, 0, 0⟩

/-- The number of characters that match, in blocks of so many levels. -/
def matchedIn : (levels : Nat) → Text → Text → Nat
  | 0, _, _ => 0
  | levels + 1, a, b =>
    let block := longestBlock a b
    if block.size = 0 then 0
    else
      matchedIn levels (a.take block.left) (b.take block.right) + block.size
        + matchedIn levels (a.drop (block.left + block.size)) (b.drop (block.right + block.size))

/-- The number of characters of two texts that match. -/
def matched (a b : Text) : Nat := matchedIn a.length a b

/-- Whether at least three fifths of the characters of two texts match. -/
def isSimilar (a b : Text) : Bool := 3 * (a.length + b.length) ≤ 10 * matched a b

/-- Whether the first of two candidates is more like a text than the second; of two that are alike,
the later one in the order of texts. -/
def isCloser (t a b : Text) : Bool :=
  let x := matched a t * (b.length + t.length)
  let y := matched b t * (a.length + t.length)
  y < x || (x = y && le b a)

/-- The words that are most like a text, at most three, in the order of texts. -/
def similar (t : Text) (words : List Text) : List Text :=
  (((words.filter (isSimilar · t)).mergeSort (isCloser t)).take 3).mergeSort le

end Text

end StyleImport
