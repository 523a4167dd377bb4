/-!
# Comments in markup

Two hyphens in a row must not stand inside an XML comment. Pairs of hyphens are
separated by a blank, again and again until no pair is left.
-/

set_option autoImplicit false

namespace FetchQuery.Fetch

/-- Whether two hyphens follow each other. -/
def hasHyphenPair : List Char → Bool
  | [] => false
  | c :: cs => (c == '-' && cs.head? == some '-') || hasHyphenPair cs

/-- Separates the pairs of hyphens that are found from left to right. -/
def splitHyphenPairs : List Char → List Char
  | [] => []
  | [c] => [c]
  | c :: d :: cs =>
    if c = '-' ∧ d = '-' then '-' :: ' ' :: '-' :: splitHyphenPairs cs
    else c :: splitHyphenPairs (d :: cs)

/-- Separates pairs of hyphens, at most `n` times over, until there are none. -/
def separateWithin : Nat → List Char → List Char
  | 0, cs => cs
  | n + 1, cs => if hasHyphenPair cs then separateWithin n (splitHyphenPairs cs) else cs

/-- The characters of a comment without two hyphens in a row. -/
def separateHyphens (cs : List Char) : List Char :=
  separateWithin cs.length cs

/-- A comment body that may stand in markup. -/
def commentBody (comment : String) : String :=
  String.ofList (separateHyphens comment.toList)

end FetchQuery.Fetch
