/-
Words of a name, and the names built from words.

A name falls into words at every character that is neither letter nor number,
and inside what remains wherever the case says so: after a lower case letter
that an upper case one follows, and before the last capital of a run of capitals
that a lower case letter follows.  Numbers take the side of what stands before
them.  Camel case and hyphenated case put the words together again.
-/
import StyleTypings.Text.Letter
import StyleTypings.Text.Casing

namespace StyleTypings

namespace Text

/-- What the cased letters of the current word have been so far. -/
inductive WordCase where
  | unseen
  | lower
  | upper
deriving DecidableEq, Repr

/-- The case after a character that ends no word. -/
def WordCase.after (m : WordCase) (c : Char) : WordCase :=
  if isLower c then .lower else if isUpper c then .upper else m

/-- The words inside a run of letters and numbers.  `word` holds the characters
of the current word, last first. -/
def casedWordsFrom (word : Text) (m : WordCase) : Text → List Text
  | [] => []
  | [c] => [(c :: word).reverse]
  | c :: next :: rest =>
    if m.after c = .lower && isUpper next then
      (c :: word).reverse :: casedWordsFrom [] .unseen (next :: rest)
    else if m = .upper && isUpper c && isLower next then
      word.reverse :: casedWordsFrom [c] .unseen (next :: rest)
    else
      casedWordsFrom (c :: word) (m.after c) (next :: rest)

def nameWords (t : Text) : List Text :=
  (t.splitOnP (! isAlphanumeric ·)).flatMap (casedWordsFrom [] .unseen)

/-- A word in lower case.  A capital sigma that ends the word becomes a final
sigma. -/
def lowerWord : Text → Text
  | [] => []
  | [c] => if c = 'Σ' then ['ς'] else lowerForm c
  | c :: rest => lowerForm c ++ lowerWord rest

/-- A word with its first letter in upper case and the others in lower case. -/
def capitalWord : Text → Text
  | [] => []
  | c :: rest => upperForm c ++ lowerWord rest

/-- The words in camel case: the first in lower case, the others with a capital. -/
def camelCase (t : Text) : Text :=
  match t.nameWords with
  | [] => []
  | first :: rest => lowerWord first ++ rest.flatMap capitalWord

def kebabCase (t : Text) : Text := joinWith ['-'] (t.nameWords.map lowerWord)

end Text

end StyleTypings
