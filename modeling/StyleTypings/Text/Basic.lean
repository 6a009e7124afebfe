/-
Text — the lists of characters everything else is written over.

A text is a list of characters, so a rule about text is a rule about
characters and its proof an induction over the list.  Strings appear only at
the rim: a literal is read as a text by a coercion, and the command line
converts once on the way in and once on the way out.

The operations below are the ones several modules share: cutting at blanks, at
a character or at a piece of text, and putting pieces together again.
-/
import StyleTypings.Text.Blank

namespace StyleTypings

/-- A text is the list of its characters. -/
abbrev Text := List Char

instance : Coe String Text := ⟨String.toList⟩

namespace Text

def toStr (t : Text) : String := String.ofList t

/-- A number in decimal digits. -/
def ofNat (n : Nat) : Text := Nat.toDigits 10 n

/-- How many bytes the text takes in UTF-8. -/
def utf8Size (t : Text) : Nat := t.foldl (fun n c => n + c.utf8Size) 0

/-! ## Blanks -/

/-- The text without its leading blanks. -/
def trimLeft (t : Text) : Text := t.dropWhile isBlank

/-- The text without its trailing blanks. -/
def trimRight (t : Text) : Text := (t.reverse.dropWhile isBlank).reverse

/-- The text without leading and trailing blanks. -/
def trim (t : Text) : Text := t.trimLeft.trimRight

/-- The maximal runs of characters that are not blank, in order. -/
def words (t : Text) : List Text := (t.splitOnP isBlank).filter (! ·.isEmpty)

/-- Pieces joined with a separator between neighbours. -/
def joinWith (sep : Text) : List Text → Text
  | [] => []
  | [t] => t
  | t :: rest => t ++ sep ++ joinWith sep rest

/-- The words of a text with one space between neighbours: leading and trailing
blanks go, and every other run of blanks becomes one space. -/
def collapse (t : Text) : Text := joinWith [' '] t.words

/-! ## Quotes -/

/-- The marks that begin and end a string. -/
def isQuote (c : Char) : Bool := c == '"' || c == '\''

/-- The text without the quotes around it, when the same mark both begins and ends
it. -/
def unquote : Text → Text
  | [] => []
  | c :: rest => if isQuote c && rest.getLast? == some c then rest.dropLast else c :: rest

/-! ## Searching -/

/-- What stands before and what stands after the first occurrence of `pat`. -/
def breakOn? (pat : Text) : Text → Option (Text × Text)
  | [] => if pat.isEmpty then some ([], []) else none
  | c :: rest =>
    match pat.isPrefixOf? (c :: rest) with
    | some after => some ([], after)
    | none => (breakOn? pat rest).map fun (before, after) => (c :: before, after)

/-- What stands before and after the first occurrence of a character. -/
def breakAt? (sep : Char) : Text → Option (Text × Text)
  | [] => none
  | c :: rest =>
    if c = sep then some ([], rest)
    else (breakAt? sep rest).map fun (before, after) => (c :: before, after)

/-- What stands before and after the last occurrence of a character. -/
def breakAtLast? (sep : Char) (t : Text) : Option (Text × Text) :=
  (breakAt? sep t.reverse).map fun (after, before) => (before.reverse, after.reverse)

/-- Whether the text ends in `tail`. -/
def endsIn (t tail : Text) : Bool := tail.isSuffixOf t

/-- Every occurrence of `pat` replaced by `new`, from the left and without
overlaps.  `skip` counts the characters of an occurrence still to be passed. -/
def replaceFrom (pat new : Text) : Nat → Text → Text
  | _, [] => []
  | skip + 1, _ :: rest => replaceFrom pat new skip rest
  | 0, c :: rest =>
    if pat.isPrefixOf (c :: rest) then new ++ replaceFrom pat new (pat.length - 1) rest
    else c :: replaceFrom pat new 0 rest

/-- Every occurrence of the non-empty `pat` replaced by `new`. -/
def replace (t pat new : Text) : Text := replaceFrom pat new 0 t

/-! ## Letter case of ASCII -/

/-- The text with `A` to `Z` in lower case and all else as it is. -/
def lowerAscii (t : Text) : Text := t.map Char.toLower

/-- Equality up to the case of ASCII letters. -/
def sameAscii (s t : Text) : Bool := s.lowerAscii == t.lowerAscii

end Text

end StyleTypings
