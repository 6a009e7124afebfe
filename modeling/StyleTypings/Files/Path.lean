/-
Paths — the names of files, as they are written.

A path keeps its spelling, since messages show it: `./a//b/` stays `./a//b/`.  It
is a flag for a leading slash and the segments between the slashes, empty ones
included; `text` gives the spelling back.  What a path means is read off its
parts: fillers (empty segments and `.`, except a `.` that begins a relative path)
mean nothing, so two spellings with the same parts are the same path.
-/
import StyleTypings.Text.Basic

namespace StyleTypings

/-- A path as written: whether a slash begins it, and what stands between the
slashes after that. -/
structure Path where
  absolute : Bool
  segments : List Text
deriving DecidableEq, Repr

/-- One step of a path. -/
inductive Path.Part where
  | root
  | current
  | parent
  | name (n : Text)
deriving DecidableEq, Repr

namespace Path

/-- The path with a given spelling. -/
def ofText : Text → Path
  | '/' :: rest => ⟨true, rest.splitOn '/'⟩
  | t => ⟨false, t.splitOn '/'⟩

instance : Coe String Path := ⟨fun s => ofText s.toList⟩

/-- The spelling of a path. -/
def text (p : Path) : Text :=
  (if p.absolute then ['/'] else []) ++ Text.joinWith ['/'] p.segments

/-- The path with no spelling at all, which names nothing. -/
def empty : Path := ⟨false, [[]]⟩

/-- Whether nothing is written. -/
def isEmpty (p : Path) : Bool := p.text.isEmpty

/-! ## Parts -/

/-- Whether a segment that is not the first of a relative path means nothing. -/
def isFiller (s : Text) : Bool := s.isEmpty || s == ['.']

/-- Whether a segment leads to the directory it stands in or to the one above. -/
def isSpecial (s : Text) : Bool := s == ['.'] || s == ['.', '.']

/-- The part that a segment stands for. -/
def partOf (s : Text) : Part := if s = ['.', '.'] then .parent else .name s

/-- The parts of segments among which `.` means nothing. -/
def partsAfter (segments : List Text) : List Part :=
  (segments.filter (! isFiller ·)).map partOf

def parts (p : Path) : List Part :=
  if p.absolute then .root :: partsAfter p.segments
  else
    match p.segments with
    | ['.'] :: rest => .current :: partsAfter rest
    | segments => partsAfter segments

/-- Two spellings of one path. -/
def same (p q : Path) : Bool := p.parts == q.parts

/-- The name of a part in a spelling. -/
def Part.text : Part → Text
  | .root => []
  | .current => ['.']
  | .parent => ['.', '.']
  | .name n => n

/-- The plainest path with given parts, of which only the first can be the root. -/
def ofParts : List Part → Path
  | [] => empty
  | [.root] => ⟨true, [[]]⟩
  | .root :: parts => ⟨true, parts.map Part.text⟩
  | parts => ⟨false, parts.map Part.text⟩

/-- The path without `.` and without repeated or trailing slashes. -/
def normalize (p : Path) : Path := ofParts (p.parts.filter (· != .current))

/-- Whether the parts of `q` begin those of `p`. -/
def startsWith (p q : Path) : Bool := q.parts.isPrefixOf p.parts

/-! ## Order -/

/-- The rank of a part among parts of other kinds. -/
def Part.rank : Part → Nat
  | .root => 0
  | .current => 1
  | .parent => 2
  | .name _ => 3

/-- Whether a text comes no later than another, by code points. -/
def textLe : Text → Text → Bool
  | [], _ => true
  | _ :: _, [] => false
  | c :: s, d :: t => if c = d then textLe s t else c.toNat < d.toNat

/-- Whether a part comes no later than another. -/
def Part.le : Part → Part → Bool
  | .name m, .name n => textLe m n
  | a, b => a.rank ≤ b.rank

/-- Whether a list of parts comes no later than another. -/
def partsLe : List Part → List Part → Bool
  | [], _ => true
  | _ :: _, [] => false
  | a :: s, b :: t => if a = b then partsLe s t else a.le b

/-- Paths are in the order of their parts, so that a directory comes together. -/
def le (p q : Path) : Bool := partsLe p.parts q.parts

/-! ## Taking apart -/

/-- Segments from the last on, without the fillers at their head.  The first
segment of a relative path is kept when it is a `.`. -/
def dropFillers (absolute : Bool) : List Text → List Text
  | [] => []
  | [s] => if s.isEmpty || (absolute && s == ['.']) then [] else [s]
  | s :: rest => if isFiller s then dropFillers absolute rest else s :: rest

/-- A path from segments in reverse order. -/
def ofReversed (absolute : Bool) (reversed : List Text) : Path :=
  ⟨absolute, if reversed.isEmpty then [[]] else reversed.reverse⟩

/-- The path without its last part, if that part is not the root.  The spelling of
what remains is kept. -/
def parent? (p : Path) : Option Path :=
  match dropFillers p.absolute p.segments.reverse with
  | [] => none
  | _ :: before => some (ofReversed p.absolute (dropFillers p.absolute before))

/-- The name at the end of a path, if a name ends it. -/
def fileName? (p : Path) : Option Text :=
  match p.parts.getLast? with
  | some (.name n) => some n
  | _ => none

/-- A name cut at its last point: stem and extension.  A name whose only point
begins it has no extension. -/
def splitName (n : Text) : Text × Option Text :=
  match Text.breakAtLast? '.' n with
  | some ([], _) => (n, none)
  | some (stem, extension) => (stem, some extension)
  | none => (n, none)

/-- The extension of the name at the end of a path. -/
def extension? (p : Path) : Option Text := p.fileName?.bind fun n => (splitName n).2

/-- The path cut off after the stem of its name.  A stem that is a single point is no
name by itself, and keeps the point after it where the extension ends the spelling. -/
def withoutExtension (p : Path) : Path :=
  match p.fileName? with
  | none => p
  | some n =>
    let stem := (splitName n).1
    let stem := if stem = ['.'] && p.segments.getLast? == some n then ['.', '.'] else stem
    match dropFillers p.absolute p.segments.reverse with
    | [] => p
    | _ :: before => ofReversed p.absolute (stem :: before)

/-- Segments without those that the first so many parts stand for, and without the
fillers after them.  Where a relative path begins, a `.` stands for a part. -/
def dropParts : Bool → Nat → List Text → List Text
  | _, _, [] => []
  | _, 0, s :: rest => if isFiller s then dropParts false 0 rest else s :: rest
  | begins, n + 1, s :: rest =>
    if s.isEmpty || (! begins && s == ['.']) then dropParts false (n + 1) rest
    else dropParts false n rest

/-- What remains of a path after the parts of another that begin it.  If there are none,
a leading `.` stays; trailing fillers go in any case. -/
def stripPrefix? (p base : Path) : Option Path :=
  if ! p.startsWith base then none
  else if base.parts.isEmpty then
    some (ofReversed p.absolute (dropFillers p.absolute p.segments.reverse))
  else
    let named := if p.absolute then base.parts.length - 1 else base.parts.length
    let rest := dropParts (! p.absolute) named p.segments
    some (ofReversed false (dropFillers true rest.reverse))

/-! ## Putting together -/

/-- A path seen from a directory. -/
def join (base p : Path) : Path :=
  if p.absolute then p
  else if base.isEmpty then p
  else
    match base.segments.getLast? with
    | some [] => ⟨base.absolute, base.segments.dropLast ++ p.segments⟩
    | _ => ⟨base.absolute, base.segments ++ p.segments⟩

/-- Text without slashes written on at the end of a path. -/
def append (p : Path) (t : Text) : Path :=
  match p.segments.getLast? with
  | some last => ⟨p.absolute, p.segments.dropLast ++ [last ++ t]⟩
  | none => ⟨p.absolute, [t]⟩

end Path

end StyleTypings
