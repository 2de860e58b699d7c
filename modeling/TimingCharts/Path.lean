/-!
# Paths

A path is its text, as it was written. It is read as a lead (`/`, `.` or neither) and the
pieces between separators; empty pieces and `.` pieces name nothing. The operations drop or
replace pieces at the ends, so that the text between is unchanged.
-/

namespace TimingCharts

structure Path where
  text : String
  deriving DecidableEq, Repr

namespace Path

inductive Lead where
  | root
  | here
  | plain
  deriving DecidableEq, Repr

inductive Component where
  | root
  | here
  | up
  | name (text : List Char)
  deriving DecidableEq, Repr

/-- The pieces of a text between separators, at least one. -/
def pieces : List Char → List (List Char)
  | [] => [[]]
  | c :: rest => if c = '/' then [] :: pieces rest else (pieces rest).modifyHead (c :: ·)

def split : List Char → Lead × List (List Char)
  | '/' :: rest => (.root, pieces rest)
  | ['.'] => (.here, [])
  | '.' :: '/' :: rest => (.here, pieces rest)
  | text => (.plain, pieces text)

def joined : Lead × List (List Char) → List Char
  | (.root, ps) => '/' :: ['/'].intercalate ps
  | (.here, []) => ['.']
  | (.here, ps) => '.' :: '/' :: ['/'].intercalate ps
  | (.plain, ps) => ['/'].intercalate ps

/-- Whether a piece names nothing. -/
def isFiller (piece : List Char) : Bool := piece == [] || piece == ['.']

/-- The component a piece stands for, if it is one. -/
def Component.ofPiece? (piece : List Char) : Option Component :=
  if isFiller piece then none
  else if piece = ['.', '.'] then some .up
  else some (.name piece)

def Lead.components : Lead → List Component
  | .root => [.root]
  | .here => [.here]
  | .plain => []

def componentsOf (text : List Char) : List Component :=
  let (lead, ps) := split text
  lead.components ++ ps.filterMap Component.ofPiece?

def components (p : Path) : List Component := componentsOf p.text.toList

def isAbsolute (p : Path) : Bool := p.text.toList.head? == some '/'

def trimEnd (ps : List (List Char)) : List (List Char) :=
  (ps.reverse.dropWhile isFiller).reverse

/-- The last component, if it is a name. -/
def fileName? (p : Path) : Option (List Char) :=
  match p.components.getLast? with
  | some (.name text) => some text
  | _ => none

def parent (p : Path) : Path :=
  let (lead, ps) := split p.text.toList
  ⟨String.ofList (joined (lead, trimEnd (trimEnd ps).dropLast))⟩

/-- The path of `name` inside the directory `dir`; an absolute name replaces it. -/
def join (dir : Path) (name : String) : Path :=
  if (Path.mk name).isAbsolute then ⟨name⟩
  else if dir.text.toList.getLast?.all (· == '/') then ⟨dir.text ++ name⟩
  else ⟨dir.text ++ "/" ++ name⟩

/-- The path with its file name replaced, or with one added if it has none. -/
def withFileName (p : Path) (name : String) : Path :=
  match p.fileName? with
  | some _ => p.parent.join name
  | none => p.join name

/-- What follows the last dot of a name, if something stands before that dot. -/
def extensionOf (name : List Char) : Option (List Char) :=
  let reversed := name.reverse
  match reversed.dropWhile (· != '.') with
  | _ :: _ :: _ => some (reversed.takeWhile (· != '.')).reverse
  | _ => none

def extension? (p : Path) : Option (List Char) := p.fileName?.bind extensionOf

/-- Where an image is drawn before it takes its final name. -/
def scratch (p : Path) : Path :=
  p.withFileName (".partial-" ++ String.ofList (p.fileName?.getD []))

/-- The path as it is shown to the user: a `.` in front is left out together with
the pieces beside it that name nothing. -/
def shown (p : Path) : String :=
  match split p.text.toList with
  | (.here, ps) => String.ofList (joined (.plain, (trimEnd ps).dropWhile isFiller))
  | _ => p.text

end Path

end TimingCharts
