/-!
# Tokens of a settings text

A settings text is cut into tokens before anything else is decided. Line ends are a line feed,
alone or after a carriage return; quoted texts come with their escapes resolved.
-/

namespace TimingCharts.Toml

inductive Token where
  | blank (text : List Char)
  | newline
  | comment
  | equals
  | period
  | comma
  | colon
  | plus
  | leftBrace
  | rightBrace
  | leftBracket
  | rightBracket
  | bare (text : List Char)
  | text (value : List Char) (multiline : Bool)
  deriving DecidableEq, Repr

def isBlankChar (c : Char) : Bool := c == ' ' || c == '\t'

/-- Letters, digits, `-` and `_`. -/
def isBareChar (c : Char) : Bool := c.isAlphanum || c == '-' || c == '_'

/-- Tabs and everything from the space on. -/
def isCommentChar (c : Char) : Bool := c == '\t' || ' ' ≤ c

/-- What may stand in a quoted text as itself. -/
def isTextChar (c : Char) : Bool := isCommentChar c && c != '\x7f'

def Token.ofChar? : Char → Option Token
  | '\n' => some .newline
  | '=' => some .equals
  | '.' => some .period
  | ',' => some .comma
  | ':' => some .colon
  | '+' => some .plus
  | '\x7b' => some .leftBrace
  | '\x7d' => some .rightBrace
  | '[' => some .leftBracket
  | ']' => some .rightBracket
  | _ => none

def hexValue? (c : Char) : Option Nat :=
  if '0' ≤ c && c ≤ '9' then some (c.toNat - 48)
  else if 'a' ≤ c && c ≤ 'f' then some (c.toNat - 87)
  else if 'A' ≤ c && c ≤ 'F' then some (c.toNat - 55)
  else none

def charOfHex? (digits : List Char) : Option Char := do
  let values ← digits.mapM hexValue?
  let code := values.foldl (fun n d => n * 16 + d) 0
  if code.isValidChar then some (Char.ofNat code) else none

def escapeOf? : Char → Option Char
  | '"' => some '"'
  | '\\' => some '\\'
  | 'b' => some '\x08'
  | 'f' => some '\x0c'
  | 'n' => some '\n'
  | 'r' => some '\r'
  | 't' => some '\t'
  | _ => none

/-- Resolves an escape whose backslash has been read. -/
def unescape : List Char → Option (Char × List Char)
  | 'u' :: a :: b :: c :: d :: rest => (charOfHex? [a, b, c, d]).map (·, rest)
  | 'U' :: a :: b :: c :: d :: e :: f :: g :: h :: rest =>
    (charOfHex? [a, b, c, d, e, f, g, h]).map (·, rest)
  | c :: rest => (escapeOf? c).map (·, rest)
  | [] => none

theorem length_of_unescape {cs rest : List Char} {c : Char} (h : unescape cs = some (c, rest)) :
    rest.length < cs.length := by
  unfold unescape at h
  split at h <;> simp only [Option.map_eq_some_iff, Prod.mk.injEq, reduceCtorEq] at h
  all_goals
    obtain ⟨_, _, _, rfl⟩ := h
    simp only [List.length_cons]
    omega

theorem length_dropWhile_le {α : Type} (p : α → Bool) (l : List α) :
    (l.dropWhile p).length ≤ l.length := (List.dropWhile_sublist p).length_le

/-- The two kinds of quotes; only basic ones have escapes. -/
inductive Quote where
  | basic
  | literal
  deriving DecidableEq, Repr

def Quote.mark : Quote → Char
  | .basic => '"'
  | .literal => '\x27'

/-- A quoted text on one line, after its opening quote. -/
def quotedLine (q : Quote) (cs : List Char) : Option (List Char × List Char) :=
  match cs with
  | [] => none
  | c :: rest =>
    if c = q.mark then some ([], rest)
    else if q = .basic ∧ c = '\\' then
      match _h : unescape rest with
      | some (c, rest) => (quotedLine q rest).map fun (text, rest) => (c :: text, rest)
      | none => none
    else if isTextChar c then
      (quotedLine q rest).map fun (text, rest) => (c :: text, rest)
    else none
termination_by cs.length
decreasing_by
  · have := length_of_unescape _h
    simp only [List.length_cons]
    omega
  · simp

/-- A quoted text over several lines, after its opening quotes. Up to two of the closing quotes
belong to the text, and a backslash at the end of a line skips to the next character. -/
def quotedBlock (q : Quote) (cs : List Char) : Option (List Char × List Char) :=
  match cs with
  | [] => none
  | c :: rest =>
    if c = q.mark then
      let marks := c :: rest.takeWhile (· == q.mark)
      if marks.length < 3 then
        (quotedBlock q (rest.dropWhile (· == q.mark))).map fun (text, rest) => (marks ++ text, rest)
      else some (marks.take 5 |>.drop 3, marks.drop 5 ++ rest.dropWhile (· == q.mark))
    else if q = .basic ∧ c = '\\' then
      if rest.head?.any fun c => isBlankChar c || c == '\n' then
        match _h : rest.dropWhile isBlankChar with
        | '\n' :: next => quotedBlock q (next.dropWhile fun c => isBlankChar c || c == '\n')
        | _ => none
      else match _h : unescape rest with
        | some (c, rest) => (quotedBlock q rest).map fun (text, rest) => (c :: text, rest)
        | none => none
    else if c = '\n' ∨ isTextChar c then
      (quotedBlock q rest).map fun (text, rest) => (c :: text, rest)
    else none
termination_by cs.length
decreasing_by
  · have := length_dropWhile_le (· == q.mark) rest
    simp only [List.length_cons]
    omega
  · have h₁ := length_dropWhile_le isBlankChar rest
    have h₂ := length_dropWhile_le (fun c => isBlankChar c || c == '\n') next
    rw [_h] at h₁
    simp only [List.length_cons] at h₁ ⊢
    omega
  · have := length_of_unescape _h
    simp only [List.length_cons]
    omega
  · simp

/-- A quoted text after its first quote: empty, on one line, or after three quotes over several. -/
def quotedText (q : Quote) (cs : List Char) : Option (Token × List Char) :=
  match cs with
  | a :: b :: rest =>
    if a = q.mark ∧ b = q.mark then
      let body := match rest with
        | '\n' :: rest => rest
        | rest => rest
      (quotedBlock q body).map fun (text, rest) => (.text text true, rest)
    else if a = q.mark then some (.text [] false, b :: rest)
    else (quotedLine q cs).map fun (text, rest) => (.text text false, rest)
  | cs => (quotedLine q cs).map fun (text, rest) => (.text text false, rest)

def nextToken (c : Char) (rest : List Char) : Option (Token × List Char) :=
  match Token.ofChar? c with
  | some token => some (token, rest)
  | none =>
    if isBlankChar c then
      some (.blank (c :: rest.takeWhile isBlankChar), rest.dropWhile isBlankChar)
    else if c = '#' then some (.comment, rest.dropWhile isCommentChar)
    else if isBareChar c then
      some (.bare (c :: rest.takeWhile isBareChar), rest.dropWhile isBareChar)
    else if c = Quote.basic.mark then quotedText .basic rest
    else if c = Quote.literal.mark then quotedText .literal rest
    else none

/-- The tokens of a text, at most `fuel` of them. -/
def scan : Nat → List Char → Option (List Token)
  | _, [] => some []
  | 0, _ => none
  | fuel + 1, c :: rest => do
    let (token, rest) ← nextToken c rest
    return token :: (← scan fuel rest)

/-- The text with every line end a line feed. -/
def foldLineEnds : List Char → List Char
  | '\r' :: '\n' :: rest => '\n' :: foldLineEnds rest
  | c :: rest => c :: foldLineEnds rest
  | [] => []

/-- The tokens of a text; a byte order mark at its front is skipped. Each token takes at least
one character. -/
def tokens (text : List Char) : Option (List Token) :=
  let body := foldLineEnds (match text with
    | '\ufeff' :: rest => rest
    | text => text)
  scan body.length body

end TimingCharts.Toml
