/-!
# Similar words

How alike two words are, and the word to suggest in place of a misspelt one. Two letters match
if they are equal and not too far apart; matches out of order count against the words, and a
common beginning counts for them.
-/

namespace TimingCharts.Similarity

/-- The first free position of `c` in a word between two positions. Positions taken earlier
hold no letter. -/
def findFree (c : Char) (first last : Nat) : Nat → List (Option Char) → Option Nat
  | _, [] => none
  | i, letter :: rest =>
    if first ≤ i ∧ i ≤ last ∧ letter = some c then some i else findFree c first last (i + 1) rest

/-- Matches found so far. -/
structure Matching where
  free : List (Option Char)
  found : Nat := 0
  outOfOrder : Nat := 0
  /-- The position of the latest match. -/
  latest : Nat := 0

/-- Matches the letter at position `i`, no further than `reach` away. -/
def Matching.add (reach : Nat) (m : Matching) (i : Nat) (c : Char) : Matching :=
  match findFree c (i - reach) (i + reach) 0 m.free with
  | none => m
  | some j =>
    { free := m.free.set j none
      found := m.found + 1
      outOfOrder := if j < m.latest then m.outOfOrder + 1 else m.outOfOrder
      latest := j }

/-- The share of letters that match, between zero and one. -/
def overlap (a b : List Char) : Float :=
  if a = b then 1
  else if a.length = 0 ∨ b.length = 0 ∨ (a.length = 1 ∧ b.length = 1) then 0
  else
    let reach := max a.length b.length / 2 - 1
    let m : Matching :=
      a.zipIdx.foldl (fun m (c, i) => Matching.add reach m i c) { free := b.map some }
    if m.found = 0 then 0
    else
      let found := Float.ofNat m.found
      (1.0 / 3.0) * (found / Float.ofNat a.length + found / Float.ofNat b.length +
        (found - Float.ofNat m.outOfOrder) / found)

/-- The overlap, raised by a tenth of what it lacks for each letter at the front in common. -/
def score (a b : List Char) : Float :=
  let common := ((List.zip a b).takeWhile fun (x, y) => x == y).length
  let base := overlap a b
  let raised := base + 0.1 * Float.ofNat common * (1.0 - base)
  if raised ≤ 1 then raised else 1

/-- The first of the most similar words, if it is similar enough. -/
def suggest (word : String) (candidates : List String) : Option String :=
  let best := candidates.foldl (fun (best : Option (Float × String)) candidate =>
    let s := score word.toList candidate.toList
    match best with
    | some (t, _) => if s > 0.8 && t < s then some (s, candidate) else best
    | none => if s > 0.8 then some (s, candidate) else none) none
  best.map Prod.snd

end TimingCharts.Similarity
