import TreeQuery.Text.BreakClass

/-!
# What a reader takes for one character

A **cluster** is a longest run of code points that belong together: `splitJoined` takes off a text
what belongs to the character before it.  Its width on a terminal is that of its code points, but a
flag or a syllable block is as wide as its first part, and a pictograph is as wide as its last
variation mark asks for.
-/

namespace TreeQuery.Text

/-- How far a chain of pictographs has come. -/
inductive Chain where
  | none
  | pictograph
  | joined
  deriving DecidableEq, Repr

/-- **What decides whether the next character joins**: the class of the last one, the chain of
pictographs, and whether an odd number of flag halves has been met in a row. -/
structure Joint where
  last : BreakClass
  chain : Chain
  odd : Bool
  deriving DecidableEq, Repr

namespace Joint

def start (b : BreakClass) : Joint :=
  ⟨b, if b = .pictograph then .pictograph else .none, b = .regional⟩

def isEdge (b : BreakClass) : Bool :=
  b = .control || b = .carriageReturn || b = .lineFeed

def joinsSyllable (a b : BreakClass) : Bool :=
  match a, b with
  | .leading, .leading | .leading, .vowel | .leading, .openSyllable => true
  | .leading, .closedSyllable => true
  | .openSyllable, .vowel | .openSyllable, .trailing | .vowel, .vowel | .vowel, .trailing => true
  | .closedSyllable, .trailing | .trailing, .trailing => true
  | _, _ => false

/-- **Whether a character of a class joins.** -/
def joins (j : Joint) (b : BreakClass) : Bool :=
  if j.last = .carriageReturn && b = .lineFeed then true
  else if isEdge j.last || isEdge b then false
  else
    joinsSyllable j.last b || b = .extend || b = .joiner || b = .spacing || j.last = .ahead ||
      (j.chain = .joined && b = .pictograph) || (j.odd && b = .regional)

def next (j : Joint) (b : BreakClass) : Joint :=
  { last := b
    chain :=
      if b = .pictograph then .pictograph
      else if j.chain = .pictograph && b = .extend then .pictograph
      else if j.chain = .pictograph && b = .joiner then .joined
      else .none
    odd := b = .regional && !j.odd }

end Joint

/-- The characters at the front of a text that join, and the text after them. -/
def splitJoined (j : Joint) : List Char → List Char × List Char
  | [] => ([], [])
  | c :: rest =>
    let b := breakClass c
    if j.joins b then
      let (joined, after) := splitJoined (j.next b) rest
      (c :: joined, after)
    else ([], c :: rest)

theorem splitJoined_length (j : Joint) (cs : List Char) :
    (splitJoined j cs).2.length ≤ cs.length := by
  induction cs generalizing j with
  | nil => simp [splitJoined]
  | cons c rest ih =>
    simp only [splitJoined]
    split
    · exact Nat.le_succ_of_le (ih _)
    · exact Nat.le_refl _

/-! ## Width -/

def columns (c : Char) : Nat :=
  match breakClass c with
  | .control | .carriageReturn | .lineFeed | .extend | .joiner => 0
  | .regional => 2
  | .pictograph => if inRuns colourfulRuns c.toNat then 2 else 1
  | _ =>
    if c = '\u2e3a' then 3
    else if c = '\u2e3b' then 4
    else if isWideForm c.toNat then 2
    else 1

def textVariation : Char := '\ufe0e'

def colourVariation : Char := '\ufe0f'

def pictographWidth (width : Nat) (joined : List Char) : Nat :=
  joined.foldl
    (fun w c => if c = textVariation then 1 else if c = colourVariation then 2 else w) width

def clusterWidth : List Char → Nat
  | [] => 0
  | c :: joined =>
    match breakClass c with
    | .pictograph => pictographWidth (columns c) joined
    | .regional | .leading => columns c
    | _ => columns c + (joined.map columns).foldr (· + ·) 0

end TreeQuery.Text
