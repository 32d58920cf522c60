/-!
# Searching and cutting texts

Texts are lists of characters; positions in them are byte positions of their UTF-8 encoding, so
that the offsets a query error reports can be used in any editor.
-/

namespace TreeQuery.Text

def bytes : List Char → Nat
  | [] => 0
  | c :: rest => c.utf8Size + bytes rest

/-- The text cut at a byte position: the longest front of at most that many bytes, and the rest.  A
position inside a character is rounded down, so that no character is cut in two. -/
def cutAt (n : Nat) : List Char → List Char × List Char
  | [] => ([], [])
  | c :: rest =>
    if c.utf8Size ≤ n then
      let (front, back) := cutAt (n - c.utf8Size) rest
      (c :: front, back)
    else ([], c :: rest)

/-- The pieces of a text between the non-overlapping occurrences of the separator `m :: ms`, found
from the left. -/
def splitOnCons (m : Char) (ms : List Char) : List Char → List (List Char)
  | [] => [[]]
  | c :: rest =>
    if (m :: ms).isPrefixOf (c :: rest) then
      [] :: splitOnCons m ms (rest.drop ms.length)
    else
      match splitOnCons m ms rest with
      | [] => [[c]]
      | piece :: pieces => (c :: piece) :: pieces
termination_by cs => cs.length
decreasing_by
  · simp only [List.length_drop, List.length_cons]; omega
  · simp

/-- The pieces of a text between the occurrences of a separator; an empty separator occurs
nowhere. -/
def splitOn (sep cs : List Char) : List (List Char) :=
  match sep with
  | [] => [cs]
  | m :: ms => splitOnCons m ms cs

def replaceAll (sep replacement cs : List Char) : List Char :=
  replacement.intercalate (splitOn sep cs)

/-- The text before and after the first occurrence of a separator. -/
def findCut (sep : List Char) : List Char → Option (List Char × List Char)
  | [] => if sep.isEmpty then some ([], []) else none
  | c :: rest =>
    if sep.isPrefixOf (c :: rest) then some ([], (c :: rest).drop sep.length)
    else (findCut sep rest).map fun (front, back) => (c :: front, back)

theorem length_findCut_lt {m : Char} {ms cs : List Char} {cut : List Char × List Char}
    (h : findCut (m :: ms) cs = some cut) : cut.2.length < cs.length := by
  induction cs generalizing cut with
  | nil => simp [findCut] at h
  | cons c rest ih =>
    rw [findCut] at h
    split at h
    · cases h
      simp only [List.length_drop, List.length_cons]
      omega
    · obtain ⟨⟨front, back⟩, hcut, rfl⟩ := Option.map_eq_some_iff.mp h
      have hback : back.length < rest.length := ih hcut
      exact Nat.lt_succ_of_lt hback

/-- The number of non-overlapping occurrences of the separator `m :: ms`: the first one, and those
in the text behind it. -/
def occurrencesCons (m : Char) (ms cs : List Char) : Nat :=
  match h : findCut (m :: ms) cs with
  | none => 0
  | some cut => occurrencesCons m ms cut.2 + 1
termination_by cs.length
decreasing_by exact length_findCut_lt h

/-- The number of non-overlapping occurrences of a separator, found from the left; an empty
separator occurs nowhere. -/
def occurrences (sep cs : List Char) : Nat :=
  match sep with
  | [] => 0
  | m :: ms => occurrencesCons m ms cs

def contains (sep cs : List Char) : Bool :=
  (findCut sep cs).isSome

/-- The lines of a text: the pieces between its newlines. -/
def lines : List Char → List (List Char)
  | [] => [[]]
  | c :: rest =>
    if c = '\n' then [] :: lines rest
    else
      match lines rest with
      | [] => [[c]]
      | l :: ls => (c :: l) :: ls

def dropEnd? (ending cs : List Char) : Option (List Char) :=
  if ending.isSuffixOf cs then some (cs.take (cs.length - ending.length)) else none

def dropStart? (beginning cs : List Char) : Option (List Char) :=
  if beginning.isPrefixOf cs then some (cs.drop beginning.length) else none

/-- Equality of ASCII letters regardless of case, of all other characters exactly. -/
def sameLetters (a b : List Char) : Bool :=
  a.map Char.toLower == b.map Char.toLower

def pieces (sep s : String) : List String :=
  (splitOn sep.toList s.toList).map String.ofList

def replaced (sep replacement s : String) : String :=
  String.ofList (replaceAll sep.toList replacement.toList s.toList)

end TreeQuery.Text
