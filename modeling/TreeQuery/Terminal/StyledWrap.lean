import TreeQuery.Terminal.Mark
import TreeQuery.Terminal.Style

/-!
# Breaking styled lines

`styledWrap` breaks the lines of a text that carries its own looks and links: at the end of a line
they are taken back, and at the start of the next one set again, so that every line stands for
itself.  Long words are broken too.

The text is cut into **pieces** first.  Unlike a mark, a piece holds an escape sequence as a whole,
and a sequence that is not well-formed ends where it goes wrong.
-/

namespace TreeQuery.Terminal

inductive Piece where
  | print (c : Char)
  | control (c : Char)
  | sequence (cs : List Char)
  | cluster (cs : List Char)
  deriving DecidableEq, Repr

inductive Inside where
  | start
  | marker
  | parameters
  | intermediate
  | string
  deriving DecidableEq, Repr

inductive Effect where
  | goOn (next : Inside)
  | last
  | before
  deriving DecidableEq, Repr

/-- The effect of a character between parameters and the final letter. -/
def effectIntermediate (device : Bool) (c : Char) : Effect :=
  if ' ' ≤ c ∧ c ≤ '/' then .goOn .intermediate
  else if '@' ≤ c ∧ c ≤ '~' then if device then .goOn .string else .last
  else .before

def effectParameter (device : Bool) (c : Char) : Effect :=
  if c.isDigit ∨ c = ':' ∨ c = ';' then .goOn .parameters else effectIntermediate device c

/-- The effect of a character; `kind` is the one that follows the escape. -/
def effect (inside : Inside) (kind : Char) (c : Char) (rest : List Char) : Effect :=
  let device := kind = 'P'
  match inside with
  | .start =>
    if c = '[' ∨ c = 'P' then .goOn .marker
    else if c = ']' ∨ c = 'X' ∨ c = '^' ∨ c = '_' then .goOn .string
    else if ' ' ≤ c ∧ c ≤ '/' then .goOn .start
    else if '0' ≤ c ∧ c ≤ '~' then .last
    else .before
  | .marker => if '<' ≤ c ∧ c ≤ '?' then .goOn .marker else effectParameter device c
  | .parameters => effectParameter device c
  | .intermediate => effectIntermediate device c
  | .string =>
    if c = '\x07' ∧ kind = ']' then .last
    else if c = '\x18' ∨ c = '\x1a' then .before
    else if c = '\x1b' ∧ rest.head? ≠ some '\\' then .before
    else .goOn .string

def splitSequence (inside : Inside) (kind : Char) : List Char → List Char × List Char
  | [] => ([], [])
  | c :: rest =>
    if inside = .string ∧ c = '\x1b' ∧ rest.head? = some '\\' then (c :: rest.take 1, rest.drop 1)
    else
      match effect inside kind c rest with
      | .goOn next =>
        let (s, after) := splitSequence next (if inside = .start then c else kind) rest
        (c :: s, after)
      | .last => ([c], rest)
      | .before => ([], c :: rest)

theorem splitSequence_length (inside : Inside) (kind : Char) (cs : List Char) :
    (splitSequence inside kind cs).2.length ≤ cs.length := by
  induction cs generalizing inside kind with
  | nil => simp [splitSequence]
  | cons c rest ih =>
    simp only [splitSequence]
    split
    · simp only [List.length_drop, List.length_cons]; omega
    · split
      · exact Nat.le_succ_of_le (ih _ _)
      · exact Nat.le_succ _
      · exact Nat.le_refl _

def pieces (cs : List Char) : List Piece :=
  match cs with
  | [] => []
  | c :: rest =>
    if c = '\x1b' then
      .sequence (c :: (splitSequence .start c rest).1) :: pieces (splitSequence .start c rest).2
    else if c.toNat < 0x80 then
      (if c.toNat < 0x20 ∨ c.toNat = 0x7F then .control c else .print c) :: pieces rest
    else
      .cluster (c :: (Text.splitJoined (.start (Text.breakClass c)) rest).1) ::
        pieces (Text.splitJoined (.start (Text.breakClass c)) rest).2
termination_by cs.length
decreasing_by
  all_goals simp_wf
  · have := splitSequence_length .start c rest
    omega
  · have := Text.splitJoined_length (.start (Text.breakClass c)) rest
    omega

/-! ## Reading sequences -/

/-- The parameters of a control sequence, each with whether a colon follows it. -/
def parametersOf (cs : List Char) : List (Nat × Bool) :=
  go none cs
where
  /-- The parameters from one on that has the given digits so far. -/
  go (n : Option Nat) : List Char → List (Nat × Bool)
    | [] => match n with
      | some n => [(n, false)]
      | none => []
    | c :: rest =>
      if c.isDigit then go (some (n.getD 0 * 10 + (c.toNat - 48))) rest
      else (n.getD 0, c == ':') :: go (if rest.isEmpty then some 0 else none) rest

def rendition? (cs : List Char) : Option (List (Nat × Bool)) :=
  match cs with
  | '\x1b' :: '[' :: rest =>
    let ps := rest.dropLast
    if rest.getLast? == some 'm' && ps.all fun c => c.isDigit || c == ';' || c == ':' then
      some (parametersOf ps)
    else none
  | _ => none

structure Link where
  parameters : List Char := []
  address : List Char := []
  deriving DecidableEq, Repr

def Link.isNone (l : Link) : Bool := l.parameters.isEmpty && l.address.isEmpty

def Link.sequence (l : Link) : List Char :=
  "\x1b]8;".toList ++ l.parameters ++ ';' :: (l.address ++ ['\x07'])

def link? (cs : List Char) : Option Link :=
  match cs with
  | '\x1b' :: ']' :: '8' :: ';' :: rest =>
    let body := rest.takeWhile fun c => c != '\x07' && c != '\x1b'
    let address := (body.dropWhile (· != ';')).drop 1
    if body.count ';' = 1 then some ⟨body.takeWhile (· != ';'), address⟩ else none
  | _ => none

/-! ## Breaking lines -/

/-- **Styled lines in the making**: the looks and links that the text has set, and those of the last
word written. -/
structure StyledWrapping where
  lines : Wrapping := {}
  look : Look := {}
  wordLook : Look := {}
  link : Link := {}
  wordLink : Link := {}
  deriving DecidableEq, Repr

namespace StyledWrapping

def addWord (w : StyledWrapping) : StyledWrapping :=
  if w.lines.word.isEmpty then w
  else { w with lines := w.lines.addWord, wordLook := w.look, wordLink := w.link }

def close (w : StyledWrapping) : List Char :=
  if w.wordLook.isPlain then [] else Look.reset

def closeLink (w : StyledWrapping) : List Char :=
  if w.wordLink.isNone then [] else Link.sequence {}

def newLine (w : StyledWrapping) : StyledWrapping :=
  let reopened :=
    (if w.wordLink.isNone then [] else w.wordLink.sequence) ++
      (if w.wordLook.isPlain then [] else w.wordLook.sequence)
  let lines := (w.lines.put (w.close ++ w.closeLink) 0).newLine
  { w with lines := lines.put reopened 0 }

def finishLine (limit : Nat) (w : StyledWrapping) : StyledWrapping :=
  let l := w.lines
  let l :=
    if l.wordWidth = 0 then
      if limit < l.lineWidth + l.blankWidth then { l with lineWidth := 0, blanks := [] }
      else { l with written := l.written ++ l.blanks, blanks := [] }
    else l
  ({ w with lines := l }).addWord

def addBlank (w : StyledWrapping) (c : Char) : StyledWrapping :=
  let w := w.addWord
  { w with lines := { w.lines with blanks := w.lines.blanks ++ [c] } }

def addToWord (limit : Nat) (w : StyledWrapping) (cs : List Char) (width : Nat) : StyledWrapping :=
  let w := if limit < w.lines.wordWidth + width then w.addWord else w
  let w := { w with lines := w.lines.grow cs width }
  if limit < w.lines.fullWidth then w.newLine else w

/-- Adds a hyphen: it ends a word that fits on the line with it. -/
def addHyphen (limit : Nat) (w : StyledWrapping) (c : Char) : StyledWrapping :=
  let w := { w with lines := w.lines.addBlanks }
  if w.lines.lineWidth + w.lines.wordWidth + 1 ≤ limit then
    let w := w.addWord
    { w with lines := w.lines.put [c] 1 }
  else addToWord limit w [c] 1

/-- Adds an escape sequence to the word, and takes the look or link that it sets. -/
def addSequence (w : StyledWrapping) (cs : List Char) : StyledWrapping :=
  let w := { w with lines := w.lines.grow cs 0 }
  match rendition? cs with
  | some ps => { w with look := w.look.take ps }
  | none =>
    match link? cs with
    | some l => { w with link := l }
    | none => w

def step (limit : Nat) (w : StyledWrapping) : Piece → StyledWrapping
  | .sequence cs => w.addSequence cs
  | .control c =>
    if c = '\t' then w.addBlank c
    else if c = '\n' then (w.finishLine limit).newLine
    else { w with lines := w.lines.grow [c] 0 }
  | .print c =>
    if c = ' ' ∧ w.look.hidesBlanks then w.addBlank c
    else if c = '-' then w.addHyphen limit c
    else w.addToWord limit [c] 1
  | .cluster cs =>
    let n := Text.clusterWidth cs
    if n = 0 then { w with lines := w.lines.grow cs 0 } else w.addToWord limit cs n

end StyledWrapping

/-- **A styled text with its lines broken**, inside a word if the word is longer than a line. -/
def styledWrap (limit : Nat) (cs : List Char) : List Char :=
  if limit = 0 then cs
  else
    let w := ((pieces cs).foldl (StyledWrapping.step limit) {}).finishLine limit
    w.lines.written.toList ++ w.closeLink ++ w.close

end TreeQuery.Terminal
