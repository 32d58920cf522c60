import TreeQuery.Text.Search

/-!
# Placeholders

Bound values are written as question marks in a statement.  `numbered` turns them into `$1`, `$2`
and so on for the databases that count their placeholders.  A question mark inside a quoted text, a
quoted name or a comment is no placeholder and stays.
-/

namespace TreeQuery.Sql.Placeholder

def marks : Nat → List Char
  | 0 => []
  | 1 => ['?']
  | n + 2 => '?' :: ',' :: marks (n + 1)

def isQuote (c : Char) : Bool :=
  c == '\'' || c == '"' || c == '\x60'

/-- The rest of a quoted run whose opening quote has been read, up to and with its closing quote,
and the text after it.  A doubled quote stays inside the run; a run that is never closed lasts to
the end. -/
def skipQuoted (quote : Char) : List Char → List Char × List Char
  | [] => ([], [])
  | [c] => ([c], [])
  | c :: d :: rest =>
    if c = quote then
      if d = quote then
        let (run, after) := skipQuoted quote rest
        (c :: d :: run, after)
      else ([c], d :: rest)
    else
      let (run, after) := skipQuoted quote (d :: rest)
      (c :: run, after)

/-- The rest of a comment that lasts to the end of the line, and the text from the newline on. -/
def skipLine (cs : List Char) : List Char × List Char :=
  (cs.takeWhile (· != '\n'), cs.dropWhile (· != '\n'))

/-- The rest of a bracketed comment up to and with its closing mark, and the text after it. -/
def skipComment : List Char → List Char × List Char
  | '*' :: '/' :: rest => (['*', '/'], rest)
  | c :: rest =>
    let (run, after) := skipComment rest
    (c :: run, after)
  | [] => ([], [])

theorem skipQuoted_length (quote : Char) (cs : List Char) :
    (skipQuoted quote cs).2.length ≤ cs.length := by
  fun_induction skipQuoted quote cs <;> grind

theorem skipLine_length (cs : List Char) : (skipLine cs).2.length ≤ cs.length := by
  simp only [skipLine]
  exact (List.dropWhile_suffix _).length_le

theorem skipComment_length (cs : List Char) : (skipComment cs).2.length ≤ cs.length := by
  fun_induction skipComment cs <;> grind

def digits (n : Nat) : List Char := Nat.toDigits 10 n

def numberedFrom (n : Nat) : List Char → List Char
  | [] => []
  | '-' :: '-' :: rest =>
    '-' :: '-' :: ((skipLine rest).1 ++ numberedFrom n (skipLine rest).2)
  | '/' :: '*' :: rest =>
    '/' :: '*' :: ((skipComment rest).1 ++ numberedFrom n (skipComment rest).2)
  | c :: rest =>
    if isQuote c then c :: ((skipQuoted c rest).1 ++ numberedFrom n (skipQuoted c rest).2)
    else if c = '?' then '$' :: (digits n ++ numberedFrom (n + 1) rest)
    else c :: numberedFrom n rest
termination_by cs => cs.length
decreasing_by
  all_goals simp only [List.length_cons]
  · have := skipLine_length rest; omega
  · have := skipComment_length rest; omega
  · have := skipQuoted_length c rest; omega
  · omega
  · omega

/-- **The statement with its placeholders numbered** `$1`, `$2`, …, from left to right. -/
def numbered (s : String) : String :=
  String.ofList (numberedFrom 1 s.toList)

end TreeQuery.Sql.Placeholder
