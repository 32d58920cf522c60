import Mathlib.Data.List.Forall2
import TreeQuery.Json.Members
import TreeQuery.Proofs.Json.RoundTrip

/-!
# Reading records

A state file has each member of its record on a line of its own, and so each element of a list; a
log has a record on every line.  Readers skip the white space in front of what they take, so the
line breaks and blanks belong to the text that they open (`Takes`), and the white space before a
closing bracket to the bracket (`Closes`).

Elements are read independently of each other (`elementsOf_intercalate`).  The members of a record
are taken one after the other, each into what the members before it have left: `FillsIn` says which
record comes from which members, and reading follows it (`takeMembers_intercalate`).  `Fills` is
that for members on lines of their own.
-/

namespace TreeQuery.Json

open List TreeQuery.Json.Tree

/-- **The reader takes the value off the front of a text**, whatever stands behind it. -/
def Takes {α : Type} (reader : Reader α) (text : List Char) (a : α) : Prop :=
  ∀ rest, reader (text ++ rest) = some (a, rest)

/-- The text is a closing bracket, white space before it. -/
def Closes (bracket : Char) (text : List Char) : Prop :=
  ∀ rest, skipSpace (text ++ rest) = bracket :: rest

section Readers

variable {α β : Type}

theorem Takes.into {reader : Reader β} {text : List Char} {b : β} (h : Takes reader text b)
    (put : β → α) : Takes (reader.into put) text (put b) := by
  intro rest
  rw [Reader.into, h rest]
  rfl

/-! ## White space -/

def Blank (space : List Char) : Prop := ∀ c ∈ space, isSpace c = true

theorem blank_nil : Blank [] := forall_mem_nil _

variable {cs rest space close : List Char} {a b : α} {element : Reader α} {fuel : Nat} {xs : List α}
  {ms ns members : List (String × String)} {name : String}

theorem skipSpace_append (h : Blank space) (rest : List Char) :
    skipSpace (space ++ rest) = skipSpace rest :=
  dropWhile_append_of_pos h

theorem closes_append (space : List Char) (h : Blank space) {bracket : Char}
    (hbracket : isSpace bracket = false) : Closes bracket (space ++ [bracket]) := by
  intro rest
  rw [append_assoc, skipSpace_append h]
  exact skipSpace_cons hbracket rest

/-- The text goes on with a comma, a closing brace or white space. -/
def Separated (rest : List Char) : Prop :=
  ∃ c more, rest = c :: more ∧ (c = ',' ∨ c = '\x7d' ∨ isSpace c = true)

theorem separated_comma (more : List Char) : Separated (',' :: more) := ⟨',', more, rfl, .inl rfl⟩

theorem separated_of_closes (h : Closes '\x7d' close) (rest : List Char) :
    Separated (close ++ rest) := by
  have hskip := h rest
  generalize close ++ rest = cs at hskip ⊢
  cases cs with
  | nil => cases hskip
  | cons c more =>
    cases hspace : isSpace c with
    | true => exact ⟨c, more, rfl, .inr (.inr hspace)⟩
    | false =>
      rw [skipSpace_cons hspace] at hskip
      exact ⟨c, more, rfl, .inr (.inl (cons.inj hskip).1)⟩

/-- **The reader takes the value off the front of a text** that something else goes on behind: a
number does not end by itself. -/
def TakesEnded (reader : Reader α) (text : List Char) (a : α) : Prop :=
  ∀ rest, Separated rest → reader (text ++ rest) = some (a, rest)

theorem Takes.ended {reader : Reader α} {text : List Char} (h : Takes reader text a) :
    TakesEnded reader text a :=
  fun rest _ => h rest

theorem TakesEnded.into {reader : Reader β} {text : List Char} {b : β}
    (h : TakesEnded reader text b) (put : β → α) : TakesEnded (reader.into put) text (put b) := by
  intro rest hrest
  rw [Reader.into, h rest hrest]
  rfl

/-! ## Strings and lists -/

/-- **A text is read back**, indented or not. -/
theorem takes_text (h : Blank space) (s : String) : Takes text (space ++ (string s).toList) s := by
  intro rest
  have hbody : '"' :: (s.toList.flatMap escaped ++ ['"']) ++ rest =
      '"' :: (s.toList.flatMap escaped ++ '"' :: rest) := by
    simp
  rw [toList_string, append_assoc, hbody, text, skipSpace_append h, skipSpace_cons rfl]
  show (stringBody false (s.toList.flatMap escaped ++ '"' :: rest)).map _ = _
  rw [stringBody_flatMap_escaped, Option.map_some]
  dsimp only
  rw [String.ofList_toList]

theorem elementsOf_last {after : List Char} {x : α} (h : element cs = some (x, after))
    (hafter : skipSpace after = ']' :: rest) :
    elementsOf element (fuel + 1) cs = some ([x], rest) := by
  rw [elementsOf, h]
  simp only [Option.bind_eq_bind, Option.bind_some, hafter, pure]

theorem elementsOf_comma {more : List Char} {x : α} (h : element cs = some (x, ',' :: more))
    (hmore : elementsOf element fuel more = some (xs, rest)) :
    elementsOf element (fuel + 1) cs = some (x :: xs, rest) := by
  have hcomma : skipSpace (',' :: more) = ',' :: more := skipSpace_cons rfl more
  rw [elementsOf, h]
  simp only [Option.bind_eq_bind, Option.bind_some, hcomma, hmore, pure]

/-- **Elements with commas between them** are read one by one. -/
theorem elementsOf_intercalate {texts : List (List Char)}
    (h : List.Forall₂ (Takes element) texts xs) (hne : texts ≠ [])
    (hclose : Closes ']' close) (hfuel : texts.length ≤ fuel) (rest : List Char) :
    elementsOf element fuel ([','].intercalate texts ++ (close ++ rest)) = some (xs, rest) := by
  induction h generalizing fuel with
  | nil => exact absurd rfl hne
  | @cons text x texts xs hx hxs ih =>
    obtain ⟨fuel, rfl⟩ := Nat.exists_eq_add_of_le' (Nat.le_of_add_left_le hfuel)
    cases hxs with
    | nil =>
      rw [intercalate_singleton]
      exact elementsOf_last (hx _) (hclose rest)
    | @cons text' x' texts xs hx' hxs =>
      rw [intercalate_cons_cons, append_assoc, append_assoc, singleton_append]
      exact elementsOf_comma (hx _) (ih (cons_ne_nil _ _) (by simpa using hfuel))

/-- There are commas between texts, so there are at most as many texts as characters, and one. -/
theorem length_le_intercalate (texts : List (List Char)) :
    texts.length ≤ ([','].intercalate texts).length + 1 := by
  induction texts with
  | nil => exact Nat.zero_le _
  | cons text texts ih =>
    cases texts with
    | nil => simp
    | cons text' texts =>
      rw [intercalate_cons_cons]
      simp only [length_append, length_cons, length_nil] at ih ⊢
      omega

/-- Line breaks behind the commas open the next lines. -/
theorem cons_intercalate (space : List Char) (texts : List (List Char)) (hne : texts ≠ []) :
    space ++ (',' :: space).intercalate texts = [','].intercalate (texts.map (space ++ ·)) := by
  induction texts with
  | nil => exact absurd rfl hne
  | cons text texts ih =>
    cases texts with
    | nil => simp
    | cons text' texts =>
      have hrest := ih (cons_ne_nil _ _)
      rw [map_cons] at hrest
      rw [map_cons, map_cons, intercalate_cons_cons, intercalate_cons_cons,
        ← hrest]
      simp

theorem exists_skipSpace_intercalate (h : Blank space) {c : Char} (hc : isSpace c = false)
    (more : List Char) (texts : List (List Char)) (rest : List Char) :
    ∃ cs, skipSpace ([','].intercalate ((space ++ c :: more) :: texts) ++ rest) = c :: cs := by
  cases texts with
  | nil =>
    rw [intercalate_singleton, append_assoc, skipSpace_append h]
    exact ⟨_, skipSpace_cons hc _⟩
  | cons text texts =>
    rw [intercalate_cons_cons, append_assoc, append_assoc, append_assoc,
      skipSpace_append h]
    exact ⟨_, skipSpace_cons hc _⟩

/-- **A list of elements** is read back, if the first of them does not look like its end. -/
theorem takes_listOf (hspace : Blank space) {texts : List (List Char)}
    (h : List.Forall₂ (Takes element) texts xs)
    (hfirst : ∀ rest, ∃ c cs, skipSpace ([','].intercalate texts ++ rest) = c :: cs ∧ c ≠ ']')
    {close : List Char} (hclose : Closes ']' close) (hne : texts ≠ []) :
    Takes (listOf element) (space ++ '[' :: ([','].intercalate texts ++ close)) xs := by
  intro rest
  have hbracket : ∀ cs, skipSpace (space ++ '[' :: cs) = '[' :: cs := by
    intro cs
    rw [skipSpace_append hspace, skipSpace_cons rfl]
  have hfuel : texts.length ≤ ([','].intercalate texts ++ (close ++ rest)).length + 1 := by
    have := length_le_intercalate texts
    rw [length_append]
    omega
  obtain ⟨c, cs, hcs, hc⟩ := hfirst (close ++ rest)
  rw [append_assoc, cons_append, append_assoc]
  simp only [listOf, hbracket, hcs]
  split
  · rename_i after heq
    exact absurd (cons.inj heq).1 hc
  · exact elementsOf_intercalate h hne hclose hfuel rest

/-- **A list of texts, each on a line of its own**, is read back. -/
theorem takes_listOf_text {indent : List Char} (hspace : Blank space) (hindent : Blank indent)
    {ss : List String} (hne : ss ≠ []) (hclose : Closes ']' close) :
    Takes (listOf text) (space ++ '[' ::
      ([','].intercalate (ss.map fun s => indent ++ (string s).toList) ++ close)) ss := by
  refine takes_listOf hspace ?_ (fun rest => ?_) hclose (by simpa using hne)
  · rw [forall₂_map_left_iff]
    exact forall₂_same.mpr fun s _ => takes_text hindent s
  obtain ⟨s, ss, rfl⟩ := exists_cons_of_ne_nil hne
  rw [map_cons, toList_string]
  obtain ⟨cs, hcs⟩ := exists_skipSpace_intercalate hindent (by rfl : isSpace '"' = false)
    (s.toList.flatMap escaped ++ ['"']) (ss.map fun s => indent ++ (string s).toList) rest
  exact ⟨'"', cs, hcs, by decide⟩

/-! ## Members -/

def memberLine (m : String × String) : List Char :=
  ['\n', ' ', ' '] ++ ((string m.1).toList ++ [':']) ++ ' ' :: m.2.toList

/-- The name of a member is read with its letters in lower case. -/
theorem takes_memberKey (h : Blank space) (hlower : name.toList.map Char.toLower = name.toList) :
    Takes memberKey (space ++ ((string name).toList ++ [':'])) name := by
  intro rest
  have hbody : '"' :: (name.toList.flatMap escaped ++ ['"']) ++ [':'] ++ rest =
      '"' :: (name.toList.flatMap escaped ++ '"' :: ':' :: rest) := by
    simp
  have hcolon : skipSpace (':' :: rest) = ':' :: rest := skipSpace_cons rfl rest
  rw [toList_string, append_assoc, hbody, memberKey, skipSpace_append h, skipSpace_cons rfl]
  simp only [stringBody_flatMap_escaped, Option.bind_eq_bind, Option.bind_some, hcolon, hlower,
    String.ofList_toList, pure]

/-- A member of an object, with white space in front of its name and behind the colon. -/
def memberIn (front gap : List Char) (m : String × String) : List Char :=
  front ++ ((string m.1).toList ++ [':']) ++ (gap ++ m.2.toList)

/-- **What the members of an object make of a record**, whatever white space stands behind the
colons: each member is taken by its name into the record that the members before it have left. -/
inductive FillsIn (take : α → String → Reader α) (gap : List Char) :
    α → List (String × String) → α → Prop where
  | nil (a : α) : FillsIn take gap a [] a
  | cons {a b c : α} {name value : String} {members : List (String × String)}
      (hlower : name.toList.map Char.toLower = name.toList)
      (hvalue : TakesEnded (take a name) (gap ++ value.toList) b)
      (h : FillsIn take gap b members c) : FillsIn take gap a ((name, value) :: members) c

/-- **What the members of an object make of a record**: each is taken by its name into the record
that the members before it have left. -/
inductive Fills (take : α → String → Reader α) : α → List (String × String) → α → Prop where
  | nil (a : α) : Fills take a [] a
  | cons {a b c : α} {name value : String} {members : List (String × String)}
      (hlower : name.toList.map Char.toLower = name.toList)
      (hvalue : Takes (take a name) (' ' :: value.toList) b)
      (h : Fills take b members c) : Fills take a ((name, value) :: members) c

variable {take : α → String → Reader α}

theorem FillsIn.append {gap : List Char} {c : α}
    (hms : FillsIn take gap a ms b) (hns : FillsIn take gap b ns c) :
    FillsIn take gap a (ms ++ ns) c := by
  induction hms with
  | nil a => exact hns
  | cons hlower hvalue _ ih => exact .cons hlower hvalue (ih hns)

theorem Fills.append {c : α} (hms : Fills take a ms b)
    (hns : Fills take b ns c) : Fills take a (ms ++ ns) c := by
  induction hms with
  | nil a => exact hns
  | cons hlower hvalue _ ih => exact .cons hlower hvalue (ih hns)

theorem Fills.fillsIn (h : Fills take a ms b) : FillsIn take [' '] a ms b := by
  induction h with
  | nil a => exact .nil a
  | cons hlower hvalue _ ih => exact .cons hlower hvalue.ended ih

theorem takeMembers_last {ds after : List Char}
    (hkey : memberKey cs = some (name, ds)) (htake : take a name ds = some (b, after))
    (hafter : skipSpace after = '}' :: rest) :
    takeMembers take (fuel + 1) a cs = some (b, rest) := by
  rw [takeMembers, hkey]
  simp only [Option.bind_eq_bind, Option.bind_some, htake, hafter, pure]

theorem takeMembers_comma {ds more : List Char}
    (hkey : memberKey cs = some (name, ds)) (htake : take a name ds = some (b, ',' :: more)) :
    takeMembers take (fuel + 1) a cs = takeMembers take fuel b more := by
  have hcomma : skipSpace (',' :: more) = ',' :: more := skipSpace_cons rfl more
  rw [takeMembers, hkey]
  simp only [Option.bind_eq_bind, Option.bind_some, htake, hcomma]

/-- **Members with commas between them** are taken one after the other. -/
theorem takeMembers_intercalate {front gap : List Char} (hfront : Blank front)
    (h : FillsIn take gap a members b) (hne : members ≠ [])
    (hclose : Closes '\x7d' close) (hfuel : members.length ≤ fuel) (rest : List Char) :
    takeMembers take fuel a ([','].intercalate (members.map (memberIn front gap)) ++
      (close ++ rest)) = some (b, rest) := by
  induction h generalizing fuel with
  | nil a => exact absurd rfl hne
  | @cons a b c name value members hlower hvalue hrest ih =>
    obtain ⟨fuel, rfl⟩ := Nat.exists_eq_add_of_le' (Nat.le_of_add_left_le hfuel)
    have hkey := takes_memberKey hfront hlower
    cases hrest with
    | nil =>
      rw [map_singleton, intercalate_singleton, memberIn, append_assoc]
      exact takeMembers_last (hkey _) (hvalue _ (separated_of_closes hclose rest)) (hclose rest)
    | @cons _ b' _ name' value' members hlower' hvalue' hrest =>
      rw [map_cons, map_cons, intercalate_cons_cons, memberIn, append_assoc,
        append_assoc, append_assoc, singleton_append,
        takeMembers_comma (hkey _) (hvalue _ (separated_comma _)), ← map_cons]
      exact ih (cons_ne_nil _ _) (by simpa using hfuel)

/-- **A record is read back from its members**, however they are laid out. -/
theorem readRecord_of_fillsIn {front gap : List Char} (hfront : Blank front)
    (h : FillsIn take gap a members b) (hne : members ≠ [])
    (hclose : Closes '\x7d' close) {written : String} (hwritten : written.toList =
      '\x7b' :: ([','].intercalate (members.map (memberIn front gap)) ++ close)) :
    readRecord take a written = some b := by
  have hfuel : members.length ≤
      ([','].intercalate (members.map (memberIn front gap)) ++ close).length + 1 := by
    have := length_le_intercalate (members.map (memberIn front gap))
    rw [length_map] at this
    rw [length_append]
    omega
  have hmembers := takeMembers_intercalate hfront h hne hclose hfuel []
  rw [append_nil] at hmembers
  have hfirst : ∃ cs, skipSpace ([','].intercalate (members.map (memberIn front gap)) ++ close) =
      '"' :: cs := by
    cases members with
    | nil => exact absurd rfl hne
    | cons m members =>
      have hmember : memberIn front gap m = front ++ '"' ::
          (m.1.toList.flatMap escaped ++ ['"'] ++ [':'] ++ (gap ++ m.2.toList)) := by
        simp [memberIn, toList_string]
      rw [map_cons, hmember]
      exact exists_skipSpace_intercalate hfront rfl _ _ _
  have hrecord : recordOf take a written.toList = some (b, []) := by
    obtain ⟨cs, hfirst⟩ := hfirst
    have hbrace : ∀ cs, skipSpace ('\x7b' :: cs) = '\x7b' :: cs := skipSpace_cons rfl
    rw [hwritten]
    simp only [recordOf, hbrace, hfirst]
    exact hmembers
  rw [readRecord, hrecord]
  rfl

theorem blank_line : Blank ['\n', ' ', ' '] := by
  simp [Blank, isSpace]

/-- **A record whose members stand on lines of their own** is read back from its members. -/
theorem readRecord_of_fills (h : Fills take a members b)
    (hne : members ≠ []) (hclose : Closes '}' close) {written : String}
    (hwritten : written.toList = '{' :: ([','].intercalate (members.map memberLine) ++ close)) :
    readRecord take a written = some b :=
  readRecord_of_fillsIn blank_line h.fillsIn hne hclose hwritten

/-- **A record on one line** is read back from its members. -/
theorem readRecord_object (h : FillsIn take [] a members b)
    (hne : members ≠ []) : readRecord take a (object members) = some b := by
  have hmember : memberText = memberIn [] [] := by
    funext m
    simp [memberText, memberIn]
  refine readRecord_of_fillsIn blank_nil h hne (closes_append [] blank_nil rfl) ?_
  rw [toList_object, hmember, nil_append]

end Readers

end TreeQuery.Json
