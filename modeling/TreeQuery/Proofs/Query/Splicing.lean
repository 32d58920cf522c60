import TreeQuery.Proofs.Query.Marks

/-!
# Splicing is interleaving

A clause takes its values one after the other: each leaves its question marks in the text, and moves
the positions of all later ones (`insertValues`).  The text that comes of it can be said without
that: it is the clause as it was, cut at the positions of its values, with the question marks of
each value between the pieces (`interleaved`).

While values are inserted, the text is what has been done so far and a rest of the clause that is
still as it was, and the shift is by how much the part done is longer than it was
(`insertValues_interleaved`).  So a position that lies in the clause lies in the text at every
moment: the same insertion with every cut guarded never fails (`insertGuarded_eq`).
-/

namespace TreeQuery

open List

namespace Text

/-! ## Cutting -/

theorem cutAt_fst_append_snd (n : Nat) (cs : List Char) :
    (cutAt n cs).1 ++ (cutAt n cs).2 = cs := by
  induction cs generalizing n with
  | nil => rfl
  | cons c cs ih =>
    rw [cutAt]
    split
    · simp [ih]
    · rfl

theorem bytes_cutAt_le (n : Nat) (cs : List Char) : bytes (cutAt n cs).1 ≤ n := by
  induction cs generalizing n with
  | nil => exact Nat.zero_le n
  | cons c cs ih =>
    rw [cutAt]
    split
    · have := ih (n - c.utf8Size)
      simp only [bytes]
      omega
    · exact Nat.zero_le n

/-- A cut behind the first of two texts cuts the second. -/
theorem cutAt_append_of_le {a : List Char} {n : Nat} (h : bytes a ≤ n) (b : List Char) :
    cutAt n (a ++ b) = (a ++ (cutAt (n - bytes a) b).1, (cutAt (n - bytes a) b).2) := by
  induction a generalizing n with
  | nil => rfl
  | cons c a ih =>
    simp only [bytes] at h
    rw [cons_append, cutAt, if_pos (by omega), ih (by omega), bytes, Nat.sub_sub]
    rfl

/-- The text between two byte positions. -/
def slice (p q : Nat) (cs : List Char) : List Char :=
  (cutAt p (cutAt q cs).1).2

/-- Of two cuts, the first is not affected by the second. -/
theorem cutAt_cutAt {p q : Nat} (h : p ≤ q) (cs : List Char) :
    (cutAt p (cutAt q cs).1).1 = (cutAt p cs).1 := by
  induction cs generalizing p q with
  | nil => rfl
  | cons c cs ih =>
    by_cases hp : c.utf8Size ≤ p
    · have hq : c.utf8Size ≤ q := by omega
      simp [cutAt, hp, hq, ih (Nat.sub_le_sub_right h c.utf8Size)]
    · by_cases hq : c.utf8Size ≤ q <;> simp [cutAt, hp, hq]

theorem fst_append_slice {p q : Nat} (h : p ≤ q) (cs : List Char) :
    (cutAt p cs).1 ++ slice p q cs = (cutAt q cs).1 := by
  rw [← cutAt_cutAt h, slice, cutAt_fst_append_snd]

/-- Behind a first cut a second one falls at what is left of its position. -/
theorem cutAt_snd {p q : Nat} (h : p ≤ q) (cs : List Char) :
    cutAt (q - bytes (cutAt p cs).1) (cutAt p cs).2 = (slice p q cs, (cutAt q cs).2) := by
  have hle : bytes (cutAt p cs).1 ≤ q := Nat.le_trans (bytes_cutAt_le p cs) h
  have hcut := cutAt_append_of_le hle (cutAt p cs).2
  rw [cutAt_fst_append_snd] at hcut
  have hslice := fst_append_slice h cs
  rw [hcut] at hslice ⊢
  rw [append_cancel_left hslice]

end Text

namespace Query

/-! ## The text between the values -/

/-- **The question marks of a value**: one for a single value, for a sequence one for each element,
with commas between them. -/
def Interpolation.signs (i : Interpolation) : List Char :=
  match i.value.elements? with
  | some elements => [','].intercalate (List.replicate elements.length ['?'])
  | none => ['?']

/-- **The clause cut at the positions of values**, with their question marks between the pieces;
`start` is where the clause starts, and the first piece starts at the byte `p` of the clause. -/
def interleaved (start : Nat) (clause : List Char) (p : Nat) : List Interpolation → List Char
  | [] => (Text.cutAt p clause).2
  | i :: values =>
    Text.slice p (i.offset - start) clause ++ i.signs ++
      interleaved start clause (i.offset - start) values

theorem marks_eq_intercalate (n : Nat) :
    Sql.Placeholder.marks n = [','].intercalate (List.replicate n ['?']) := by
  induction n with
  | zero => rfl
  | succ n ih =>
    cases n with
    | zero => rfl
    | succ n =>
      show '?' :: ',' :: Sql.Placeholder.marks (n + 1) =
        [','].intercalate (['?'] :: ['?'] :: List.replicate n ['?'])
      rw [ih, intercalate_cons_cons]
      rfl

theorem Interpolation.marks_eq_signs (i : Interpolation) : i.marks = i.signs := by
  unfold Interpolation.marks Interpolation.signs
  cases i.value.elements? with
  | none => rfl
  | some elements => exact marks_eq_intercalate elements.length

/-! ## Inserting the values -/

/-- The values that stand in a clause that ends at `stop`. -/
def taken (stop : Nat) (queue : List Interpolation) : List Interpolation :=
  queue.filter fun i => i.offset ≤ stop

/-- The values that stand behind it. -/
def left (stop : Nat) (queue : List Interpolation) : List Interpolation :=
  queue.filter fun i => stop < i.offset

/-- The insertion of values with every cut guarded: it fails when a position is not in the text at
that moment. -/
def insertGuarded (start stop shift : Nat) (text : List Char) :
    List Interpolation → Option (Except ParseError Spliced)
  | [] => some (.ok ⟨text, [], []⟩)
  | i :: queue =>
    if stop < i.offset then some (.ok ⟨text, [], i :: queue⟩)
    else if i.offset < start then some (.error ⟨i.offset, .misplacedValue⟩)
    else if Text.bytes text < i.offset - start + shift then none
    else
      let (front, back) := Text.cutAt (i.offset - start + shift) text
      match insertGuarded start stop (shift + Text.bytes i.marks) (front ++ i.marks ++ back)
        queue with
      | none => none
      | some (.error e) => some (.error e)
      | some (.ok s) => some (.ok { s with bindings := i.bound ++ s.bindings })

/-- In a queue in order, nothing is taken once a value stands behind the clause. -/
theorem taken_of_lt {stop : Nat} {i : Interpolation} {queue : List Interpolation}
    (hsorted : (i :: queue).Pairwise fun i j => i.offset ≤ j.offset) (hi : stop < i.offset) :
    taken stop (i :: queue) = [] ∧ left stop (i :: queue) = i :: queue := by
  have hbehind : ∀ j ∈ i :: queue, stop < j.offset := by
    intro j hj
    rcases mem_cons.mp hj with rfl | hj
    · exact hi
    · exact Nat.lt_of_lt_of_le hi ((pairwise_cons.mp hsorted).1 j hj)
  constructor
  · refine filter_eq_nil_iff.mpr fun j hj => ?_
    have := hbehind j hj
    simpa using this
  · exact filter_eq_self.mpr fun j hj => by simpa using hbehind j hj

/-- **What is done so far and the rest of the clause**: `done` is the clause up to its byte `p` with
the question marks inserted there, which make it longer by `shift`. -/
theorem insertValues_interleaved (shift p : Nat) (clause done : List Char) {start stop : Nat}
    {queue : List Interpolation} (hsorted : queue.Pairwise fun i j => i.offset ≤ j.offset)
    (hahead : ∀ i ∈ queue, i.offset ≤ stop → start + p ≤ i.offset)
    (hdone : Text.bytes done = Text.bytes (Text.cutAt p clause).1 + shift) :
    insertValues start stop shift (done ++ (Text.cutAt p clause).2) queue =
      .ok ⟨done ++ interleaved start clause p (taken stop queue),
        (taken stop queue).flatMap Interpolation.bound, left stop queue⟩ := by
  induction queue generalizing shift p done with
  | nil => rfl
  | cons i queue ih =>
    by_cases hi : stop < i.offset
    · obtain ⟨htaken, hleft⟩ := taken_of_lt hsorted hi
      rw [insertValues, if_pos hi, htaken, hleft]
      rfl
    obtain ⟨hnext, hsorted⟩ := pairwise_cons.mp hsorted
    obtain ⟨hfirst, hahead⟩ := forall_mem_cons.mp hahead
    have hp : start + p ≤ i.offset := hfirst (by omega)
    have hpq : p ≤ i.offset - start := by omega
    -- the cut falls into the rest of the clause
    have hcut : Text.cutAt (i.offset - start + shift) (done ++ (Text.cutAt p clause).2) =
        (done ++ Text.slice p (i.offset - start) clause,
          (Text.cutAt (i.offset - start) clause).2) := by
      have hle := Text.bytes_cutAt_le p clause
      rw [Text.cutAt_append_of_le (by omega), hdone, Nat.add_sub_add_right, Text.cutAt_snd hpq]
    have hlonger : Text.bytes (done ++ Text.slice p (i.offset - start) clause ++ i.marks) =
        Text.bytes (Text.cutAt (i.offset - start) clause).1 + (shift + Text.bytes i.marks) := by
      rw [← Text.fst_append_slice hpq, Text.bytes_append, Text.bytes_append, Text.bytes_append,
        hdone]
      omega
    have hrest := ih _ _ _ hsorted (fun j hj hstop => by have := hnext j hj; omega) hlonger
    have htaken : taken stop (i :: queue) = i :: taken stop queue :=
      filter_cons_of_pos (by simpa using hi)
    have hleft : left stop (i :: queue) = left stop queue :=
      filter_cons_of_neg (by simpa using hi)
    rw [insertValues, if_neg hi, if_neg (by omega), hcut]
    dsimp only
    rw [hrest, htaken, hleft, interleaved, i.marks_eq_signs, flatMap_cons]
    simp only [append_assoc]

/-- **No cut falls outside of the text**: it is as long as the clause was, and the shift. -/
theorem insertGuarded_eq {start length shift : Nat} {text : List Char}
    (htext : Text.bytes text = length + shift) (queue : List Interpolation) :
    insertGuarded start (start + length) shift text queue =
      some (insertValues start (start + length) shift text queue) := by
  induction queue generalizing shift text with
  | nil => rfl
  | cons i queue ih =>
    rw [insertGuarded, insertValues]
    by_cases hstop : start + length < i.offset
    · rw [if_pos hstop, if_pos hstop]
    rw [if_neg hstop, if_neg hstop]
    by_cases hstart : i.offset < start
    · rw [if_pos hstart, if_pos hstart]
    have hlonger : Text.bytes ((Text.cutAt (i.offset - start + shift) text).1 ++ i.marks ++
        (Text.cutAt (i.offset - start + shift) text).2) =
          length + (shift + Text.bytes i.marks) := by
      have hwhole := congrArg Text.bytes
        (Text.cutAt_fst_append_snd (i.offset - start + shift) text)
      rw [Text.bytes_append, htext] at hwhole
      rw [Text.bytes_append, Text.bytes_append]
      omega
    rw [if_neg hstart, if_neg hstart, if_neg (by omega)]
    dsimp only
    rw [ih hlonger]
    cases insertValues start (start + length) (shift + Text.bytes i.marks) _ queue <;> rfl

/-- **Splicing is interleaving.**  A clause takes exactly the values of the queue that do not stand
behind it; its text becomes the clause cut at their positions, with their question marks between the
pieces, and trimmed.  On the way every position is one of the text at that moment. -/
theorem splice_eq_interleaved {clause : List Char} {start : Nat} {queue : List Interpolation}
    (hsorted : queue.Pairwise fun i j => i.offset ≤ j.offset)
    (hfrom : ∀ i ∈ queue, i.offset ≤ start + Text.bytes clause → start ≤ i.offset) :
    let stop := start + Text.bytes clause
    splice clause start queue =
        .ok ⟨Text.trim (interleaved start clause 0 (taken stop queue)),
          (taken stop queue).flatMap Interpolation.bound, left stop queue⟩ ∧
      insertGuarded start stop 0 clause queue = some (insertValues start stop 0 clause queue) := by
  intro stop
  refine ⟨?_, insertGuarded_eq rfl queue⟩
  have hwhole : Text.cutAt 0 clause = ([], clause) := Text.cutAt_append [] clause
  have hinsert := insertValues_interleaved 0 0 clause [] hsorted hfrom (by rw [hwhole]; rfl)
  rw [hwhole, List.nil_append, List.nil_append] at hinsert
  rw [splice, hinsert]

/-- Values at both ends of a clause that occupies the bytes from 5 to 15, two sequences at one place
inside of it, and a value behind it. -/
def edgeQueue : List Interpolation :=
  [⟨.int 1, 5⟩, ⟨.list [], 12⟩, ⟨.list [.text "a", .null], 12⟩, ⟨.bool true, 15⟩, ⟨.int 2, 16⟩]

theorem splice_edgeQueue :
    edgeQueue.Pairwise (fun i j => i.offset ≤ j.offset) ∧
      (∀ i ∈ edgeQueue, i.offset ≤ 5 + Text.bytes "é IN () =".toList → 5 ≤ i.offset) ∧
      splice "é IN () =".toList 5 edgeQueue =
        .ok ⟨"?é IN (?,?) =?".toList, [.int 1, .text "a", .null, .bool true], [⟨.int 2, 16⟩]⟩ ∧
      insertGuarded 5 15 0 "é IN () =".toList edgeQueue =
        some (insertValues 5 15 0 "é IN () =".toList edgeQueue) := by
  have hsorted : edgeQueue.Pairwise fun i j => i.offset ≤ j.offset := by decide
  have hfrom : ∀ i ∈ edgeQueue, i.offset ≤ 5 + Text.bytes "é IN () =".toList → 5 ≤ i.offset := by
    decide
  exact ⟨hsorted, hfrom, splice_eq_interleaved hsorted hfrom⟩

end Query

end TreeQuery
