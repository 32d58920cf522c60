import Mathlib.Data.List.Pairwise
import TreeQuery.Proofs.Query.Marks
import TreeQuery.Proofs.Query.Rendering

/-!
# The lines of a query partition it

Scanning a text loses blanks and nothing else.  The bytes between the start of a line and its stop
are the line's text, lines are apart from each other, and every character that is not blank lies on
one line: two of them lie on the same line just if no newline stands between them
(`partitions_scan`).

A part of the text without a newline is a part of one raw line (`exists_mem_lines`), and trimming
that leaves all its characters that are not blank (`trim_append_cons`).
-/

namespace TreeQuery

open List

namespace Text

section Trim

variable {c : Char} (hc : isBlank c = false) (a b : List Char)
include hc

theorem dropWhile_append_cons :
    (a ++ c :: b).dropWhile isBlank = a.dropWhile isBlank ++ c :: b := by
  induction a with
  | nil => simp [hc]
  | cons d a ih =>
    rw [cons_append, dropWhile_cons, dropWhile_cons, ih]
    split <;> rfl

theorem takeWhile_append_cons : (a ++ c :: b).takeWhile isBlank = a.takeWhile isBlank := by
  induction a with
  | nil => simp [hc]
  | cons d a ih => rw [cons_append, takeWhile_cons, takeWhile_cons, ih]

/-- Trimming stops at a character that is not blank. -/
theorem trim_append_cons : trim (a ++ c :: b) = trimLeft a ++ c :: trimRight b := by
  rw [trim, trimLeft, dropWhile_append_cons hc, trimRight, reverse_append, reverse_cons,
    append_assoc, singleton_append, dropWhile_append_cons hc]
  simp [trimLeft, trimRight]

end Trim

/-- A part of a text without a newline lies on one of its lines. -/
theorem exists_mem_lines {part : List Char} (h : '\n' ∉ part) (front back : List Char) :
    ∃ before a b after, lines (front ++ part ++ back) = before ++ (a ++ part ++ b) :: after ∧
      front = before.flatMap (· ++ ['\n']) ++ a := by
  induction front with
  | nil =>
    obtain ⟨l, ls, hback⟩ := exists_cons_of_ne_nil (lines_ne_nil back)
    exact ⟨[], [], l, ls, lines_append_of_not_mem h hback, rfl⟩
  | cons c front ih =>
    obtain ⟨before, a, b, after, hlines, rfl⟩ := ih
    by_cases hc : c = '\n'
    · refine ⟨[] :: before, a, b, after, ?_, by rw [hc]; rfl⟩
      rw [cons_append, cons_append, lines, if_pos hc, hlines, cons_append]
    · rw [cons_append, cons_append, lines, if_neg hc, hlines]
      cases before with
      | nil => exact ⟨[], c :: a, b, after, rfl, rfl⟩
      | cons first before => exact ⟨(c :: first) :: before, a, b, after, rfl, rfl⟩

theorem size_utf8Encode (cs : List Char) : cs.utf8Encode.size = bytes cs := by
  induction cs with
  | nil => rfl
  | cons c cs ih =>
    rw [utf8Encode_cons, ByteArray.size_append, ih, utf8Encode_singleton, size_toByteArray,
      String.length_utf8EncodeChar, bytes]

end Text

namespace Query.Line

variable {literal : List Char} {l l' : Line}

/-- The character at a position lies on the line, with all its bytes. -/
def Covers (l : Line) (pos : Nat) (c : Char) : Prop :=
  l.start ≤ pos ∧ pos + c.utf8Size ≤ l.stop

/-- The lines of a text **partition** it: the bytes from the start of a line to its stop are its
text, without a newline and without blanks at its ends, and the characters that are not blank are
divided among the lines by the newlines. -/
structure Partitions (lines : List Line) (literal : List Char) : Prop where
  slice : ∀ l ∈ lines, literal.utf8Encode.extract l.start l.stop = l.text.utf8Encode
  standing : ∀ l ∈ lines, Standing l.text
  apart : lines.Pairwise fun l l' => l.stop < l'.start
  unique : ∀ front c back, literal = front ++ c :: back → Text.isBlank c = false →
    ∃! l, l ∈ lines ∧ l.Covers (Text.bytes front) c
  together : ∀ front c between d back, literal = front ++ c :: (between ++ d :: back) →
    Text.isBlank c = false → Text.isBlank d = false →
    ((∃ l ∈ lines, l.Covers (Text.bytes front) c ∧
      l.Covers (Text.bytes (front ++ c :: between)) d) ↔ '\n' ∉ between)

theorem extract_of_mem_scan (hl : l ∈ scan literal) :
    literal.utf8Encode.extract l.start l.stop = l.text.utf8Encode := by
  obtain ⟨front, back, rfl, hstart⟩ := exists_eq_append_of_mem_scan hl
  rw [append_assoc, utf8Encode_append, utf8Encode_append, stop, hstart, ← Text.size_utf8Encode,
    ← Text.size_utf8Encode]
  exact (ByteArray.extract_append_size_add (i := 0)).trans (ByteArray.extract_append_eq_left rfl)

/-- Two lines of a text on which one character lies are the same. -/
theorem eq_of_covers {pos : Nat} {c : Char} (hl : l ∈ scan literal) (hl' : l' ∈ scan literal)
    (h : l.Covers pos c) (h' : l'.Covers pos c) : l = l' := by
  by_contra hne
  let Apart (l l' : Line) : Prop := l.stop < l'.start ∨ l'.stop < l.start
  have hapart : (scan literal).Pairwise Apart := (scan_pairwise literal).imp Or.inl
  have : Std.Symm Apart := ⟨fun _ _ => Or.symm⟩
  obtain ⟨hstart, hstop⟩ := h
  obtain ⟨hstart', hstop'⟩ := h'
  rcases hapart.forall hl hl' hne with hlt | hlt <;> omega

/-- A character of a raw line that is not blank lies on the line that is trimmed from it. -/
theorem covers_of_trim {before a b : List Char} {c : Char} (hc : Text.isBlank c = false)
    (htext : l.text = Text.trim (a ++ c :: b))
    (hstart : l.start = Text.bytes (before ++ (a ++ c :: b).takeWhile Text.isBlank)) :
    l.Covers (Text.bytes (before ++ a)) c := by
  have ha : a = a.takeWhile Text.isBlank ++ Text.trimLeft a := takeWhile_append_dropWhile.symm
  have hbytes := congrArg Text.bytes ha
  rw [Covers, stop, htext, hstart, Text.trim_append_cons hc, Text.takeWhile_append_cons hc]
  simp only [Text.bytes_append, Text.bytes] at hbytes ⊢
  omega

/-- **A character and what follows it up to a newline lie on one line**, except for blanks. -/
theorem exists_covers {front part back : List Char} {c : Char} (hc : Text.isBlank c = false)
    (hpart : '\n' ∉ part) (hliteral : literal = front ++ (c :: part) ++ back) :
    ∃ l ∈ scan literal, l.Covers (Text.bytes front) c ∧
      ∀ x d y, part = x ++ d :: y → Text.isBlank d = false →
        l.Covers (Text.bytes (front ++ c :: x)) d := by
  have hline : '\n' ∉ c :: part := by
    rintro (_ | ⟨_, hmem⟩)
    · cases hc
    · exact hpart hmem
  obtain ⟨before, a, b, after, hlines, rfl⟩ := Text.exists_mem_lines hline front back
  have hraw : a ++ c :: part ++ b = a ++ c :: (part ++ b) := append_assoc _ _ _
  rw [← hliteral, hraw] at hlines
  let l : Line := ⟨Text.trim (a ++ c :: (part ++ b)),
    Text.bytes (before.flatMap (· ++ ['\n']) ++ (a ++ c :: (part ++ b)).takeWhile Text.isBlank)⟩
  have hl : l ∈ scan literal := mem_scanFrom_iff.mpr
    ⟨before, _, after, hlines, by simp [Text.trim_append_cons hc], rfl, (Nat.zero_add _).symm⟩
  refine ⟨l, hl, covers_of_trim hc rfl rfl, ?_⟩
  rintro x d y rfl hd
  have hraw : a ++ c :: (x ++ d :: y ++ b) = a ++ c :: x ++ d :: (y ++ b) := by simp
  rw [append_assoc]
  exact covers_of_trim hd (congrArg Text.trim hraw) (by rw [← hraw])

/-- What stands on a line between two of its characters is a part of the line. -/
theorem newline_not_mem_of_covers {front between back : List Char} {c d : Char}
    (hliteral : literal = front ++ c :: (between ++ d :: back)) (hl : l ∈ scan literal)
    (hc : l.Covers (Text.bytes front) c) (hd : l.Covers (Text.bytes (front ++ c :: between)) d) :
    '\n' ∉ between := by
  obtain ⟨front', back', hsplit, hstart⟩ := exists_eq_append_of_mem_scan hl
  rw [hliteral, append_assoc] at hsplit
  obtain ⟨x, rfl, hrest⟩ := Text.exists_eq_append_of_bytes_le hsplit.symm (hstart ▸ hc.1)
  have hstop := hd.2
  rw [stop, hstart] at hstop
  have hle : Text.bytes (x ++ c :: between) ≤ Text.bytes l.text := by
    simp only [append_assoc, Text.bytes_append] at hstop ⊢
    omega
  have hjoin : x ++ c :: between ++ d :: back = l.text ++ back' := by simpa using hrest.symm
  obtain ⟨z, htext, -⟩ := Text.exists_eq_append_of_bytes_le hjoin hle
  intro hmem
  refine (standing_of_mem_scan hl).newline (htext ▸ ?_)
  simp [hmem]

/-- **The lines of a text partition it.** -/
theorem partitions_scan (literal : List Char) : Partitions (scan literal) literal := by
  refine
    { slice := fun l hl => extract_of_mem_scan hl
      standing := fun l hl => standing_of_mem_scan hl
      apart := scan_pairwise literal
      unique := ?_
      together := ?_ }
  · intro front c back hliteral hc
    obtain ⟨l, hl, hcovers, -⟩ := exists_covers hc not_mem_nil (by simpa using hliteral)
    exact ⟨l, ⟨hl, hcovers⟩, fun l' h => eq_of_covers h.1 hl h.2 hcovers⟩
  · intro front c between d back hliteral hc hd
    constructor
    · rintro ⟨l, hl, hcovers, hcovers'⟩
      exact newline_not_mem_of_covers hliteral hl hcovers hcovers'
    · intro hbetween
      have hpart : '\n' ∉ between ++ [d] := by
        rw [mem_append, mem_singleton]
        rintro (hmem | rfl)
        · exact hbetween hmem
        · cases hd
      obtain ⟨l, hl, hcovers, hothers⟩ := exists_covers hc hpart (by simpa using hliteral)
      exact ⟨l, hl, hcovers, hothers between d [] rfl hd⟩

end Query.Line
end TreeQuery
