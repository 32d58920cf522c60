import TreeQuery.Proofs.Sql.Placeholder

/-!
# Numbering as a finite automaton

Numbering a statement skips quoted runs and comments by searching for their ends.  Here the same is
said of single bytes: an automaton reads the statement byte by byte and knows at each of them the
`Region` that it stands in.  `relabelled` writes the numbers in place of the question marks that the
automaton meets in its normal state, and leaves every other byte as it is.

Both give the same bytes (`relabelled_utf8`).  Each search of `numberedFrom` is followed through the
region that it skips: `relabelled_quoted`, `relabelled_line`, `relabelled_block`.  A hyphen, a
slash, a star and the quote at the end of a run only mean something together with the byte after
them, so the automaton keeps them in mind; where the next byte does not fit, they have been ordinary
bytes (`relabelled_of_head_ne`).

The numbers that are written lead through the same regions as the question mark did, and no question
mark is left in the normal state, so numbering twice is numbering once (`relabelled_relabelled`).
-/

namespace TreeQuery.Sql.Placeholder

open List

/-! ## The automaton -/

/-- The byte of an ASCII character. -/
def byte (c : Char) : UInt8 := UInt8.ofNat c.toNat

inductive Quote where
  | single
  | double
  | grave
  deriving DecidableEq, Repr

def Quote.char : Quote → Char
  | single => '\''
  | double => '"'
  | grave => '\x60'

/-- **Where the bytes read so far have led to**: the states of the automaton. -/
inductive Region where
  | plain
  /-- After a hyphen, with which a second one opens a comment. -/
  | hyphen
  /-- After a slash, with which a star opens a comment. -/
  | slash
  | quoted (quote : Quote)
  /-- After the quote of a run: the run is over, unless the quote is doubled. -/
  | closing (quote : Quote)
  /-- In a comment that lasts to the end of the line. -/
  | line
  /-- In a comment between brackets. -/
  | block
  /-- In such a comment after a star, with which a slash ends it. -/
  | star
  deriving DecidableEq, Repr

namespace Region

/-- Whether the automaton is in its normal state: outside of quoted runs and comments. -/
def isNormal : Region → Bool
  | plain | hyphen | slash | closing _ => true
  | quoted _ | line | block | star => false

/-- The region that a byte opens in the normal state. -/
def opened (b : UInt8) : Region :=
  if b = byte '\'' then quoted .single
  else if b = byte '"' then quoted .double
  else if b = byte '\x60' then quoted .grave
  else if b = byte '-' then hyphen
  else if b = byte '/' then slash
  else plain

/-- **One step of the automaton.** -/
def next : Region → UInt8 → Region
  | plain, b => opened b
  | hyphen, b => if b = byte '-' then line else opened b
  | slash, b => if b = byte '*' then block else opened b
  | quoted q, b => if b = byte q.char then closing q else quoted q
  | closing q, b => if b = byte q.char then quoted q else opened b
  | line, b => if b = byte '\n' then plain else line
  | block, b => if b = byte '*' then star else block
  | star, b => if b = byte '/' then plain else if b = byte '*' then star else block

end Region

/-- **The bytes with their placeholders numbered** from `n` on: the question marks that the
automaton meets in its normal state, when it starts in a region. -/
def relabelled : Region → Nat → List UInt8 → List UInt8
  | _, _, [] => []
  | r, n, b :: bs =>
    if r.isNormal ∧ b = byte '?' then
      byte '$' :: ((digits n).map byte ++ relabelled (r.next b) (n + 1) bs)
    else b :: relabelled (r.next b) n bs

example : relabelled .plain 1 ("?'?''?'?--?\n/*/?*/?\"".toList.map byte) =
    "$1'?''?'$2--?\n/*/?*/$3\"".toList.map byte := by decide

/-! ## The bytes of a text -/

/-- The bytes of a text. -/
def utf8 (cs : List Char) : List UInt8 := cs.flatMap String.utf8EncodeChar

theorem utf8_cons (c : Char) (cs : List Char) :
    utf8 (c :: cs) = String.utf8EncodeChar c ++ utf8 cs :=
  flatMap_cons

theorem utf8_append (cs ds : List Char) : utf8 (cs ++ ds) = utf8 cs ++ utf8 ds :=
  flatMap_append

theorem toList_toByteArray (s : String) : s.toByteArray.data.toList = utf8 s.toList := by
  rw [← String.utf8Encode_toList, List.utf8Encode, data_toByteArray]
  rfl

variable {c : Char} {b : UInt8}

theorem utf8EncodeChar_ascii (h : c.toNat < 128) :
    String.utf8EncodeChar c = [byte c] := by
  have hle : c.val.toNat ≤ 0x7f := by
    have : c.val.toNat = c.toNat := rfl
    omega
  simp only [String.utf8EncodeChar, if_pos hle]
  rfl

theorem utf8_cons_ascii (h : c.toNat < 128) (cs : List Char) :
    utf8 (c :: cs) = byte c :: utf8 cs := by
  rw [utf8_cons, utf8EncodeChar_ascii h, singleton_append]

/-- The bytes of a character that is not ASCII are no ASCII characters. -/
theorem le_toNat_of_mem_utf8EncodeChar (h : ¬ c.toNat < 128)
    (hb : b ∈ String.utf8EncodeChar c) : 128 ≤ b.toNat := by
  have hval : c.val.toNat = c.toNat := rfl
  simp only [String.utf8EncodeChar] at hb
  split at hb
  · omega
  split at hb
  · simp only [mem_cons, not_mem_nil, or_false] at hb
    rcases hb with rfl | rfl <;> simp only [UInt8.toNat_ofNat'] <;> omega
  split at hb
  · simp only [mem_cons, not_mem_nil, or_false] at hb
    rcases hb with rfl | rfl | rfl <;> simp only [UInt8.toNat_ofNat'] <;> omega
  · simp only [mem_cons, not_mem_nil, or_false] at hb
    rcases hb with rfl | rfl | rfl | rfl <;> simp only [UInt8.toNat_ofNat'] <;> omega

theorem byte_inj {d : Char} (hc : c.toNat < 128) (hd : d.toNat < 128) (h : byte c = byte d) :
    c = d := by
  have hnat := congrArg UInt8.toNat h
  simp only [byte, UInt8.toNat_ofNat'] at hnat
  have heq : c.toNat = d.toNat := by omega
  rw [← Char.ofNat_toNat c, heq, Char.ofNat_toNat]

/-- An ASCII character has a byte that occurs in no other character. -/
theorem ne_byte_of_mem {t : Char} (ht : t.toNat < 128) (hct : c ≠ t)
    (hb : b ∈ String.utf8EncodeChar c) : b ≠ byte t := by
  rintro rfl
  by_cases hc : c.toNat < 128
  · rw [utf8EncodeChar_ascii hc, mem_singleton] at hb
    exact hct (byte_inj ht hc hb).symm
  · have hle := le_toNat_of_mem_utf8EncodeChar hc hb
    simp only [byte, UInt8.toNat_ofNat'] at hle
    omega

/-! ## Regions that are passed through -/

section Passing

variable {r : Region} {n : Nat}

/-- A character that the region does not end with is passed over. -/
theorem relabelled_pass
    (h : ∀ b ∈ String.utf8EncodeChar c, r.next b = r ∧ (r.isNormal → b ≠ byte '?'))
    (cs : List Char) :
    relabelled r n (utf8 (c :: cs)) = String.utf8EncodeChar c ++ relabelled r n (utf8 cs) := by
  rw [utf8_cons]
  generalize String.utf8EncodeChar c = bs at h
  induction bs with
  | nil => rfl
  | cons b bs ih =>
    obtain ⟨⟨hnext, hmark⟩, hbs⟩ := forall_mem_cons.mp h
    rw [cons_append, relabelled, if_neg fun hb => hmark hb.1 hb.2, hnext, ih hbs,
      cons_append]

/-- A byte that would have meant something together with the next one was an ordinary byte, if the
next one is another. -/
theorem relabelled_of_head_ne (r r₀ : Region) (t : Char) (ht : t.toNat < 128)
    (hnormal : r.isNormal = r₀.isNormal) (hnext : ∀ b, b ≠ byte t → r.next b = r₀.next b)
    {cs : List Char} (hcs : cs.head? ≠ some t) :
    relabelled r n (utf8 cs) = relabelled r₀ n (utf8 cs) := by
  cases cs with
  | nil => rfl
  | cons c cs =>
    obtain ⟨b, bs, hbs⟩ := exists_cons_of_ne_nil (String.utf8EncodeChar_ne_nil (c := c))
    have hct : c ≠ t := by simpa using hcs
    have hb : b ≠ byte t := ne_byte_of_mem ht hct (by rw [hbs]; exact mem_cons_self)
    rw [utf8_cons, hbs, cons_append, relabelled, relabelled, hnormal, hnext b hb]

theorem relabelled_cons_inside (h : r.isNormal = false) (b : UInt8) (bs : List UInt8) :
    relabelled r n (b :: bs) = b :: relabelled (r.next b) n bs := by
  rw [relabelled, if_neg fun hb => Bool.false_ne_true (h.symm.trans hb.1)]

theorem relabelled_pass_inside (h : r.isNormal = false)
    (hc : ∀ b ∈ String.utf8EncodeChar c, r.next b = r) (cs : List Char) :
    relabelled r n (utf8 (c :: cs)) = String.utf8EncodeChar c ++ relabelled r n (utf8 cs) :=
  relabelled_pass (fun b hb => ⟨hc b hb, fun hr => absurd (h.symm.trans hr) Bool.false_ne_true⟩) cs

/-- The rest of a quoted run is passed over. -/
theorem relabelled_quoted (q : Quote) (cs : List Char) :
    relabelled (.quoted q) n (utf8 cs) =
      utf8 (skipQuoted q.char cs).1 ++ relabelled .plain n (utf8 (skipQuoted q.char cs).2) := by
  have hascii : q.char.toNat < 128 := by cases q <;> decide
  have hinside {c : Char} (hc : c ≠ q.char) (ds : List Char) :
      relabelled (.quoted q) n (utf8 (c :: ds)) =
        String.utf8EncodeChar c ++ relabelled (.quoted q) n (utf8 ds) := by
    refine relabelled_pass_inside rfl (fun b hb => ?_) ds
    rw [Region.next, if_neg (ne_byte_of_mem hascii hc hb)]
  have hquote (ds : List Char) :
      relabelled (.quoted q) n (utf8 (q.char :: ds)) =
        byte q.char :: relabelled (.closing q) n (utf8 ds) := by
    rw [utf8_cons_ascii hascii, relabelled_cons_inside rfl, Region.next, if_pos rfl]
  fun_induction skipQuoted q.char cs with
  | case1 => rfl
  | case2 c =>
    by_cases hc : c = q.char
    · subst hc
      rw [hquote, utf8_cons_ascii hascii]
      rfl
    · rw [hinside hc, utf8_cons, append_assoc]
      rfl
  | case3 rest run after hrest ih =>
    -- a doubled quote: the run goes on
    have hdoubled : relabelled (.closing q) n (utf8 (q.char :: rest)) =
        byte q.char :: relabelled (.quoted q) n (utf8 rest) := by
      cases q <;> rfl
    rw [hrest] at ih
    rw [hquote, hdoubled, ih, utf8_cons_ascii hascii, utf8_cons_ascii hascii]
    rfl
  | case4 d rest hd =>
    -- a single quote: the run is over
    have hover : relabelled (.closing q) n (utf8 (d :: rest)) =
        relabelled .plain n (utf8 (d :: rest)) :=
      relabelled_of_head_ne (.closing q) .plain q.char hascii rfl (fun b hb => if_neg hb)
        (by simpa using hd)
    rw [hquote, hover, utf8_cons_ascii hascii]
    rfl
  | case5 c d rest hc run after hrest ih =>
    rw [hrest] at ih
    rw [hinside hc, ih, utf8_cons, append_assoc]

/-- The rest of a comment up to the end of its line is passed over. -/
theorem relabelled_line (cs : List Char) :
    relabelled .line n (utf8 cs) =
      utf8 (skipLine cs).1 ++ relabelled .plain n (utf8 (skipLine cs).2) := by
  induction cs with
  | nil => rfl
  | cons c cs ih =>
    by_cases hc : c = '\n'
    · subst hc
      rfl
    have hskip : skipLine (c :: cs) = (c :: (skipLine cs).1, (skipLine cs).2) := by
      simp [skipLine, hc]
    have hpass : relabelled .line n (utf8 (c :: cs)) =
        String.utf8EncodeChar c ++ relabelled .line n (utf8 cs) := by
      refine relabelled_pass_inside rfl (fun b hb => ?_) cs
      rw [Region.next, if_neg (ne_byte_of_mem (by decide) hc hb)]
    rw [hpass, ih, hskip, utf8_cons, append_assoc]

/-- The rest of a bracketed comment is passed over. -/
theorem relabelled_block (cs : List Char) :
    relabelled .block n (utf8 cs) =
      utf8 (skipComment cs).1 ++ relabelled .plain n (utf8 (skipComment cs).2) := by
  fun_induction skipComment cs with
  | case1 rest => rfl
  | case2 c rest hend run after hrest ih =>
    rw [hrest] at ih
    by_cases hc : c = '*'
    · subst hc
      -- a star that no slash follows does not end the comment
      have hstar : relabelled .star n (utf8 rest) = relabelled .block n (utf8 rest) := by
        refine relabelled_of_head_ne .star .block '/' (by decide) rfl (fun b hb => ?_) ?_
        · simp only [Region.next, if_neg hb]
        · intro hhead
          obtain ⟨more, rfl⟩ := List.head?_eq_some_iff.mp hhead
          exact hend more rfl rfl
      have hpass : relabelled .block n (utf8 ('*' :: rest)) =
          byte '*' :: relabelled .star n (utf8 rest) := rfl
      rw [hpass, hstar, ih, utf8_cons_ascii (by decide)]
      rfl
    · have hpass : relabelled .block n (utf8 (c :: rest)) =
          String.utf8EncodeChar c ++ relabelled .block n (utf8 rest) := by
        refine relabelled_pass_inside rfl (fun b hb => ?_) rest
        rw [Region.next, if_neg (ne_byte_of_mem (by decide) hc hb)]
      rw [hpass, ih, utf8_cons, append_assoc]
  | case3 => rfl

end Passing

/-! ## The same bytes -/

theorem toNat_lt_of_isDigit (h : c.isDigit) : c.toNat < 128 := by
  simp only [Char.isDigit, Bool.and_eq_true, decide_eq_true_eq] at h
  have hle : c.val.toNat ≤ 57 := h.2
  exact Nat.lt_of_le_of_lt hle (by decide)

theorem utf8_digits (n : Nat) : utf8 (digits n) = (digits n).map byte := by
  have hascii : ∀ c ∈ digits n, c.toNat < 128 :=
    fun c hc => toNat_lt_of_isDigit (isDigit_of_mem_digits hc)
  generalize digits n = ds at hascii
  induction ds with
  | nil => rfl
  | cons d ds ih =>
    obtain ⟨hd, hds⟩ := forall_mem_cons.mp hascii
    rw [utf8_cons_ascii hd, ih hds, map_cons]

theorem exists_quote (h : isQuote c) : ∃ q : Quote, q.char = c := by
  simp only [isQuote, Bool.or_eq_true, beq_iff_eq] at h
  rcases h with (rfl | rfl) | rfl
  · exact ⟨.single, rfl⟩
  · exact ⟨.double, rfl⟩
  · exact ⟨.grave, rfl⟩

/-- A byte that opens nothing leaves the automaton where it is. -/
theorem relabelled_plain_pass (hquote : isQuote c = false) (hdash : c ≠ '-')
    (hslash : c ≠ '/') (hmark : c ≠ '?') (n : Nat) (cs : List Char) :
    relabelled .plain n (utf8 (c :: cs)) =
      String.utf8EncodeChar c ++ relabelled .plain n (utf8 cs) := by
  simp only [isQuote, Bool.or_eq_false_iff, beq_eq_false_iff_ne] at hquote
  obtain ⟨⟨hsingle, hdouble⟩, hback⟩ := hquote
  refine relabelled_pass (fun b hb => ⟨?_, fun _ => ne_byte_of_mem (by decide) hmark hb⟩) cs
  have hne (t : Char) (ht : t.toNat < 128) (hct : c ≠ t) : b ≠ byte t := ne_byte_of_mem ht hct hb
  simp [Region.next, Region.opened, hne _ _ hsingle, hne _ _ hdouble, hne _ _ hback, hne _ _ hdash,
    hne _ _ hslash]

/-- **Numbering is what the automaton does**, from any number on. -/
theorem relabelled_utf8 (n : Nat) (cs : List Char) :
    relabelled .plain n (utf8 cs) = utf8 (numberedFrom n cs) := by
  fun_induction numberedFrom n cs with
  | case1 => rfl
  | case2 n rest ih =>
    have hopen : relabelled .plain n (utf8 ('-' :: '-' :: rest)) =
        byte '-' :: byte '-' :: relabelled .line n (utf8 rest) := rfl
    rw [hopen, relabelled_line, ih, utf8_cons_ascii (by decide), utf8_cons_ascii (by decide),
      utf8_append]
  | case3 n rest ih =>
    have hopen : relabelled .plain n (utf8 ('/' :: '*' :: rest)) =
        byte '/' :: byte '*' :: relabelled .block n (utf8 rest) := rfl
    rw [hopen, relabelled_block, ih, utf8_cons_ascii (by decide), utf8_cons_ascii (by decide),
      utf8_append]
  | case4 n c rest _ _ hquote ih =>
    obtain ⟨q, rfl⟩ := exists_quote hquote
    have hascii : q.char.toNat < 128 := by cases q <;> decide
    have hopen : relabelled .plain n (utf8 (q.char :: rest)) =
        byte q.char :: relabelled (.quoted q) n (utf8 rest) := by
      cases q <;> rfl
    rw [hopen, relabelled_quoted, ih, utf8_cons_ascii hascii, utf8_append]
  | case5 n rest _ _ _ ih =>
    have hmark : relabelled .plain n (utf8 ('?' :: rest)) =
        byte '$' :: ((digits n).map byte ++ relabelled .plain (n + 1) (utf8 rest)) := rfl
    rw [hmark, ih, utf8_cons_ascii (by decide), utf8_append, utf8_digits]
  | case6 n c rest hline hblock hquote hmark ih =>
    by_cases hdash : c = '-'
    · subst hdash
      have hopen : relabelled .plain n (utf8 ('-' :: rest)) =
          byte '-' :: relabelled .hyphen n (utf8 rest) := rfl
      have hhead : rest.head? ≠ some '-' := by
        intro hhead
        obtain ⟨more, rfl⟩ := List.head?_eq_some_iff.mp hhead
        exact hline more rfl rfl
      have hplain : relabelled .hyphen n (utf8 rest) = relabelled .plain n (utf8 rest) :=
        relabelled_of_head_ne .hyphen .plain '-' (by decide) rfl (fun b hb => if_neg hb) hhead
      rw [hopen, hplain, ih, utf8_cons_ascii (by decide)]
    · by_cases hslash : c = '/'
      · subst hslash
        have hopen : relabelled .plain n (utf8 ('/' :: rest)) =
            byte '/' :: relabelled .slash n (utf8 rest) := rfl
        have hhead : rest.head? ≠ some '*' := by
          intro hhead
          obtain ⟨more, rfl⟩ := List.head?_eq_some_iff.mp hhead
          exact hblock more rfl rfl
        have hplain : relabelled .slash n (utf8 rest) = relabelled .plain n (utf8 rest) :=
          relabelled_of_head_ne .slash .plain '*' (by decide) rfl (fun b hb => if_neg hb) hhead
        rw [hopen, hplain, ih, utf8_cons_ascii (by decide)]
      · rw [relabelled_plain_pass (by simpa using hquote) hdash hslash hmark, ih, utf8_cons]

/-! ## Numbering twice -/

/-- In the normal state the numbers of a placeholder open nothing. -/
theorem relabelled_digits {ds : List Char} (hds : ∀ d ∈ ds, d.isDigit) (n : Nat)
    (bs : List UInt8) :
    relabelled .plain n (ds.map byte ++ bs) = ds.map byte ++ relabelled .plain n bs := by
  induction ds with
  | nil => rfl
  | cons d ds ih =>
    obtain ⟨hd, hds⟩ := forall_mem_cons.mp hds
    have hne (t : Char) (ht : t.toNat < 128) (hdigit : t.isDigit = false) : byte d ≠ byte t := by
      intro heq
      rw [byte_inj (toNat_lt_of_isDigit hd) ht heq, hdigit] at hd
      exact Bool.false_ne_true hd
    have hnext : Region.next .plain (byte d) = .plain := by
      simp [Region.next, Region.opened, hne '\'' (by decide) rfl, hne '"' (by decide) rfl,
        hne '\x60' (by decide) rfl, hne '-' (by decide) rfl, hne '/' (by decide) rfl]
    rw [map_cons, cons_append, relabelled, if_neg fun h => hne '?' (by decide) rfl h.2,
      hnext, ih hds, cons_append]

/-- In the normal state a question mark and a dollar sign both lead to plain text. -/
theorem next_of_isNormal {r : Region} (h : r.isNormal)
    (hb : b = byte '?' ∨ b = byte '$') : r.next b = .plain := by
  rcases hb with rfl | rfl
  all_goals
    cases r with
    | quoted q => cases h
    | closing q => cases q <;> rfl
    | plain | hyphen | slash => rfl
    | line | block | star => cases h

/-- **Numbering changes nothing in what has been numbered.** -/
theorem relabelled_relabelled (r : Region) (m n : Nat) (bs : List UInt8) :
    relabelled r m (relabelled r n bs) = relabelled r n bs := by
  induction bs generalizing r n with
  | nil => rfl
  | cons b bs ih =>
    by_cases hb : r.isNormal = true ∧ b = byte '?'
    · have hmark : r.next b = .plain := next_of_isNormal hb.1 (.inl hb.2)
      have hdollar : r.next (byte '$') = .plain := next_of_isNormal hb.1 (.inr rfl)
      rw [relabelled, if_pos hb, relabelled, if_neg fun h => absurd h.2 (by decide), hmark, hdollar,
        relabelled_digits (fun d hd => isDigit_of_mem_digits hd), ih]
    · rw [relabelled, if_neg hb, relabelled, if_neg hb, ih]

/-- **Numbering the placeholders of a statement is the work of an automaton** that reads it byte by
byte.  Once is enough: what has been numbered stays as it is. -/
theorem numbered_bytewise (s : String) :
    (numbered s).toByteArray.data.toList = relabelled .plain 1 s.toByteArray.data.toList ∧
      numbered (numbered s) = numbered s := by
  have hbytes (t : String) : (numbered t).toByteArray.data.toList =
      relabelled .plain 1 t.toByteArray.data.toList := by
    rw [toList_toByteArray, toList_toByteArray, relabelled_utf8, numbered, String.toList_ofList]
  refine ⟨hbytes s, ?_⟩
  have htwice : (numbered (numbered s)).toByteArray.data.toList =
      (numbered s).toByteArray.data.toList := by
    rw [hbytes (numbered s), hbytes s, relabelled_relabelled]
  exact String.toByteArray_inj.mp (ByteArray.ext (Array.toList_inj.mp htwice))

end TreeQuery.Sql.Placeholder
