import TreeQuery.Proofs.Command.Auditing
import TreeQuery.Proofs.Json.Argument
import TreeQuery.Proofs.LastQuery
import TreeQuery.Proofs.Query.Marks
import TreeQuery.Proofs.Query.Rendering

/-!
# The log reads back

A log is written a line at a time and read as a whole.  Whatever an entry says, its line is a single
line (`Denotes.newline_not_mem`), and the entry is read back from it (`IsPlain.exists_body`).  So a
log that was new before its first entry consists of the lines of its entries (`Logged.has`), and
reading gives the entries in their order (`readLog_logged`).

There is one limit.  Lines of any length are written, but not read: a statement that takes too many
bytes makes the whole log unreadable, together with the entries before and after it
(`readLog_longEntry`).
-/

namespace TreeQuery

open List

namespace Json

open TreeQuery.Json.Tree

/-! ## Whole numbers -/

variable {rest : List Char}

theorem Separated.ends (h : Separated rest) :
    (∀ c ∈ rest.head?, c.isDigit = false) ∧ rest.head? ≠ some '.' := by
  obtain ⟨c, more, rfl, hc⟩ := h
  have hends : c.isDigit = false ∧ c ≠ '.' := by
    rcases hc with rfl | rfl | hspace
    · decide
    · decide
    · simp only [isSpace, Bool.or_eq_true, beq_iff_eq] at hspace
      rcases hspace with ((rfl | rfl) | rfl) | rfl <;> decide
  refine ⟨?_, fun hhead => hends.2 (Option.some.inj hhead)⟩
  intro d hd
  cases hd
  exact hends.1

theorem le_ofDigitChars (ds : List Char) (n : Nat) : n ≤ Nat.ofDigitChars 10 ds n := by
  rw [Nat.ofDigitChars_eq_ofDigitChars_zero]
  exact (Nat.le_mul_of_pos_left n (Nat.pow_pos (by decide))).trans (Nat.le_add_right _ _)

/-- Digits are read into a word that has room for them. -/
theorem wordDigits_append {ds : List Char} (hds : ∀ d ∈ ds, d.isDigit)
    (hrest : ∀ c ∈ rest.head?, c.isDigit = false) {w : UInt64}
    (h : Nat.ofDigitChars 10 ds w.toNat < Nat.pow 2 64) :
    ∃ v, wordDigits w (ds ++ rest) = some (v, rest) ∧
      v.toNat = Nat.ofDigitChars 10 ds w.toNat := by
  induction ds generalizing w with
  | nil =>
    refine ⟨w, ?_, Nat.ofDigitChars_nil.symm⟩
    cases rest with
    | nil => rfl
    | cons c rest => rw [nil_append, wordDigits, hrest c rfl]; rfl
  | cons d ds ih =>
    rw [forall_mem_cons] at hds
    rw [Nat.ofDigitChars_cons] at h ⊢
    -- the word only grows, so none of the digits is one too many
    have hle := le_ofDigitChars ds (10 * w.toNat + (d.toNat - '0'.toNat))
    have hnext : (w * 10 + (d.toNat - 48).toUInt64).toNat =
        10 * w.toNat + (d.toNat - '0'.toNat) := by
      have hword : 10 * w.toNat + (d.toNat - 48) < 18446744073709551616 := hle.trans_lt h
      show (w.toNat * 10 % 18446744073709551616 + (d.toNat - 48) % 18446744073709551616) %
        18446744073709551616 = 10 * w.toNat + (d.toNat - 48)
      omega
    have hgrows : ¬ w * 10 + (d.toNat - 48).toUInt64 < w := by
      rw [UInt64.lt_iff_toNat_lt, hnext]
      omega
    rw [← hnext] at h ⊢
    obtain ⟨v, hv, hvalue⟩ := ih hds.2 h
    refine ⟨v, ?_, hvalue⟩
    rw [cons_append, wordDigits, hds.1]
    simp only [hgrows, decide_false, Bool.and_false, Bool.not_true, Bool.false_eq_true, if_false]
    exact hv

theorem word_toDigits {n : Nat} (hn : n < Nat.pow 2 64)
    (hrest : ∀ c ∈ rest.head?, c.isDigit = false) :
    ∃ w, word (Nat.toDigits 10 n ++ rest) = some (w, rest) ∧ w.toNat = n := by
  by_cases hzero : n = 0
  · subst hzero
    exact ⟨0, rfl, rfl⟩
  obtain ⟨c, ds, hdigits, hc⟩ := Decimal.toDigits_eq_cons hzero
  have hall : ∀ d ∈ c :: ds, d.isDigit = true := by
    rw [← hdigits]
    exact (isWhole_toDigits n).1.2
  rw [forall_mem_cons] at hall
  have hsmall : (c.toNat - 48).toUInt64.toNat = c.toNat - 48 := by
    have hcode : 48 ≤ c.toNat ∧ c.toNat ≤ 57 := Char.isDigit_iff_toNat.mp hall.1
    show (c.toNat - 48) % 18446744073709551616 = c.toNat - 48
    omega
  have hvalue : Nat.ofDigitChars 10 ds (c.toNat - 48).toUInt64.toNat = n := by
    have hall := Nat.ofDigitChars_ten_toDigits (n := n)
    rw [hdigits, Nat.ofDigitChars_cons, Nat.mul_zero, Nat.zero_add] at hall
    rw [hsmall]
    exact hall
  obtain ⟨w, hw, hwn⟩ := wordDigits_append hall.2 hrest (hvalue.trans_lt hn)
  refine ⟨w, ?_, hwn.trans hvalue⟩
  rw [hdigits, cons_append, word]
  · rw [if_pos hall.1, hw]
  · exact hc

/-- **A whole number of 64 bits is read back.** -/
theorem takesEnded_wholeNumber {n : Int} (hn : IsWord n) :
    TakesEnded wholeNumber (toString n).toList (some n) := by
  intro rest hrest
  rw [IsWord] at hn
  obtain ⟨hdigit, hpoint⟩ := hrest.ends
  have hafter : (rest.head? == some '.') = false := beq_eq_false_iff_ne.mpr hpoint
  have hroom : Nat.pow 2 64 = 2 * Nat.pow 2 63 := rfl
  cases n with
  | ofNat n =>
    have hsmall : n < Nat.pow 2 63 := Int.ofNat_lt.mp hn.2
    obtain ⟨w, hw, rfl⟩ : ∃ w, word (Nat.toDigits 10 n ++ rest) = some (w, rest) ∧ w.toNat = n :=
      word_toDigits (by omega) hdigit
    have htext : (toString (Int.ofNat w.toNat)).toList = Nat.toDigits 10 w.toNat :=
      Nat.toList_repr
    obtain ⟨c, ds, hds, hc⟩ : ∃ c ds, Nat.toDigits 10 w.toNat = c :: ds ∧ c.isDigit = true := by
      obtain ⟨⟨hne, hall⟩, -⟩ := isWhole_toDigits w.toNat
      obtain ⟨c, ds, hds⟩ := exists_cons_of_ne_nil hne
      exact ⟨c, ds, hds, hall c (by rw [hds]; exact mem_cons_self)⟩
    have hskip : skipSpace (c :: (ds ++ rest)) = c :: (ds ++ rest) := by
      refine skipSpace_cons (isSpace_of_isNumberChar ?_) _
      simp [isNumberChar, hc]
    -- neither a sign nor `null`
    have hminus : c ≠ '-' := by
      rintro rfl
      cases hc
    have hnull : c ≠ 'n' := by
      rintro rfl
      cases hc
    rw [htext]
    rw [hds, cons_append] at hw ⊢
    simp [wholeNumber, hskip, hw, hsmall, hafter, hminus, hnull]
  | negSucc n =>
    have hsmall : n + 1 ≤ Nat.pow 2 63 := by
      have := hn.1
      omega
    obtain ⟨w, hw, hwn⟩ : ∃ w, word (Nat.toDigits 10 (n + 1) ++ rest) = some (w, rest) ∧
        w.toNat = n + 1 := word_toDigits (by omega) hdigit
    have hminus : skipSpace ('-' :: (Nat.toDigits 10 (n + 1) ++ rest)) =
      '-' :: (Nat.toDigits 10 (n + 1) ++ rest) := rfl
    rw [← hwn] at hsmall
    rw [toList_negSucc, cons_append]
    simp only [wholeNumber, hminus, hw]
    split
    · rename_i heq
      cases heq
    · rw [if_pos hsmall, hwn]
      simp only [hafter, Bool.false_eq_true, if_false]
      rfl

/-! ## Lists of values -/

theorem takes_anything {text : List Char} {t : Tree Double} (h : Spells double memberDepth text t) :
    Takes anything text (anyValue t) := by
  intro rest
  have hfuel : text.length ≤ 2 * (text ++ rest).length + 2 := by
    rw [length_append]
    omega
  rw [anything, Tree.value, h.reads _ rest hfuel]
  rfl

theorem takes_listOf_anything {texts : List (List Char)} {ts : List (Tree Double)}
    (h : List.Forall₂ (Spells double memberDepth) texts ts) (hne : texts ≠ []) :
    Takes (listOf anything) ('[' :: ([','].intercalate texts ++ [']'])) (ts.map anyValue) := by
  refine takes_listOf blank_nil ?_ (fun rest => ?_) (closes_append [] blank_nil rfl) hne
  · rw [forall₂_map_right_iff]
    exact h.imp fun _ _ => takes_anything
  cases h with
  | nil => exact absurd rfl hne
  | @cons text t texts ts ht _ =>
    obtain ⟨c, cs, rfl, hspace, hc⟩ := ht.start
    obtain ⟨ds, hds⟩ := exists_skipSpace_intercalate blank_nil hspace cs texts rest
    exact ⟨c, ds, hds, hc⟩

/-! ## Texts on one line -/

theorem newline_ne_of_fourHex? {w x y z : Char} {n : Nat} (h : fourHex? w x y z = some n) :
    '\n' ∉ [w, x, y, z] := by
  intro hmem
  obtain ⟨m, hm⟩ := exists_hexValue?_of_fourHex? h _ hmem
  cases hm

theorem Chars.newline_not_mem {cs s : List Char} (h : Chars cs s) : '\n' ∉ cs := by
  induction h with
  | nil => exact not_mem_nil
  | plain _ _ hcontrol _ ih =>
    refine not_mem_cons_of_ne_of_not_mem ?_ ih
    rintro rfl
    exact hcontrol (by decide)
  | letter hletter _ ih =>
    have hne : ∀ {letter c}, escapeChar? letter = some c → '\n' ≠ letter := by
      rintro letter c hc rfl
      cases hc
    simp [hne hletter, ih]
  | code hcode _ _ ih =>
    have := newline_ne_of_fourHex? hcode
    simp_all
  | pair hhigh hlow _ _ ih =>
    have := newline_ne_of_fourHex? hhigh
    have := newline_ne_of_fourHex? hlow
    simp_all

/-- **What is written without white space stands on one line.** -/
theorem Denotes.newline_not_mem {cs : List Char} {m : Meaning} (h : Denotes false cs m) :
    '\n' ∉ cs := by
  induction h with
  | null | isFalse | isTrue => decide
  | number h => exact fun hmem => absurd (h.isRun.2 _ hmem) (by decide)
  | string h => simp [h.newline_not_mem]
  | array _ ih | object _ ih => simp [ih]
  | noElements | noMembers => exact not_mem_nil
  | element _ ih => exact ih
  | moreElements _ _ ih ihmore | member _ _ ih ihmore | moreMembers _ _ ih ihmore =>
    simp [ih, ihmore]
  | padded hspaced => cases hspaced

end Json

namespace Audit

open Json

/-! ## Entries and their lines -/

/-- **An entry that is kept as it is**: its moment is set, its values are texts or null, and its
number of rows has 64 bits. -/
structure Entry.IsPlain (e : Entry) : Prop where
  time : e.time.IsMoment
  timed : e.time.isZero = false
  args : ∀ v ∈ e.args, v = .null ∨ ∃ s, v = .text s
  rows : IsWord e.rows

/-- The line of the entry, with its end, is not too long for reading. -/
def Entry.fits (e : Entry) : Bool :=
  e.line?.all fun line => Text.bytes line.toList ≤ maxLine

/-- The members of the line of an entry with these values. -/
def Entry.members (e : Entry) (args : List String) : List (String × String) :=
  [("ts", Json.string e.time.text), ("op", Json.string e.operation)] ++
    Json.textMember "table" e.table ++ [("sql", Json.string e.sql)] ++
    Json.listMember "args" args ++ [("rows", toString e.rows)]

variable {args : List String} {bodies : List (List Char)}

section Members

variable {e : Entry}

theorem fillsIn_member {β : Type} {reader : Reader β} {put : β → Entry} {b : β}
    {name value : String} (htake : e.take name = reader.into put)
    (h : TakesEnded reader value.toList b)
    (hlower : name.toList.map Char.toLower = name.toList) :
    FillsIn Entry.take [] e [(name, value)] (put b) := by
  refine .cons hlower ?_ (.nil _)
  rw [htake]
  exact h.into put

theorem fillsIn_text {put : String → Entry} {name : String} (htake : e.take name = text.into put)
    (s : String) (hlower : name.toList.map Char.toLower = name.toList) :
    FillsIn Entry.take [] e [(name, Json.string s)] (put s) := by
  have htakes := takes_text blank_nil s
  rw [nil_append] at htakes
  exact fillsIn_member htake htakes.ended hlower

theorem fillsIn_time {t : Timestamp} (ht : t.IsMoment) :
    FillsIn Entry.take [] e [("ts", Json.string t.text)] { e with time := t } := by
  have htake : e.take "ts" = moment.into fun time => { e with time := time.getD e.time } := by
    rw [Entry.take]
  have htakes := takes_moment blank_nil ht
  rw [nil_append] at htakes
  have hfills := fillsIn_member htake htakes.ended (by decide)
  exact hfills

theorem fillsIn_operation (s : String) :
    FillsIn Entry.take [] e [("op", Json.string s)] { e with operation := s } := by
  have htake : e.take "op" = text.into fun s => { e with operation := s } := by rw [Entry.take]
  have hfills := fillsIn_text htake s (by decide)
  exact hfills

/-- An empty table is left out, and none has been taken before. -/
theorem fillsIn_table (h : e.table = "") (table : String) :
    FillsIn Entry.take [] e (textMember "table" table) { e with table := table } := by
  rw [textMember]
  split
  · rename_i hempty
    rw [String.isEmpty_iff.mp hempty, ← h]
    exact .nil e
  · have htake : e.take "table" = text.into fun s => { e with table := s } := by rw [Entry.take]
    have hfills := fillsIn_text htake table (by decide)
    exact hfills

theorem fillsIn_sql (s : String) :
    FillsIn Entry.take [] e [("sql", Json.string s)] { e with sql := s } := by
  have htake : e.take "sql" = text.into fun s => { e with sql := s } := by rw [Entry.take]
  have hfills := fillsIn_text htake s (by decide)
  exact hfills

/-- An empty list of values is left out, and none have been taken before. -/
theorem fillsIn_args (h : e.args = []) {ts : List (Json.Tree Double)}
    (hargs : List.Forall₂ (Tree.Spells double memberDepth) (args.map String.toList) ts) :
    FillsIn Entry.take [] e (listMember "args" args) { e with args := ts.map anyValue } := by
  rw [listMember]
  split
  · rename_i hempty
    rw [isEmpty_iff.mp hempty, map_nil, forall₂_nil_left_iff] at hargs
    rw [hargs, map_nil, ← h]
    exact .nil e
  · rename_i hne
    have htake : e.take "args" = (listOf anything).into fun vs => { e with args := vs } := by
      rw [Entry.take]
    have htakes := takes_listOf_anything hargs (by simpa using hne)
    rw [← Tree.toList_array] at htakes
    have hfills := fillsIn_member htake htakes.ended (by decide)
    exact hfills

theorem fillsIn_rows {n : Int} (hn : IsWord n) :
    FillsIn Entry.take [] e [("rows", toString n)] { e with rows := n } := by
  have htake : e.take "rows" = wholeNumber.into fun n => { e with rows := n.getD e.rows } := by
    rw [Entry.take]
  have hfills := fillsIn_member htake (takesEnded_wholeNumber hn) (by decide)
  exact hfills

end Members

/-- **What stands on the line of an entry**: one line that the entry is read from. -/
structure Entry.Body (e : Entry) (body : List Char) : Prop where
  line : e.line? = some (String.ofList (body ++ ['\n']))
  newline : '\n' ∉ body
  closed : ∃ front, body = front ++ ['}']
  read : Entry.read (String.ofList body) = some e

theorem Entry.line?_eq {e : Entry} (htime : e.time.IsMoment)
    (hargs : encodeList e.args = some args) :
    e.line? = some (object (e.members args) ++ "\n") := by
  have htext : e.time.text? = some e.time.text := if_pos htime.offset
  rw [Entry.line?, htext, hargs]
  rfl

namespace Entry.IsPlain

variable {e : Entry}

theorem isDocument (h : e.IsPlain) : ∀ v ∈ e.args, v.IsDocument memberDepth := by
  intro v hv
  rcases h.args v hv with rfl | ⟨s, rfl⟩
  · exact .null
  · exact .text s

theorem anyValue_tree (h : e.IsPlain) : (treeList e.args).map anyValue = e.args := by
  rw [treeList_eq_map, map_map]
  refine (map_congr_left fun v hv => ?_).trans (map_id _)
  rcases h.args v hv with rfl | ⟨s, rfl⟩ <;> rfl

theorem isText_members (h : e.IsPlain)
    (hargs : encodeList e.args = some args) : ∀ w ∈ e.members args, IsText w.2 := by
  have htexts : ∀ text ∈ args, IsText text := by
    rw [encodeList_eq_mapM] at hargs
    intro text htext
    obtain ⟨v, hv, hencode⟩ := exists_of_mem_mapM hargs text htext
    rcases h.args v hv with rfl | ⟨s, rfl⟩ <;> exact isText_of_encode _ hencode (forall_mem_nil _)
  have hrows := isText_number (isNumber_int e.rows)
  intro w hw
  simp only [members, textMember, listMember, mem_append, mem_cons, not_mem_nil,
    or_false] at hw
  rcases hw with (((((rfl | rfl) | hw) | rfl) | hw) | rfl)
  · exact isText_string _
  · exact isText_string _
  · split at hw
    · cases hw
    · rw [mem_singleton.mp hw]
      exact isText_string _
  · exact isText_string _
  · split at hw
    · cases hw
    · rw [mem_singleton.mp hw]
      exact isText_array htexts
  · exact hrows

/-- **An entry that is kept has a line**, and is read from it. -/
theorem exists_body (h : e.IsPlain) : ∃ body, e.Body body := by
  obtain ⟨args, hargs, hspells⟩ := exists_encodeList fun v hv =>
    written_of_isDocument (h.isDocument v hv)
  have hfills : FillsIn Entry.take [] {} (e.members args) e := by
    -- each member fills its field, and the empty entry has what the missing ones stand for
    have hall := (((((fillsIn_time (e := {}) h.time).append (fillsIn_operation e.operation)).append
      (fillsIn_table rfl e.table)).append (fillsIn_sql e.sql)).append
        (fillsIn_args rfl (hspells Double double))).append (fillsIn_rows h.rows)
    rw [h.anyValue_tree] at hall
    exact hall
  obtain ⟨t, htext⟩ := isText_object (h.isText_members hargs)
  refine ⟨(object (e.members args)).toList, ?_, htext.newline_not_mem, ?_, ?_⟩
  · rw [Entry.line?_eq h.time hargs]
    simp
  · exact ⟨'{' :: _, Tree.toList_object _⟩
  · rw [String.ofList_toList]
    exact readRecord_object hfills (by simp [members])

end Entry.IsPlain

/-! ## Reading the lines -/

section Lines

variable {e : Entry} {body : List Char}

theorem Entry.Body.fits_eq (h : e.Body body) : e.fits = decide (Text.bytes body < maxLine) := by
  rw [Entry.fits, h.line, Option.all_some, String.toList_ofList, Text.bytes_append]
  rfl

/-- A line ends with a brace, so no carriage return is cut off. -/
theorem Entry.Body.dropEnd?_eq (h : e.Body body) : Text.dropEnd? ['\r'] body = none := by
  obtain ⟨front, rfl⟩ := h.closed
  refine if_neg fun hsuffix => ?_
  obtain ⟨start, hstart⟩ := isSuffixOf_iff_suffix.mp hsuffix
  have hlast := congrArg getLast? hstart
  simp at hlast

theorem Entry.Body.trim_isEmpty (h : e.Body body) : (Text.trim body).isEmpty = false := by
  have hcount := (Text.trim_spec body).2 '}' rfl
  obtain ⟨front, rfl⟩ := h.closed
  rw [isEmpty_eq_false_iff]
  intro hempty
  rw [hempty] at hcount
  simp at hcount

/-- **The lines of entries are read as the entries**, unless one of them is too long. -/
theorem entriesFrom_of_bodies {es : List Entry}
    (h : List.Forall₂ (fun body e => Entry.Body e body) bodies es) (number : Nat) :
    entriesFrom number bodies = if es.all Entry.fits then .ok es else .error .lineTooLong := by
  induction h generalizing number with
  | nil => rfl
  | @cons body e bodies es hbody _ ih =>
    rw [entriesFrom, all_cons, hbody.fits_eq]
    by_cases hlong : Text.bytes body < maxLine
    · rw [if_neg (Nat.not_le.mpr hlong), hbody.dropEnd?_eq, decide_eq_true hlong, Bool.true_and]
      simp only [Option.getD_none, hbody.trim_isEmpty, Bool.false_eq_true, if_false, hbody.read,
        ih (number + 1)]
      cases es.all Entry.fits <;> rfl
    · rw [if_pos (Nat.not_lt.mp hlong), decide_eq_false hlong, Bool.false_and,
        if_neg Bool.false_ne_true]

end Lines

theorem newline_not_mem_of_bodies {es : List Entry}
    (h : List.Forall₂ (fun body e => Entry.Body e body) bodies es) :
    ∀ body ∈ bodies, '\n' ∉ body := by
  induction h with
  | nil => exact forall_mem_nil _
  | cons hbody _ ih => exact forall_mem_cons.mpr ⟨hbody.newline, ih⟩

theorem lines_flatMap (h : ∀ body ∈ bodies, '\n' ∉ body) :
    Text.lines (bodies.flatMap (· ++ ['\n'])) = bodies ++ [[]] := by
  induction bodies with
  | nil => rfl
  | cons body bodies ih =>
    rw [forall_mem_cons] at h
    rw [flatMap_cons, append_assoc, singleton_append, Text.lines_append h.1, ih h.2]
    rfl

theorem fileLines_of_bodies (h : ∀ body ∈ bodies, '\n' ∉ body)
    {text : String} (htext : text.toList = bodies.flatMap (· ++ ['\n'])) :
    fileLines text = bodies := by
  rw [fileLines, htext, lines_flatMap h]
  simp

/-! ## Logging one entry after the other -/

namespace Log

variable {l : Log} {f g : Files} {now : Timestamp} {e : Entry} {es : List Entry} {text : String}

/-- **Entries are added one after the other**, each with success, and nothing else happens to the
files. -/
inductive Logged (l : Log) (f : Files) : List Entry → Files → Prop where
  | none : Logged l f [] f
  | more {es : List Entry} {e : Entry} {now : Timestamp} {g g' : Files} (h : Logged l f es g)
      (hadd : l.add g now e = (.ok (), g')) : Logged l f (es ++ [e]) g'

/-- **There is no log yet**: its path leads nowhere, and its place is free. -/
structure IsNew (l : Log) (f : Files) : Prop where
  missing : f.stat l.path = .error .notFound
  free : f.node? (Files.placeOf l.path) = none

/-- The text of the log so far, if it is ours: nothing, or what its file holds. -/
def Has (l : Log) (f : Files) (text : String) : Prop :=
  text = "" ∧ l.IsNew f ∨ f.Holds l.path text

/-- What adding an entry does if it succeeds. -/
theorem add_eq_ok (henabled : l.isEnabled) (h : l.add f now e = (.ok (), g)) :
    ∃ line made, ({ e with time := e.time.orElse now } : Entry).line? = some line ∧
      f.makeDirectories (Path.directory l.path) = (.ok (), made) ∧
        made.append l.path line = .ok g := by
  unfold add at h
  rw [henabled, Bool.not_true, if_neg Bool.false_ne_true] at h
  split at h
  · cases h
  rename_i line hline
  split at h
  · cases h
  rename_i made hmade
  split at h
  · rename_i g' happend
    cases h
    exact ⟨line, made, hline, hmade, happend⟩
  · cases h

/-- **One entry more is one line more.** -/
theorem Has.add (h : l.Has f text) (henabled : l.isEnabled)
    (hadd : l.add f now e = (.ok (), g)) :
    ∃ line, ({ e with time := e.time.orElse now } : Entry).line? = some line ∧
      l.Has g (text ++ line) := by
  obtain ⟨line, made, hline, hmade, happend⟩ := add_eq_ok henabled hadd
  refine ⟨line, hline, .inr ?_⟩
  rcases h with ⟨rfl, hnew⟩ | hholds
  · have hvacant : f.IsVacant (Files.placeOf l.path) := by
      intro n hn
      rw [hnew.free] at hn
      cases hn
    rw [String.empty_append]
    exact (hvacant.makeDirectories hmade).append happend
  · exact (hholds.makeDirectories hmade).append happend

/-- **The log consists of the lines of its entries.** -/
theorem Logged.has (h : l.Logged f es g) (henabled : l.isEnabled) (hnew : l.IsNew f)
    (hes : ∀ e ∈ es, e.IsPlain) :
    ∃ bodies text, List.Forall₂ (fun body e => Entry.Body e body) bodies es ∧
      text.toList = bodies.flatMap (· ++ ['\n']) ∧ l.Has g text := by
  induction h with
  | none => exact ⟨[], "", .nil, rfl, .inl ⟨rfl, hnew⟩⟩
  | @more es e now g g' _ hadd ih =>
    obtain ⟨hes, he⟩ := forall_mem_append.mp hes
    obtain ⟨bodies, text, hbodies, htext, hhas⟩ := ih hes
    have hplain := he e mem_cons_self
    obtain ⟨body, hbody⟩ := hplain.exists_body
    obtain ⟨line, hline, hhas'⟩ := hhas.add henabled hadd
    -- the moment is set, so that of the logging does not count
    have htimed : e.time.orElse now = e.time := if_neg (by rw [hplain.timed]; decide)
    rw [htimed, hbody.line] at hline
    cases hline
    refine ⟨bodies ++ [body], _, rel_append hbodies (.cons hbody .nil), ?_, hhas'⟩
    rw [String.toList_append, String.toList_ofList, htext]
    simp

theorem Has.readLog_eq (h : l.Has f text) :
    readLog f l.path = entriesFrom 1 (fileLines text) := by
  rcases h with ⟨rfl, hnew⟩ | hholds
  · rw [readLog, Files.read, hnew.missing]
    rfl
  · rw [readLog, hholds.read]

/-- **Reading goes through the lines of the entries**, from the first one on. -/
theorem Logged.readLog_eq (h : l.Logged f es g) (henabled : l.isEnabled) (hnew : l.IsNew f)
    (hes : ∀ e ∈ es, e.IsPlain) :
    ∃ bodies, List.Forall₂ (fun body e => Entry.Body e body) bodies es ∧
      readLog g l.path = entriesFrom 1 bodies := by
  obtain ⟨bodies, text, hbodies, htext, hhas⟩ := h.has henabled hnew hes
  refine ⟨bodies, hbodies, ?_⟩
  rw [hhas.readLog_eq, fileLines_of_bodies (newline_not_mem_of_bodies hbodies) htext]

/-- **Entries can be logged** wherever the log can be written. -/
theorem exists_logged (hwritable : l.isWritable f) (hes : ∀ e ∈ es, e.IsPlain) :
    ∃ g, l.Logged f es g := by
  suffices ∃ g, l.Logged f es g ∧ l.isWritable g = true by
    obtain ⟨g, hg, -⟩ := this
    exact ⟨g, hg⟩
  induction es using reverseRecOn with
  | nil => exact ⟨f, .none, hwritable⟩
  | append_singleton es e ih =>
    obtain ⟨hes, he⟩ := forall_mem_append.mp hes
    obtain ⟨g, hg, hwritable⟩ := ih hes
    have hplain := he e mem_cons_self
    obtain ⟨body, hbody⟩ := hplain.exists_body
    have hline : ({ e with time := e.time.orElse e.time } : Entry).line? =
        some (String.ofList (body ++ ['\n'])) := by
      rw [Timestamp.orElse, ite_self]
      exact hbody.line
    obtain ⟨g', hadd, hwritable', -⟩ := exists_add_eq_ok hwritable hline
    exact ⟨g', .more hg hadd, hwritable'⟩

end Log

/-! ## What is read of a log -/

/-- **A log reads back.**  After entries have been logged to a new path, reading gives just these
entries, in the order of logging; but a single line that is too long makes reading fail. -/
theorem readLog_logged {l : Log} {f g : Files} {es : List Entry} (henabled : l.isEnabled = true)
    (hnew : l.IsNew f) (hes : ∀ e ∈ es, e.IsPlain) (h : l.Logged f es g) :
    readLog g l.path = if es.all Entry.fits then .ok es else .error .lineTooLong := by
  obtain ⟨bodies, hbodies, hread⟩ := h.readLog_eq henabled hnew hes
  rw [hread, entriesFrom_of_bodies hbodies]

/-- Two entries, one with a statement on two lines and a value that has to be escaped. -/
def sampleEntries : List Entry :=
  [{ time := ⟨2024, 5, 6, 7, 8, 9, 500000000, 120⟩, operation := "set", table := "t",
     sql := "set \"x\"\n<$1\u2028", args := [.text "\\", .null], rows := -1 },
   { time := ⟨2024, 5, 6, 7, 8, 10, 0, -90⟩, sql := "go" }]

theorem isPlain_sampleEntries : ∀ e ∈ sampleEntries, e.IsPlain := by
  have hargs : ∀ v ∈ [Value.text "\\", .null], v = .null ∨ ∃ s, v = .text s :=
    forall_mem_cons.mpr ⟨.inr ⟨_, rfl⟩, forall_mem_singleton.mpr (.inl rfl)⟩
  refine forall_mem_cons.mpr ⟨⟨?_, by decide +kernel, hargs, ?_⟩,
    forall_mem_singleton.mpr ⟨?_, by decide +kernel, forall_mem_nil _, ?_⟩⟩
  · constructor <;> decide
  · constructor <;> decide
  · constructor <;> decide
  · constructor <;> decide

theorem readLog_logged_sampleEntries :
    ∃ g, Log.Logged ⟨"logs/audit.log"⟩ .empty sampleEntries g ∧
      readLog g "logs/audit.log" = .ok sampleEntries := by
  have hnew : Log.IsNew ⟨"logs/audit.log"⟩ .empty := ⟨by decide +kernel, by decide +kernel⟩
  have hwritable : Log.isWritable ⟨"logs/audit.log"⟩ .empty = true := by decide +kernel
  obtain ⟨g, hlogged⟩ := Log.exists_logged hwritable isPlain_sampleEntries
  refine ⟨g, hlogged, ?_⟩
  rw [readLog_logged (by decide +kernel) hnew isPlain_sampleEntries hlogged]
  exact if_pos (by decide +kernel)

/-! ## Statements that are too long -/

theorem length_le_bytes (cs : List Char) : cs.length ≤ Text.bytes cs := by
  induction cs with
  | nil => exact Nat.le_refl 0
  | cons c cs ih =>
    have hsize := c.utf8Size_pos
    rw [length_cons, Text.bytes]
    omega

theorem length_le_length_intercalate {text : List Char} {texts : List (List Char)}
    (h : text ∈ texts) : text.length ≤ ([','].intercalate texts).length := by
  induction texts with
  | nil => cases h
  | cons first texts ih =>
    cases texts with
    | nil => rw [mem_singleton.mp h, intercalate_singleton]
    | cons next texts =>
      rw [intercalate_cons_cons, length_append, length_append]
      rcases mem_cons.mp h with rfl | h
      · omega
      · have hrest := ih h
        omega

/-- Angle brackets take six characters each. -/
theorem length_string_brackets (n : Nat) :
    (Json.string (String.ofList (replicate n '<'))).toList.length = n * 6 + 2 := by
  have hsix : (escaped '<').length = 6 := rfl
  rw [Tree.toList_string, String.toList_ofList]
  simp only [length_cons, length_append, length_flatMap, map_replicate, hsix,
    sum_replicate_nat, length_nil]

/-- A statement that takes so many characters does not fit into a line that is read. -/
theorem fits_of_long_sql {e : Entry} (h : e.IsPlain)
    (hlong : maxLine ≤ (Json.string e.sql).toList.length) : e.fits = false := by
  obtain ⟨args, hargs, -⟩ := exists_encodeList fun v hv => written_of_isDocument (h.isDocument v hv)
  have hmember : ("sql", Json.string e.sql) ∈ e.members args := by
    simp [Entry.members]
  have hline := length_le_length_intercalate (mem_map_of_mem (f := Tree.memberText) hmember)
  rw [Tree.memberText, length_append, length_cons] at hline
  dsimp only at hline
  rw [Entry.fits, Entry.line?_eq h.time hargs, Option.all_some, decide_eq_false_iff_not]
  have hbytes := length_le_bytes (object (e.members args) ++ "\n").toList
  rw [String.toList_append, Tree.toList_object] at hbytes ⊢
  simp only [length_append, length_cons] at hbytes
  omega

/-- An entry with a long statement.  Each of its characters takes six in the log. -/
def longEntry : Entry :=
  { time := ⟨2024, 5, 6, 7, 8, 9, 0, 0⟩, operation := "delete", table := "t",
    sql := String.ofList (replicate (maxLine / 6 + 1) '<'), rows := 1 }

/-- **One long statement makes a log unreadable**: it is logged, and then reading fails. -/
theorem readLog_longEntry :
    ∃ g, Log.Logged ⟨"audit.log"⟩ .empty [longEntry] g ∧
      readLog g "audit.log" = .error .lineTooLong := by
  have hplain : longEntry.IsPlain := by
    refine ⟨?_, by decide +kernel, List.forall_mem_nil _, ?_⟩ <;> constructor <;> decide
  have hfits : longEntry.fits = false := by
    have hsql : longEntry.sql = String.ofList (List.replicate (maxLine / 6 + 1) '<') := rfl
    refine fits_of_long_sql hplain ?_
    rw [hsql, length_string_brackets]
    omega
  have hnew : Log.IsNew ⟨"audit.log"⟩ .empty := ⟨by decide +kernel, by decide +kernel⟩
  have hwritable : Log.isWritable ⟨"audit.log"⟩ .empty = true := by decide +kernel
  have hes : ∀ e ∈ [longEntry], e.IsPlain := List.forall_mem_singleton.mpr hplain
  obtain ⟨g, hlogged⟩ := Log.exists_logged hwritable hes
  obtain ⟨bodies, hbodies, hread⟩ := hlogged.readLog_eq (by decide +kernel) hnew hes
  refine ⟨g, hlogged, hread.trans ?_⟩
  rw [entriesFrom_of_bodies hbodies, List.all_cons, hfits]
  rfl

end Audit
end TreeQuery
