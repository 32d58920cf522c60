import TreeQuery.Json.Indent
import TreeQuery.Json.Tree
import TreeQuery.Proofs.Json.Record
import TreeQuery.Proofs.Number.Rounding
import TreeQuery.Proofs.Number.Shortest

/-!
# The grammar of JSON

`Denotes` says which texts are JSON, and what they stand for.  It is the grammar and nothing else:
no reader is involved, and a text that a lenient reader would take is none unless the rules derive
it.  The rules are those for values, for the elements of a list and for the members of an object,
with white space between the parts where it is allowed.  A number stands for its own spelling.

All that is written without white space keeps to the grammar: strings (`denotes_string`), numbers
(`isNumber_write`), lists and objects.  In a text of the grammar every bracket is closed
(`Denotes.foldl_scan`).
-/

namespace TreeQuery.Json

open List TreeQuery.Json.Tree

/-! ## Numbers -/

/-- Decimal digits, at least one. -/
def IsDigits (cs : List Char) : Prop := cs ≠ [] ∧ ∀ c ∈ cs, c.isDigit = true

/-- Digits without a needless zero in front. -/
def IsWhole (cs : List Char) : Prop := IsDigits cs ∧ ∀ rest, cs = '0' :: rest → rest = []

/-- A point and the digits after it, or nothing. -/
def IsFraction (cs : List Char) : Prop := cs = [] ∨ ∃ ds, cs = '.' :: ds ∧ IsDigits ds

/-- An exponent, or nothing. -/
def IsExponent (cs : List Char) : Prop :=
  cs = [] ∨ ∃ e sign ds, cs = e :: (sign ++ ds) ∧ (e = 'e' ∨ e = 'E') ∧
    (sign = [] ∨ sign = ['+'] ∨ sign = ['-']) ∧ IsDigits ds

/-- A number without its sign. -/
def IsMagnitude (cs : List Char) : Prop :=
  ∃ whole fraction exponent, cs = whole ++ (fraction ++ exponent) ∧
    IsWhole whole ∧ IsFraction fraction ∧ IsExponent exponent

inductive IsNumber : List Char → Prop
  | positive {cs : List Char} (h : IsMagnitude cs) : IsNumber cs
  | negative {cs : List Char} (h : IsMagnitude cs) : IsNumber ('-' :: cs)

/-! ## Strings -/

/-- **The characters of a string**: as they stand between quotes, and what they stand for. -/
inductive Chars : List Char → List Char → Prop
  | nil : Chars [] []
  | plain {c : Char} {cs s : List Char} (hquote : c ≠ '"') (hbackslash : c ≠ '\\')
      (hcontrol : ¬ c.toNat < 32) (hrest : Chars cs s) : Chars (c :: cs) (c :: s)
  | letter {letter c : Char} {cs s : List Char} (hletter : escapeChar? letter = some c)
      (hrest : Chars cs s) : Chars ('\\' :: letter :: cs) (c :: s)
  | code {w x y z : Char} {n : Nat} {cs s : List Char} (hcode : fourHex? w x y z = some n)
      (hsurrogate : isSurrogate n = false) (hrest : Chars cs s) :
      Chars ('\\' :: 'u' :: w :: x :: y :: z :: cs) (Char.ofNat n :: s)
  | pair {w x y z w' x' y' z' c : Char} {high low : Nat} {cs s : List Char}
      (hhigh : fourHex? w x y z = some high) (hlow : fourHex? w' x' y' z' = some low)
      (hpaired : paired? high low = some c) (hrest : Chars cs s) :
      Chars ('\\' :: 'u' :: w :: x :: y :: z :: '\\' :: 'u' :: w' :: x' :: y' :: z' :: cs) (c :: s)

/-! ## Values -/

/-- **What a part of a JSON text stands for**: a value, or what stands between brackets. -/
inductive Meaning where
  | value (t : Tree (List Char))
  | elements (ts : List (Tree (List Char)))
  | members (ms : List (String × Tree (List Char)))

/-- **The grammar.**  White space belongs to the texts only if they are `spaced`. -/
inductive Denotes (spaced : Bool) : List Char → Meaning → Prop
  | null : Denotes spaced ['n', 'u', 'l', 'l'] (.value .null)
  | isFalse : Denotes spaced ['f', 'a', 'l', 's', 'e'] (.value (.bool false))
  | isTrue : Denotes spaced ['t', 'r', 'u', 'e'] (.value (.bool true))
  | number {cs : List Char} (h : IsNumber cs) : Denotes spaced cs (.value (.number cs))
  | string {cs s : List Char} (h : Chars cs s) :
      Denotes spaced ('"' :: (cs ++ ['"'])) (.value (.string (String.ofList s)))
  | array {cs : List Char} {ts : List (Tree (List Char))} (h : Denotes spaced cs (.elements ts)) :
      Denotes spaced ('[' :: (cs ++ [']'])) (.value (.array ts))
  | object {cs : List Char} {ms : List (String × Tree (List Char))}
      (h : Denotes spaced cs (.members ms)) :
      Denotes spaced ('\x7b' :: (cs ++ ['\x7d'])) (.value (.object ms))
  | noElements : Denotes spaced [] (.elements [])
  | element {cs : List Char} {t : Tree (List Char)} (h : Denotes spaced cs (.value t)) :
      Denotes spaced cs (.elements [t])
  | moreElements {cs more : List Char} {t t' : Tree (List Char)} {ts : List (Tree (List Char))}
      (h : Denotes spaced cs (.elements [t])) (hmore : Denotes spaced more (.elements (t' :: ts))) :
      Denotes spaced (cs ++ ',' :: more) (.elements (t :: t' :: ts))
  | noMembers : Denotes spaced [] (.members [])
  | member {ns cs : List Char} {name : String} {t : Tree (List Char)}
      (hname : Denotes spaced ns (.value (.string name))) (h : Denotes spaced cs (.value t)) :
      Denotes spaced (ns ++ ':' :: cs) (.members [(name, t)])
  | moreMembers {cs more : List Char} {m m' : String × Tree (List Char)}
      {ms : List (String × Tree (List Char))} (h : Denotes spaced cs (.members [m]))
      (hmore : Denotes spaced more (.members (m' :: ms))) :
      Denotes spaced (cs ++ ',' :: more) (.members (m :: m' :: ms))
  | padded {before cs after : List Char} {m : Meaning} (hspaced : spaced = true)
      (hbefore : Blank before) (hafter : Blank after) (h : Denotes spaced cs m) :
      Denotes spaced (before ++ (cs ++ after)) m

/-! ## Texts of numbers -/

variable {s cs : List Char} {n : Nat} {c : Char} {written : List (String × String)}
  {ms : List (String × Tree (List Char))} {ts : List (Tree (List Char))}

theorem IsDigits.append {ds : List Char} (hcs : IsDigits cs) (hds : ∀ d ∈ ds, d.isDigit) :
    IsDigits (cs ++ ds) :=
  ⟨append_ne_nil_of_left_ne_nil hcs.1 ds, forall_mem_append.mpr ⟨hcs.2, hds⟩⟩

theorem isDigit_of_mem_zeros (h : c ∈ replicate n '0') : c.isDigit := by
  rw [eq_of_mem_replicate h]
  rfl

theorem isWhole_zero : IsWhole ['0'] :=
  ⟨⟨cons_ne_nil _ _, by simp⟩, fun _ h => (cons.inj h).2.symm⟩

theorem isWhole_cons (hzero : c ≠ '0') (hdigits : ∀ d ∈ c :: cs, d.isDigit) :
    IsWhole (c :: cs) :=
  ⟨⟨cons_ne_nil _ _, hdigits⟩, fun _ h => absurd (cons.inj h).1 hzero⟩

theorem isWhole_toDigits (n : Nat) : IsWhole (Nat.toDigits 10 n) := by
  by_cases hn : n = 0
  · rw [hn]
    exact isWhole_zero
  obtain ⟨c, cs, hdigits, hzero⟩ := Decimal.toDigits_eq_cons hn
  rw [hdigits]
  refine isWhole_cons hzero fun d hd => ?_
  rw [← hdigits] at hd
  exact Nat.isDigit_of_mem_toDigits (by decide) (by decide) hd

theorem isMagnitude_toDigits (n : Nat) : IsMagnitude (Nat.toDigits 10 n) :=
  ⟨_, [], [], by rw [append_nil, append_nil], isWhole_toDigits n, .inl rfl, .inl rfl⟩

theorem isNumber_nat (n : Nat) : IsNumber (toString n).toList := by
  rw [Nat.toString_eq_repr, Nat.toList_repr]
  exact .positive (isMagnitude_toDigits n)

theorem toList_negSucc (n : Nat) :
    (toString (Int.negSucc n)).toList = '-' :: Nat.toDigits 10 (n + 1) := by
  rw [Int.toString_eq_repr, Int.repr, String.toList_append, Nat.toList_repr]
  rfl

theorem isNumber_int (n : Int) : IsNumber (toString n).toList := by
  cases n with
  | ofNat n => exact isNumber_nat n
  | negSucc n =>
    rw [toList_negSucc]
    exact .negative (isMagnitude_toDigits (n + 1))

theorem isExponent_exponentText (e : Int) :
    IsExponent ("e" ++ DecimalStyle.exponentText e).toList := by
  have hdigits : IsDigits (toString e.natAbs).toList := by
    rw [Nat.toString_eq_repr, Nat.toList_repr]
    exact (isWhole_toDigits e.natAbs).1
  have hpadded : IsDigits (if (toString e.natAbs).length < 2 then "0" ++ toString e.natAbs
      else toString e.natAbs).toList := by
    split
    · rw [String.toList_append]
      exact isWhole_zero.1.append hdigits.2
    · exact hdigits
  refine .inr ⟨'e', (if e < 0 then "-" else "+").toList, _, ?_, .inl rfl, ?_, hpadded⟩
  · rw [DecimalStyle.exponentText, String.toList_append, String.toList_append]
    rfl
  · split
    · exact .inr (.inr rfl)
    · exact .inr (.inl rfl)

theorem isMagnitude_positional {d : Decimal} (h : d.IsNormal) :
    IsMagnitude (DecimalStyle.positional d) := by
  suffices ∃ whole fraction, DecimalStyle.positional d = whole ++ fraction ∧
      IsWhole whole ∧ IsFraction fraction by
    obtain ⟨whole, fraction, heq, hwhole, hfraction⟩ := this
    exact ⟨whole, fraction, [], by rw [heq, append_nil], hwhole, hfraction, .inl rfl⟩
  obtain ⟨c, cs, hdigits, hzero⟩ := h.head
  have hisDigit := h.isDigit
  rw [hdigits] at hisDigit
  have hne : d.digits ≠ [] := by
    rw [hdigits]
    exact cons_ne_nil c cs
  unfold DecimalStyle.positional
  split
  · -- all digits stand after the point
    refine ⟨['0'], '.' :: (replicate (-d.point).toNat '0' ++ d.digits), by simp, isWhole_zero,
      .inr ⟨_, rfl, append_ne_nil_of_right_ne_nil _ hne, ?_⟩⟩
    exact forall_mem_append.mpr ⟨fun _ => isDigit_of_mem_zeros, h.isDigit⟩
  rename_i hpoint
  dsimp only
  split
  · refine ⟨_, [], (append_nil _).symm, ?_, .inl rfl⟩
    rw [hdigits, cons_append]
    refine isWhole_cons hzero ?_
    rw [← cons_append]
    exact forall_mem_append.mpr ⟨hisDigit, fun _ => isDigit_of_mem_zeros⟩
  · rename_i hlength
    obtain ⟨p, hp⟩ : ∃ p, d.point.toNat = p + 1 := ⟨d.point.toNat - 1, by omega⟩
    refine ⟨_, _, rfl, ?_, .inr ⟨_, rfl, ?_, ?_⟩⟩
    · rw [hdigits, hp, take_succ_cons]
      exact isWhole_cons hzero fun x hx =>
        hisDigit x (cons_subset_cons c (take_subset p cs) hx)
    · exact fun hnil => hlength (drop_eq_nil_iff.mp hnil)
    · exact fun x hx => h.isDigit x (mem_of_mem_drop hx)

theorem isMagnitude_scientific {d : Decimal} (h : d.IsNormal) :
    IsMagnitude (DecimalStyle.scientific d).toList := by
  obtain ⟨c, cs, hdigits, hzero⟩ := h.head
  have hisDigit := h.isDigit
  rw [hdigits] at hisDigit
  have hwhole : IsWhole [c] :=
    isWhole_cons hzero (by simpa using (forall_mem_cons.mp hisDigit).1)
  have hexponent := isExponent_exponentText (d.point - 1)
  rw [DecimalStyle.scientific, hdigits]
  cases cs with
  | nil =>
    refine ⟨[c], [], _, ?_, hwhole, .inl rfl, hexponent⟩
    simp
  | cons c' cs =>
    refine ⟨[c], '.' :: c' :: cs, _, ?_, hwhole, .inr ⟨_, rfl, cons_ne_nil _ _, ?_⟩, hexponent⟩
    · simp
    · exact (forall_mem_cons.mp hisDigit).2

/-- The text of a number without its sign. -/
def magnitudeText (d : Decimal) : String :=
  if numberStyle.fromExponent ≤ d.point - 1 ∧ d.point - 1 < numberStyle.toExponent then
    String.ofList (DecimalStyle.positional d)
  else DecimalStyle.scientific d

theorem isMagnitude_magnitudeText {m : Nat} {e : Int} (h : m < Nat.pow 2 53)
    (hlow : Double.leastExponent ≤ e) (hhigh : e ≤ Double.greatestExponent) :
    IsMagnitude (magnitudeText (Decimal.shortest m e)).toList := by
  by_cases hm : m = 0
  · have hzero : magnitudeText (Decimal.shortest m e) = "0" := by
      rw [Decimal.shortest, if_pos hm]
      decide
    rw [hzero]
    exact ⟨['0'], [], [], rfl, isWhole_zero, .inl rfl, .inl rfl⟩
  · have hnormal := Decimal.isNormal_shortest hm h hlow hhigh
    unfold magnitudeText
    split
    · rw [String.toList_ofList]
      exact isMagnitude_positional hnormal
    · exact isMagnitude_scientific hnormal

/-- **A finite number is written as a number.** -/
theorem isNumber_write {x : Double} (hfinite : x.isFinite) (hbinary : x.isBinary) :
    IsNumber (numberStyle.write x).toList := by
  cases x with
  | nan => cases hfinite
  | infinite negative => cases hfinite
  | finite negative m e =>
    simp only [Double.isBinary, Bool.and_eq_true, decide_eq_true_eq] at hbinary
    have hmagnitude := isMagnitude_magnitudeText hbinary.1.1 hbinary.1.2 hbinary.2
    cases negative with
    | false => exact .positive hmagnitude
    | true =>
      have htext : (numberStyle.write (.finite true m e)).toList =
          '-' :: (magnitudeText (Decimal.shortest m e)).toList := String.toList_append
      rw [htext]
      exact .negative hmagnitude

/-! ## Texts of strings -/

theorem Chars.append {ds t : List Char} (hcs : Chars cs s) (hds : Chars ds t) :
    Chars (cs ++ ds) (s ++ t) := by
  induction hcs with
  | nil => exact hds
  | plain hquote hbackslash hcontrol _ ih => exact .plain hquote hbackslash hcontrol ih
  | letter hletter _ ih => exact .letter hletter ih
  | code hcode hsurrogate _ ih => exact .code hcode hsurrogate ih
  | pair hhigh hlow hpaired _ ih => exact .pair hhigh hlow hpaired ih

/-- Pieces, each for one character, are the characters of a string. -/
theorem chars_flatMap {α : Type} {piece : α → List Char} {meaning : α → Char}
    (h : ∀ a, Chars (piece a) [meaning a]) (as : List α) :
    Chars (as.flatMap piece) (as.map meaning) := by
  induction as with
  | nil => exact .nil
  | cons a as ih =>
    rw [flatMap_cons]
    exact (h a).append ih

theorem chars_escaped (c : Char) : Chars (escaped c) [c] := by
  rcases escaped_cases c with ⟨letter, hc, hletter⟩ | ⟨w, x, y, z, hc, hcode⟩ |
    ⟨hc, hquote, hbackslash, hcontrol⟩
  · rw [hc]
    exact .letter hletter .nil
  · have hcharacter := Chars.code hcode (isSurrogate_toNat c) .nil
    rwa [Char.ofNat_toNat, ← hc] at hcharacter
  · rw [hc]
    exact .plain hquote hbackslash hcontrol .nil

/-- What a byte that belongs to no character is written as. -/
theorem chars_garbledPiece (c : Option Char) :
    Chars (garbledPiece c) [c.getD Text.replacement] := by
  cases c with
  | none =>
    have hcode : fourHex? 'f' 'f' 'f' 'd' = some 0xfffd := by decide
    exact .code hcode (by decide) .nil
  | some c => exact chars_escaped c

theorem chars_base64Digit (n : Nat) : Chars [Text.base64Digit n] [Text.base64Digit n] := by
  have hdigits : ∀ n < 63, Text.base64Digit n ≠ '"' ∧ Text.base64Digit n ≠ '\\' ∧
      ¬ (Text.base64Digit n).toNat < 32 := by decide
  by_cases hn : n < 63
  · obtain ⟨hquote, hbackslash, hcontrol⟩ := hdigits n hn
    exact .plain hquote hbackslash hcontrol .nil
  have hslash : Text.base64Digit n = '/' := by
    unfold Text.base64Digit
    rw [if_neg (by omega), if_neg (by omega), if_neg (by omega), if_neg (by omega)]
  rw [hslash]
  exact .plain (by decide) (by decide) (by decide) .nil

theorem chars_base64 (bs : List UInt8) : Chars (Text.base64 bs) (Text.base64 bs) := by
  have hpad : Chars ['='] ['='] := .plain (by decide) (by decide) (by decide) .nil
  fun_induction Text.base64 bs with
  | case1 => exact .nil
  | case2 a n =>
    exact (chars_base64Digit _).append ((chars_base64Digit _).append (hpad.append hpad))
  | case3 a b n =>
    exact (chars_base64Digit _).append
      ((chars_base64Digit _).append ((chars_base64Digit _).append hpad))
  | case4 a b c rest n ih =>
    exact (chars_base64Digit _).append ((chars_base64Digit _).append
      ((chars_base64Digit _).append ((chars_base64Digit _).append ih)))

section Texts

variable {spaced : Bool}

theorem denotes_string (s : String) : Denotes spaced (string s).toList (.value (.string s)) := by
  have hchars : Chars (s.toList.flatMap escaped) (s.toList.map id) :=
    chars_flatMap chars_escaped s.toList
  rw [map_id] at hchars
  have hdenotes : Denotes spaced _ _ := .string hchars
  rwa [String.ofList_toList, ← toList_string] at hdenotes

/-! ## Texts of lists and objects -/

theorem denotes_elements {texts : List (List Char)}
    (h : List.Forall₂ (fun text t => Denotes spaced text (.value t)) texts ts) :
    Denotes spaced ([','].intercalate texts) (.elements ts) := by
  induction h with
  | nil => exact .noElements
  | @cons text t texts ts ht hts ih =>
    cases hts with
    | nil =>
      rw [intercalate_singleton]
      exact .element ht
    | cons ht' hts =>
      rw [intercalate_cons_cons, append_assoc]
      exact .moreElements (.element ht) ih

theorem denotes_array {texts : List String}
    (h : List.Forall₂ (fun text t => Denotes spaced text.toList (.value t)) texts ts) :
    Denotes spaced (array texts).toList (.value (.array ts)) := by
  rw [toList_array]
  refine .array (denotes_elements ?_)
  rw [forall₂_map_left_iff]
  exact h

theorem denotes_members
    (h : List.Forall₂ (fun w m => w.1 = m.1 ∧ Denotes spaced w.2.toList (.value m.2)) written ms) :
    Denotes spaced ([','].intercalate (written.map memberText)) (.members ms) := by
  have hmember : ∀ {w : String × String} {m : String × Tree (List Char)},
      w.1 = m.1 ∧ Denotes spaced w.2.toList (.value m.2) →
        Denotes spaced (memberText w) (.members [m]) := by
    rintro ⟨name, text⟩ ⟨_, t⟩ ⟨rfl, ht⟩
    exact .member (denotes_string name) ht
  induction h with
  | nil => exact .noMembers
  | @cons w m written ms hm hms ih =>
    cases hms with
    | nil =>
      rw [map_singleton, intercalate_singleton]
      exact hmember hm
    | cons hm' hms =>
      rw [map_cons, map_cons, intercalate_cons_cons, append_assoc]
      exact .moreMembers (hmember hm) ih

theorem denotes_object
    (h : List.Forall₂ (fun w m => w.1 = m.1 ∧ Denotes spaced w.2.toList (.value m.2)) written ms) :
    Denotes spaced (object written).toList (.value (.object ms)) := by
  rw [toList_object]
  exact .object (denotes_members h)

end Texts

/-- What is a text without white space is one with it. -/
theorem Denotes.withSpace {m : Meaning} (h : Denotes false cs m) : Denotes true cs m := by
  induction h with
  | null => exact .null
  | isFalse => exact .isFalse
  | isTrue => exact .isTrue
  | number h => exact .number h
  | string h => exact .string h
  | array _ ih => exact .array ih
  | object _ ih => exact .object ih
  | noElements => exact .noElements
  | element _ ih => exact .element ih
  | moreElements _ _ ih ihmore => exact .moreElements ih ihmore
  | noMembers => exact .noMembers
  | member _ _ ihname ih => exact .member ihname ih
  | moreMembers _ _ ih ihmore => exact .moreMembers ih ihmore
  | padded hspaced => cases hspaced

/-- **A text without white space that stands for a value.** -/
def IsText (s : String) : Prop := ∃ t, Denotes false s.toList (.value t)

theorem isText_string (s : String) : IsText (string s) := ⟨_, denotes_string s⟩

theorem isText_chars (h : Chars cs s) : IsText (String.ofList ('"' :: (cs ++ ['"']))) := by
  refine ⟨.string (String.ofList s), ?_⟩
  rw [String.toList_ofList]
  exact .string h

theorem isText_number {s : String} (h : IsNumber s.toList) : IsText s := ⟨_, .number h⟩

theorem isText_bool (b : Bool) : IsText (if b then "true" else "false") := by
  cases b with
  | false => exact ⟨_, .isFalse⟩
  | true => exact ⟨_, .isTrue⟩

theorem isText_array {texts : List String} (h : ∀ text ∈ texts, IsText text) :
    IsText (array texts) := by
  have hts : ∃ ts, List.Forall₂ (fun text t => Denotes false text.toList (.value t)) texts ts := by
    induction texts with
    | nil => exact ⟨[], .nil⟩
    | cons text texts ih =>
      obtain ⟨⟨t, ht⟩, h⟩ := forall_mem_cons.mp h
      obtain ⟨ts, hts⟩ := ih h
      exact ⟨t :: ts, .cons ht hts⟩
  obtain ⟨ts, hts⟩ := hts
  exact ⟨.array ts, denotes_array hts⟩

/-- Members with their meanings. -/
theorem exists_members (h : ∀ w ∈ written, IsText w.2) :
    ∃ ms : List (String × Tree (List Char)), ms.map Prod.fst = written.map Prod.fst ∧
      List.Forall₂ (fun w m => w.1 = m.1 ∧ Denotes false w.2.toList (.value m.2)) written ms := by
  induction written with
  | nil => exact ⟨[], rfl, .nil⟩
  | cons w written ih =>
    obtain ⟨⟨t, ht⟩, h⟩ := forall_mem_cons.mp h
    obtain ⟨ms, hnames, hms⟩ := ih h
    exact ⟨(w.1, t) :: ms, by rw [map_cons, map_cons, hnames], .cons ⟨rfl, ht⟩ hms⟩

theorem isText_object (h : ∀ w ∈ written, IsText w.2) : IsText (object written) := by
  obtain ⟨ms, -, hms⟩ := exists_members h
  exact ⟨.object ms, denotes_object hms⟩

/-! ## Brackets -/

/-- **Reading over a text**: where the next character stands, and how many brackets are open. -/
def scan (s : Place × Int) (c : Char) : Place × Int :=
  (s.1.after c,
    if s.1 = .outside then
      if isOpening c then s.2 + 1 else if isClosing c then s.2 - 1 else s.2
    else s.2)

/-- Whether a character has no part in how a text is laid out. -/
def isPlain (c : Char) : Bool :=
  c != '"' && !isOpening c && !isClosing c && c != ',' && c != ':'

theorem isPlain_of_isSpace (h : isSpace c) : isPlain c := by
  simp only [isSpace, Bool.or_eq_true, beq_iff_eq] at h
  rcases h with ((rfl | rfl) | rfl) | rfl <;> rfl

theorem isPlain_of_isDigit (h : c.isDigit) : isPlain c := by
  have hne : ∀ d : Char, d.isDigit = false → c ≠ d := by
    rintro d hd rfl
    rw [h] at hd
    cases hd
  have hquote := hne '"' rfl
  have hcomma := hne ',' rfl
  have hcolon := hne ':' rfl
  have hopening := And.intro (hne '[' rfl) (hne '\x7b' rfl)
  have hclosing := And.intro (hne ']' rfl) (hne '\x7d' rfl)
  simp [isPlain, isOpening, isClosing, hquote, hcomma, hcolon, hopening, hclosing]

theorem IsFraction.isPlain (h : IsFraction cs) : ∀ c ∈ cs, isPlain c := by
  rcases h with rfl | ⟨ds, rfl, hds⟩
  · exact forall_mem_nil _
  · exact forall_mem_cons.mpr ⟨rfl, fun c hc => isPlain_of_isDigit (hds.2 c hc)⟩

theorem IsExponent.isPlain (h : IsExponent cs) : ∀ c ∈ cs, isPlain c := by
  rcases h with rfl | ⟨e, sign, ds, rfl, he, hsign, hds⟩
  · exact forall_mem_nil _
  refine forall_mem_cons.mpr ⟨?_, forall_mem_append.mpr ⟨?_, ?_⟩⟩
  · rcases he with rfl | rfl <;> rfl
  · rcases hsign with rfl | rfl | rfl <;> simp [Json.isPlain, isOpening, isClosing]
  · exact fun c hc => isPlain_of_isDigit (hds.2 c hc)

theorem IsMagnitude.isPlain (h : IsMagnitude cs) : ∀ c ∈ cs, isPlain c := by
  obtain ⟨whole, fraction, exponent, rfl, hwhole, hfraction, hexponent⟩ := h
  refine forall_mem_append.mpr ⟨fun c hc => isPlain_of_isDigit (hwhole.1.2 c hc), ?_⟩
  exact forall_mem_append.mpr ⟨hfraction.isPlain, hexponent.isPlain⟩

theorem IsNumber.isPlain (h : IsNumber cs) : ∀ c ∈ cs, isPlain c := by
  cases h with
  | positive h => exact h.isPlain
  | negative h => exact forall_mem_cons.mpr ⟨rfl, h.isPlain⟩

theorem foldl_scan_plain (h : ∀ c ∈ cs, isPlain c) (n : Int) :
    cs.foldl scan (.outside, n) = (.outside, n) := by
  induction cs with
  | nil => rfl
  | cons c cs ih =>
    obtain ⟨hc, hcs⟩ := forall_mem_cons.mp h
    have hstep : scan (.outside, n) c = (.outside, n) := by
      simp only [isPlain, Bool.and_eq_true, bne_iff_ne, Bool.not_eq_true'] at hc
      simp [scan, Place.after, hc]
    rw [foldl_cons, hstep]
    exact ih hcs

theorem ne_of_hexValue? (h : hexValue? c = some n) : c ≠ '"' ∧ c ≠ '\\' := by
  constructor
  · rintro rfl
    cases h
  · rintro rfl
    cases h

theorem exists_hexValue?_of_fourHex? {w x y z : Char} (h : fourHex? w x y z = some n) :
    ∀ c ∈ [w, x, y, z], ∃ m, hexValue? c = some m := by
  simp only [fourHex?, Option.bind_eq_bind, Option.bind_eq_some_iff] at h
  obtain ⟨_, hw, _, hx, _, hy, _, hz, -⟩ := h
  simp [hw, hx, hy, hz]

/-- **The characters lead to the end of a string**, and not beyond it. -/
inductive Inside : Place → List Char → Prop
  | done : Inside .inString []
  | step {p : Place} {c : Char} {cs : List Char} (hp : p ≠ .outside) (h : Inside (p.after c) cs) :
      Inside p (c :: cs)

theorem Inside.plain (hc : c ≠ '"' ∧ c ≠ '\\') (h : Inside .inString cs) :
    Inside .inString (c :: cs) := by
  refine .step Place.noConfusion ?_
  rw [Place.after, if_neg hc.1, if_neg hc.2]
  exact h

theorem Inside.escape (h : Inside .inString cs) : Inside .inString ('\\' :: c :: cs) :=
  .step Place.noConfusion (.step Place.noConfusion h)

theorem Inside.code {w x y z : Char} (hcode : fourHex? w x y z = some n) (h : Inside .inString cs) :
    Inside .inString ('\\' :: 'u' :: w :: x :: y :: z :: cs) := by
  have hdigits := exists_hexValue?_of_fourHex? hcode
  simp only [forall_mem_cons] at hdigits
  obtain ⟨⟨_, hw⟩, ⟨_, hx⟩, ⟨_, hy⟩, ⟨_, hz⟩, -⟩ := hdigits
  exact .escape (.plain (ne_of_hexValue? hw) (.plain (ne_of_hexValue? hx)
    (.plain (ne_of_hexValue? hy) (.plain (ne_of_hexValue? hz) h))))

theorem Chars.inside (h : Chars cs s) : Inside .inString cs := by
  induction h with
  | nil => exact .done
  | plain hquote hbackslash _ _ ih => exact .plain ⟨hquote, hbackslash⟩ ih
  | letter _ _ ih => exact .escape ih
  | code hcode _ _ ih => exact .code hcode ih
  | pair hhigh hlow _ _ ih => exact .code hhigh (.code hlow ih)

theorem Inside.foldl_scan {p : Place} (h : Inside p cs) (n : Int) :
    cs.foldl scan (p, n) = (.inString, n) := by
  induction h with
  | done => rfl
  | @step p c cs hp _ ih =>
    have hstep : scan (p, n) c = (p.after c, n) := by simp [scan, hp]
    rw [foldl_cons, hstep]
    exact ih

/-- **In a text of the grammar every bracket is closed.** -/
theorem Denotes.foldl_scan {spaced : Bool} {m : Meaning} (h : Denotes spaced cs m) (n : Int) :
    cs.foldl scan (.outside, n) = (.outside, n) := by
  induction h generalizing n with
  | null => exact foldl_scan_plain (all_eq_true.mp (by decide)) n
  | isFalse => exact foldl_scan_plain (all_eq_true.mp (by decide)) n
  | isTrue => exact foldl_scan_plain (all_eq_true.mp (by decide)) n
  | number h => exact foldl_scan_plain h.isPlain n
  | string h =>
    rw [foldl_cons, foldl_append]
    exact congrArg (scan · '"') (h.inside.foldl_scan n)
  | array _ ih =>
    rw [foldl_cons, foldl_append]
    refine (congrArg (scan · ']') (ih (n + 1))).trans ?_
    exact Prod.ext rfl (Int.add_sub_cancel n 1)
  | object _ ih =>
    rw [foldl_cons, foldl_append]
    refine (congrArg (scan · '\x7d') (ih (n + 1))).trans ?_
    exact Prod.ext rfl (Int.add_sub_cancel n 1)
  | noElements => rfl
  | element _ ih => exact ih n
  | moreElements _ _ ih ihmore =>
    rw [foldl_append, ih n]
    exact ihmore n
  | noMembers => rfl
  | member _ _ ihname ih =>
    rw [foldl_append, ihname n]
    exact ih n
  | moreMembers _ _ ih ihmore =>
    rw [foldl_append, ih n]
    exact ihmore n
  | padded _ hbefore hafter _ ih =>
    rw [foldl_append, foldl_append,
      foldl_scan_plain (fun c hc => isPlain_of_isSpace (hbefore c hc)), ih n,
      foldl_scan_plain (fun c hc => isPlain_of_isSpace (hafter c hc))]

end TreeQuery.Json
