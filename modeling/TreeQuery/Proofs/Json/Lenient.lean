import TreeQuery.Json.Number
import TreeQuery.Proofs.Json.Grammar

/-!
# A lenient grammar

Arguments are read by a lenient reader.  `Loosely` says which texts it takes, and for which trees,
as `Denotes` does for JSON; like that it mentions no reader.  It has the rules of JSON with four
allowances and one restriction:

* a number is any run of the characters of numbers, if it begins with a digit or a minus sign;
* behind an escape, a string may hold raw control characters;
* half of a surrogate pair is taken, for the replacement character;
* the word `null` may stand for the name of any member but the first;
* brackets nest only so deep.

Hence JSON texts are taken for the trees they stand for, as long as they do not nest too deep
(`Denotes.loose`).
-/

namespace TreeQuery.Json

open List TreeQuery.Json.Tree

/-! ## Strings -/

/-- **The characters that a lenient reader takes for a string**, and what it makes of them.  Behind
an escape (`escaped`) raw control characters are taken as well.  Half of a surrogate pair is the
replacement character; a code behind it is taken with it, be it the other half or not. -/
inductive LooseChars : Bool → List Char → List Char → Prop
  | nil {escaped : Bool} : LooseChars escaped [] []
  | plain {escaped : Bool} {c : Char} {cs s : List Char} (hquote : c ≠ '"') (hbackslash : c ≠ '\\')
      (hcontrol : ¬ (c.toNat < 32 ∧ ¬ escaped)) (hrest : LooseChars escaped cs s) :
      LooseChars escaped (c :: cs) (c :: s)
  | letter {escaped : Bool} {letter c : Char} {cs s : List Char}
      (hletter : escapeChar? letter = some c) (hrest : LooseChars true cs s) :
      LooseChars escaped ('\\' :: letter :: cs) (c :: s)
  | code {escaped : Bool} {w x y z : Char} {n : Nat} {cs s : List Char}
      (hcode : fourHex? w x y z = some n)
      (halone : isSurrogate n = true → ¬ ['\\', 'u'] <+: cs) (hrest : LooseChars true cs s) :
      LooseChars escaped ('\\' :: 'u' :: w :: x :: y :: z :: cs) (charOf n :: s)
  | pair {escaped : Bool} {w x y z w' x' y' z' c : Char} {high low : Nat} {cs s : List Char}
      (hhigh : fourHex? w x y z = some high) (hlow : fourHex? w' x' y' z' = some low)
      (hpaired : paired? high low = some c) (hrest : LooseChars true cs s) :
      LooseChars escaped
        ('\\' :: 'u' :: w :: x :: y :: z :: '\\' :: 'u' :: w' :: x' :: y' :: z' :: cs) (c :: s)
  | halves {escaped : Bool} {w x y z w' x' y' z' : Char} {first second : Nat} {cs s : List Char}
      (hfirst : fourHex? w x y z = some first) (hsecond : fourHex? w' x' y' z' = some second)
      (hsurrogate : isSurrogate first = true) (hpaired : paired? first second = none)
      (hrest : LooseChars true cs s) :
      LooseChars escaped
        ('\\' :: 'u' :: w :: x :: y :: z :: '\\' :: 'u' :: w' :: x' :: y' :: z' :: cs)
        (charOf first :: charOf second :: s)

theorem isSurrogate_of_paired? {high low : Nat} {c : Char} (h : paired? high low = some c) :
    isSurrogate high := by
  rw [paired?] at h
  split at h
  · rename_i hrange
    rw [isSurrogate, Bool.and_eq_true]
    exact ⟨decide_eq_true hrange.1, decide_eq_true (by omega)⟩
  · cases h

variable {cs : List Char}

/-- What the grammar has for a string is taken, as what it stands for. -/
theorem Chars.looseChars {s : List Char} (h : Chars cs s) (escaped : Bool) :
    LooseChars escaped cs s := by
  induction h generalizing escaped with
  | nil => exact .nil
  | plain hquote hbackslash hcontrol _ ih =>
    exact .plain hquote hbackslash (fun hlow => hcontrol hlow.1) (ih escaped)
  | letter hletter _ ih => exact .letter hletter (ih true)
  | @code w x y z n cs s hcode hsurrogate _ ih =>
    have hcharacter : charOf n = Char.ofNat n := by
      rw [charOf, hsurrogate, if_neg Bool.false_ne_true]
    rw [← hcharacter]
    refine .code hcode (fun hhalf => ?_) (ih true)
    rw [hsurrogate] at hhalf
    cases hhalf
  | pair hhigh hlow hpaired _ ih => exact .pair hhigh hlow hpaired (ih true)

theorem LooseChars.length_le {escaped : Bool} {s : List Char} (h : LooseChars escaped cs s) :
    s.length ≤ cs.length := by
  induction h with
  | nil => exact Nat.le_refl _
  | plain _ _ _ _ ih => exact Nat.succ_le_succ ih
  | letter _ _ ih | code _ _ _ ih | pair _ _ _ _ ih | halves _ _ _ _ _ ih =>
    simp only [List.length_cons]
    omega

/-! ## Values -/

/-- A run of characters of numbers that begins as a number does. -/
def IsRun (cs : List Char) : Prop :=
  (∃ c rest, cs = c :: rest ∧ (c.isDigit ∨ c = '-')) ∧ ∀ c ∈ cs, isNumberChar c = true

/-- **What a part of a text is taken for**: a value, what stands between brackets, or the name of a
member, which may be the `first` of its object or not. -/
inductive Part where
  | value (t : Tree (List Char))
  | elements (ts : List (Tree (List Char)))
  | name (first : Bool) (name : String)
  | members (first : Bool) (ms : List (String × Tree (List Char)))

/-- **The texts that a lenient reader takes**, when `depth` levels of brackets may be opened. -/
inductive Loosely : Nat → List Char → Part → Prop
  | null {depth : Nat} : Loosely depth ['n', 'u', 'l', 'l'] (.value .null)
  | isFalse {depth : Nat} : Loosely depth ['f', 'a', 'l', 's', 'e'] (.value (.bool false))
  | isTrue {depth : Nat} : Loosely depth ['t', 'r', 'u', 'e'] (.value (.bool true))
  | number {depth : Nat} {cs : List Char} (h : IsRun cs) : Loosely depth cs (.value (.number cs))
  | string {depth : Nat} {cs s : List Char} (h : LooseChars false cs s) :
      Loosely depth ('"' :: (cs ++ ['"'])) (.value (.string (String.ofList s)))
  | array {depth : Nat} {cs : List Char} {ts : List (Tree (List Char))}
      (h : Loosely depth cs (.elements ts)) :
      Loosely (depth + 1) ('[' :: (cs ++ [']'])) (.value (.array ts))
  | object {depth : Nat} {cs : List Char} {ms : List (String × Tree (List Char))}
      (h : Loosely depth cs (.members true ms)) :
      Loosely (depth + 1) ('\x7b' :: (cs ++ ['\x7d'])) (.value (.object ms))
  | noElements {depth : Nat} : Loosely depth [] (.elements [])
  | element {depth : Nat} {cs : List Char} {t : Tree (List Char)}
      (h : Loosely depth cs (.value t)) : Loosely depth cs (.elements [t])
  | moreElements {depth : Nat} {cs more : List Char} {t t' : Tree (List Char)}
      {ts : List (Tree (List Char))} (h : Loosely depth cs (.value t))
      (hmore : Loosely depth more (.elements (t' :: ts))) :
      Loosely depth (cs ++ ',' :: more) (.elements (t :: t' :: ts))
  | named {depth : Nat} {first : Bool} {cs s : List Char} (h : LooseChars false cs s) :
      Loosely depth ('"' :: (cs ++ ['"'])) (.name first (String.ofList s))
  | unnamed {depth : Nat} : Loosely depth ['n', 'u', 'l', 'l'] (.name false "")
  | noMembers {depth : Nat} {first : Bool} : Loosely depth [] (.members first [])
  | member {depth : Nat} {first : Bool} {ns cs : List Char} {name : String} {t : Tree (List Char)}
      (hname : Loosely depth ns (.name first name)) (h : Loosely depth cs (.value t)) :
      Loosely depth (ns ++ ':' :: cs) (.members first [(name, t)])
  | moreMembers {depth : Nat} {first : Bool} {ns cs more : List Char} {name : String}
      {t : Tree (List Char)} {m : String × Tree (List Char)}
      {ms : List (String × Tree (List Char))} (hname : Loosely depth ns (.name first name))
      (h : Loosely depth cs (.value t)) (hmore : Loosely depth more (.members false (m :: ms))) :
      Loosely depth (ns ++ ':' :: (cs ++ ',' :: more)) (.members first ((name, t) :: m :: ms))
  | padded {depth : Nat} {before cs after : List Char} {p : Part} (hbefore : Blank before)
      (hafter : Blank after) (h : Loosely depth cs p) : Loosely depth (before ++ (cs ++ after)) p

variable {p : Part}

theorem Loosely.behind {depth : Nat} {before : List Char} (hbefore : Blank before)
    (h : Loosely depth cs p) : Loosely depth (before ++ cs) p := by
  have hpadded := Loosely.padded hbefore blank_nil h
  rwa [append_nil] at hpadded

theorem Loosely.ahead {depth : Nat} {after : List Char} (hafter : Blank after)
    (h : Loosely depth cs p) : Loosely depth (cs ++ after) p :=
  .padded blank_nil hafter h

/-! ## Depth -/

namespace Tree

mutual

/-- **How deep brackets nest** in a tree. -/
def depth {ν : Type} : Tree ν → Nat
  | .array ts => elementsDepth ts + 1
  | .object ms => membersDepth ms + 1
  | _ => 0

/-- How deep brackets nest in one of the elements. -/
def elementsDepth {ν : Type} : List (Tree ν) → Nat
  | [] => 0
  | t :: ts => max (depth t) (elementsDepth ts)

/-- How deep brackets nest in one of the members. -/
def membersDepth {ν : Type} : List (String × Tree ν) → Nat
  | [] => 0
  | (_, t) :: ms => max (depth t) (membersDepth ms)

end

end Tree

/-- How deep brackets nest in a part of a text. -/
def Part.depth : Part → Nat
  | .value t => t.depth
  | .elements ts => elementsDepth ts
  | .name _ _ => 0
  | .members _ ms => membersDepth ms

theorem Loosely.depth_le {depth : Nat} (h : Loosely depth cs p) :
    p.depth ≤ depth := by
  induction h with
  | null | isFalse | isTrue | number | string | noElements | named | unnamed | noMembers =>
    exact Nat.zero_le _
  | array _ ih | object _ ih => exact Nat.succ_le_succ ih
  | element _ ih => exact Nat.max_le.mpr ⟨ih, Nat.zero_le _⟩
  | moreElements _ _ ih ihmore => exact Nat.max_le.mpr ⟨ih, ihmore⟩
  | member _ _ _ ih => exact Nat.max_le.mpr ⟨ih, Nat.zero_le _⟩
  | moreMembers _ _ _ _ ih ihmore => exact Nat.max_le.mpr ⟨ih, ihmore⟩
  | padded _ _ _ ih => exact ih

/-- A text may be taken where more levels may be opened. -/
theorem Loosely.mono {depth depth' : Nat} (h : Loosely depth cs p)
    (hle : depth ≤ depth') : Loosely depth' cs p := by
  induction h generalizing depth' with
  | null => exact .null
  | isFalse => exact .isFalse
  | isTrue => exact .isTrue
  | number h => exact .number h
  | string h => exact .string h
  | array _ ih =>
    obtain ⟨k, rfl⟩ : ∃ k, depth' = k + 1 := Nat.exists_eq_add_of_le' (by omega)
    exact .array (ih (Nat.le_of_succ_le_succ hle))
  | object _ ih =>
    obtain ⟨k, rfl⟩ : ∃ k, depth' = k + 1 := Nat.exists_eq_add_of_le' (by omega)
    exact .object (ih (Nat.le_of_succ_le_succ hle))
  | noElements => exact .noElements
  | element _ ih => exact .element (ih hle)
  | moreElements _ _ ih ihmore => exact .moreElements (ih hle) (ihmore hle)
  | named h => exact .named h
  | unnamed => exact .unnamed
  | noMembers => exact .noMembers
  | member _ _ ihname ih => exact .member (ihname hle) (ih hle)
  | moreMembers _ _ _ ihname ih ihmore => exact .moreMembers (ihname hle) (ih hle) (ihmore hle)
  | padded hbefore hafter _ ih => exact .padded hbefore hafter (ih hle)

/-! ## The grammar is part of it -/

theorem isNumberChar_of_isDigit {c : Char} (h : c.isDigit) : isNumberChar c := by
  simp [isNumberChar, h]

theorem IsMagnitude.isRun (h : IsMagnitude cs) : IsRun cs := by
  obtain ⟨whole, fraction, exponent, rfl, hwhole, hfraction, hexponent⟩ := h
  obtain ⟨c, ds, rfl⟩ := exists_cons_of_ne_nil hwhole.1.1
  refine ⟨⟨c, ds ++ (fraction ++ exponent), rfl, .inl (hwhole.1.2 c mem_cons_self)⟩, ?_⟩
  refine forall_mem_append.mpr ⟨fun d hd => isNumberChar_of_isDigit (hwhole.1.2 d hd),
    forall_mem_append.mpr ⟨?_, ?_⟩⟩
  · rcases hfraction with rfl | ⟨fs, rfl, hfs⟩
    · exact forall_mem_nil _
    · exact forall_mem_cons.mpr ⟨rfl, fun d hd => isNumberChar_of_isDigit (hfs.2 d hd)⟩
  rcases hexponent with rfl | ⟨e, sign, es, rfl, he, hsign, hes⟩
  · exact forall_mem_nil _
  refine forall_mem_cons.mpr ⟨?_, forall_mem_append.mpr ⟨?_, ?_⟩⟩
  · rcases he with rfl | rfl <;> rfl
  · rcases hsign with rfl | rfl | rfl <;> simp [isNumberChar]
  · exact fun d hd => isNumberChar_of_isDigit (hes.2 d hd)

theorem IsNumber.isRun (h : IsNumber cs) : IsRun cs := by
  cases h with
  | positive h => exact h.isRun
  | @negative cs h =>
    exact ⟨⟨'-', cs, rfl, .inr rfl⟩, forall_mem_cons.mpr ⟨rfl, h.isRun.2⟩⟩

theorem Loosely.name_of_string {depth : Nat} {name : String}
    (h : Loosely depth cs (.value (.string name))) (first : Bool) :
    Loosely depth cs (.name first name) := by
  generalize hp : Part.value (.string name) = p at h
  induction h with
  | string h =>
    cases hp
    exact .named h
  | padded hbefore hafter _ ih => exact .padded hbefore hafter (ih hp)
  | _ => cases hp

/-- **What is taken of a part of a JSON text**, when brackets may be opened as deep as they are. -/
def Meaning.Loose (cs : List Char) : Meaning → Prop
  | .value t => ∀ depth, t.depth ≤ depth → Loosely depth cs (.value t)
  | .elements [] => Blank cs
  | .elements [t] => ∀ depth, t.depth ≤ depth → Loosely depth cs (.value t)
  | .elements ts => ∀ depth, elementsDepth ts ≤ depth → Loosely depth cs (.elements ts)
  | .members [] => Blank cs
  | .members [m] => ∃ ns vs, cs = ns ++ ':' :: vs ∧ ∀ depth, m.2.depth ≤ depth →
      (∀ first, Loosely depth ns (.name first m.1)) ∧ Loosely depth vs (.value m.2)
  | .members ms => ∀ depth, membersDepth ms ≤ depth → ∀ first, Loosely depth cs (.members first ms)

theorem Meaning.Loose.elements {ts : List (Tree (List Char))}
    (h : Meaning.Loose cs (.elements ts)) {depth : Nat} (hdepth : elementsDepth ts ≤ depth) :
    Loosely depth cs (.elements ts) := by
  cases ts with
  | nil => exact Loosely.noElements.ahead h
  | cons t ts =>
    cases ts with
    | nil => exact .element (h depth (Nat.max_le.mp hdepth).1)
    | cons t' ts => exact h depth hdepth

theorem Meaning.Loose.members {ms : List (String × Tree (List Char))}
    (h : Meaning.Loose cs (.members ms)) {depth : Nat} (hdepth : membersDepth ms ≤ depth)
    (first : Bool) : Loosely depth cs (.members first ms) := by
  cases ms with
  | nil => exact Loosely.noMembers.ahead h
  | cons m ms =>
    cases ms with
    | nil =>
      obtain ⟨ns, vs, rfl, hparts⟩ := h
      obtain ⟨hname, hvalue⟩ := hparts depth (Nat.max_le.mp hdepth).1
      exact .member (hname first) hvalue
    | cons m' ms => exact h depth hdepth first

theorem Meaning.Loose.padded {before after : List Char} {m : Meaning} (hbefore : Blank before)
    (hafter : Blank after) (h : m.Loose cs) : m.Loose (before ++ (cs ++ after)) := by
  have hblank : Blank cs → Blank (before ++ (cs ++ after)) := fun hcs =>
    forall_mem_append.mpr ⟨hbefore, forall_mem_append.mpr ⟨hcs, hafter⟩⟩
  cases m with
  | value t => exact fun depth hdepth => .padded hbefore hafter (h depth hdepth)
  | elements ts =>
    cases ts with
    | nil => exact hblank h
    | cons t ts =>
      cases ts with
      | nil => exact fun depth hdepth => .padded hbefore hafter (h depth hdepth)
      | cons t' ts => exact fun depth hdepth => .padded hbefore hafter (h depth hdepth)
  | members ms =>
    cases ms with
    | nil => exact hblank h
    | cons m ms =>
      cases ms with
      | nil =>
        obtain ⟨ns, vs, rfl, hparts⟩ := h
        refine ⟨before ++ ns, vs ++ after, by simp, fun depth hdepth => ?_⟩
        obtain ⟨hname, hvalue⟩ := hparts depth hdepth
        exact ⟨fun first => (hname first).behind hbefore, hvalue.ahead hafter⟩
      | cons m' ms => exact fun depth hdepth first => .padded hbefore hafter (h depth hdepth first)

/-- **Every JSON text is taken**, for the tree it stands for. -/
theorem Denotes.loose {spaced : Bool} {m : Meaning} (h : Denotes spaced cs m) :
    m.Loose cs := by
  induction h with
  | null => exact fun _ _ => .null
  | isFalse => exact fun _ _ => .isFalse
  | isTrue => exact fun _ _ => .isTrue
  | number h => exact fun _ _ => .number h.isRun
  | string h => exact fun _ _ => .string (h.looseChars false)
  | array _ ih =>
    intro depth hdepth
    obtain ⟨k, rfl⟩ : ∃ k, depth = k + 1 := Nat.exists_eq_add_of_le' (Nat.le_of_add_left_le hdepth)
    exact .array (ih.elements (Nat.le_of_succ_le_succ hdepth))
  | object _ ih =>
    intro depth hdepth
    obtain ⟨k, rfl⟩ : ∃ k, depth = k + 1 := Nat.exists_eq_add_of_le' (Nat.le_of_add_left_le hdepth)
    exact .object (ih.members (Nat.le_of_succ_le_succ hdepth) true)
  | noElements => exact blank_nil
  | element _ ih => exact ih
  | moreElements _ _ ih ihmore =>
    intro depth hdepth
    obtain ⟨hfirst, hothers⟩ := Nat.max_le.mp hdepth
    exact .moreElements (ih depth hfirst) (ihmore.elements hothers)
  | noMembers => exact blank_nil
  | member _ _ ihname ih =>
    refine ⟨_, _, rfl, fun depth hdepth => ⟨fun first => ?_, ih depth hdepth⟩⟩
    exact (ihname depth (Nat.zero_le depth)).name_of_string first
  | moreMembers _ _ ih ihmore =>
    intro depth hdepth first
    obtain ⟨hfirst, hothers⟩ := Nat.max_le.mp hdepth
    obtain ⟨ns, vs, rfl, hparts⟩ := ih
    obtain ⟨hname, hvalue⟩ := hparts depth hfirst
    rw [append_assoc]
    exact .moreMembers (hname first) hvalue (ihmore.members hothers false)
  | padded _ hbefore hafter _ ih => exact ih.padded hbefore hafter

end TreeQuery.Json
