import TreeQuery.Json.Argument
import TreeQuery.Proofs.Json.LenientReader
import TreeQuery.Proofs.Row

/-!
# What arguments are bound to

A value on the command line is a JSON text or stands for itself.  `StandsFor` says what value a JSON
text stands for, if its numbers are whole and have 64 bits (`Exact`): no number is rounded, at any
depth, and in an object the last member with a name counts.

Since arguments are read leniently, two things are not as that would have it.  A JSON text with
brackets too deep inside each other stands for itself, and a text that is not JSON does so only if
the lenient grammar does not take it, or if it is a run that spells no number (`argument_binds`).
A date is such a run; `007` is one that spells a number.
-/

namespace TreeQuery.Json

open List TreeQuery.Json.Tree

/-! ## What a JSON text stands for -/

/-- **The whole number of a spelling** in the grammar: digits, with a minus sign or without. -/
inductive SpellsWhole : List Char → Int → Prop
  | positive {ds : List Char} (h : IsWhole ds) : SpellsWhole ds (Nat.ofDigitChars 10 ds 0)
  | negative {ds : List Char} (h : IsWhole ds) :
      SpellsWhole ('-' :: ds) (-(Nat.ofDigitChars 10 ds 0 : Int))

/-- A whole number of 64 bits. -/
def IsWord (n : Int) : Prop := -(Nat.pow 2 63 : Int) ≤ n ∧ n < Nat.pow 2 63

/-- **Numbers in the tree are whole, of 64 bits.** -/
inductive Exact : Tree (List Char) → Prop
  | null : Exact .null
  | bool (b : Bool) : Exact (.bool b)
  | string (s : String) : Exact (.string s)
  | number {cs : List Char} {n : Int} (hspells : SpellsWhole cs n) (hword : IsWord n) :
      Exact (.number cs)
  | array {ts : List (Tree (List Char))} (h : ∀ t ∈ ts, Exact t) : Exact (.array ts)
  | object {ms : List (String × Tree (List Char))} (h : ∀ m ∈ ms, Exact m.2) : Exact (.object ms)

/-- The last member of an object with a name. -/
def IsLast (ms : List (String × Tree (List Char))) (name : String) (t : Tree (List Char)) : Prop :=
  ∃ front back, ms = front ++ (name, t) :: back ∧ name ∉ back.map Prod.fst

/-- **The value that a tree stands for.**  An object is a map from its names; of several members
with one name the last one counts. -/
inductive StandsFor : Tree (List Char) → Value → Prop
  | null : StandsFor .null .null
  | bool (b : Bool) : StandsFor (.bool b) (.bool b)
  | text (s : String) : StandsFor (.string s) (.text s)
  | int {cs : List Char} {n : Int} (hspells : SpellsWhole cs n) : StandsFor (.number cs) (.int n)
  | list {ts : List (Tree (List Char))} {vs : List Value} (h : List.Forall₂ StandsFor ts vs) :
      StandsFor (.array ts) (.list vs)
  | map {ms : List (String × Tree (List Char))} {entries : List (String × Value)}
      (hkeys : (entries.map Prod.fst).Nodup)
      (hnames : ∀ name, name ∈ entries.map Prod.fst ↔ name ∈ ms.map Prod.fst)
      (hlast : ∀ e ∈ entries, ∀ t, IsLast ms e.1 t → StandsFor t e.2) :
      StandsFor (.object ms) (.map entries)

/-! ## Exact numbers -/

theorem natOf_eq (ds : List Char) : Spelled.natOf ds = Nat.ofDigitChars 10 ds 0 := by
  rw [Spelled.natOf, Nat.ofDigitChars_eq_foldl]
  congr
  funext n d
  rw [Nat.mul_comm]
  rfl

theorem digits_of_isWhole {ds : List Char} (h : IsWhole ds) :
    (ds.isEmpty || !ds.all Char.isDigit) = false := by
  rw [Bool.or_eq_false_iff, Bool.not_eq_false', all_eq_true]
  exact ⟨by simpa using h.1.1, h.1.2⟩

/-- **A whole number of 64 bits is kept as it is.** -/
theorem whole?_of_spellsWhole {cs : List Char} {n : Int} (hspells : SpellsWhole cs n)
    (hword : IsWord n) : whole? cs = some n := by
  rw [IsWord] at hword
  cases hspells with
  | positive hds =>
    -- digits have no sign in front
    have hsign : ∀ {c : Char} {rest : List Char}, cs = c :: rest → c.isDigit = true := by
      rintro c rest rfl
      exact hds.1.2 c mem_cons_self
    rw [whole?]
    · rw [digits_of_isWhole hds, natOf_eq, if_neg Bool.false_ne_true]
      dsimp only
      rw [if_neg Bool.false_ne_true, if_pos hword]
    · intro rest hminus
      cases hsign hminus
    · intro rest hplus
      cases hsign hplus
  | negative hds =>
    rw [whole?]
    dsimp only
    rw [digits_of_isWhole hds, natOf_eq, if_neg Bool.false_ne_true, if_pos rfl, if_pos hword]

theorem argumentValues_eq_map (ts : List (Tree (List Char))) :
    argumentValues ts = ts.map argumentValue := by
  induction ts with
  | nil => rfl
  | cons t ts ih => rw [argumentValues, ih, map_cons]

theorem argumentMembers_eq_map (ms : List (String × Tree (List Char))) :
    argumentMembers ms = ms.map fun m => (m.1, argumentValue m.2) := by
  induction ms with
  | nil => rfl
  | cons m ms ih =>
    obtain ⟨name, t⟩ := m
    rw [argumentMembers, ih, map_cons]

theorem map_fst_lastWins (entries : List (String × Value)) :
    (lastWins entries).map Prod.fst = (Row.ofList entries).allKeys := by
  rw [lastWins, map_map]
  rfl

/-- The entry of a key holds the value of its last entry. -/
theorem eq_of_mem_lastWins {front back : List (String × Value)} {e : String × Value} {v : Value}
    (h : e ∈ lastWins (front ++ (e.1, v) :: back)) (hback : e.1 ∉ back.map Prod.fst) : e.2 = v := by
  obtain ⟨f, hf, rfl⟩ := mem_map.mp h
  have hget := Row.get?_of_mem (Row.nodup_allKeys_ofList _) hf
  exact Option.some.inj (hget.symm.trans (Row.get?_ofList_of_last hback))

/-- **A tree with exact numbers becomes the value it stands for.** -/
theorem standsFor_argumentValue {t : Tree (List Char)} (h : Exact t) :
    StandsFor t (argumentValue t) := by
  induction h with
  | null => exact .null
  | bool b => exact .bool b
  | string s => exact .text s
  | @number cs n hspells hword =>
    have hvalue : argumentValue (.number cs) = .int n := by
      rw [argumentValue, argumentNumber, whole?_of_spellsWhole hspells hword]
    rw [hvalue]
    exact .int hspells
  | @array ts _ ih =>
    rw [argumentValue, argumentValues_eq_map]
    refine .list ?_
    rw [forall₂_map_right_iff, forall₂_same]
    exact ih
  | @object ms _ ih =>
    rw [argumentValue, argumentMembers_eq_map]
    refine .map ?_ (fun name => ?_) ?_
    · rw [map_fst_lastWins]
      exact Row.nodup_allKeys_ofList _
    · rw [map_fst_lastWins, Row.allKeys_ofList, mem_eraseDups, map_map]
      rfl
    rintro e he t ⟨front, back, rfl, hback⟩
    rw [map_append, map_cons] at he
    have hvalue := eq_of_mem_lastWins he (by rwa [map_map])
    rw [hvalue]
    exact ih (e.1, t) (mem_append_right front mem_cons_self)

/-! ## Texts that stand for themselves -/

/-- The run of characters spells neither a whole number of 64 bits nor a double. -/
def Unspelled (cs : List Char) : Prop :=
  whole? cs = none ∧ ∀ x, Spelled.ofText? cs = some x → x.toDouble.isFinite = false

theorem argumentNumber_eq_text_iff {cs : List Char} {s : String} :
    argumentNumber cs = .text s ↔ Unspelled cs ∧ String.ofList cs = s := by
  rw [argumentNumber, Unspelled]
  split
  · rename_i n hwhole
    rw [hwhole]
    constructor
    · intro h
      cases h
    · rintro ⟨⟨hnone, -⟩, -⟩
      cases hnone
  rename_i hwhole
  rw [hwhole, eq_self, true_and]
  split
  · rename_i negative m e hdouble
    obtain ⟨x, hspelled, hx⟩ := Option.map_eq_some_iff.mp hdouble
    constructor
    · intro h
      cases h
    rintro ⟨hpast, -⟩
    have hfinite := hpast x hspelled
    rw [hx] at hfinite
    cases hfinite
  · rename_i hdouble
    rw [Value.text.injEq]
    refine ⟨fun h => ⟨fun x hspelled => ?_, h⟩, And.right⟩
    cases hx : x.toDouble with
    | finite negative m e =>
      rw [hspelled, Option.map_some, hx] at hdouble
      exact absurd rfl (hdouble negative m e)
    | infinite negative => rfl
    | nan => rfl

/-- A string is shorter than its text. -/
theorem Loosely.length_lt {depth : Nat} {cs : List Char} {s : String}
    (h : Loosely depth cs (.value (.string s))) : s.toList.length < cs.length := by
  generalize hp : Part.value (.string s) = p at h
  induction h with
  | string h =>
    cases hp
    have hle := h.length_le
    simp only [String.toList_ofList, length_cons, length_append]
    omega
  | padded _ _ _ ih =>
    have hlt := ih hp
    simp only [length_append]
    omega
  | _ => cases hp

/-- What is taken for a number is a run, with white space around it. -/
theorem Loosely.isRun {depth : Nat} {cs run : List Char}
    (h : Loosely depth cs (.value (.number run))) : IsRun run := by
  generalize hp : Part.value (.number run) = p at h
  induction h with
  | number h =>
    cases hp
    exact h
  | padded _ _ _ ih => exact ih hp
  | _ => cases hp

/-- **An argument stands for itself** if it is taken for nothing, or if it is a run that spells no
number. -/
theorem argument_eq_text_iff {s : String} :
    argument s = .text s ↔
      (∀ t, ¬ Taken s.toList t) ∨ IsRun s.toList ∧ Unspelled s.toList := by
  cases hread : Tree.read numberText s.toList with
  | none =>
    have hverbatim : argument s = .text s := by rw [argument, hread]
    have hnothing : ∀ t, ¬ Taken s.toList t := by
      intro t htaken
      rw [read_eq_some_iff.mpr htaken] at hread
      cases hread
    exact ⟨fun _ => .inl hnothing, fun _ => hverbatim⟩
  | some t =>
    have htaken := read_eq_some_iff.mp hread
    have hvalue : argument s = argumentValue t := by rw [argument, hread]
    have hrun : IsRun s.toList → t = .number s.toList := by
      intro hrun
      have hwhole : Taken s.toList (.number s.toList) :=
        ⟨s.toList, [], (append_nil _).symm, .number hrun, .inl rfl⟩
      rw [← read_eq_some_iff, hread] at hwhole
      exact Option.some.inj hwhole
    rw [hvalue, or_iff_right (not_forall_not.mpr ⟨t, htaken⟩)]
    obtain ⟨front, after, hcs, hfront, -⟩ := htaken
    constructor
    · intro htext
      cases t with
      | number run =>
        rw [argumentValue, argumentNumber_eq_text_iff] at htext
        obtain ⟨hunspelled, rfl⟩ := htext
        rw [String.toList_ofList]
        exact ⟨hfront.isRun, hunspelled⟩
      | string s' =>
        -- a string is shorter than its text
        cases htext
        have hlt := hfront.length_lt
        rw [hcs, length_append] at hlt
        omega
      | _ => cases htext
    · rintro ⟨hisRun, hunspelled⟩
      rw [hrun hisRun, argumentValue, argumentNumber_eq_text_iff, String.ofList_toList]
      exact ⟨hunspelled, rfl⟩

/-- **What an argument is bound to.**  A JSON text of exact numbers is bound to the value it stands
for, with every number as it is, as long as brackets do not nest too deep in it; else it is bound to
its text.  Any text is bound to itself just when the lenient reader does not take it, or when it is
a run of characters of numbers that spells none. -/
theorem argument_binds (s : String) :
    (∀ t, Denotes true s.toList (.value t) → Exact t →
      (t.depth ≤ maxDepth → StandsFor t (argument s)) ∧
        (maxDepth < t.depth → argument s = .text s)) ∧
    (argument s = .text s ↔
      (∀ t, ¬ Taken s.toList t) ∨ IsRun s.toList ∧ Unspelled s.toList) := by
  refine ⟨fun t hdenotes hexact => ?_, argument_eq_text_iff⟩
  have hread := read_of_denotes hdenotes
  refine ⟨fun hdepth => ?_, fun hdepth => ?_⟩
  · rw [argument, hread, if_pos hdepth]
    exact standsFor_argumentValue hexact
  · rw [argument, hread, if_neg (Nat.not_le.mpr hdepth)]

theorem spellsWhole_toString (n : Int) : SpellsWhole (toString n).toList n := by
  cases n with
  | ofNat n =>
    have hspells := SpellsWhole.positive (isWhole_toDigits n)
    rw [Nat.ofDigitChars_ten_toDigits, ← Nat.toList_repr] at hspells
    exact hspells
  | negSucc n =>
    have hspells := SpellsWhole.negative (isWhole_toDigits (n + 1))
    rw [Nat.ofDigitChars_ten_toDigits, ← toList_negSucc] at hspells
    exact hspells

/-- A number past the exact doubles is bound as it is, inside a list. -/
theorem argument_binds_large :
    ∃ t, Denotes true "[ 9007199254740993]".toList (.value t) ∧
      StandsFor t (argument "[ 9007199254740993]") := by
  have hnumber : Denotes true "9007199254740993".toList
      (.value (.number "9007199254740993".toList)) := .number (isNumber_int 9007199254740993)
  have hspells : SpellsWhole "9007199254740993".toList 9007199254740993 :=
    spellsWhole_toString 9007199254740993
  have hdenotes : Denotes true "[ 9007199254740993]".toList
      (.value (.array [.number "9007199254740993".toList])) :=
    .array (.element (.padded rfl (List.forall_mem_singleton.mpr rfl) blank_nil hnumber))
  have hexact : Exact (.array [.number "9007199254740993".toList]) :=
    .array (List.forall_mem_singleton.mpr (.number hspells ⟨by decide, by decide⟩))
  exact ⟨_, hdenotes, ((argument_binds _).1 _ hdenotes hexact).1 (by decide)⟩

/-! ## Texts that are altered -/

theorem Denotes.isNumber {spaced : Bool} {cs run : List Char}
    (h : Denotes spaced cs (.value (.number run))) : IsNumber run := by
  generalize hm : Meaning.value (.number run) = m at h
  induction h with
  | number h =>
    cases hm
    exact h
  | padded _ _ _ _ ih => exact ih hm
  | _ => cases hm

/-- A number does not begin with a needless zero. -/
theorem not_isNumber_zero {d : Char} (hd : d.isDigit) (cs : List Char) :
    ¬ IsNumber ('0' :: d :: cs) := by
  intro h
  cases h with
  | positive h =>
    obtain ⟨whole, fraction, exponent, hcs, hwhole, hfraction, hexponent⟩ := h
    obtain ⟨c, rest, rfl⟩ := exists_cons_of_ne_nil hwhole.1.1
    obtain ⟨rfl, hrest⟩ := cons.inj hcs
    obtain rfl := hwhole.2 rest rfl
    have hrest : d :: cs = fraction ++ exponent := hrest
    -- what follows the zero is a point or an exponent
    rcases hfraction with rfl | ⟨ds, rfl, -⟩
    · rcases hexponent with rfl | ⟨e, sign, ds, rfl, he, -⟩
      · cases hrest
      · obtain ⟨rfl, -⟩ := cons.inj hrest
        rcases he with rfl | rfl <;> cases hd
    · obtain ⟨rfl, -⟩ := cons.inj hrest
      cases hd

/-- Lists inside each other, as many as there are levels. -/
def nested : Nat → Tree (List Char)
  | 0 => .array []
  | n + 1 => .array [nested n]

/-- The brackets of lists inside each other. -/
def nestedText : Nat → List Char
  | 0 => ['[', ']']
  | n + 1 => '[' :: (nestedText n ++ [']'])

theorem denotes_nestedText (n : Nat) : Denotes true (nestedText n) (.value (nested n)) := by
  induction n with
  | zero => exact .array .noElements
  | succ n ih => exact .array (.element ih)

theorem exact_nested (n : Nat) : Exact (nested n) := by
  induction n with
  | zero => exact .array (forall_mem_nil _)
  | succ n ih => exact .array (forall_mem_singleton.mpr ih)

theorem depth_nested (n : Nat) : (nested n).depth = n + 1 := by
  induction n with
  | zero => rfl
  | succ n ih => rw [nested, depth, elementsDepth, elementsDepth, ih, Nat.max_zero]

/-- **Not all arguments are bound as they should be.**  `007` is no JSON text and is bound to a
number; brackets nested deeper than the reader goes are JSON and are bound to their text. -/
theorem argument_altered :
    ((¬ ∃ t, Denotes true "007".toList (.value t)) ∧ argument "007" = .int 7) ∧
    ∃ s t, Denotes true s.toList (.value t) ∧ Exact t ∧ argument s = .text s := by
  refine ⟨⟨?_, rfl⟩, String.ofList (nestedText maxDepth), nested maxDepth, ?_, exact_nested _, ?_⟩
  · rintro ⟨t, ht⟩
    have hrun : IsRun "007".toList := ⟨⟨'0', ['0', '7'], rfl, .inl rfl⟩, List.all_eq_true.mp rfl⟩
    have hnumber : Loosely 0 "007".toList (.value (.number "007".toList)) := .number hrun
    have hsame := (ht.loose t.depth (Nat.le_refl _)).unique hnumber (List.append_nil _).symm
      (Ended.apart (.inl rfl))
    rw [hsame] at ht
    exact not_isNumber_zero rfl _ ht.isNumber
  · rw [String.toList_ofList]
    exact denotes_nestedText maxDepth
  · have hread := read_of_denotes (denotes_nestedText maxDepth)
    rw [depth_nested, if_neg (Nat.not_succ_le_self maxDepth)] at hread
    rw [argument, String.toList_ofList, hread]

end TreeQuery.Json
