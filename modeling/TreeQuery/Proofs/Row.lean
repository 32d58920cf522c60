import Mathlib.Data.List.Induction
import Mathlib.Data.List.Nodup
import TreeQuery.Proofs.Names
import TreeQuery.Value

/-!
# Rows by their keys

A row is known by its list of keys, hidden or not (`Row.allKeys`), and by what it holds under each
of them.  This module says what the operations on rows do to the two: assigning a value adds a key
at the end or leaves the keys as they are, and changes what one key holds; hiding changes neither.
Together they say what any changes make of the empty row (`made`).  The last part is about what
rows show.
-/

namespace TreeQuery.Row

open List

variable {α : Type} {key : String}

/-- The keys of a row, hidden or not, in order. -/
def allKeys (r : Row α) : List String :=
  r.fields.map Field.key

variable {r : Row α} {fs : List (Field α)} {f : Field α}

theorem mem_allKeys : key ∈ r.allKeys ↔ ∃ f ∈ r.fields, f.key = key :=
  mem_map

theorem has_iff : r.has key ↔ key ∈ r.allKeys := by
  rw [has, any_eq_true, mem_allKeys]
  simp only [beq_iff_eq]

theorem has_congr {r' : Row α} (h : r.allKeys = r'.allKeys) (key : String) :
    r.has key = r'.has key := by
  rw [Bool.eq_iff_iff, has_iff, has_iff, h]

theorem get?_isSome : (r.get? key).isSome ↔ key ∈ r.allKeys := by
  rw [get?, find?, Option.isSome_map, List.find?_isSome, mem_allKeys]
  simp only [beq_iff_eq]

theorem get?_cons (f : Field α) (fs : List (Field α)) (key : String) :
    get? ⟨f :: fs⟩ key = if f.key = key then some f.value else get? ⟨fs⟩ key := by
  unfold get? find?
  by_cases h : f.key = key <;> simp [h]

/-- What a row holds whose values are a function of the keys. -/
theorem get?_map_of_mem {names : List String} (h : key ∈ names)
    (value : String → α) (hidden : String → Bool) :
    get? ⟨names.map fun n => ⟨n, value n, hidden n⟩⟩ key = some (value key) := by
  induction names with
  | nil => cases h
  | cons n names ih =>
    rw [map_cons, get?_cons]
    split
    · rename_i hn
      rw [← hn]
    · rename_i hn
      exact ih ((mem_cons.mp h).resolve_left fun heq => hn heq.symm)

/-- What a row holds under the key of one of its entries, if no key comes twice. -/
theorem get?_of_mem (hkeys : (fs.map Field.key).Nodup)
    (hf : f ∈ fs) : get? ⟨fs⟩ f.key = some f.value := by
  induction fs with
  | nil => cases hf
  | cons g fs ih =>
    obtain ⟨hnew, hrest⟩ := nodup_cons.mp hkeys
    rw [get?_cons]
    rcases mem_cons.mp hf with rfl | hf
    · exact if_pos rfl
    · have hne : g.key ≠ f.key := fun heq => hnew (heq ▸ mem_map_of_mem hf)
      rw [if_neg hne, ih hrest hf]

/-- The visible keys of a row with what it holds under them, in order. -/
def entries (r : Row α) : List (String × α) :=
  r.visible.map fun f => (f.key, f.value)

theorem map_fst_entries (r : Row α) : r.entries.map Prod.fst = r.keys := by
  rw [entries, map_map]
  rfl

/-- **The outline of a row**: its keys in order, each with a mark that says whether it is hidden. -/
def outline (r : Row α) : List (String × Bool) :=
  r.fields.map fun f => (f.key, f.hidden)

theorem map_fst_outline (r : Row α) : r.outline.map Prod.fst = r.allKeys := by
  rw [outline, map_map]
  rfl

theorem keys_eq_outline (r : Row α) : r.keys = (r.outline.filter fun e => !e.2).map Prod.fst := by
  rw [keys, visible, outline, List.filter_map, map_map]
  rfl

theorem isHidden_iff : r.isHidden key ↔ (key, true) ∈ r.outline := by
  simp [isHidden, outline]

theorem mem_allKeys_of_isHidden {key : String} (h : r.isHidden key) : key ∈ r.allKeys := by
  rw [← map_fst_outline]
  exact mem_map_of_mem (isHidden_iff.mp h)

/-- In a row whose keys are distinct, a key is hidden if the entry under it is. -/
theorem isHidden_of_mem (h : r.allKeys.Nodup) (hf : f ∈ r.fields) :
    r.isHidden f.key = f.hidden := by
  rw [Bool.eq_iff_iff, isHidden, any_eq_true]
  refine ⟨?_, fun hhidden => ⟨f, hf, by simp [hhidden]⟩⟩
  rintro ⟨g, hg, heq⟩
  rw [Bool.and_eq_true, beq_iff_eq] at heq
  exact inj_on_of_nodup_map h hg hf heq.1 ▸ heq.2

/-! ## Assigning -/

theorem setFields_of_not_mem {value : α}
    (h : key ∉ fs.map Field.key) : setFields key value fs = fs ++ [⟨key, value, false⟩] := by
  induction fs with
  | nil => rfl
  | cons f fs ih =>
    rw [map_cons, mem_cons, not_or] at h
    rw [setFields, if_neg (by simpa using Ne.symm h.1), ih h.2, cons_append]

/-- A new key goes to the end, with its value, and is visible. -/
theorem fields_set_of_not_mem (h : key ∉ r.allKeys) (value : α) :
    (r.set key value).fields = r.fields ++ [⟨key, value, false⟩] :=
  setFields_of_not_mem h

theorem outline_set_of_not_mem (h : key ∉ r.allKeys) (value : α) :
    (r.set key value).outline = r.outline ++ [(key, false)] := by
  rw [outline, fields_set_of_not_mem h, map_append]
  rfl

theorem allKeys_set_of_not_mem (h : key ∉ r.allKeys) (value : α) :
    (r.set key value).allKeys = r.allKeys ++ [key] := by
  rw [allKeys, fields_set_of_not_mem h, map_append]
  rfl

/-- A key that is assigned again keeps its place, and its mark. -/
theorem outline_set_of_mem (h : key ∈ r.allKeys) (value : α) :
    (r.set key value).outline = r.outline := by
  obtain ⟨fs⟩ := r
  show (setFields key value fs).map _ = fs.map _
  induction fs with
  | nil => cases h
  | cons f fs ih =>
    rw [setFields]
    split
    · rfl
    rename_i hne
    have hmem : key ∈ allKeys ⟨fs⟩ := by
      rcases mem_cons.mp h with heq | hmem
      · exact absurd (beq_iff_eq.mpr heq.symm) hne
      · exact hmem
    rw [map_cons, map_cons, ih hmem]

theorem allKeys_set_of_mem (h : key ∈ r.allKeys) (value : α) :
    (r.set key value).allKeys = r.allKeys := by
  rw [← map_fst_outline, outline_set_of_mem h, map_fst_outline]

/-- Assigning neither hides nor reveals a key. -/
theorem isHidden_set (r : Row α) (key : String) (value : α) (other : String) :
    (r.set key value).isHidden other = r.isHidden other := by
  rw [Bool.eq_iff_iff, isHidden_iff, isHidden_iff]
  by_cases hkey : key ∈ r.allKeys
  · rw [outline_set_of_mem hkey]
  · rw [outline_set_of_not_mem hkey]
    simp

theorem allKeys_set (r : Row α) (key : String) (value : α) :
    (r.set key value).allKeys = addNew r.allKeys key := by
  rw [addNew, contains_eq_mem]
  by_cases h : key ∈ r.allKeys
  · rw [allKeys_set_of_mem h, if_pos (decide_eq_true h)]
  · rw [allKeys_set_of_not_mem h, if_neg (by simpa using h)]

theorem has_set (r : Row α) (key : String) (value : α) :
    (r.set key value).has = fun other => r.has other || other == key := by
  funext other
  rw [Bool.eq_iff_iff, Bool.or_eq_true, has_iff, has_iff, beq_iff_eq, allKeys_set, mem_addNew]

/-- A key that is there already adds nothing to the keys. -/
theorem or_beq_self {keys : String → Bool} {own : String} (h : keys own) :
    (fun key => keys key || key == own) = keys := by
  funext key
  by_cases hkey : key = own
  · rw [hkey, h]
    rfl
  · simp [hkey]

/-- Assigning to one key leaves what the others hold. -/
theorem get?_set_of_ne {key other : String} (h : other ≠ key) (value : α) :
    (r.set key value).get? other = r.get? other := by
  obtain ⟨fs⟩ := r
  show get? ⟨setFields key value fs⟩ other = get? ⟨fs⟩ other
  induction fs with
  | nil => rw [setFields, get?_cons, if_neg (Ne.symm h)]
  | cons f fs ih =>
    rw [setFields]
    split
    · rename_i hf
      have hne : f.key ≠ other := by
        rw [beq_iff_eq.mp hf]
        exact Ne.symm h
      rw [get?_cons, get?_cons, if_neg hne, if_neg hne]
    · rw [get?_cons, get?_cons, ih]

theorem get?_set_self (r : Row α) (key : String) (value : α) :
    (r.set key value).get? key = some value := by
  obtain ⟨fs⟩ := r
  show get? ⟨setFields key value fs⟩ key = some value
  induction fs with
  | nil => rw [setFields, get?_cons, if_pos rfl]
  | cons f fs ih =>
    rw [setFields]
    split
    · rename_i hf
      rw [get?_cons, if_pos (beq_iff_eq.mp hf)]
    · rename_i hf
      rw [get?_cons, if_neg (fun heq => hf (beq_iff_eq.mpr heq)), ih]

/-! ## Hiding -/

theorem fields_hide (r : Row α) (keys : List String) :
    (r.hide keys).fields =
      r.fields.map fun f => { f with hidden := f.hidden || decide (f.key ∈ keys) } := by
  induction keys generalizing r with
  | nil =>
    show r.fields = _
    simp
  | cons key keys ih =>
    show ((r.hideKey key).hide keys).fields = _
    rw [ih, hideKey, map_map]
    refine map_congr_left fun f _ => ?_
    rw [Function.comp_apply]
    by_cases h : f.key = key <;> simp [h]

theorem allKeys_hide (r : Row α) (keys : List String) : (r.hide keys).allKeys = r.allKeys := by
  rw [allKeys, fields_hide, map_map]
  rfl

theorem has_hide (r : Row α) (keys : List String) : (r.hide keys).has = r.has := by
  funext key
  rw [Bool.eq_iff_iff, has_iff, has_iff, allKeys_hide]

theorem outline_hide (r : Row α) (keys : List String) :
    (r.hide keys).outline = r.outline.map fun e => (e.1, e.2 || decide (e.1 ∈ keys)) := by
  rw [outline, fields_hide, outline, map_map, map_map]
  rfl

theorem get?_hide (r : Row α) (keys : List String) (key : String) :
    (r.hide keys).get? key = r.get? key := by
  rw [get?, find?, fields_hide, find?_map, Option.map_map]
  rfl

/-- Hiding hides the given keys as far as the row has them. -/
theorem isHidden_hide (r : Row α) (names : List String) (key : String) :
    (r.hide names).isHidden key = (r.isHidden key || names.contains key && r.has key) := by
  rw [Bool.eq_iff_iff, Bool.or_eq_true, Bool.and_eq_true, isHidden_iff, isHidden_iff, outline_hide,
    contains_iff_mem, has_iff, ← map_fst_outline, mem_map, mem_map]
  constructor
  · rintro ⟨⟨name, hidden⟩, he, heq⟩
    obtain ⟨rfl, hmark⟩ := Prod.mk.inj heq
    rcases (Bool.or_eq_true _ _).mp hmark with hhidden | hname
    · exact .inl (hhidden ▸ he)
    · exact .inr ⟨of_decide_eq_true hname, _, he, rfl⟩
  · rintro (h | ⟨hname, ⟨_, hidden⟩, he, rfl⟩)
    · exact ⟨_, h, rfl⟩
    · exact ⟨_, he, by simp [hname]⟩

/-! ## Rows by their changes -/

/-- **A change of a row**: a value is assigned to a key, or keys are hidden. -/
inductive Change (α : Type) where
  | set (key : String) (value : α)
  | hide (keys : List String)

def Change.apply (r : Row α) : Change α → Row α
  | .set key value => r.set key value
  | .hide keys => r.hide keys

def Change.assignment? : Change α → Option (String × α)
  | .set key value => some (key, value)
  | .hide _ => none

/-- **The row that changes make of the empty one.** -/
def made (changes : List (Change α)) : Row α :=
  changes.foldl Change.apply empty

/-- The assignments among changes, in order. -/
def assignments (changes : List (Change α)) : List (String × α) :=
  changes.filterMap Change.assignment?

variable (changes : List (Change α))

theorem made_concat (change : Change α) :
    made (changes ++ [change]) = change.apply (made changes) :=
  foldl_append

theorem assignments_concat (change : Change α) :
    assignments (changes ++ [change]) = assignments changes ++ change.assignment?.toList := by
  rw [assignments, filterMap_append]
  cases change <;> rfl

/-- **The keys of a row** are those that have been assigned to, in the order of the first time. -/
theorem allKeys_made : (made changes).allKeys = ((assignments changes).map Prod.fst).eraseDups := by
  induction changes using reverseRecOn with
  | nil => rfl
  | append_singleton changes change ih =>
    rw [made_concat, assignments_concat, map_append]
    cases change with
    | hide keys =>
      rw [Change.apply, allKeys_hide, ih]
      exact congrArg eraseDups (append_nil _).symm
    | set key value =>
      show ((made changes).set key value).allKeys = (_ ++ [key]).eraseDups
      rw [allKeys_set, ih, eraseDups_concat]

theorem nodup_allKeys_made : (made changes).allKeys.Nodup := by
  rw [allKeys_made]
  exact nodup_eraseDups _

/-- **The last assignment to a key wins.** -/
theorem get?_made (key : String) :
    (made changes).get? key = (assignments changes).reverse.lookup key := by
  induction changes using reverseRecOn with
  | nil => rfl
  | append_singleton changes change ih =>
    rw [made_concat, assignments_concat, reverse_append]
    cases change with
    | hide keys => rwa [Change.apply, get?_hide]
    | set other value =>
      show ((made changes).set other value).get? key =
        lookup key ((other, value) :: (assignments changes).reverse)
      rw [lookup_cons, ← ih]
      by_cases hkey : key = other
      · rw [hkey, get?_set_self, beq_self_eq_true]
      · rw [get?_set_of_ne hkey, beq_eq_false_iff_ne.mpr hkey]

/-! ## Rows in containers -/

namespace Containers

variable {c : Containers α}

/-- **Containers hold a row**: the keys in order, what it holds under each key, and which keys are
hidden. -/
structure Holds (c : Containers α) (r : Row α) : Prop where
  order : c.order = r.allKeys
  values : ∀ key, c.values key = r.get? key
  hidden : ∀ key, c.hidden key = r.isHidden key

theorem Holds.has (h : c.Holds r) (key : String) : c.has key = r.has key := by
  rw [Containers.has, h.values, Bool.eq_iff_iff, get?_isSome, has_iff]

theorem Holds.set (h : c.Holds r) (key : String) (value : α) :
    (c.set key value).Holds (r.set key value) where
  order := by
    rw [allKeys_set, addNew, contains_eq_mem, Containers.set, h.has, h.order]
    simp only [has_iff, decide_eq_true_eq]
  values other := by
    by_cases hother : other = key
    · rw [hother, get?_set_self]
      exact if_pos rfl
    · rw [get?_set_of_ne hother, ← h.values]
      exact if_neg hother
  hidden other := by
    rw [isHidden_set]
    exact h.hidden other

theorem Holds.hideKey (h : c.Holds r) (key : String) : (c.hideKey key).Holds (r.hideKey key) := by
  have hhide : r.hideKey key = r.hide [key] := rfl
  have hmarks (other : String) :
      (r.hide [key]).isHidden other = (r.isHidden other || other == key && r.has other) := by
    rw [isHidden_hide, contains_cons, contains_nil, Bool.or_false]
  rw [hhide, Containers.hideKey]
  refine ⟨?_, fun other => ?_, fun other => ?_⟩
  · rw [allKeys_hide, ← h.order]
    split <;> rfl
  · rw [get?_hide, ← h.values]
    split <;> rfl
  · rw [hmarks, ← h.hidden, ← h.has]
    by_cases hother : other = key
    · subst hother
      split <;> rename_i hkey <;> simp [hkey]
    · have hne : (other == key) = false := beq_eq_false_iff_ne.mpr hother
      split <;> simp [hne]

theorem Holds.hide (h : c.Holds r) (keys : List String) : (c.hide keys).Holds (r.hide keys) := by
  induction keys generalizing c r with
  | nil => exact h
  | cons key keys ih => exact ih (h.hideKey key)

/-- **The record in the containers** is the row that they hold. -/
theorem Holds.row (h : c.Holds r) (hkeys : r.allKeys.Nodup) : c.row = r := by
  rw [Containers.row, h.order, allKeys, filterMap_map]
  have hfields : ∀ f ∈ r.fields,
      (c.values f.key).map (fun value => ⟨f.key, value, c.hidden f.key⟩) = some f := by
    intro f hf
    rw [h.values, h.hidden, get?_of_mem hkeys hf, isHidden_of_mem hkeys hf, Option.map_some]
  exact congrArg Row.mk ((filterMap_congr hfields).trans filterMap_some)

def apply (c : Containers α) : Change α → Containers α
  | .set key value => c.set key value
  | .hide keys => c.hide keys

/-- **The containers that changes make** of empty ones. -/
def made (changes : List (Change α)) : Containers α :=
  changes.foldl apply {}

/-- **The containers hold the row that the same changes make.** -/
theorem holds_made (changes : List (Change α)) : (made changes).Holds (Row.made changes) := by
  induction changes using reverseRecOn with
  | nil => exact ⟨rfl, fun _ => rfl, fun _ => rfl⟩
  | append_singleton changes change ih =>
    rw [made_concat, made, foldl_append]
    cases change with
    | set key value => exact ih.set key value
    | hide keys => exact ih.hide keys

theorem row_made (changes : List (Change α)) : (made changes).row = Row.made changes :=
  (holds_made changes).row (nodup_allKeys_made changes)

end Containers

/-! ## Rows made of a list -/

variable (entries : List (String × α))

theorem ofList_eq_foldl : ofList entries = entries.foldl (fun r e => r.set e.1 e.2) empty := by
  have hmade := Containers.row_made (entries.map fun e => .set e.1 e.2)
  rw [Containers.made, foldl_map, made, foldl_map] at hmade
  exact hmade

/-- A row made of a list is made by assignments. -/
theorem exists_made_eq_ofList :
    ∃ changes, ofList entries = made changes ∧ assignments changes = entries := by
  refine ⟨entries.map fun e => .set e.1 e.2, ?_, ?_⟩
  · rw [ofList_eq_foldl, made, foldl_map]
    rfl
  · rw [assignments, filterMap_map]
    exact filterMap_some

theorem fields_foldl_set (r : Row α) (entries : List (String × α))
    (h : (r.allKeys ++ entries.map Prod.fst).Nodup) :
    (entries.foldl (fun r e => r.set e.1 e.2) r).fields =
      r.fields ++ entries.map fun e => ⟨e.1, e.2, false⟩ := by
  induction entries generalizing r with
  | nil => exact (append_nil _).symm
  | cons e entries ih =>
    obtain ⟨key, value⟩ := e
    have hnew : key ∉ r.allKeys := by
      intro hmem
      exact (nodup_append.mp h).2.2 key hmem key mem_cons_self rfl
    have hkeys : (r.set key value).allKeys = r.allKeys ++ [key] := allKeys_set_of_not_mem hnew value
    rw [foldl_cons, ih]
    · rw [fields_set_of_not_mem hnew, append_assoc]
      rfl
    · rw [hkeys, append_assoc]
      exact h

theorem fields_ofList {entries : List (String × α)} (h : (entries.map Prod.fst).Nodup) :
    (ofList entries).fields = entries.map fun e => ⟨e.1, e.2, false⟩ := by
  rw [ofList_eq_foldl]
  exact fields_foldl_set empty entries h

/-- No key of a row made of a list comes twice. -/
theorem nodup_allKeys_ofList : (ofList entries).allKeys.Nodup := by
  obtain ⟨changes, hmade, -⟩ := exists_made_eq_ofList entries
  rw [hmade]
  exact nodup_allKeys_made changes

theorem allKeys_ofList : (ofList entries).allKeys = (entries.map Prod.fst).eraseDups := by
  obtain ⟨changes, hmade, rfl⟩ := exists_made_eq_ofList entries
  rw [hmade, allKeys_made]

theorem get?_ofList (key : String) : (ofList entries).get? key = entries.reverse.lookup key := by
  obtain ⟨changes, hmade, rfl⟩ := exists_made_eq_ofList entries
  rw [hmade, get?_made]

/-- A row made of a list holds values of the list. -/
theorem exists_of_mem_ofList {entries : List (String × α)}
    (h : f ∈ (ofList entries).fields) : ∃ e ∈ entries, e.2 = f.value := by
  have hget := get?_of_mem (nodup_allKeys_ofList entries) h
  rw [get?_ofList] at hget
  obtain ⟨front, back, hsplit, -⟩ := lookup_eq_some_iff.mp hget
  exact ⟨(f.key, f.value), mem_reverse.mp (by rw [hsplit]; simp), rfl⟩

theorem get?_ofList_of_last {front back : List (String × α)} {value : α}
    (h : key ∉ back.map Prod.fst) :
    (ofList (front ++ (key, value) :: back)).get? key = some value := by
  rw [get?_ofList, reverse_append, reverse_cons, append_assoc]
  refine lookup_eq_some_iff.mpr ⟨back.reverse, front.reverse, rfl, fun e he => ?_⟩
  rw [bne_iff_ne]
  exact fun heq => h (heq ▸ mem_map_of_mem (mem_reverse.mp he))

end TreeQuery.Row

namespace TreeQuery.Value

open List

/-! ## What rows show -/

theorem shownFields_eq_map (fs : List (Field Value)) :
    shownFields fs = (Row.entries ⟨fs⟩).map fun e => (e.1, e.2.shown) := by
  induction fs with
  | nil => rfl
  | cons f fs ih =>
    obtain ⟨key, value, hidden⟩ := f
    rw [shownFields, ih]
    cases hidden <;> rfl

theorem shownFields_append (fs gs : List (Field Value)) :
    shownFields (fs ++ gs) = shownFields fs ++ shownFields gs := by
  simp only [shownFields_eq_map, Row.entries, Row.visible, filter_append, map_append]

theorem shownFields_map (names : List String) (value : String → Value) (hidden : String → Bool) :
    shownFields (names.map fun n => ⟨n, value n, hidden n⟩) =
      (names.filter fun n => !hidden n).map fun n => (n, (value n).shown) := by
  rw [shownFields_eq_map, Row.entries, Row.visible, List.filter_map, map_map, map_map]
  rfl

theorem shownRows_eq_map (rs : List Record) :
    shownRows rs = rs.map fun r => .map (shownFields r.fields) := by
  induction rs with
  | nil => rfl
  | cons r rs ih => rw [shownRows, ih, map_cons]

end TreeQuery.Value
