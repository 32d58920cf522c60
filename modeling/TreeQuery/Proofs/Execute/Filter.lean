import Mathlib.Data.List.Basic
import TreeQuery.Execute.Filter
import TreeQuery.Json.Document
import TreeQuery.Proofs.Value

/-!
# What filtering keeps

A relation that looks into a document keeps of every object the keys it asks for.  Rows and plain
maps are filtered alike: both are lists of entries, and one rule says which entries are kept and
what of them (`part?`, `filterEntries_eq`, `entries_filterFields`).

Filtering twice is filtering once (`filter_filter`): a wildcard may count the second time where it
did not count the first time, but then all entries that are left are kept by either rule.

What is left of an object has no keys but those asked for, at any depth.  But lists inside lists,
and lists of related rows, are passed over: if they hold other keys, these are kept
(`confined_filter_iff`, `exists_not_confined`).
-/

namespace TreeQuery

open List

namespace Value

/-! ## Values inside values -/

def object? : Value → Option (List (String × Value))
  | .row r => some r.entries
  | .map entries => some entries
  | _ => none

theorem elements?_atom {v : Value} (h : v.isAtom) : v.elements? = none := by
  cases v <;> first | rfl | cases h

theorem object?_atom {v : Value} (h : v.isAtom) : v.object? = none := by
  cases v <;> first | rfl | cases h

theorem object?_eq_none {v : Value} {es : List Value} (h : v.elements? = some es) :
    v.object? = none := by
  cases v <;> first | rfl | cases h

end Value

namespace Execute

open Query

/-! ## One rule for rows and maps -/

/-- **What is kept of the value under a key**, if the relation asks for the key: all of it under an
attribute, and otherwise what a nested relation selects. -/
def part? (rel : Relation) (key : String) : Option (Value → Value) :=
  if rel.hasAttribute key then some id else (rel.child? key).map filter

/-- The part under a key is all that stands there, or what the nested relation of that type
selects. -/
theorem part?_eq_some {rel : Relation} {key : String} {part : Value → Value}
    (h : part? rel key = some part) :
    rel.hasAttribute key ∧ part = id ∨ rel.hasAttribute key = false ∧
      ∃ child, rel.child? key = some child ∧ part = filter child := by
  unfold part? at h
  split at h
  · rename_i hattr
    exact .inl ⟨hattr, (Option.some.inj h).symm⟩
  · rename_i hattr
    obtain ⟨child, hchild, hpart⟩ := Option.map_eq_some_iff.mp h
    exact .inr ⟨Bool.not_eq_true _ ▸ hattr, child, hchild, hpart.symm⟩

theorem filterElements_eq (rel : Relation) (es : List Value) :
    filterElements rel es = es.map (filterAt true rel) := by
  induction es with
  | nil => rfl
  | cons e es ih => rw [filterElements, ih, map_cons]

theorem filterEntries_eq (rel : Relation) (es : List (String × Value)) :
    filterEntries rel es =
      es.filterMap fun e => (part? rel e.1).map fun part => (e.1, part e.2) := by
  induction es with
  | nil => rfl
  | cons e es ih =>
    obtain ⟨key, value⟩ := e
    rw [filterEntries, ih, filterMap_cons]
    unfold part?
    split
    · rfl
    · cases rel.child? key <;> rfl

/-- The visible entries of a row are filtered as those of a map. -/
theorem filterFields_eq (rel : Relation) (fs : List (Field Value)) :
    filterFields rel fs = (Row.ofEntries (filterEntries rel (Row.entries ⟨fs⟩))).fields := by
  induction fs with
  | nil => rfl
  | cons f fs ih =>
    obtain ⟨key, value, hidden⟩ := f
    cases hidden with
    | true =>
      rw [filterFields, if_pos rfl, ih]
      rfl
    | false =>
      have hentries : Row.entries ⟨⟨key, value, false⟩ :: fs⟩ = (key, value) :: Row.entries ⟨fs⟩ :=
        rfl
      rw [filterFields, if_neg Bool.false_ne_true, ih, hentries, filterEntries]
      split
      · rfl
      · cases rel.child? key <;> rfl

theorem entries_filterFields (rel : Relation) (fs : List (Field Value)) :
    Row.entries ⟨filterFields rel fs⟩ = filterEntries rel (Row.entries ⟨fs⟩) := by
  rw [filterFields_eq]
  exact Row.entries_ofEntries _

def filterRow (rel : Relation) (r : Record) : Record :=
  if keepsAll rel (r.get? Relation.wildcard) then r else ⟨filterFields rel r.fields⟩

/-- The entries that are left of those of a map. -/
def filterMapEntries (rel : Relation) (es : List (String × Value)) : List (String × Value) :=
  if keepsAll rel (es.lookup Relation.wildcard) then es else filterEntries rel es

variable (inList : Bool) (rel : Relation) {key : String}

theorem filterAt_atom {v : Value} (h : v.isAtom) : filterAt inList rel v = v := by
  cases v <;> first | rfl | cases h

theorem filterAt_row (r : Record) : filterAt inList rel (.row r) = .row (filterRow rel r) := by
  obtain ⟨fs⟩ := r
  rw [filterAt, filterRow]
  split <;> rfl

theorem filterAt_map (es : List (String × Value)) :
    filterAt inList rel (.map es) = .map (filterMapEntries rel es) := by
  rw [filterAt, filterMapEntries]
  split <;> rfl

theorem filter_atom {v : Value} (h : v.isAtom) : filter rel v = v :=
  filterAt_atom false rel h

theorem filter_row (r : Record) : filter rel (.row r) = .row (filterRow rel r) :=
  filterAt_row false rel r

theorem filter_map (es : List (String × Value)) :
    filter rel (.map es) = .map (filterMapEntries rel es) :=
  filterAt_map false rel es

theorem filter_list (es : List Value) :
    filter rel (.list es) = .list (es.map (filterAt true rel)) := by
  rw [filter, filterAt, if_neg Bool.false_ne_true, filterElements_eq]

/-- An element of a list is passed over if it is a list itself. -/
theorem filterAt_true (e : Value) :
    filterAt true rel e = if e.elements?.isSome then e else filter rel e := by
  cases e with
  | list es => rw [filterAt, if_pos rfl]; rfl
  | row r => rw [filter, filterAt_row, filterAt_row]; rfl
  | map es => rw [filter, filterAt_map, filterAt_map]; rfl
  | _ => rfl

/-! ## Filtering twice -/

variable {rel}

variable {es : List (String × Value)}

/-- A rule that keeps what it has kept keeps the entries it has kept. -/
theorem filterEntries_filterEntries
    (h : ∀ e ∈ es, ∀ part, part? rel e.1 = some part → part (part e.2) = part e.2) :
    filterEntries rel (filterEntries rel es) = filterEntries rel es := by
  rw [filterEntries_eq, filterEntries_eq, filterMap_filterMap]
  refine filterMap_congr fun e he => ?_
  cases hpart : part? rel e.1 with
  | none => rfl
  | some part => simp [hpart, h e he part hpart]

/-- Every part of an entry is kept if what nested relations select is. -/
theorem part_part (rel : Relation)
    (ih : ∀ e ∈ es, ∀ child, filter child (filter child e.2) = filter child e.2) :
    ∀ e ∈ es, ∀ part, part? rel e.1 = some part → part (part e.2) = part e.2 := by
  intro e he part hpart
  obtain ⟨-, rfl⟩ | ⟨-, child, -, rfl⟩ := part?_eq_some hpart
  · rfl
  · exact ih e he child

/-- **Filtering twice is filtering once.** -/
theorem filter_filter (rel : Relation) (v : Value) : filter rel (filter rel v) = filter rel v := by
  induction v using Value.nested_induction generalizing rel with
  | atom v h => rw [filter_atom rel h, filter_atom rel h]
  | rows rs _ => rfl
  | list es ih =>
    rw [filter_list, filter_list, List.map_map]
    congr 1
    refine List.map_congr_left fun e he => ?_
    rw [Function.comp_apply, filterAt_true, filterAt_true]
    cases hlist : e.elements? with
    | some inner => simp [hlist]
    | none =>
      rw [Option.isSome_none, if_neg Bool.false_ne_true, ih e he rel, ite_self]
  | map es ih =>
    have hentries := filterEntries_filterEntries (part_part rel ih)
    rw [filter_map, filter_map]
    congr 1
    by_cases hall : keepsAll rel (es.lookup Relation.wildcard) = true
    · rw [filterMapEntries, filterMapEntries, if_pos hall, if_pos hall]
    · -- whether or not the wildcard counts now, the entries stay
      rw [show filterMapEntries rel es = filterEntries rel es from if_neg hall, filterMapEntries,
        hentries, ite_self]
  | row r ih =>
    have hentries := filterEntries_filterEntries (part_part rel ih)
    rw [filter_row, filter_row]
    congr 1
    by_cases hall : keepsAll rel (r.get? Relation.wildcard) = true
    · rw [filterRow, filterRow, if_pos hall, if_pos hall]
    · have hfields : filterFields rel (filterFields rel r.fields) = filterFields rel r.fields := by
        rw [filterFields_eq, entries_filterFields, hentries, ← filterFields_eq]
      rw [show filterRow rel r = ⟨filterFields rel r.fields⟩ from if_neg hall, filterRow, hfields,
        ite_self]

/-! ## Keys that were asked for -/

/-- **A relation asks for a key**: as an attribute, or as the type of a nested relation. -/
def Asks (rel : Relation) (key : String) : Prop :=
  key ∈ rel.attributes ∨ ∃ child ∈ rel.relations, child.type = key

/-- **A value holds no keys but those that a relation asks for.**  That is said of every object
reached through lists alone; and what such an object holds under the type of a nested relation, if
the type is no attribute, holds no keys but those that the nested relation asks for.  A wildcard
asks for all keys. -/
inductive Confined : Relation → Value → Prop
  | atom {rel : Relation} {v : Value} (h : v.isAtom = true) : Confined rel v
  | elements {rel : Relation} {v : Value} {es : List Value} (hv : v.elements? = some es)
      (h : ∀ e ∈ es, Confined rel e) : Confined rel v
  | object {rel : Relation} {v : Value} {es : List (String × Value)} (hv : v.object? = some es)
      (hkeys : ∀ e ∈ es, Asks rel e.1)
      (hnested : ∀ e ∈ es, e.1 ∉ rel.attributes → ∀ child, rel.child? e.1 = some child →
        child.isWildcard = false → Confined child e.2) : Confined rel v

/-- **The lists that filtering passes over hold no keys but those asked for.**  These are the lists
inside lists, and the lists of related rows, at the places that the relation selects. -/
inductive InnerConfined : Relation → Value → Prop
  | atom {rel : Relation} {v : Value} (h : v.isAtom = true) : InnerConfined rel v
  | list {rel : Relation} {es : List Value}
      (hinner : ∀ e ∈ es, e.elements?.isSome = true → Confined rel e)
      (houter : ∀ e ∈ es, e.elements?.isSome = false → InnerConfined rel e) :
      InnerConfined rel (.list es)
  | rows {rel : Relation} {rs : List Record} (h : Confined rel (.rows rs)) :
      InnerConfined rel (.rows rs)
  | object {rel : Relation} {v : Value} {es : List (String × Value)} (hv : v.object? = some es)
      (hnested : ∀ e ∈ es, e.1 ∉ rel.attributes → ∀ child, rel.child? e.1 = some child →
        child.isWildcard = false → InnerConfined child e.2) : InnerConfined rel v

section Confined

variable {v : Value}

theorem confined_elements_iff {es : List Value} (hv : v.elements? = some es) :
    Confined rel v ↔ ∀ e ∈ es, Confined rel e := by
  refine ⟨fun h => ?_, .elements hv⟩
  cases h with
  | atom h => cases hv.symm.trans (Value.elements?_atom h)
  | elements hv' h =>
    cases hv.symm.trans hv'
    exact h
  | object hv' => cases hv'.symm.trans (Value.object?_eq_none hv)

theorem confined_object_iff (hv : v.object? = some es) :
    Confined rel v ↔ (∀ e ∈ es, Asks rel e.1) ∧
      ∀ e ∈ es, e.1 ∉ rel.attributes → ∀ child, rel.child? e.1 = some child →
        child.isWildcard = false → Confined child e.2 := by
  refine ⟨fun h => ?_, fun h => .object hv h.1 h.2⟩
  cases h with
  | atom h => cases hv.symm.trans (Value.object?_atom h)
  | elements hv' => cases hv.symm.trans (Value.object?_eq_none hv')
  | object hv' hkeys hnested =>
    cases hv.symm.trans hv'
    exact ⟨hkeys, hnested⟩

theorem innerConfined_list_iff {es : List Value} :
    InnerConfined rel (.list es) ↔ ∀ e ∈ es,
      if e.elements?.isSome = true then Confined rel e else InnerConfined rel e := by
  constructor
  · intro h e he
    cases h with
    | atom h => cases h
    | list hinner houter =>
      split
      · rename_i hlist
        exact hinner e he hlist
      · rename_i hlist
        exact houter e he (Bool.not_eq_true _ ▸ hlist)
    | object hv => cases hv
  · intro h
    refine .list (fun e he hlist => ?_) fun e he hlist => ?_
    · have hcase := h e he
      rwa [if_pos hlist] at hcase
    · have hcase := h e he
      rwa [hlist, if_neg Bool.false_ne_true] at hcase

theorem innerConfined_object_iff (hv : v.object? = some es) :
    InnerConfined rel v ↔ ∀ e ∈ es, e.1 ∉ rel.attributes → ∀ child, rel.child? e.1 = some child →
      child.isWildcard = false → InnerConfined child e.2 := by
  refine ⟨fun h => ?_, .object hv⟩
  cases h with
  | atom h => cases hv.symm.trans (Value.object?_atom h)
  | list | rows => cases hv
  | object hv' hnested =>
    cases hv.symm.trans hv'
    exact hnested

theorem mem_attributes_iff : rel.hasAttribute key ↔ key ∈ rel.attributes := by
  rw [Relation.hasAttribute, any_eq_true]
  simp

theorem asks_of_part {part : Value → Value} (h : part? rel key = some part) : Asks rel key := by
  obtain ⟨hattr, -⟩ | ⟨-, child, hchild, -⟩ := part?_eq_some h
  · exact .inl (mem_attributes_iff.mp hattr)
  · have htype := find?_some hchild
    exact .inr ⟨child, mem_of_find?_eq_some hchild, beq_iff_eq.mp htype⟩

theorem part?_of_child {child : Relation} (hattr : key ∉ rel.attributes)
    (hchild : rel.child? key = some child) : part? rel key = some (filter child) := by
  rw [part?, if_neg fun h => hattr (mem_attributes_iff.mp h), hchild]
  rfl

theorem mem_filterEntries {e : String × Value} :
    e ∈ filterEntries rel es ↔
      ∃ e' ∈ es, ∃ part, part? rel e'.1 = some part ∧ (e'.1, part e'.2) = e := by
  rw [filterEntries_eq, mem_filterMap]
  simp only [Option.map_eq_some_iff]

/-- What is left of an object by a relation that is not a wildcard. -/
theorem object?_filter (hrel : rel.isWildcard = false)
    (hv : v.object? = some es) : (filter rel v).object? = some (filterEntries rel es) := by
  have hall : ∀ star, ¬ keepsAll rel star = true := by
    intro star h
    rw [keepsAll, hrel] at h
    cases h
  cases v with
  | row r =>
    cases hv
    rw [filter_row, filterRow, if_neg (hall _)]
    exact congrArg some (entries_filterFields rel r.fields)
  | map es =>
    cases hv
    rw [filter_map, filterMapEntries, if_neg (hall _)]
    rfl
  | _ => cases hv

theorem confined_filter_object (hrel : rel.isWildcard = false) (hv : v.object? = some es)
    (ih : ∀ e ∈ es, ∀ child : Relation, child.isWildcard = false →
      (Confined child (filter child e.2) ↔ InnerConfined child e.2)) :
    Confined rel (filter rel v) ↔ InnerConfined rel v := by
  rw [confined_object_iff (object?_filter hrel hv), innerConfined_object_iff hv]
  constructor
  · rintro ⟨-, hnested⟩ e he hattr child hchild hwild
    have hmem : (e.1, filter child e.2) ∈ filterEntries rel es :=
      mem_filterEntries.mpr ⟨e, he, _, part?_of_child hattr hchild, rfl⟩
    exact (ih e he child hwild).mp (hnested _ hmem hattr child hchild hwild)
  intro hnested
  constructor
  · intro e he
    obtain ⟨e', -, part, hpart, rfl⟩ := mem_filterEntries.mp he
    exact asks_of_part hpart
  · intro e he hattr child hchild hwild
    obtain ⟨e', he', part, hpart, rfl⟩ := mem_filterEntries.mp he
    cases (part?_of_child hattr hchild).symm.trans hpart
    exact (ih e' he' child hwild).mpr (hnested e' he' hattr child hchild hwild)

end Confined

/-- **Filtering keeps no keys but those asked for, unless a list that it passes over holds others.**
A list inside a list and a list of related rows are left as they are, with every key that their
objects have; all else is filtered. -/
theorem confined_filter_iff {rel : Relation} (hrel : rel.isWildcard = false) (v : Value) :
    Confined rel (filter rel v) ↔ InnerConfined rel v := by
  induction v using Value.nested_induction generalizing rel with
  | atom v h =>
    rw [filter_atom rel h]
    exact ⟨fun _ => .atom h, fun _ => .atom h⟩
  | rows rs _ =>
    refine ⟨.rows, fun h => ?_⟩
    cases h with
    | atom h => cases h
    | rows h => exact h
    | object hv => cases hv
  | list es ih =>
    rw [filter_list, confined_elements_iff rfl, List.forall_mem_map, innerConfined_list_iff]
    refine forall₂_congr fun e he => ?_
    rw [filterAt_true]
    split
    · exact Iff.rfl
    · exact ih e he hrel
  | map es ih => exact confined_filter_object hrel rfl fun e he child hchild => ih e he hchild
  | row r ih => exact confined_filter_object hrel rfl fun e he child hchild => ih e he hchild

/-- A car with its owner and a list of its wheels. -/
def carDocument : Value :=
  .list [.row ⟨[⟨"model", .text "T", false⟩, ⟨"owner", .text "Ada", false⟩,
    ⟨"wheels", .list [.row ⟨[⟨"make", .text "M", false⟩, ⟨"size", .text "17", false⟩]⟩], false⟩]⟩]

/-- The model of a car and the size of its wheels. -/
def carParts : Relation where
  attributes := ["model"]
  relations := [{ type := "wheels", attributes := ["size"] }]

/-- Neither the owner of the car nor the make of its wheels is kept. -/
theorem confined_filter_carDocument :
    carParts.isWildcard = false ∧ Confined carParts (filter carParts carDocument) := by
  have hcar : carParts.isWildcard = false := rfl
  refine ⟨hcar, (confined_filter_iff hcar carDocument).mpr ?_⟩
  -- neither list has lists inside, and the entries that no relation selects do not count
  have hwheels : InnerConfined { type := "wheels", attributes := ["size"] }
      (.list [.row ⟨[⟨"make", .text "M", false⟩, ⟨"size", .text "17", false⟩]⟩]) := by
    rw [innerConfined_list_iff, List.forall_mem_singleton, if_neg (by decide),
      innerConfined_object_iff rfl]
    intro e he _ child hchild
    cases hchild
  rw [carDocument, innerConfined_list_iff, List.forall_mem_singleton, if_neg (by decide),
    innerConfined_object_iff rfl]
  intro e he hattr child hchild _
  rcases List.mem_cons.mp he with rfl | he
  · exact absurd List.mem_cons_self hattr
  · rcases List.mem_cons.mp he with rfl | he
    · cases hchild
    · obtain rfl := List.mem_singleton.mp he
      cases hchild
      exact hwheels

/-- A list inside a list. -/
def nestedDocument : Value :=
  .list [.list [.row ⟨[⟨"a", .text "x", false⟩, ⟨"b", .text "y", false⟩]⟩]]

def nestedText : String :=
  "[[\x7b\"a\":\"x\",\"b\":\"y\"\x7d]]"

/-- **A list inside a list keeps all keys**: of a document that holds one, filtering by `a` keeps
`b` as well. -/
theorem exists_not_confined :
    Json.encode nestedDocument = some nestedText ∧
      ((Json.decodeDocument nestedText.toList).bind fun v =>
        Json.encode (filter { attributes := ["a"] } v)) = some nestedText ∧
      Relation.isWildcard { attributes := ["a"] } = false ∧
      ¬ Confined { attributes := ["a"] } (filter { attributes := ["a"] } nestedDocument) := by
  have hkept : filter { attributes := ["a"] } nestedDocument = nestedDocument := rfl
  refine ⟨by decide +kernel, by decide +kernel, rfl, ?_⟩
  rw [hkept, nestedDocument, confined_elements_iff rfl, List.forall_mem_singleton,
    confined_elements_iff rfl, List.forall_mem_singleton, confined_object_iff rfl]
  rintro ⟨hkeys, -⟩
  have hb : Asks { attributes := ["a"] } "b" :=
    hkeys ("b", .text "y") (List.mem_cons_of_mem _ List.mem_cons_self)
  simp [Asks] at hb

end Execute
end TreeQuery
