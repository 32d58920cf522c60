import TreeQuery.Proofs.Execute.Filter

/-!
# Filtering and what documents show

A document of rows can be filtered and then shown, or shown and then filtered as a document of plain
maps.  Both come to the same, and the keys that are left of a row stand in the row's order
(`shown_filter`).  The two ways part where rows and maps are not told apart alike
(`exists_shown_filter_ne`): a list of related rows is passed over, but not the list that it shows;
and an absent row under the key `*` is a value for a wildcard, but not the null that it shows.

Places in a value are named by paths (`Value.at?`).
-/

namespace TreeQuery

open List

namespace Value

/-! ## Places in a value -/

/-- A step from a value to one inside it. -/
inductive Step where
  | element (i : Nat)
  | entry (key : String)

/-- **The value at the end of a path**, if the path leads anywhere. -/
def at? : List Step → Value → Option Value
  | [], v => some v
  | .element i :: path, .list es => es[i]?.bind (at? path)
  | .element i :: path, .rows rs => rs[i]?.bind fun r => at? path (.row r)
  | .entry key :: path, .row r => (r.get? key).bind (at? path)
  | .entry key :: path, .map es => (es.lookup key).bind (at? path)
  | _, _ => none

end Value

namespace Execute

open Query

variable {rel : Relation} {v : Value} {es : List (String × Value)}

/-! ## What documents show -/

/-- **A document of rows**: rows that hide nothing, absent rows, lists and atoms. -/
inductive IsPlain : Value → Prop
  | atom {v : Value} (h : v.isAtom = true) : IsPlain v
  | list {es : List Value} (h : ∀ e ∈ es, IsPlain e) : IsPlain (.list es)
  | row {r : Record} (hvisible : ∀ f ∈ r.fields, f.hidden = false)
      (h : ∀ e ∈ r.entries, IsPlain e.2) : IsPlain (.row r)

/-- **No wildcard meets an absent row under the key `*`**: neither the relation does, in a row that
it selects from, nor does one nested in it.  Rows that nothing selects from count for nothing: those
in a list inside a list, under a key that is an attribute, or in a row that a wildcard keeps. -/
inductive StarsPresent : Relation → Value → Prop
  | atom {rel : Relation} {v : Value} (h : v.isAtom = true) : StarsPresent rel v
  | list {rel : Relation} {es : List Value}
      (h : ∀ e ∈ es, e.elements?.isSome = false → StarsPresent rel e) : StarsPresent rel (.list es)
  | row {rel : Relation} {r : Record}
      (hstar : rel.isWildcard = true → r.get? Relation.wildcard ≠ some .absent)
      (h : keepsAll rel (r.get? Relation.wildcard) = false → ∀ e ∈ r.entries,
        rel.hasAttribute e.1 = false → ∀ child, rel.child? e.1 = some child →
          StarsPresent child e.2) : StarsPresent rel (.row r)

/-- A row that hides nothing is known by its entries. -/
theorem get?_eq_lookup {α : Type} {fs : List (Field α)} (h : ∀ f ∈ fs, f.hidden = false)
    (key : String) : Row.get? ⟨fs⟩ key = (Row.entries ⟨fs⟩).lookup key := by
  induction fs with
  | nil => rfl
  | cons f fs ih =>
    obtain ⟨hf, hfs⟩ := forall_mem_cons.mp h
    obtain ⟨name, value, hidden⟩ := f
    obtain rfl : hidden = false := hf
    have hentries : Row.entries ⟨⟨name, value, false⟩ :: fs⟩ = (name, value) :: Row.entries ⟨fs⟩ :=
      rfl
    rw [Row.get?_cons, ih hfs, hentries, lookup_cons]
    by_cases hkey : name = key
    · simp [hkey]
    · simp [hkey, beq_eq_false_iff_ne.mpr (Ne.symm hkey)]

theorem mem_of_lookup {key : String} (h : es.lookup key = some v) : (key, v) ∈ es := by
  obtain ⟨l₁, l₂, rfl, -⟩ := lookup_eq_some_iff.mp h
  exact mem_append_right _ mem_cons_self

/-- What is left under a key is the part of what was there. -/
theorem lookup_filterEntries (es : List (String × Value)) (key : String) :
    (filterEntries rel es).lookup key =
      (es.lookup key).bind fun v => (part? rel key).map fun part => part v := by
  rw [filterEntries_eq]
  induction es with
  | nil => rfl
  | cons e es ih =>
    obtain ⟨name, value⟩ := e
    rw [filterMap_cons, lookup_cons]
    by_cases hkey : key = name
    · subst hkey
      cases hpart : part? rel key with
      | none =>
        rw [hpart] at ih
        simpa using ih
      | some part => simp
    · rw [beq_eq_false_iff_ne.mpr hkey]
      cases hpart : part? rel name with
      | none => exact ih
      | some part =>
        rw [Option.map_some, lookup_cons, beq_eq_false_iff_ne.mpr hkey]
        exact ih

theorem lookup_map_shown (es : List (String × Value)) (key : String) :
    (es.map fun e => (e.1, e.2.shown)).lookup key = (es.lookup key).map Value.shown := by
  induction es with
  | nil => rfl
  | cons e es ih =>
    rw [map_cons, lookup_cons, lookup_cons, ih]
    cases key == e.1 <;> rfl

/-- A wildcard counts for what a row shows if it counts for the row. -/
theorem keepsAll_shown {star : Option Value}
    (h : rel.isWildcard → star ≠ some .absent) :
    keepsAll rel (star.map Value.shown) = keepsAll rel star := by
  rw [keepsAll, keepsAll]
  cases hwild : rel.isWildcard with
  | false => rfl
  | true =>
    rcases star with _ | v
    · rfl
    · cases v with
      | absent => exact absurd rfl (h hwild)
      | _ => rfl

theorem isAtom_shown (h : v.isAtom) : v.shown.isAtom := by
  cases v <;> first | rfl | cases h

theorem isSome_elements?_shown (v : Value) : v.shown.elements?.isSome = v.elements?.isSome := by
  cases v <;> rfl

theorem StarsPresent.of_list {es : List Value} (h : StarsPresent rel (.list es)) :
    ∀ e ∈ es, e.elements?.isSome = false → StarsPresent rel e := by
  cases h with
  | atom h => cases h
  | list h => exact h

theorem StarsPresent.of_row {r : Record} (h : StarsPresent rel (.row r)) :
    (rel.isWildcard → r.get? Relation.wildcard ≠ some .absent) ∧
      (keepsAll rel (r.get? Relation.wildcard) = false → ∀ e ∈ r.entries,
        rel.hasAttribute e.1 = false → ∀ child, rel.child? e.1 = some child →
          StarsPresent child e.2) := by
  cases h with
  | atom h => cases h
  | row hstar h => exact ⟨hstar, h⟩

/-- Entries are filtered in the shape that they show if each part of them is. -/
theorem map_shown_filterEntries
    (h : ∀ e ∈ es, ∀ part, part? rel e.1 = some part → (part e.2).shown = part e.2.shown) :
    (filterEntries rel es).map (fun e => (e.1, e.2.shown)) =
      filterEntries rel (es.map fun e => (e.1, e.2.shown)) := by
  rw [filterEntries_eq, filterEntries_eq, map_filterMap, filterMap_map]
  refine filterMap_congr fun e he => ?_
  rw [Function.comp_apply]
  cases hpart : part? rel e.1 with
  | none => rfl
  | some part => exact congrArg (fun v => some (e.1, v)) (h e he part hpart)

/-- **Filtering what a document shows** is showing what is left of it. -/
theorem shown_filter_of_starsPresent (hv : IsPlain v) (h : StarsPresent rel v) :
    (filter rel v).shown = filter rel v.shown := by
  induction hv generalizing rel with
  | atom hatom => rw [filter_atom rel hatom, filter_atom rel (isAtom_shown hatom)]
  | @list es _ ih =>
    rw [filter_list, Value.shown_list, Value.shown_list, filter_list, map_map, map_map]
    congr 1
    refine map_congr_left fun e he => ?_
    rw [Function.comp_apply, Function.comp_apply, filterAt_true, filterAt_true,
      isSome_elements?_shown]
    split
    · rfl
    · rename_i hlist
      exact ih e he (h.of_list e he (Bool.not_eq_true _ ▸ hlist))
  | @row r hvisible _ ih =>
    obtain ⟨hstar, hnested⟩ := h.of_row
    have hkeeps : keepsAll rel ((r.entries.map fun e => (e.1, e.2.shown)).lookup
        Relation.wildcard) = keepsAll rel (r.get? Relation.wildcard) := by
      rw [lookup_map_shown, ← get?_eq_lookup hvisible]
      exact keepsAll_shown hstar
    rw [filter_row, Value.shown_row, Value.shown_row, filter_map, filterMapEntries, filterRow,
      hkeeps]
    split
    · rfl
    rename_i hselects
    congr 1
    rw [entries_filterFields]
    refine map_shown_filterEntries fun e he part hpart => ?_
    obtain ⟨-, rfl⟩ | ⟨hattr, child, hchild, rfl⟩ := part?_eq_some hpart
    · rfl
    · exact ih e he (hnested (Bool.not_eq_true _ ▸ hselects) e he hattr child hchild)

/-! ## The order of keys -/

theorem keys_filterRow_sublist (rel : Relation) (r : Record) :
    (filterRow rel r).keys.Sublist r.keys := by
  unfold filterRow
  split
  · exact .refl _
  rw [← Row.map_fst_entries, ← Row.map_fst_entries, entries_filterFields, filterEntries_eq]
  generalize r.entries = es
  induction es with
  | nil => exact .slnil
  | cons e es ih =>
    rw [filterMap_cons, map_cons]
    cases part? rel e.1 with
    | none => exact ih.cons _
    | some part => exact ih.cons_cons _

/-- What is left under a key of a row is the part of what the row holds there. -/
theorem get?_filterFields {fs : List (Field Value)} (h : ∀ f ∈ fs, f.hidden = false) {key : String}
    {w : Value} (hw : Row.get? ⟨filterFields rel fs⟩ key = some w) :
    ∃ v part, Row.get? ⟨fs⟩ key = some v ∧ part? rel key = some part ∧ part v = w := by
  have hvisible : ∀ f ∈ filterFields rel fs, f.hidden = false := by
    rw [filterFields_eq, Row.ofEntries, forall_mem_map]
    exact fun _ _ => rfl
  rw [get?_eq_lookup hvisible, entries_filterFields, lookup_filterEntries, ← get?_eq_lookup h] at hw
  obtain ⟨v, hv, hw⟩ := Option.bind_eq_some_iff.mp hw
  obtain ⟨part, hpart, hw⟩ := Option.map_eq_some_iff.mp hw
  exact ⟨v, part, hv, hpart, hw⟩

/-- **Every row that is left comes from the row at its place**, whose keys it has in their order. -/
theorem exists_row_at? (hv : IsPlain v) {path : List Value.Step} {left : Record}
    (h : (filter rel v).at? path = some (.row left)) :
    ∃ r, v.at? path = some (.row r) ∧ left.keys.Sublist r.keys := by
  induction hv generalizing rel path with
  | atom hatom =>
    rw [filter_atom rel hatom] at h
    exact ⟨left, h, .refl _⟩
  | @list es _ ih =>
    rw [filter_list] at h
    rcases path with _ | ⟨i | key, path⟩
    · cases h
    · rw [Value.at?, List.getElem?_map] at h
      rw [Value.at?]
      cases he : es[i]? with
      | none =>
        rw [he] at h
        cases h
      | some e =>
        rw [he, Option.map_some, Option.bind_some, filterAt_true] at h
        split at h
        · exact ⟨left, h, .refl _⟩
        · exact ih e (mem_of_getElem? he) h
    · cases h
  | @row r hvisible _ ih =>
    rw [filter_row] at h
    rcases path with _ | ⟨i | key, path⟩
    · cases h
      exact ⟨r, rfl, keys_filterRow_sublist rel r⟩
    · cases h
    rw [Value.at?, filterRow] at h
    split at h
    · exact ⟨left, h, .refl _⟩
    obtain ⟨w, hw, hat⟩ := Option.bind_eq_some_iff.mp h
    obtain ⟨v, part, hv, hpart, rfl⟩ := get?_filterFields hvisible hw
    rw [Value.at?, hv, Option.bind_some]
    obtain ⟨-, rfl⟩ | ⟨-, child, -, rfl⟩ := part?_eq_some hpart
    · exact ⟨left, hat, .refl _⟩
    · exact ih (key, v) (mem_of_lookup ((get?_eq_lookup hvisible key).symm.trans hv)) hat

/-- **Rows and what they show are filtered alike.**  Of a document of rows, filtering what it shows
is showing what is left of it, as long as no wildcard meets an absent row under the key `*`; and the
keys of every row that is left stand in the order that they have in the row at its place. -/
theorem shown_filter {v : Value} (hv : IsPlain v) (rel : Relation) :
    (StarsPresent rel v → (filter rel v).shown = filter rel v.shown) ∧
      ∀ path left, (filter rel v).at? path = some (.row left) →
        ∃ r, v.at? path = some (.row r) ∧ left.keys.Sublist r.keys :=
  ⟨shown_filter_of_starsPresent hv, fun _ _ => exists_row_at? hv⟩

/-- A row without a value under `*`. -/
def starRow : Record :=
  ⟨[⟨"b", .text "y", false⟩, ⟨"*", .null, false⟩, ⟨"a", .absent, false⟩]⟩

def starDocument : Value := .list [.row starRow, .absent]

/-- The wildcard keeps the whole row, and what it shows. -/
theorem shown_filter_starDocument :
    IsPlain starDocument ∧ StarsPresent { attributes := ["*"] } starDocument ∧
      (filter { attributes := ["*"] } starDocument).shown =
        filter { attributes := ["*"] } starDocument.shown := by
  have hplain : IsPlain starDocument := by
    refine .list fun e he => ?_
    rcases List.mem_pair.mp he with rfl | rfl
    · have hatoms : ∀ e ∈ starRow.entries, e.2.isAtom = true := by decide
      exact .row (by decide) fun e he => .atom (hatoms e he)
    · exact .atom rfl
  have hstars : StarsPresent { attributes := ["*"] } starDocument := by
    refine .list fun e he _ => ?_
    rcases List.mem_pair.mp he with rfl | rfl
    · refine .row (fun _ h => ?_) fun _ e _ _ child hchild => ?_
      · cases (show some Value.null = some .absent from h)
      · cases hchild
    · exact .atom rfl
  exact ⟨hplain, hstars, (shown_filter hplain _).1 hstars⟩

/-- A row with an absent row under `*`. -/
def hollowRow : Record :=
  ⟨[⟨"*", .absent, false⟩, ⟨"a", .text "x", false⟩]⟩

/-- Related rows with two keys. -/
def relatedUsers : List Record :=
  [⟨[⟨"id", .text "1", false⟩, ⟨"name", .text "Ada", false⟩]⟩]

/-- **Two documents that are filtered otherwise than what they show**: the wildcard drops a key
beside an absent row under `*` and keeps it beside the null that is shown; and related rows are
passed over, while the list that is shown is filtered. -/
theorem exists_shown_filter_ne :
    (IsPlain (.row hollowRow) ∧ (filter { attributes := ["*"] } (.row hollowRow)).shown ≠
      filter { attributes := ["*"] } (Value.row hollowRow).shown) ∧
    (filter { attributes := ["name"] } (.rows relatedUsers)).shown ≠
      filter { attributes := ["name"] } (Value.rows relatedUsers).shown := by
  have hatoms : ∀ e ∈ hollowRow.entries, e.2.isAtom = true := by decide
  refine ⟨⟨.row (by decide) fun e he => .atom (hatoms e he), ?_⟩, ?_⟩
  · show Value.map [("*", .null)] ≠ .map [("*", .null), ("a", .text "x")]
    simp
  · show Value.list [.map [("id", .text "1"), ("name", .text "Ada")]] ≠
      .list [.map [("name", .text "Ada")]]
    simp

end Execute
end TreeQuery
