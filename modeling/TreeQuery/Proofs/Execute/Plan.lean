import TreeQuery.Proofs.Execute.Projection
import TreeQuery.Proofs.Relational.Database

/-!
# The select list of a relation that fits its table

For a relation that asks for columns of its table, and none of whose nested relations looks into a
document, the select list is known in advance (`plan?_eq`): the columns that join the nested
relations and those asked for, each once and in quotes.  The columns that join without having been
asked for are hidden.
-/

namespace TreeQuery.Execute

open List Query Schema Relational

/-! ## What the select list asks of a table -/

section Columns

variable (T : Table) (c : Catalog)

theorem known_describe {name : String} : Known (T.describe c) name ↔ name ∈ T.names := by
  rw [Known, Table.describe, Table.names, map_map]
  rfl

variable {T c}

theorem not_textual_describe {name : String}
    (h : ∀ col ∈ T.columns, col.1 = name → c.isText col.2 = false) :
    ¬ Textual (T.describe c) name := by
  rintro ⟨found, hfound, htext⟩
  obtain ⟨hmem, hname⟩ := mem_filter.mp (mem_of_getLast? hfound)
  obtain ⟨col, hcol, rfl⟩ := mem_map.mp hmem
  rw [h col hcol (beq_iff_eq.mp hname)] at htext
  cases htext

theorem childColumn_describe {child : Relation} (h : ¬ Textual (T.describe c) child.type) :
    childColumn (T.describe c) child = T.joinName child.type := by
  rw [childColumn, if_neg h, Table.joinName]
  simp only [known_describe]

end Columns

/-! ## The select list -/

/-- The columns that are fetched for a relation without having been asked for. -/
def hiddenNames (T : Table) (rel : Relation) : List String :=
  ((T.joinNames rel).filter fun n => n ∉ rel.attributes).eraseDups

theorem mem_fetched {T : Table} {rel : Relation} {name : String} :
    name ∈ T.fetched rel ↔ name ∈ T.joinNames rel ∨ name ∈ rel.attributes := by
  rw [Table.fetched, mem_eraseDups, mem_append]

theorem joinName_mem (T : Table) (type : String) : T.joinName type ∈ T.names := by
  rw [Table.joinName]
  split
  · assumption
  · exact T.id_mem

theorem fetched_subset {T : Table} {rel : Relation} (hattr : ∀ a ∈ rel.attributes, a ∈ T.names)
    {name : String} (h : name ∈ T.fetched rel) : name ∈ T.names := by
  rcases mem_fetched.mp h with hjoin | hmem
  · obtain ⟨child, -, rfl⟩ := mem_map.mp hjoin
    exact joinName_mem T child.type
  · exact hattr name hmem

/-- A fetched column is hidden if it was not asked for. -/
theorem mem_hiddenNames {T : Table} {rel : Relation} {name : String} (h : name ∈ T.fetched rel) :
    name ∈ hiddenNames T rel ↔ name ∉ rel.attributes := by
  rw [mem_fetched] at h
  rw [hiddenNames, mem_eraseDups, mem_filter, decide_eq_true_iff]
  constructor
  · exact And.right
  · intro hattr
    exact ⟨h.resolve_right hattr, hattr⟩

/-- **The select list of a relation over the columns of its table.** -/
theorem plan?_eq (d : Sql.Dialect) {T : Table} {c : Catalog} {rel : Relation}
    (hattr : ∀ a ∈ rel.attributes, a ∈ T.names) (happart : Apart T c rel) :
    plan? d (T.describe c) rel =
      if T.fetched rel = [] then none
      else some ⟨",".intercalate ((T.fetched rel).map d.quote), hiddenNames T rel⟩ := by
  have hjoined : ∀ child ∈ rel.relations, ¬ Textual (T.describe c) child.type :=
    fun child hchild => not_textual_describe (happart.not_text child hchild)
  have hchildren : rel.relations.map (childColumn (T.describe c)) = T.joinNames rel :=
    map_congr_left fun child hchild => childColumn_describe (hjoined child hchild)
  have hjoins : joinColumns (T.describe c) rel.relations = T.joinNames rel := by
    rw [joinColumns, filter_eq_self.mpr, hchildren]
    exact fun child hchild => decide_eq_true (hjoined child hchild)
  have hnames : selectedNames (T.describe c) rel = T.fetched rel := by
    rw [selectedNames, hchildren, Table.fetched]
  have htexts : (T.fetched rel).map (selectedText (T.describe c) d rel) =
      (T.fetched rel).map d.quote :=
    map_congr_left fun name hname =>
      if_pos (.inl ((known_describe T c).mpr (fetched_subset hattr hname)))
  rw [plan?_eq_projected, hnames, htexts, hiddenColumns, hjoins, hiddenNames]

end TreeQuery.Execute
