import Mathlib.Data.List.Basic
import Mathlib.Data.List.Induction
import TreeQuery.Execute.Plan
import TreeQuery.Proofs.Query.Tree

/-!
# What a select list selects, and what it hides

The select list of a relation is made in two rounds, the nested relations first and then the
attributes, which share the names that are selected already.  Here it is read off at once: the names
are those that the nested relations need (`childColumn`) and the attributes, without repetitions
(`selectedNames`); each has its own text, whichever round came across it first (`selectedText`); and
the hidden ones are the joining columns that are no attributes (`hiddenColumns`).  Every select list
is of that form (`plan?_eq_projected`).

Hiding looks at the attributes by name only.  A relation may ask for a column in two more ways: by
the attribute that stands for every column, and by a nested relation that looks into the column's
document.  A column that is asked for in these ways only is hidden all the same if it joins another
nested relation (`mem_hidden_and_asked_iff`).
-/

namespace TreeQuery

open List

/-! ## Names in the order in which they first occur -/

/-- **The names of a list, each once, in the order in which they first occur there.** -/
structure FirstOccurrences (given names : List String) : Prop where
  mem_iff : ∀ name, name ∈ names ↔ name ∈ given
  ordered : names.Pairwise fun a b => given.idxOf a < given.idxOf b

theorem firstOccurrences_eraseDups (given : List String) :
    FirstOccurrences given given.eraseDups := by
  refine ⟨fun _ => mem_eraseDups, ?_⟩
  induction given using List.reverseRecOn with
  | nil => exact .nil
  | append_singleton given name ih =>
    -- a name at the end changes no place that was found before
    have hplaces : given.eraseDups.Pairwise
        fun a b => (given ++ [name]).idxOf a < (given ++ [name]).idxOf b := by
      refine ih.imp_of_mem fun {a b} ha hb hab => ?_
      rwa [idxOf_append_of_mem (mem_eraseDups.mp ha),
        idxOf_append_of_mem (mem_eraseDups.mp hb)]
    rw [eraseDups_concat, addNew]
    split
    · exact hplaces
    rename_i hnew
    have hname : name ∉ given := by simpa using hnew
    refine pairwise_append.mpr ⟨hplaces, pairwise_singleton _ _, fun a ha b hb => ?_⟩
    have hmem := mem_eraseDups.mp ha
    rw [mem_singleton.mp hb, idxOf_append_of_mem hmem,
      idxOf_append_of_notMem hname]
    exact Nat.lt_of_lt_of_le (idxOf_lt_length_of_mem hmem) (Nat.le_add_right _ _)

theorem eraseDups_eq_nil_iff {names : List String} : names.eraseDups = [] ↔ names = [] := by
  cases names <;> simp [eraseDups_cons]

namespace Execute

open Query Schema

/-! ## Columns by their names -/

section Columns

variable (columns : List Column) {name : String}

/-- A table has a column of a name. -/
def Known (name : String) : Prop :=
  name ∈ columns.map Column.name

/-- **A name is that of a textual column.**  Of several columns of one name the last one decides. -/
def Textual (name : String) : Prop :=
  ∃ c, c ∈ (columns.filter fun c => c.name == name).getLast? ∧ c.isText = true

instance (name : String) : Decidable (Known columns name) :=
  inferInstanceAs (Decidable (_ ∈ _))

instance (name : String) : Decidable (Textual columns name) :=
  inferInstanceAs (Decidable (∃ c, c ∈ _ ∧ _))

/-- **The column that a nested relation needs**: the one it looks into, or the one that joins it. -/
def childColumn (child : Relation) : String :=
  if Textual columns child.type then child.type
  else if Known columns (idColumn child.type) then idColumn child.type
  else "id"

/-- The columns that join nested relations: those of the relations that do not look into a
document. -/
def joinColumns (children : List Relation) : List String :=
  (children.filter fun child => ¬ Textual columns child.type).map (childColumn columns)

/-- **The names that are selected for a relation**, each once: what the nested relations need comes
first, then what was asked for. -/
def selectedNames (rel : Relation) : List String :=
  (rel.relations.map (childColumn columns) ++ rel.attributes).eraseDups

/-- A name that is selected in quotes: that of a column, or of one that is taken to be there since
it joins a nested relation. -/
def Quoted (rel : Relation) (name : String) : Prop :=
  Known columns name ∨ name ∈ joinColumns columns rel.relations

instance (rel : Relation) (name : String) : Decidable (Quoted columns rel name) :=
  inferInstanceAs (Decidable (_ ∨ _))

def selectedText (d : Sql.Dialect) (rel : Relation) (name : String) : String :=
  if Quoted columns rel name then d.quote name else name

/-- **The columns that are hidden**: those that join a nested relation and are no attributes. -/
def hiddenColumns (rel : Relation) : List String :=
  ((joinColumns columns rel.relations).filter fun name => name ∉ rel.attributes).eraseDups

variable {columns}

theorem isKnown_iff : isKnown columns name ↔ Known columns name := by
  rw [isKnown, column?, List.find?_isSome, Known, mem_map]
  simp only [mem_reverse, beq_iff_eq]

theorem looksInside_iff {child : Relation} :
    looksInside columns child ↔ Textual columns child.type := by
  rw [looksInside, column?, ← List.getLast?_filter, Textual]
  cases (columns.filter fun c => c.name == child.type).getLast? <;> simp

theorem Textual.known (h : Textual columns name) : Known columns name := by
  obtain ⟨c, hc, -⟩ := h
  obtain ⟨hmem, hname⟩ := mem_filter.mp (mem_of_getLast? hc)
  exact mem_map.mpr ⟨c, hmem, beq_iff_eq.mp hname⟩

theorem joinColumn_eq {child : Relation} (h : ¬ Textual columns child.type) :
    joinColumn columns child = childColumn columns child := by
  rw [joinColumn, childColumn, if_neg h]
  by_cases hid : Known columns (idColumn child.type)
  · rw [if_pos (isKnown_iff.mpr hid), if_pos hid]
  · rw [if_neg (mt isKnown_iff.mp hid), if_neg hid]

theorem mem_joinColumns {children : List Relation} : name ∈ joinColumns columns children ↔
      ∃ child ∈ children, ¬ Textual columns child.type ∧ childColumn columns child = name := by
  simp only [joinColumns, mem_map, mem_filter, decide_eq_true_eq, and_assoc]

theorem mem_hiddenColumns {rel : Relation} : name ∈ hiddenColumns columns rel ↔
      name ∈ joinColumns columns rel.relations ∧ name ∉ rel.attributes := by
  rw [hiddenColumns, mem_eraseDups, mem_filter, decide_eq_true_eq]

/-- What a nested relation needs is selected in quotes. -/
theorem quoted_childColumn {rel child : Relation} (h : child ∈ rel.relations) :
    Quoted columns rel (childColumn columns child) := by
  by_cases htext : Textual columns child.type
  · rw [childColumn, if_pos htext]
    exact .inl htext.known
  · exact .inr (mem_joinColumns.mpr ⟨child, h, htext, rfl⟩)

/-- What is selected without quotes was asked for by its name. -/
theorem mem_attributes_of_not_quoted {rel : Relation}
    (h : name ∈ selectedNames columns rel) (hbare : ¬ Quoted columns rel name) :
    name ∈ rel.attributes := by
  rw [selectedNames, mem_eraseDups, mem_append] at h
  refine h.resolve_left fun hneeded => hbare ?_
  obtain ⟨child, hchild, rfl⟩ := mem_map.mp hneeded
  exact quoted_childColumn hchild

end Columns

/-! ## Making the list -/

def selectionOf (text : String → String) (names hidden : List String) : Selection :=
  ⟨names, names.map text, hidden⟩

theorem add_selectionOf {text : String → String} {names hidden : List String} {name item : String}
    (h : name ∉ names → item = text name) :
    (selectionOf text names hidden).add name item =
      selectionOf text (addNew names name) hidden := by
  unfold selectionOf Selection.add addNew
  dsimp only
  split
  · rfl
  · rename_i hnew
    rw [map_append, map_singleton, ← h (by simpa using hnew)]

theorem hide_selectionOf (text : String → String) (names hidden : List String) (name : String) :
    (selectionOf text names hidden).hide name = selectionOf text names (addNew hidden name) := by
  unfold selectionOf Selection.hide addNew
  dsimp only
  split <;> rfl

section Fold

variable (d : Sql.Dialect) {columns : List Column} {rel : Relation}

/-- What one nested relation adds: the column that it needs and, if that joins it without being an
attribute, the same as a hidden one. -/
theorem addChild_selectionOf {child : Relation} (hchild : child ∈ rel.relations)
    (names hidden : List String) :
    Selection.addChild d columns rel (selectionOf (selectedText columns d rel) names hidden) child =
      selectionOf (selectedText columns d rel) (addNew names (childColumn columns child))
        (((joinColumns columns [child]).filter fun name => name ∉ rel.attributes).foldl addNew
          hidden) := by
  have htext : d.quote (childColumn columns child) =
      selectedText columns d rel (childColumn columns child) := by
    rw [selectedText, if_pos (quoted_childColumn hchild)]
  have hattr (name : String) : rel.hasAttribute name = decide (name ∈ rel.attributes) := by
    rw [Relation.hasAttribute, any_beq', contains_eq_mem]
  unfold Selection.addChild
  by_cases hinside : Textual columns child.type
  · have hnone : joinColumns columns [child] = [] := by simp [joinColumns, hinside]
    have hname : childColumn columns child = child.type := if_pos hinside
    rw [if_pos (looksInside_iff.mpr hinside), hnone, ← hname]
    exact add_selectionOf fun _ => htext
  have hone : joinColumns columns [child] = [childColumn columns child] := by
    simp [joinColumns, hinside]
  dsimp only
  rw [if_neg (mt looksInside_iff.mp hinside), hone, joinColumn_eq hinside, hattr]
  by_cases hasked : childColumn columns child ∈ rel.attributes
  · rw [if_pos (decide_eq_true hasked), filter_cons_of_neg (by simpa using hasked)]
    exact add_selectionOf fun _ => htext
  · rw [if_neg (by simpa using hasked), filter_cons_of_pos (by simpa using hasked),
      hide_selectionOf]
    exact add_selectionOf fun _ => htext

theorem foldl_addChild (children : List Relation) (hsub : ∀ c ∈ children, c ∈ rel.relations)
    (names hidden : List String) :
    children.foldl (Selection.addChild d columns rel)
        (selectionOf (selectedText columns d rel) names hidden) =
      selectionOf (selectedText columns d rel)
        ((children.map (childColumn columns)).foldl addNew names)
        (((joinColumns columns children).filter fun name => name ∉ rel.attributes).foldl addNew
          hidden) := by
  induction children generalizing names hidden with
  | nil => rfl
  | cons child rest ih =>
    obtain ⟨hchild, hrest⟩ := forall_mem_cons.mp hsub
    have hsplit : joinColumns columns (child :: rest) =
        joinColumns columns [child] ++ joinColumns columns rest := by
      unfold joinColumns
      rw [← map_append, ← filter_append]
      rfl
    rw [foldl_cons, addChild_selectionOf d hchild, ih hrest, map_cons, foldl_cons,
      hsplit, filter_append, foldl_append]

/-- An attribute that is no column, but joins a nested relation, is selected already. -/
theorem foldl_addAttribute (attributes names hidden : List String)
    (h : ∀ name ∈ joinColumns columns rel.relations, name ∈ names) :
    attributes.foldl (Selection.addAttribute d columns)
        (selectionOf (selectedText columns d rel) names hidden) =
      selectionOf (selectedText columns d rel) (attributes.foldl addNew names) hidden := by
  induction attributes generalizing names with
  | nil => rfl
  | cons name rest ih =>
    have hitem : name ∉ names → (if isKnown columns name then d.quote name else name) =
        selectedText columns d rel name := by
      intro hnew
      have hquoted : Quoted columns rel name ↔ isKnown columns name = true :=
        ⟨fun hq => isKnown_iff.mpr (hq.resolve_right fun hjoin => hnew (h name hjoin)),
          fun hk => .inl (isKnown_iff.mp hk)⟩
      rw [selectedText]
      simp only [hquoted]
    rw [foldl_cons, Selection.addAttribute, add_selectionOf hitem, foldl_cons]
    refine ih _ fun n hn => ?_
    unfold addNew
    split
    · exact h n hn
    · exact mem_append_left _ (h n hn)

/-- **Every select list**: the texts of the selected names, and the hidden columns. -/
theorem plan?_eq_projected (columns : List Column) (rel : Relation) :
    plan? d columns rel =
      if selectedNames columns rel = [] then none
      else some ⟨",".intercalate ((selectedNames columns rel).map (selectedText columns d rel)),
        hiddenColumns columns rel⟩ := by
  have hjoins : ∀ name ∈ joinColumns columns rel.relations,
      name ∈ (rel.relations.map (childColumn columns)).eraseDups := by
    intro name hname
    obtain ⟨child, hchild, -, rfl⟩ := mem_joinColumns.mp hname
    exact mem_eraseDups.mpr (mem_map_of_mem hchild)
  have hchildren : (rel.relations.map (childColumn columns)).foldl addNew [] =
      (rel.relations.map (childColumn columns)).eraseDups := foldl_addNew [] _
  have hhidden : ((joinColumns columns rel.relations).filter
      fun name => name ∉ rel.attributes).foldl addNew [] = hiddenColumns columns rel :=
    foldl_addNew [] _
  have hselection : rel.attributes.foldl (Selection.addAttribute d columns)
      (rel.relations.foldl (Selection.addChild d columns rel)
        (selectionOf (selectedText columns d rel) [] [])) =
      selectionOf (selectedText columns d rel) (selectedNames columns rel)
        (hiddenColumns columns rel) := by
    rw [foldl_addChild d rel.relations (fun _ hc => hc), hchildren, hhidden,
      foldl_addAttribute d _ _ _ hjoins, foldl_addNew]
    rfl
  have hplan : plan? d columns rel =
      if ((selectedNames columns rel).map (selectedText columns d rel)).isEmpty then none
      else some ⟨",".intercalate ((selectedNames columns rel).map (selectedText columns d rel)),
        hiddenColumns columns rel⟩ := by
    unfold plan?
    dsimp only
    rw [show ({} : Selection) = selectionOf (selectedText columns d rel) [] [] from rfl, hselection]
    rfl
  rw [hplan]
  by_cases hempty : selectedNames columns rel = [] <;> simp [hempty]

end Fold

/-- **The planned select list**, over any columns and for any relation.  There is none exactly for a
relation without attributes and nested relations.  Otherwise the names are what the nested relations
need, in the order of their declaration, and then the attributes, each name once where it first
occurs.  A name is in quotes if it is that of a column or joins a nested relation, and stands as it
is otherwise.  Hidden are the joining columns that are no attributes, each once. -/
theorem plan?_projection (d : Sql.Dialect) (columns : List Column) (rel : Relation) :
    plan? d columns rel =
        (if rel.attributes = [] ∧ rel.relations = [] then none
        else some ⟨",".intercalate ((selectedNames columns rel).map (selectedText columns d rel)),
          hiddenColumns columns rel⟩) ∧
      FirstOccurrences (rel.relations.map (childColumn columns) ++ rel.attributes)
        (selectedNames columns rel) ∧
      FirstOccurrences
        ((joinColumns columns rel.relations).filter fun name => name ∉ rel.attributes)
        (hiddenColumns columns rel) := by
  refine ⟨?_, firstOccurrences_eraseDups _, firstOccurrences_eraseDups _⟩
  have hnone : selectedNames columns rel = [] ↔ rel.attributes = [] ∧ rel.relations = [] := by
    rw [selectedNames, eraseDups_eq_nil_iff, List.append_eq_nil_iff, List.map_eq_nil_iff, and_comm]
  rw [plan?_eq_projected]
  simp only [hnone]

/-! ## Hidden although asked for -/

/-- **A relation asks for a column**: by its name, by the attribute that stands for every column, or
by a nested relation that looks into the column's document. -/
def AsksFor (columns : List Column) (rel : Relation) (name : String) : Prop :=
  name ∈ rel.attributes ∨ Relation.wildcard ∈ rel.attributes ∨
    ∃ child ∈ rel.relations, Textual columns child.type ∧ child.type = name

/-- **What is hidden although it was asked for.**  No attribute is hidden.  A column that was asked
for in another way is hidden exactly if it joins a nested relation and is no attribute. -/
theorem mem_hidden_and_asked_iff {d : Sql.Dialect} {columns : List Column} {rel : Relation}
    {proj : Projection} (h : plan? d columns rel = some proj) {name : String} :
    name ∈ proj.hidden ∧ AsksFor columns rel name ↔
      (∃ child ∈ rel.relations, ¬ Textual columns child.type ∧ childColumn columns child = name) ∧
        name ∉ rel.attributes ∧
        (Relation.wildcard ∈ rel.attributes ∨
          ∃ child ∈ rel.relations, Textual columns child.type ∧ child.type = name) := by
  have hhidden : proj.hidden = hiddenColumns columns rel := by
    rw [plan?_eq_projected] at h
    split at h
    · cases h
    · cases h
      rfl
  rw [hhidden, mem_hiddenColumns, mem_joinColumns, AsksFor]
  constructor
  · rintro ⟨⟨hjoins, hattr⟩, hasked⟩
    exact ⟨hjoins, hattr, hasked.resolve_left hattr⟩
  · rintro ⟨hjoins, hattr, hasked⟩
    exact ⟨⟨hjoins, hattr⟩, .inr hasked⟩

def carColumns : List Column :=
  [⟨"id", "TEXT", true⟩, ⟨"brandId", "TEXT", true⟩, ⟨"license", "TEXT", true⟩]

/-- Cars with all their columns, and their owners. -/
def wholeCars : Relation where
  type := "cars"
  attributes := ["*"]
  relations := [{ type := "owners", attributes := ["name"] }]

/-- Cars with the document in a column, and the brand that the column refers to. -/
def brandedCars : Relation where
  type := "cars"
  attributes := ["license"]
  relations :=
    [{ type := "brandId", attributes := ["*"] }, { type := "brand", attributes := ["name"] }]

/-- The column with the document is selected, and hidden. -/
theorem mem_hidden_and_asked_brandedCars :
    ∃ proj, plan? .sqlite carColumns brandedCars = some proj ∧
      proj.sql = "\"brandId\",\"license\"" ∧
      "brandId" ∈ proj.hidden ∧ AsksFor carColumns brandedCars "brandId" := by
  refine ⟨⟨"\"brandId\",\"license\"", ["brandId"]⟩, by decide +kernel, rfl, ?_⟩
  refine (mem_hidden_and_asked_iff (d := .sqlite) (by decide +kernel)).mpr ⟨?_, ?_, .inr ?_⟩
  · exact ⟨{ type := "brand", attributes := ["name"] }, by simp [brandedCars], by decide, by decide⟩
  · decide
  · exact ⟨{ type := "brandId", attributes := ["*"] }, by simp [brandedCars], by decide, rfl⟩

/-- **Columns that were asked for are hidden**: the `id` of cars with all their columns, and the
column whose document was asked for. -/
theorem exists_hidden_and_asked :
    (∃ proj, plan? .sqlite carColumns wholeCars = some proj ∧ "id" ∈ proj.hidden ∧
        AsksFor carColumns wholeCars "id") ∧
      ∃ proj, plan? .sqlite carColumns brandedCars = some proj ∧ "brandId" ∈ proj.hidden ∧
        AsksFor carColumns brandedCars "brandId" := by
  refine ⟨⟨⟨"\"id\",*", ["id"]⟩, by decide +kernel, by decide, .inr (.inl (by decide))⟩,
    ⟨⟨"\"brandId\",\"license\"", ["brandId"]⟩, by decide +kernel, by decide, .inr (.inr ?_)⟩⟩
  exact ⟨{ type := "brandId", attributes := ["*"] }, by simp [brandedCars], by decide, rfl⟩

end Execute
end TreeQuery
