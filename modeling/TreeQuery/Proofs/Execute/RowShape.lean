import TreeQuery.Proofs.Execute.Batch
import TreeQuery.Proofs.Execute.Visits

/-!
# The shape of resolved rows

A row of a result is made of a row that the store gave and of what the nested relations attach to
it.  Let sibling relations have distinct types, and let every reply be a table (`Adapter.Tabular`).
Then the keys of a resolved row are decided by the columns of the reply it came in and by the
columns that were planned to be hidden: first the columns that are not hidden, then the types of the
relations that were joined, as they stand in the query (`Shaped`).  A joined relation holds a row or
null, or a list of rows (`Joined`).

The shape is stated against the exchanges of the execution, and is followed through the relations of
a level one at a time (`Partly`).  It holds of the result of every execution that succeeds
(`resultShaped_of_execute`).
-/

namespace TreeQuery

open List

/-- The keys of a row made of a list are the names of the list without repetitions, all visible. -/
theorem Row.outline_ofList {α : Type} (entries : List (String × α)) :
    (ofList entries).outline = (entries.map Prod.fst).eraseDups.map fun key => (key, false) := by
  induction entries using reverseRecOn with
  | nil => rfl
  | append_singleton entries e ih =>
    have hset : ofList (entries ++ [e]) = (ofList entries).set e.1 e.2 := by
      rw [ofList_eq_foldl, foldl_append, ← ofList_eq_foldl]
      rfl
    rw [hset, map_append, map_singleton, eraseDups_concat, addNew, contains_eq_mem,
      ← allKeys_ofList]
    rw [← allKeys_ofList] at ih
    by_cases hmem : e.1 ∈ (ofList entries).allKeys
    · rw [outline_set_of_mem hmem, ih, if_pos (decide_eq_true hmem)]
    · rw [outline_set_of_not_mem hmem, ih, if_neg (by simpa using hmem), map_append]
      rfl

/-! ## Replies that are tables -/

namespace Store

/-- **Rows are a table of the given columns**: each of them has these keys in order, and hides none.
Columns of one name are one column. -/
def IsTable (columns : List String) (rows : List Record) : Prop :=
  ∀ r ∈ rows, r.outline = columns.eraseDups.map fun c => (c, false)

/-- **Every reply of the store is a table**: all its rows have the same columns. -/
structure Adapter.Tabular {σ : Type} (A : Adapter σ) : Prop where
  all : ∀ {sql args s rows}, (A.all sql args s).1 = .ok rows → ∃ columns, IsTable columns rows
  runAll : ∀ {stmt args s rows}, (A.runAll stmt args s).1 = .ok rows →
    ∃ columns, IsTable columns rows
  runOne : ∀ {stmt args s row}, (A.runOne stmt args s).1 = .ok (some row) →
    ∃ columns, IsTable columns [row]

theorem map_fst_pairColumns (columns : List String) (values : List Value) :
    (pairColumns columns values).map Prod.fst = columns := by
  induction columns generalizing values with
  | nil => rw [pairColumns, map_nil]
  | cons c columns ih => cases values <;> rw [pairColumns, map_cons, ih]

theorem outline_record (r : Reply) (row : List Value) :
    (r.record row).outline = r.columns.eraseDups.map fun c => (c, false) := by
  rw [Reply.record, Row.outline_ofList, map_fst_pairColumns]

theorem isTable_readAll {a : Access} {r : Reply} {rows : List Record}
    (h : a.readAll r = .ok rows) : IsTable r.columns rows := by
  unfold Access.readAll at h
  split at h
  · cases h
  cases h
  intro record hrecord
  obtain ⟨row, -, rfl⟩ := mem_map.mp hrecord
  exact outline_record r _

theorem isTable_readOne {a : Access} {r : Reply} {row : Record}
    (h : a.readOne r = .ok (some row)) : IsTable r.columns [row] := by
  unfold Access.readOne at h
  split at h
  · rcases hall : a.readAll r with e | rows
    · rw [hall] at h
      cases h
    rw [hall] at h
    intro record hrecord
    rw [mem_singleton.mp hrecord]
    exact isTable_readAll hall row (mem_of_mem_head? (Except.ok.inj h))
  · split at h
    · cases h
      intro record hrecord
      rw [mem_singleton.mp hrecord]
      exact outline_record r _
    · split at h <;> cases h

theorem exists_of_readReply {α : Type} {read : Reply → Except StoreError α}
    {reply : Except String Reply} {x : α} (h : readReply read reply = .ok x) :
    ∃ r, read r = .ok x := by
  cases reply with
  | error message => cases h
  | ok r => exact ⟨r, h⟩

/-- **The replies that come over a connection are tables.** -/
theorem tabular_adapter {δ : Type} (C : Connection δ) (a : Access) : (adapter C a).Tabular := by
  refine ⟨?_, ?_, ?_⟩
  · intro sql args s rows h
    obtain ⟨r, hr⟩ := exists_of_readReply h
    exact ⟨r.columns, isTable_readAll hr⟩
  · intro stmt args s rows h
    simp only [adapter, adapterAmong] at h
    split at h
    · cases h
    · obtain ⟨r, hr⟩ := exists_of_readReply h
      exact ⟨r.columns, isTable_readAll hr⟩
  · intro stmt args s row h
    simp only [adapter, adapterAmong] at h
    split at h
    · cases h
    · obtain ⟨r, hr⟩ := exists_of_readReply h
      exact ⟨r.columns, isTable_readOne hr⟩

end Store

namespace Execute

open Query Schema Store Work

/-! ## Shapes -/

/-- The columns of a table, as the catalog described them in one of the exchanges. -/
def DescribedIn (d : Sql.Dialect) (all : List Exchange) (table : String) (cols : List Column) :
    Prop :=
  ∃ rows, .all (Catalog.ofDialect d).columns [.text table] (.ok rows) ∈ all ∧
    cols = rows.map (columnOf (Catalog.ofDialect d))

/-- **A statement was prepared for a relation**, with the columns that its plan hides. -/
def PreparedFor (d : Sql.Dialect) (all : List Exchange) (child : Relation) (hidden : List String)
    (stmt : Statement) : Prop :=
  ∃ target keyed cols proj, DescribedIn d all target.table cols ∧ plan? d cols child = some proj ∧
    hidden = proj.hidden ∧
      .prepare (statementText d target keyed proj child.sql) (.ok stmt) ∈ all

/-- The types of the relations that are joined: those that are no columns. -/
def joinedTypes (columns : List String) (children : List Relation) : List String :=
  (children.filter fun c => decide (c.type ∉ columns)).map Relation.type

/-- Whether a joined relation has one related row: its type followed by `Id` is a column, or the
type of a relation before it. -/
def isSingularAmong (columns : List String) (before : List Relation) (child : Relation) : Bool :=
  decide (idColumn child.type ∈ columns ++ before.map Relation.type)

section Shapes

variable (d : Sql.Dialect) (all : List Exchange)

mutual

/-- **The shape of a row that was resolved for a relation**, in a reply with the given columns and
with the columns that the plan of the relation hides. -/
inductive Shaped : Relation → (columns hidden : List String) → Record → Prop
  | mk {rel : Relation} {columns hidden : List String} {row : Record}
    (keys : row.keys = columns.eraseDups.filter (fun c => decide (c ∉ hidden)) ++
      joinedTypes columns rel.relations)
    (types : ∀ child ∈ rel.relations, row.has child.type = true ∧
      (row.isHidden child.type = true → child.type ∈ columns ∧ child.type ∈ hidden))
    (values : ∀ before child after, rel.relations = before ++ child :: after →
      child.type ∉ columns → ∀ v, row.get? child.type = some v →
        Joined (isSingularAmong columns before child) child v) :
    Shaped rel columns hidden row

/-- **What a row holds for a relation that was joined**: null or a row, if there is one related row,
and otherwise a list of rows.  The rows are those that a run of the relation's statement gave. -/
inductive Joined : (isSingular : Bool) → Relation → Value → Prop
  | none {child : Relation} {hidden : List String} {stmt : Statement} {args : List Value}
    (prepared : PreparedFor d all child hidden stmt)
    (run : .runOne stmt args (.ok none) ∈ all) : Joined true child .null
  | one {child : Relation} {columns hidden : List String} {stmt : Statement} {args : List Value}
    {given row : Record} (prepared : PreparedFor d all child hidden stmt)
    (run : .runOne stmt args (.ok (some given)) ∈ all) (table : IsTable columns [given])
    (shaped : Shaped child columns hidden row) : Joined true child (.row row)
  | many {child : Relation} {columns hidden : List String} {stmt : Statement} {args : List Value}
    {given rows : List Record} (prepared : PreparedFor d all child hidden stmt)
    (run : .runAll stmt args (.ok given) ∈ all) (table : IsTable columns given)
    (length : rows.length = given.length)
    (shaped : ∀ row ∈ rows, Shaped child columns hidden row) : Joined false child (.rows rows)

end

/-- The rows that a mutation's statement gave, and the columns that the plan of the root hides. -/
def ReturnedFor (root : Relation) (hidden : List String) (given : List Record) : Prop :=
  ∃ cols proj, (if root.table.isEmpty then cols = [] else DescribedIn d all root.table cols) ∧
    plan? d cols root = some proj ∧ hidden = proj.hidden ∧
      .all (root.sql ++ " RETURNING " ++ proj.sql) root.bindings (.ok given) ∈ all

/-- **The shape of a result.**  The rows of a mutation have the shape of the root.  Otherwise there
is one row without columns that stands for the query: the result is that row, or what it holds for
a lone relation. -/
def ResultShaped (root : Relation) (v : Value) : Prop :=
  if root.isMutation then
    ∃ columns hidden given rows, ReturnedFor d all root hidden given ∧ IsTable columns given ∧
      rows.length = given.length ∧ (∀ row ∈ rows, Shaped d all root columns hidden row) ∧
        v = .rows rows
  else
    ∃ top, Shaped d all root [] [] top ∧
      ((∃ only, root.relations = [only] ∧ top.get? only.type = some v) ∨
        (root.relations.length ≠ 1 ∧ v = .row top))

/-- **The shape of a row of a level when some of its relations are done**: its outline, and what it
holds for those that were joined. -/
structure Partly (columns hidden : List String) (done : List Relation) (row : Record) : Prop where
  outline : row.outline = (columns.eraseDups.map fun c => (c, decide (c ∈ hidden))) ++
    (joinedTypes columns done).map fun type => (type, false)
  values : ∀ before child after, done = before ++ child :: after → child.type ∉ columns →
    ∀ v, row.get? child.type = some v →
      Joined d all (isSingularAmong columns before child) child v

end Shapes

variable {child : Relation} {values : List (Option Value)}

section Level

variable {d : Sql.Dialect} {all : List Exchange} {columns hidden : List String}

theorem mem_joinedTypes {children : List Relation} {type : String} :
    type ∈ joinedTypes columns children ↔ type ∉ columns ∧ type ∈ children.map Relation.type := by
  simp only [joinedTypes, mem_map, mem_filter, decide_eq_true_eq]
  constructor
  · rintro ⟨c, ⟨hc, htype⟩, rfl⟩
    exact ⟨htype, c, hc, rfl⟩
  · rintro ⟨htype, c, hc, rfl⟩
    exact ⟨c, ⟨hc, htype⟩, rfl⟩

theorem joinedTypes_concat (done : List Relation) (child : Relation) :
    joinedTypes columns (done ++ [child]) =
      joinedTypes columns done ++ if child.type ∈ columns then [] else [child.type] := by
  rw [joinedTypes, filter_append, map_append, joinedTypes]
  split <;> simp_all

/-- A relation among those done and one more is the last one, or is among those done. -/
theorem concat_split {done before after : List Relation} {c : Relation}
    (h : done ++ [child] = before ++ c :: after) :
    (before = done ∧ c = child) ∨ ∃ rest, done = before ++ c :: rest := by
  rcases eq_nil_or_concat after with rfl | ⟨rest, last, rfl⟩
  · obtain ⟨rfl, rfl⟩ := append_singleton_inj.mp h
    exact .inl ⟨rfl, rfl⟩
  · rw [concat_eq_append, ← cons_append, ← append_assoc] at h
    exact .inr ⟨rest, (append_singleton_inj.mp h).1⟩

namespace Partly

/-- The row as the store gave it, before any relation is done. -/
theorem hide {given : List Record} (h : IsTable columns given) {r : Record} (hr : r ∈ given) :
    Partly d all columns hidden [] (r.hide hidden) := by
  refine ⟨?_, ?_⟩
  · rw [Row.outline_hide, h r hr, map_map]
    exact (append_nil _).symm
  · intro before child after hdone
    cases before <;> cases hdone

variable {done : List Relation} {row : Record} (h : Partly d all columns hidden done row)

include h

/-- The keys of the row are the columns and the types of the relations that are done. -/
theorem mem_allKeys {key : String} :
    key ∈ row.allKeys ↔ key ∈ columns ++ done.map Relation.type := by
  rw [← Row.map_fst_outline, h.outline, map_append, map_map, map_map]
  simp only [Function.comp_def, map_id', mem_append, mem_eraseDups, mem_joinedTypes]
  by_cases hkey : key ∈ columns <;> simp [hkey]

/-- A relation that looks into documents changes neither the outline nor what was joined. -/
theorem attachTo_inside (htype : child.type ∈ columns) (v : Option Value) :
    Partly d all columns hidden (done ++ [child]) (attachTo child.type row v) := by
  have hmem : child.type ∈ row.allKeys := h.mem_allKeys.mpr (mem_append_left _ htype)
  have houtline : (attachTo child.type row v).outline = row.outline := by
    cases v with
    | none => rfl
    | some v => exact Row.outline_set_of_mem hmem v
  refine ⟨?_, ?_⟩
  · rw [houtline, h.outline, joinedTypes_concat, if_pos htype, append_nil]
  intro before c after hsplit hc w hw
  have hne : c.type ≠ child.type := fun heq => hc (heq ▸ htype)
  have hget : row.get? c.type = some w := by
    cases v with
    | none => exact hw
    | some v => rwa [attachTo, Row.get?_set_of_ne hne] at hw
  rcases concat_split hsplit with ⟨-, rfl⟩ | ⟨rest, hdone⟩
  · exact absurd rfl hne
  · exact h.values before c rest hdone hc w hget

/-- A relation that is joined adds its type at the end. -/
theorem attachTo_joined (htype : child.type ∉ columns)
    (hnew : child.type ∉ done.map Relation.type) {v : Value}
    (hv : Joined d all (isSingularAmong columns done child) child v) :
    Partly d all columns hidden (done ++ [child]) (attachTo child.type row (some v)) := by
  have hmem : child.type ∉ row.allKeys := fun hmem =>
    (mem_append.mp (h.mem_allKeys.mp hmem)).elim htype hnew
  refine ⟨?_, ?_⟩
  · rw [attachTo, Row.outline_set_of_not_mem hmem, h.outline, joinedTypes_concat, if_neg htype,
      map_append, append_assoc]
    rfl
  intro before c after hsplit hc w hw
  rcases concat_split hsplit with ⟨rfl, rfl⟩ | ⟨rest, hdone⟩
  · rw [attachTo, Row.get?_set_self] at hw
    cases hw
    exact hv
  have hne : c.type ≠ child.type := by
    intro heq
    refine hnew (heq ▸ mem_map_of_mem ?_)
    rw [hdone]
    exact mem_append_right _ mem_cons_self
  rw [attachTo, Row.get?_set_of_ne hne] at hw
  exact h.values before c rest hdone hc w hw

/-- When all relations are done the row has its shape. -/
theorem shaped {rel : Relation} (hrel : done = rel.relations) :
    Shaped d all rel columns hidden row := by
  subst hrel
  refine .mk ?_ ?_ h.values
  · rw [Row.keys_eq_outline, h.outline, filter_append, map_append, List.filter_map,
      List.filter_map, map_map, map_map]
    simp [Function.comp_def]
  · intro child hchild
    refine ⟨Row.has_iff.mpr (h.mem_allKeys.mpr ?_), fun hhidden => ?_⟩
    · exact mem_append_right _ (mem_map_of_mem hchild)
    · rw [Row.isHidden_iff, h.outline] at hhidden
      simpa using hhidden

end Partly

/-- The first row of a level tells what keys all of them have. -/
theorem firstHas_of_partly {done : List Relation} {parents : List Record} (hne : parents ≠ [])
    (h : ∀ p ∈ parents, Partly d all columns hidden done p) (key : String) :
    firstHas parents key = decide (key ∈ columns ++ done.map Relation.type) := by
  have hkeys : ∀ p ∈ parents,
      p.has = fun key => decide (key ∈ columns ++ done.map Relation.type) := by
    intro p hp
    funext key
    rw [Bool.eq_iff_iff, Row.has_iff, (h p hp).mem_allKeys, decide_eq_true_eq]
  exact firstHas_of_forall hne hkeys key

end Level

/-! ## What a work yields, told among exchanges -/

variable {σ : Type}

/-- **What a work that succeeds yields**, if all that it said to its store is among the given
exchanges.  What a work depends on may stand as a condition in what it yields. -/
def Draws {α : Type} (all : List Exchange) (w : Work (Logged σ) α) (P : α → Prop) : Prop :=
  Tells w fun a l => l ⊆ all → P a

section Draws

variable {α β : Type} {all : List Exchange} {P : α → Prop} {Q : β → Prop}

variable {w : Work (Logged σ) α}

theorem Draws.mono {P' : α → Prop} (hw : Draws all w P) (h : ∀ a, P a → P' a) : Draws all w P' :=
  Tells.mono hw fun a _ hP hl => h a (hP hl)

theorem Draws.pure {a : α} (h : P a) : Draws all (pure a : Work (Logged σ) α) P :=
  Tells.pure fun _ => h

theorem Draws.bind {f : α → Work (Logged σ) β}
    (hw : Draws all w P) (hf : ∀ a, Draws all (f a) fun b => P a → Q b) :
    Draws all (w >>= f) Q := by
  refine Tells.bind hw fun a l hP => ?_
  refine Tells.mono (hf a) fun b l' hQ hl => ?_
  obtain ⟨hleft, hright⟩ := append_subset.mp hl
  exact hQ hright (hP hleft)

theorem Draws.note (message : String) (details : List (String × Value))
    {f : Unit → Work (Logged σ) β} (hf : ∀ u, Draws all (f u) Q) :
    Draws all (note message details >>= f) Q := by
  refine Draws.bind (P := fun _ => True) ?_ fun u => (hf u).mono fun _ hQ _ => hQ
  exact (tells_note message details).mono fun _ _ _ _ => trivial

theorem Draws.and_yields {R : α → Prop} (hw : Draws all w P)
    (h : Yields w R) : Draws all w fun a => R a ∧ P a :=
  (Tells.and_yields hw h).mono fun _ _ hboth hl => ⟨hboth.1, hboth.2 hl⟩

/-- The exchange that a call adds is among those given. -/
theorem draws_call {f : Session (Logged σ) →
      Except StoreError α × Session (Logged σ)} {mk : Except StoreError α → Exchange}
    (h : ∀ s, (f s).2.seen = s.seen ++ [mk (f s).1]) :
    Draws all (call f) fun a => mk (.ok a) ∈ all :=
  (tells_call h).mono fun _ _ hl hsub => hsub (hl ▸ mem_singleton.mpr rfl)

theorem Draws.withStatement {A : Adapter σ} {sql : String}
    {body : Statement → Work (Logged σ) α}
    (h : ∀ stmt, Draws all (body stmt) fun a => .prepare sql (.ok stmt) ∈ all → P a) :
    Draws all (withStatement A.observed sql body) P := by
  refine (Tells.withStatement h).mono ?_
  rintro a _ ⟨stmt, l, hP, rfl⟩ hsub
  obtain ⟨hmem, hrest⟩ := cons_subset.mp hsub
  exact hP (append_subset.mp hrest).1 hmem

theorem Draws.mapM {R : α → β → Prop} {f : α → Work (Logged σ) β}
    (h : ∀ a, Draws all (f a) (R a)) (as : List α) :
    Draws all (as.mapM f) fun bs => List.Forall₂ R as bs := by
  induction as with
  | nil =>
    rw [mapM_nil]
    exact Draws.pure .nil
  | cons a as ih =>
    rw [mapM_cons]
    refine (h a).bind fun b => ih.bind fun bs => Draws.pure ?_
    exact fun hbs hb => .cons hb hbs

end Draws

/-! ## What the relations of a level attach -/

section Attach

variable {A : Adapter σ} {d : Sql.Dialect} {all : List Exchange}

theorem draws_columns (table : String) :
    Draws all (columns A.observed (Catalog.ofDialect d) table) fun cols =>
      DescribedIn d all table cols := by
  refine Draws.bind (P := fun rows => .all (Catalog.ofDialect d).columns [.text table] (.ok rows) ∈
    all) (draws_call fun _ => rfl) fun rows => Draws.pure ?_
  exact fun hrows => ⟨rows, hrows, rfl⟩

theorem draws_runAll (hA : A.Tabular) (stmt : Statement) (args : List Value) :
    Draws all (call (Session.runAll A.observed stmt args)) fun given =>
      (∃ columns, IsTable columns given) ∧ .runAll stmt args (.ok given) ∈ all :=
  Draws.and_yields (draws_call fun _ => rfl) (Yields.call fun _ _ h => hA.runAll h)

theorem draws_runOne (hA : A.Tabular) (stmt : Statement) (args : List Value) :
    Draws all (call (Session.runOne A.observed stmt args)) fun given =>
      (∀ row, given = some row → ∃ columns, IsTable columns [row]) ∧
        .runOne stmt args (.ok given) ∈ all :=
  Draws.and_yields (draws_call fun _ => rfl)
    (Yields.call fun _ _ h _ hrow => hA.runOne (hrow ▸ h))

/-- **The relations of a level attach what gives its rows their shape.** -/
def ShapesLevel (A : Adapter σ) (d : Sql.Dialect) (all : List Exchange)
    (children : List Relation) : Prop :=
  ∀ table parents, Draws all (resolve A.observed d table children parents) fun rows =>
    ∀ columns hidden, (∀ p ∈ parents, Partly d all columns hidden [] p) →
      ∀ r ∈ rows, Partly d all columns hidden children r

/-- The rows that a run gave, once the relations nested in theirs are resolved. -/
theorem draws_related {rel : Relation} (hres : ShapesLevel A d all rel.relations)
    (table : String) (hidden : List String) (given : List Record) :
    Draws all (resolve A.observed d table rel.relations (given.map fun r => r.hide hidden))
      fun rows => rows.length = given.length ∧
        ∀ columns, IsTable columns given → ∀ row ∈ rows, Shaped d all rel columns hidden row := by
  refine ((hres table (given.map fun r => r.hide hidden)).and_yields
    (length_resolve A.observed d table _ _)).mono fun rows hrows => ?_
  refine ⟨hrows.1.trans (length_map _), fun columns htable row hrow => ?_⟩
  refine (hrows.2 columns hidden (fun p hp => ?_) row hrow).shaped rfl
  obtain ⟨r, hr, rfl⟩ := mem_map.mp hp
  exact Partly.hide htable hr

theorem draws_relatedTo (hA : A.Tabular)
    (hres : ShapesLevel A d all child.relations) (table : String) (keyed isSingular : Bool)
    (hidden : List String) (stmt : Statement) (row : Record) :
    Draws all (relatedTo A.observed (resolve A.observed d table child.relations) child keyed
      isSingular hidden stmt row) fun value =>
        PreparedFor d all child hidden stmt → Joined d all isSingular child value := by
  unfold relatedTo
  dsimp only
  cases isSingular with
  | true =>
    refine Draws.bind (draws_runOne hA stmt _) fun given => ?_
    cases given with
    | none => exact Draws.pure fun hgiven hprepared => .none hprepared hgiven.2
    | some given =>
      refine (draws_related hres table hidden [given]).bind fun rows => Draws.pure ?_
      intro hrows hgiven hprepared
      obtain ⟨columns, htable⟩ := hgiven.1 given rfl
      obtain ⟨related, rfl⟩ := length_eq_one_iff.mp hrows.1
      exact .one hprepared hgiven.2 htable (hrows.2 columns htable related mem_cons_self)
  | false =>
    refine Draws.bind (draws_runAll hA stmt _) fun given => ?_
    refine (draws_related hres table hidden given).bind fun rows => Draws.pure ?_
    intro hrows hgiven hprepared
    obtain ⟨columns, htable⟩ := hgiven.1
    exact .many hprepared hgiven.2 htable hrows.1 (hrows.2 columns htable)

/-- The values of a relation that is joined, one for each row. -/
theorem draws_valuesAlong (hA : A.Tabular)
    (hres : ShapesLevel A d all child.relations) (keyed isSingular : Bool) (rows : List Record)
    (target : Join) :
    Draws all (valuesAlong A.observed d (fun table => resolve A.observed d table child.relations)
      child keyed isSingular rows target) fun values => values.length = rows.length ∧
        ∀ v ∈ values, ∃ value, v = some value ∧ Joined d all isSingular child value := by
  refine (draws_columns target.table).bind fun cols => ?_
  split
  · exact Tells.throw _
  rename_i proj hplan
  refine Draws.withStatement fun stmt => Draws.note _ _ fun _ => ?_
  refine (Draws.mapM (R := fun _ v => PreparedFor d all child proj.hidden stmt →
    ∃ value, v = some value ∧ Joined d all isSingular child value) (fun row => ?_) rows).mono
    fun values hvalues hmem hcols => ⟨hvalues.length_eq.symm, fun v hv => ?_⟩
  · exact (draws_relatedTo hA hres target.table keyed isSingular proj.hidden stmt row).bind
      fun value => Draws.pure fun hvalue hprepared => ⟨value, rfl, hvalue hprepared⟩
  · obtain ⟨row, -, hv⟩ := exists_mem_of_forall₂ hvalues hv
    exact hv ⟨target, keyed, cols, proj, hcols, hplan, rfl, hmem⟩

theorem length_documents {rows : List Record}
    (h : documents child rows = .ok values) : values.length = rows.length := by
  induction rows generalizing values with
  | nil =>
    cases h
    rfl
  | cons row rest ih =>
    rw [documents] at h
    rcases hrest : documents child rest with e | tail
    · rw [hrest] at h
      split at h <;> cases h
    rw [hrest] at h
    split at h
    · cases h
      rw [length_cons, length_cons, ih hrest]
    · cases h
      rw [length_cons, length_cons, ih hrest]
    · cases h

/-- **The values of a relation**: one for each row, and if the relation is joined each is what a row
is to hold. -/
theorem draws_valuesVia (hA : A.Tabular)
    (hres : ShapesLevel A d all child.relations) (table : String) (rows : List Record) :
    Draws all (valuesVia A.observed d (fun table => resolve A.observed d table child.relations)
      table child rows) fun values => values.length = rows.length ∧
        (firstHas rows child.type = false → ∀ v ∈ values, ∃ value, v = some value ∧
          Joined d all (firstHas rows (idColumn child.type)) child value) := by
  unfold valuesVia
  split
  · rename_i hinside
    refine Draws.note _ _ fun _ => ?_
    split
    · rename_i values hvalues
      refine Draws.pure ⟨length_documents hvalues, fun hjoined => ?_⟩
      rw [hjoined] at hinside
      cases hinside
    · exact Tells.throw _
  · refine Draws.bind (P := fun _ => True) ?_ fun target => ?_
    · exact (tells_joinFor table child.type _).mono fun _ _ _ _ => trivial
    · refine (draws_valuesAlong hA hres _ _ rows target).mono fun values hvalues _ => ?_
      exact ⟨hvalues.1, fun _ => hvalues.2⟩

theorem mem_attachAll {type : String} {rows : List Record}
    (hlength : values.length = rows.length) {r : Record} (h : r ∈ attachAll type rows values) :
    ∃ row ∈ rows, ∃ v ∈ values, r = attachTo type row v := by
  induction rows generalizing values with
  | nil =>
    cases values with
    | nil => cases h
    | cons v values => cases hlength
  | cons row rows ih =>
    cases values with
    | nil => cases hlength
    | cons v values =>
      rw [attachAll] at h
      rcases mem_cons.mp h with rfl | h
      · exact ⟨row, mem_cons_self, v, mem_cons_self, rfl⟩
      · obtain ⟨row', hrow', v', hv', rfl⟩ := ih (Nat.succ.inj hlength) h
        exact ⟨row', mem_cons_of_mem _ hrow', v', mem_cons_of_mem _ hv', rfl⟩

/-- **One more relation of a level is done**: the rows get the shape they have with it. -/
theorem draws_attachOne (hA : A.Tabular)
    (hres : ShapesLevel A d all child.relations) {done : List Relation}
    (hnew : child.type ∉ done.map Relation.type) (table : String) {parents : List Record}
    (hne : parents ≠ []) :
    Draws all (attachOne A.observed d table child parents) fun rows => ∀ columns hidden,
      (∀ p ∈ parents, Partly d all columns hidden done p) →
        ∀ r ∈ rows, Partly d all columns hidden (done ++ [child]) r := by
  rw [attachOne_eq]
  refine (draws_valuesVia hA hres table parents).bind fun values => Draws.pure ?_
  intro hvalues columns hidden hparents r hr
  obtain ⟨p, hp, v, hv, rfl⟩ := mem_attachAll hvalues.1 hr
  by_cases htype : child.type ∈ columns
  · exact (hparents p hp).attachTo_inside htype v
  have hjoined : firstHas parents child.type = false := by
    rw [firstHas_of_partly hne hparents, decide_eq_false_iff_not, mem_append, not_or]
    exact ⟨htype, hnew⟩
  obtain ⟨value, rfl, hvalue⟩ := hvalues.2 hjoined v hv
  rw [firstHas_of_partly hne hparents] at hvalue
  exact (hparents p hp).attachTo_joined htype hnew hvalue

/-- A level is shaped by its relations one after the other, if their types are distinct. -/
theorem shapesLevel_of_each (hA : A.Tabular) {children : List Relation}
    (h : ∀ child ∈ children, ShapesLevel A d all child.relations)
    (hnodup : (children.map Relation.type).Nodup) : ShapesLevel A d all children := by
  -- the induction is on the relations that are left, with those that are done beside them
  have hall : ∀ (rest done : List Relation) (table : String) (parents : List Record),
      (∀ child ∈ rest, ShapesLevel A d all child.relations) →
      ((done ++ rest).map Relation.type).Nodup →
        Draws all (resolve A.observed d table rest parents) fun rows => ∀ columns hidden,
          (∀ p ∈ parents, Partly d all columns hidden done p) →
            ∀ r ∈ rows, Partly d all columns hidden (done ++ rest) r := by
    intro rest
    induction rest with
    | nil =>
      intro done table parents _ _
      rw [resolve_nil, append_nil]
      exact Draws.pure fun _ _ hparents => hparents
    | cons child rest ih =>
      intro done table parents hrest hnodup
      cases parents with
      | nil =>
        rw [resolve_empty]
        exact Draws.pure fun _ _ _ r hr => absurd hr not_mem_nil
      | cons first parents =>
        obtain ⟨hchild, hrest⟩ := forall_mem_cons.mp hrest
        have hnew : child.type ∉ done.map Relation.type := by
          rw [map_append, map_cons] at hnodup
          exact fun hmem => (nodup_append.mp hnodup).2.2 _ hmem _ mem_cons_self rfl
        rw [resolve_cons]
        refine (draws_attachOne hA hchild hnew table (cons_ne_nil first parents)).bind
          fun rows => ?_
        have hsplit : done ++ child :: rest = done ++ [child] ++ rest := by simp
        rw [hsplit] at hnodup ⊢
        refine (ih (done ++ [child]) table rows hrest hnodup).mono ?_
        exact fun out hout hrows columns hidden hparents =>
          hout columns hidden (hrows columns hidden hparents)
  intro table parents
  exact hall children [] table parents h hnodup

/-- **Every level of a query is shaped by its relations**, if siblings have distinct types. -/
theorem shapesLevel (hA : A.Tabular) (rel : Relation)
    (hdistinct : ∀ n ∈ rel.nodes, (n.relations.map Relation.type).Nodup) :
    ShapesLevel A d all rel.relations := by
  induction rel using Relation.nested_induction with
  | step rel ih =>
    rw [Relation.nodes_eq] at hdistinct
    obtain ⟨hrel, hnested⟩ := forall_mem_cons.mp hdistinct
    refine shapesLevel_of_each hA (fun child hchild => ih child hchild fun n hn => ?_) hrel
    exact hnested n (Relation.mem_nodesOf.mpr ⟨child, hchild, hn⟩)

/-! ## The shape of results -/

variable {root : Relation}

theorem draws_mutate (hA : A.Tabular) (hres : ShapesLevel A d all root.relations) :
    Draws all (mutate A.observed d root) fun rows => ∃ columns hidden given,
      ReturnedFor d all root hidden given ∧ IsTable columns given ∧ rows.length = given.length ∧
        ∀ row ∈ rows, Shaped d all root columns hidden row := by
  rw [mutate]
  split
  · refine Draws.bind (P := fun cols =>
      if root.table.isEmpty then cols = [] else DescribedIn d all root.table cols) ?_ fun cols => ?_
    · unfold mutationColumns
      split
      · exact Draws.pure rfl
      · exact draws_columns root.table
    unfold mutateOver
    split
    · exact Tells.throw _
    rename_i proj hplan
    have hall : Draws all (call (Session.all A.observed
        (root.sql ++ " RETURNING " ++ proj.sql) root.bindings)) fun given =>
          (∃ columns, IsTable columns given) ∧
            .all (root.sql ++ " RETURNING " ++ proj.sql) root.bindings (.ok given) ∈ all :=
      Draws.and_yields (draws_call fun _ => rfl) (Yields.call fun _ _ h => hA.all h)
    refine Draws.note _ _ fun _ => hall.bind fun given => ?_
    refine (draws_related hres root.table proj.hidden given).mono ?_
    intro rows hrows hgiven hcols
    obtain ⟨columns, htable⟩ := hgiven.1
    exact ⟨columns, proj.hidden, given, ⟨cols, proj, hcols, hplan, rfl, hgiven.2⟩, htable,
      hrows.1, hrows.2 columns htable⟩
  · exact Tells.throw _

/-- The row that stands for the query, before any relation is done. -/
theorem partly_empty : Partly d all [] [] [] Row.empty := by
  refine ⟨rfl, ?_⟩
  intro before child after hdone
  cases before <;> cases hdone

/-- The result is what the row holds for a lone relation, or the row. -/
theorem resultOf_cases {top : Record} (h : ∀ child ∈ root.relations, top.has child.type) :
    (∃ only, root.relations = [only] ∧ top.get? only.type = some (resultOf root [top])) ∨
      (root.relations.length ≠ 1 ∧ resultOf root [top] = .row top) := by
  by_cases hone : root.relations.length = 1
  · obtain ⟨only, honly⟩ := length_eq_one_iff.mp hone
    have hhas : top.has only.type = true := h only (honly ▸ mem_cons_self)
    obtain ⟨v, hv⟩ := Option.isSome_iff_exists.mp (Row.get?_isSome.mpr (Row.has_iff.mp hhas))
    refine .inl ⟨only, honly, ?_⟩
    rw [resultOf, honly]
    show top.get? only.type = some ((top.get? only.type).getD .null)
    rw [hv, Option.getD_some]
  · refine .inr ⟨hone, ?_⟩
    rw [resultOf]
    split
    · rename_i only honly
      exact absurd (congrArg length honly) hone
    · rfl

theorem draws_execute (hA : A.Tabular) (hres : ShapesLevel A d all root.relations) :
    Draws all (execute A.observed d root) (ResultShaped d all root) := by
  rw [execute]
  split
  · rename_i hroot
    refine (draws_mutate hA hres).bind fun rows => Draws.pure ?_
    rintro ⟨columns, hidden, given, hreturned, htable, hlength, hshaped⟩
    rw [ResultShaped, if_pos hroot]
    exact ⟨columns, hidden, given, rows, hreturned, htable, hlength, hshaped, rfl⟩
  rename_i hroot
  refine ((hres "" [Row.empty]).and_yields (length_resolve A.observed d "" _ _)).bind
    fun rows => Draws.pure ?_
  rintro ⟨hlength, hrows⟩
  rw [ResultShaped, if_neg hroot]
  obtain ⟨top, rfl⟩ := length_eq_one_iff.mp hlength
  have htop : Shaped d all root [] [] top :=
    (hrows [] [] (forall_mem_singleton.mpr partly_empty) top mem_cons_self).shaped rfl
  refine ⟨top, htop, ?_⟩
  cases htop with
  | mk _ types _ => exact resultOf_cases fun child hchild => (types child hchild).1

end Attach

/-- **The shape of every resolved row.**  Let sibling relations have distinct types, and let every
reply of the store be a table.  Then the result of an execution that succeeds has its shape. -/
theorem resultShaped_of_execute {A : Adapter σ} (hA : A.Tabular) (d : Sql.Dialect) {root : Relation}
    (hdistinct : ∀ n ∈ root.nodes, (n.relations.map Relation.type).Nodup) {s : σ} {v : Value}
    (h : outcome A d root s = .ok v) : ResultShaped d (exchanges A d root s) root v := by
  obtain ⟨l, hl, hshaped⟩ := draws_execute hA (shapesLevel hA root hdistinct)
    ⟨(s, []), [], []⟩ v (observe A d root s).2 (Prod.ext h rfl)
  refine hshaped fun e he => ?_
  show e ∈ (observe A d root s).2.seen
  rw [hl]
  exact List.mem_append_right _ he

/-- A database of two users, of which one has a car, a company and a profile.  The reply that lists
them has a column twice. -/
def workplace : Connection Nat :=
  { carPark with
    query := fun sql args n =>
      let reply : Reply :=
        if sql = (Catalog.ofDialect .sqlite).columns then
          { columns := ["name", "type"]
            rows := [[.text "profile", .text "TEXT"], [.text "companyId", .text "INTEGER"]] }
        else if args.any fun v => v.display == "users" then
          { columns := ["from", "table", "to"]
            rows := [[.text "companyId", .text "companies", .text "id"]] }
        else
          { columns := ["from", "table", "to"]
            rows := [[.text "userId", .text "users", .text "id"]] }
      (.ok reply, n + 1)
    run := fun _ args n =>
      let reply : Reply :=
        if args.isEmpty then
          { columns := ["profile", "companyId", "id", "name", "name"]
            rows := [[.row ⟨[⟨"color", .text "red", false⟩, ⟨"size", .int 4, false⟩]⟩, .text "c",
                .text "u", .text "ada", .text "Ada"],
              [.null, .null, .text "v", .text "bob", .text "Bob"]] }
        else if args.any fun v => v.display == "c" then
          { columns := ["name"], rows := [[.text "Acme"]] }
        else if args.any fun v => v.display == "u" then
          { columns := ["license"], rows := [[.text "A-1"]] }
        else {}
      (.ok reply, n + 1) }

/-- The users with their profiles, companies and cars. -/
def workplaceQuery : Relation where
  relations :=
    [{ type := "users", attributes := ["name"]
       relations :=
        [{ type := "profile", attributes := ["color"] },
         { type := "company", attributes := ["name"] },
         { type := "cars", attributes := ["license"] }] }]

/-- The keys that the rows of a result show, row by row. -/
def rowKeys : Except Failure Value → List (List String)
  | .ok (.rows rows) => rows.map Row.keys
  | _ => []

theorem exists_rows_of_rowKeys {r : Except Failure Value} (h : rowKeys r ≠ []) :
    ∃ rows, r = .ok (.rows rows) := by
  cases r with
  | error e => exact absurd rfl h
  | ok v =>
    cases v with
    | rows rows => exact ⟨rows, rfl⟩
    | _ => exact absurd rfl h

/-- Both users show a profile and a name, then the company and the cars; their joining columns are
hidden. -/
theorem resultShaped_workplaceQuery :
    let A := adapter workplace (.ofDialect .sqlite true)
    ∃ users, outcome A .sqlite workplaceQuery ⟨0, []⟩ = .ok (.rows users) ∧
      users.map Row.keys =
        [["profile", "name", "company", "cars"], ["profile", "name", "company", "cars"]] ∧
      ResultShaped .sqlite (exchanges A .sqlite workplaceQuery ⟨0, []⟩) workplaceQuery
        (.rows users) := by
  have hkeys : rowKeys (outcome (adapter workplace (.ofDialect .sqlite true)) .sqlite
      workplaceQuery ⟨0, []⟩) =
        [["profile", "name", "company", "cars"], ["profile", "name", "company", "cars"]] := by
    decide +kernel
  obtain ⟨users, husers⟩ := exists_rows_of_rowKeys (hkeys ▸ List.cons_ne_nil _ _)
  rw [husers] at hkeys
  refine ⟨users, husers, hkeys, resultShaped_of_execute (tabular_adapter _ _) .sqlite ?_ husers⟩
  decide

end Execute
end TreeQuery
