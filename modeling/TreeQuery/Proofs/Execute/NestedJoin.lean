import Mathlib.Data.List.Forall2
import TreeQuery.Proofs.Execute.Compositional
import TreeQuery.Proofs.Execute.Plan
import TreeQuery.Proofs.Relational.Select
import TreeQuery.Proofs.Row

/-!
# An execution computes the nested join

On a store that serves a database, a query that fits the database has the result that it means
there (`shown_execute_eq_meaning`).  The executor goes statement by statement and parent by parent,
decides by the first parent how a relation is joined, fetches columns that it hides, and resolves
nested rows before it attaches them; the meaning is read off the tables row by row.

The two meet in a `Scope`: what the rows of one level stand for while their relations are resolved
one after the other.  A row holds the fetched columns and, shown or not, nothing but these and the
relations done so far (`Scope.Holds`).  One relation is one step (`yields_joinAlong`), a level is
the run of its steps (`yields_resolve`), and the levels follow the tree (`resolves_of_fits`).
-/

namespace TreeQuery.Execute

open List Query Schema Store Relational Work

variable {σ : Type}

/-! ## What a work yields -/

def Yields {α : Type} (w : Work σ α) (P : α → Prop) : Prop :=
  ∀ s a t, w.run s = (.ok a, t) → P a

section Yields

variable {α β : Type} {P : α → Prop} {Q : β → Prop}

theorem Yields.pure {a : α} (h : P a) : Yields (pure a : Work σ α) P := by
  intro s b t hrun
  cases hrun
  exact h

theorem Yields.throw (e : Failure) : Yields (throw e : Work σ α) P := by
  intro s b t hrun
  cases hrun

theorem Yields.bind {w : Work σ α} {f : α → Work σ β} (hw : Yields w P)
    (hf : ∀ a, P a → Yields (f a) Q) : Yields (w >>= f) Q := by
  intro s b t hrun
  obtain ⟨a, u, ha, hb⟩ := run_bind_eq_ok hrun
  exact hf a (hw s a u ha) u b t hb

theorem Yields.note (message : String) (details : List (String × Value)) :
    Yields (note message details : Work σ Unit) fun _ => True :=
  fun _ _ _ _ => trivial

theorem Yields.call {f : Session σ → Except StoreError α × Session σ}
    (h : ∀ s a, (f s).1 = .ok a → P a) : Yields (call f) P :=
  fun s a _ hrun => h s a (congrArg Prod.fst (run_call_eq_ok hrun))

theorem Yields.withStatement {A : Adapter σ}
    (hA : ∀ {sql s stmt s'}, A.prepare sql s = (.ok stmt, s') → stmt.sql = sql) {sql : String}
    {body : Statement → Work σ α}
    (h : ∀ stmt, stmt.sql = sql → Yields (body stmt) P) :
    Yields (withStatement A sql body) P := by
  intro s a t hrun
  obtain ⟨stmt, u, v, hprepare, hbody, -⟩ := run_withStatement_eq_ok hrun
  have hsql : Yields (Work.call (Session.prepare A sql)) fun stmt => stmt.sql = sql :=
    Yields.call fun _ _ hs => hA (Prod.ext hs rfl)
  exact h stmt (hsql s stmt u hprepare) u a v hbody

/-- A loop over parents that stand for the elements of a list. -/
theorem Yields.mapM {ι κ : Type} {S : ι → κ → Prop} {R : ι → β → Prop} {f : κ → Work σ β}
    {is : List ι} {ks : List κ} (hS : List.Forall₂ S is ks)
    (hf : ∀ i k, S i k → Yields (f k) (R i)) : Yields (ks.mapM f) (List.Forall₂ R is) := by
  induction hS with
  | nil => exact Yields.pure .nil
  | cons hik _ ih =>
    rw [mapM_cons]
    refine Yields.bind (hf _ _ hik) fun b hb => Yields.bind ih fun bs hbs => ?_
    exact Yields.pure (.cons hb hbs)

end Yields

/-! ## What the store answers -/

section Answers

variable {A : Adapter σ} {d : Sql.Dialect} {db : Database} (hA : Serves A d db)

include hA

theorem yields_columns {name : String} {T : Table} (hT : db.table? name = some T) :
    Yields (columns A (Catalog.ofDialect d) name)
      fun cols => cols = T.describe (Catalog.ofDialect d) := by
  refine Yields.bind (P := fun rows => rows.map (fun r => (textOf r "name", textOf r "type")) =
    db.columns name) ?_ fun rows hrows => Yields.pure ?_
  · exact Yields.call fun _ _ hs => hA.columns (Prod.ext hs rfl)
  rw [Database.columns, hT] at hrows
  have hcolumns : T.columns = rows.map fun r => (textOf r "name", textOf r "type") := hrows.symm
  rw [Table.describe, hcolumns, map_map]
  rfl

theorem yields_foreignKeys (name : String) :
    Yields (foreignKeys A (Catalog.ofDialect d) name) fun keys => keys = db.keys name := by
  refine Yields.bind (P := fun rows => rows.map foreignKeyOf = db.keys name) ?_
    fun rows hrows => Yields.pure hrows
  exact Yields.call fun _ _ hs => hA.foreignKeys (Prod.ext hs rfl)

variable {q : Select} {T : Table} {stmt : Statement}

theorem yields_runAll (hT : db.table? q.table = some T) (hq : q.On T) (hsql : stmt.sql = q.text d)
    (args : List Value) :
    Yields (call (Session.runAll A stmt args)) fun rows => rows = q.answer db T args :=
  Yields.call fun _ _ hs => hA.runAll hT hq hsql (Prod.ext hs rfl)

theorem yields_runOne (hT : db.table? q.table = some T) (hq : q.On T) (hsql : stmt.sql = q.text d)
    (args : List Value) :
    Yields (call (Session.runOne A stmt args)) fun row => row = (q.answer db T args).head? :=
  Yields.call fun _ _ hs => hA.runOne hT hq hsql (Prod.ext hs rfl)

end Answers

/-! ## One level of rows -/

/-- **A scope**: what the rows of one level stand for.  They hold some columns, show some of these,
and are to show a value for each relation. -/
structure Scope (ρ : Type) where
  names : List String
  cell : ρ → String → Value
  base : ρ → List (String × Value)
  value : ρ → Relation → Value

variable {p first : Record} {parents : List Record} {type : String}

namespace Scope

variable {ρ : Type} (S : Scope ρ)

/-- **A row stands for an element of the scope**, with some relations resolved. -/
structure Holds (done : List Relation) (r : ρ) (p : Record) : Prop where
  allKeys : p.allKeys = S.names ++ done.map Relation.type
  get? : ∀ n ∈ S.names, p.get? n = some (S.cell r n)
  shown : Value.shownFields p.fields = S.base r ++ done.map fun c => (c.type, S.value r c)

variable {S}

/-- Attaching the value of one more relation. -/
theorem Holds.set {done : List Relation} {r : ρ} (h : S.Holds done r p)
    {child : Relation} (hnew : child.type ∉ S.names ++ done.map Relation.type) {v : Value}
    (hv : v.shown = S.value r child) : S.Holds (done ++ [child]) r (p.set child.type v) where
  allKeys := by
    rw [← h.allKeys] at hnew
    rw [Row.allKeys_set_of_not_mem hnew, h.allKeys, map_append, append_assoc]
    rfl
  get? := by
    intro n hn
    have hne : n ≠ child.type := by
      rintro rfl
      exact hnew (mem_append_left _ hn)
    rw [Row.get?_set_of_ne hne]
    exact h.get? n hn
  shown := by
    rw [← h.allKeys] at hnew
    rw [Row.fields_set_of_not_mem hnew, Value.shownFields_append, h.shown, map_append,
      append_assoc, map_singleton, ← hv]
    rfl

theorem firstHas_eq {done : List Relation} {rows : List ρ}
    (h : List.Forall₂ (S.Holds done) rows (first :: parents)) (key : String) :
    firstHas (first :: parents) key = decide (key ∈ S.names ++ done.map Relation.type) := by
  cases h with
  | cons hfirst _ =>
    rw [← hfirst.allKeys, Bool.eq_iff_iff, decide_eq_true_iff]
    exact Row.has_iff

end Scope

/-- **A level is the run of its steps.**  If each relation, in its turn, is attached to the rows of
a scope, then so are all of them. -/
theorem yields_resolve {ρ : Type} {S : Scope ρ} {A : Adapter σ} {d : Sql.Dialect} {table : String}
    {all : List Relation} {rows : List ρ}
    (hstep : ∀ done child rest, all = done ++ child :: rest → ∀ first parents,
      List.Forall₂ (S.Holds done) rows (first :: parents) →
        Yields (attachOne A d table child (first :: parents))
          (List.Forall₂ (S.Holds (done ++ [child])) rows))
    {done rest : List Relation} (hall : all = done ++ rest)
    (h : List.Forall₂ (S.Holds done) rows parents) :
    Yields (resolve A d table rest parents) (List.Forall₂ (S.Holds all) rows) := by
  induction rest generalizing done parents with
  | nil =>
    rw [resolve_nil]
    rw [append_nil] at hall
    rw [hall]
    exact Yields.pure h
  | cons child rest ih =>
    cases parents with
    | nil =>
      rw [resolve_empty]
      cases h
      exact Yields.pure .nil
    | cons first parents =>
      rw [resolve_cons]
      refine Yields.bind (hstep done child rest hall first parents h) fun parents' h' => ih ?_ h'
      rw [hall, append_assoc]
      rfl

/-! ## The rows of a statement -/

def fetchedRow (T : Table) (rel : Relation) (row : Record) : Record :=
  (Select.project (T.fetched rel) row).hide (hiddenNames T rel)

/-- The relations nested in a relation are resolved for rows of a table: what the rows then show is
what they mean. -/
def Resolves (A : Adapter σ) (d : Sql.Dialect) (db : Database) (T : Table) (rel : Relation) :
    Prop :=
  ∀ rows : List Record, Yields (resolve A d T.name rel.relations (rows.map (fetchedRow T rel)))
    fun out => Value.shownRows out = rows.map fun row => db.shownRow T row rel

def rowScope (db : Database) (T : Table) (rel : Relation) : Scope Record where
  names := T.fetched rel
  cell := cell
  base := T.shownCells rel
  value := db.related T

theorem fields_fetchedRow (T : Table) (rel : Relation) (row : Record) :
    (fetchedRow T rel row).fields =
      (T.fetched rel).map fun n => ⟨n, cell row n, decide (n ∈ hiddenNames T rel)⟩ := by
  have hnodup : (((T.fetched rel).map fun n => (n, cell row n)).map Prod.fst).Nodup := by
    rw [map_map]
    show ((T.fetched rel).map id).Nodup
    rw [map_id]
    exact nodup_eraseDups _
  rw [fetchedRow, Row.fields_hide, Select.project, Row.fields_ofList hnodup, map_map,
    map_map]
  rfl

theorem holds_fetchedRow (db : Database) (T : Table) (rel : Relation) (row : Record) :
    (rowScope db T rel).Holds [] row (fetchedRow T rel row) where
  allKeys := by
    rw [Row.allKeys, fields_fetchedRow, map_map, map_nil, append_nil]
    exact map_id _
  get? := by
    intro n hn
    have hrow : fetchedRow T rel row =
        ⟨(T.fetched rel).map fun n => ⟨n, cell row n, decide (n ∈ hiddenNames T rel)⟩⟩ := by
      rw [← fields_fetchedRow]
    rw [hrow]
    exact Row.get?_map_of_mem hn _ _
  shown := by
    rw [fields_fetchedRow, Value.shownFields_map, map_nil, append_nil]
    show _ = T.shownCells rel row
    rw [Table.shownCells]
    congr 1
    refine filter_congr fun n hn => ?_
    have hhidden := mem_hiddenNames hn
    by_cases hattr : n ∈ rel.attributes <;> simp [hattr, hhidden]

theorem holds_fetchedRows (db : Database) (T : Table) (rel : Relation) (rows : List Record) :
    List.Forall₂ ((rowScope db T rel).Holds []) rows (rows.map (fetchedRow T rel)) := by
  rw [forall₂_map_right_iff, forall₂_same]
  exact fun row _ => holds_fetchedRow db T rel row

variable {db : Database}

/-- Rows with all their relations resolved show what they mean. -/
theorem shownRows_of_holds {T : Table} {rel : Relation} {rows out : List Record}
    (h : List.Forall₂ ((rowScope db T rel).Holds rel.relations) rows out) :
    Value.shownRows out = rows.map fun row => db.shownRow T row rel := by
  rw [Value.shownRows_eq_map]
  induction h with
  | nil => rfl
  | cons hp _ ih =>
    rw [map_cons, map_cons, ih, hp.shown, Database.shownRow_eq]
    rfl

/-! ## One relation -/

def selectFor (T : Table) (child : Relation) (target : Join) (keyed : Bool) : Select where
  table := target.table
  key := if keyed then some target.key else none
  columns := T.fetched child

theorem statementText_eq (d : Sql.Dialect) (T : Table) (child : Relation) (target : Join)
    (keyed : Bool) (hidden : List String) :
    statementText d target keyed ⟨",".intercalate ((T.fetched child).map d.quote), hidden⟩ "" =
      (selectFor T child target keyed).text d := by
  have hclause : ∀ text : String,
      text ++ (if ("" : String).isEmpty then "" else " " ++ "") = text := by
    intro text
    rw [if_pos (by decide)]
    exact String.append_empty
  unfold statementText Select.text selectFor Select.condition
  refine (hclause _).trans ?_
  cases keyed <;> rfl

section Join

variable {A : Adapter σ} {d : Sql.Dialect} {db : Database} (hA : Serves A d db)
variable {T : Table} {child : Relation} {target : Join} {keyed isSingular : Bool}

include hA

/-- What is attached to one parent. -/
theorem yields_joinOne (hT : db.table? target.table = some T)
    (hq : (selectFor T child target keyed).On T) (hres : Resolves A d db T child) {stmt : Statement}
    (hsql : stmt.sql = (selectFor T child target keyed).text d) {parent : Record}
    {args : List Value}
    (hargs : (if keyed then
        [(parent.get? (if isSingular then idColumn child.type else "id")).getD .null] else []) ++
      child.bindings = args) :
    Yields (joinOne A d child target keyed isSingular (hiddenNames T child) stmt parent)
      fun p => ∃ v, p = parent.set child.type v ∧
        v.shown = gather isSingular
          (((selectFor T child target keyed).rows db T args).map
            fun r => db.shownRow T r child) := by
  have hname : T.name = target.table := Database.name_of_table? hT
  refine Yields.bind (P := fun v => v.shown = _) ?_ fun v hv => Yields.pure ⟨v, rfl, hv⟩
  unfold relatedTo
  dsimp only
  rw [hargs, ← hname]
  cases isSingular with
  | true =>
    rw [if_pos rfl]
    refine Yields.bind (yields_runOne hA hT hq hsql args) fun row hrow => ?_
    rw [Select.answer, List.head?_map] at hrow
    -- the first row that the statement selects, if there is one
    cases hrows : (selectFor T child target keyed).rows db T args with
    | nil =>
      rw [hrows] at hrow
      subst hrow
      exact Yields.pure rfl
    | cons r rest =>
      rw [hrows] at hrow
      subst hrow
      refine Yields.bind (hres [r]) fun out hout => Yields.pure ?_
      rw [Value.shownRows_eq_map] at hout
      obtain ⟨p, rfl, hp⟩ := map_eq_singleton_iff.mp hout
      exact hp
  | false =>
    rw [if_neg Bool.false_ne_true]
    refine Yields.bind (yields_runAll hA hT hq hsql args) fun rows hrows => ?_
    subst hrows
    rw [Select.answer, map_map]
    refine Yields.bind (hres _) fun out hout => Yields.pure ?_
    rw [Value.shown, hout]
    rfl

/-- **One step of a level**: a relation whose rows are in a known table is attached to every row of
a scope. -/
theorem yields_joinAlong {ρ : Type} {S : Scope ρ} {done : List Relation} {rows : List ρ}
    (hT : db.table? target.table = some T)
    (hfit : Fits db (Catalog.ofDialect d) T child) (hkey : keyed → target.key ∈ T.names)
    (hres : Resolves A d db T child)
    (hnew : child.type ∉ S.names ++ done.map Relation.type)
    (hvalue : ∀ r p, S.Holds done r p → S.value r child = gather isSingular
      (((selectFor T child target keyed).rows db T ((if keyed then
          [(p.get? (if isSingular then idColumn child.type else "id")).getD .null] else []) ++
        child.bindings)).map fun row => db.shownRow T row child))
    (h : List.Forall₂ (S.Holds done) rows parents) :
    Yields (joinAlong A d child keyed isSingular parents target)
      (List.Forall₂ (S.Holds (done ++ [child])) rows) := by
  obtain ⟨hclause, hattr, happart, -⟩ := hfit
  -- the text that is prepared is that of a statement which the store has to answer
  refine Yields.bind (yields_columns hA hT) fun cols hcols => ?_
  rw [hcols, plan?_eq d hattr happart]
  by_cases hempty : T.fetched child = []
  · rw [if_pos hempty]
    exact Yields.throw _
  rw [if_neg hempty]
  dsimp only
  rw [hclause, statementText_eq]
  have hq : (selectFor T child target keyed).On T := by
    refine ⟨?_, ?_, hempty⟩
    · intro k hk
      cases keyed with
      | false => cases hk
      | true =>
        cases hk
        exact hkey rfl
    · intro n hn
      exact fetched_subset hattr hn
  refine Yields.withStatement hA.prepare fun stmt hsql => ?_
  refine Yields.bind (Yields.note _ _) fun _ _ => Yields.mapM h fun r p hp => ?_
  intro s p' t hrun
  obtain ⟨v, rfl, hv⟩ := yields_joinOne hA hT hq hres hsql rfl s p' t hrun
  exact hp.set hnew (hv.trans (hvalue r p hp).symm)

end Join

/-! ## Links -/

/-- What a link joins: columns of the two tables, the one that is fetched for the relation and one
of the linked table. -/
theorem link?_eq_some {T : Table} {L : Link} (h : db.link? T type = some L) :
    L.source = T.joinName type ∧ L.isOne = decide (idColumn type ∈ T.names) ∧
      L.target ∈ L.table.names ∧ db.table? L.table.name = some L.table := by
  unfold Database.link? at h
  rw [Table.joinName]
  split at h
  · rename_i hmem
    obtain ⟨k, -, hk⟩ := Option.bind_eq_some_iff.mp h
    obtain ⟨U, hU, rfl⟩ := Option.map_eq_some_iff.mp hk
    refine ⟨(if_pos hmem).symm, (decide_eq_true hmem).symm, U.id_mem, ?_⟩
    rw [Database.name_of_table? hU]
    exact hU
  · rename_i hmem
    obtain ⟨U, hU, hk⟩ := Option.bind_eq_some_iff.mp h
    split at hk
    · rename_i k hkeys
      cases hk
      have hk : k ∈ U.keys := (mem_filter.mp (hkeys ▸ mem_cons_self)).1
      refine ⟨(if_neg hmem).symm, (decide_eq_false hmem).symm, U.source_mem k hk, ?_⟩
      rw [Database.name_of_table? hU]
      exact hU
    · cases hk

/-- A table that refers to one related row: the join along its foreign key is the link. -/
theorem link?_of_singularJoin {T : Table} (hT : db.table? T.name = some T)
    (hmem : idColumn type ∈ T.names) {target : Join}
    (h : singularJoin T.name type T.keys = .ok target) :
    ∃ L, db.link? T type = some L ∧ target = ⟨L.table.name, L.target⟩ := by
  unfold singularJoin at h
  split at h
  · rename_i k hfind
    cases h
    have hk := mem_of_find?_eq_some hfind
    obtain ⟨U, hU⟩ := Database.exists_table?_of_key hT hk
    have htarget : (if k.target.isEmpty then "id" else k.target) = "id" := by
      rcases T.target_id k hk with hid | hempty
      · rw [hid]
        rfl
      · rw [hempty]
        rfl
    refine ⟨⟨U, idColumn type, "id", true⟩, ?_, ?_⟩
    · rw [Database.link?, if_pos hmem, hfind, Option.bind_some, hU]
      rfl
    · rw [htarget, Database.name_of_table? hU]
  · cases h

/-- A table that is referred to: the join along the only foreign key to it is the link. -/
theorem link?_of_pluralJoin {T : Table} (hmem : idColumn type ∉ T.names) {target : Join}
    (h : pluralJoin T.name type (db.keys type) = .ok target) :
    ∃ L, db.link? T type = some L ∧ target = ⟨L.table.name, L.target⟩ := by
  unfold pluralJoin at h
  split at h
  · cases h
  · rename_i k hkeys
    cases h
    cases hU : db.table? type with
    | none =>
      rw [Database.keys, hU] at hkeys
      cases hkeys
    | some U =>
      rw [Database.keys, hU] at hkeys
      refine ⟨⟨U, "id", k.source, false⟩, ?_, ?_⟩
      · have hkeys' : (U.keys.filter fun k => k.table == T.name) = [k] := hkeys
        rw [Database.link?, if_neg hmem, hU, Option.bind_some, hkeys']
      · rw [Database.name_of_table? hU]
  · cases h

theorem yields_orFail {α : Type} (r : Except RelationError α) :
    Yields (orFail r : Work σ α) fun a => r = .ok a := by
  cases r with
  | ok a => exact Yields.pure rfl
  | error e => exact Yields.throw _

/-- The join that the foreign keys give is the link. -/
theorem yields_joinFor {A : Adapter σ} {d : Sql.Dialect} (hA : Serves A d db) {T : Table}
    (hT : db.table? T.name = some T) (type : String) :
    Yields (joinFor A (Catalog.ofDialect d) T.name type (decide (idColumn type ∈ T.names)))
      fun target => ∃ L, db.link? T type = some L ∧ target = ⟨L.table.name, L.target⟩ := by
  unfold joinFor
  rw [T.isEmpty_name, if_neg Bool.false_ne_true]
  by_cases hmem : idColumn type ∈ T.names
  · rw [if_pos (decide_eq_true hmem)]
    refine Yields.bind (yields_foreignKeys hA T.name) fun keys hkeys => ?_
    have hown : keys = T.keys := by
      rw [hkeys, Database.keys, hT]
      rfl
    intro s target t hrun
    exact link?_of_singularJoin hT hmem (hown ▸ yields_orFail _ s target t hrun)
  · rw [if_neg (by simpa using hmem)]
    refine Yields.bind (yields_foreignKeys hA type) fun keys hkeys => ?_
    intro s target t hrun
    exact link?_of_pluralJoin hmem (hkeys ▸ yields_orFail _ s target t hrun)

/-! ## The rows of a table -/

section Level

variable {T : Table} {c : Catalog} {rel child : Relation} {done rest : List Relation}

theorem not_mem_done (hdist : Distinguished rel.relations)
    (hrel : rel.relations = done ++ child :: rest) : child.type ∉ done.map Relation.type := by
  have hnodup := hdist.1
  rw [hrel, map_append, map_cons] at hnodup
  intro hmem
  exact (nodup_append.mp hnodup).2.2 _ hmem _ mem_cons_self rfl

theorem idColumn_not_mem_done (hdist : Distinguished rel.relations)
    (hrel : rel.relations = done ++ child :: rest) :
    idColumn child.type ∉ done.map Relation.type := by
  intro hmem
  obtain ⟨other, hother, htype⟩ := mem_map.mp hmem
  have hmem : other ∈ rel.relations := hrel ▸ mem_append_left _ hother
  exact hdist.2 other hmem child (hrel ▸ mem_append_cons_self) htype

/-- No column that is fetched has the name of a nested relation. -/
theorem type_not_mem_fetched (happart : Apart T c rel) (hchild : child ∈ rel.relations) :
    child.type ∉ T.fetched rel := by
  intro hmem
  rcases mem_fetched.mp hmem with hjoin | hattr
  · obtain ⟨other, hother, htype⟩ := mem_map.mp hjoin
    rw [Table.joinName] at htype
    split at htype
    · exact happart.distinguished.2 child hchild other hother htype.symm
    · exact happart.ne_id child hchild htype.symm
  · exact happart.not_attribute child hchild hattr

/-- The column named after a nested relation and followed by `Id` is fetched if the table has it. -/
theorem idColumn_mem_fetched (hattr : ∀ a ∈ rel.attributes, a ∈ T.names)
    (hchild : child ∈ rel.relations) :
    idColumn child.type ∈ T.fetched rel ↔ idColumn child.type ∈ T.names := by
  constructor
  · exact fetched_subset hattr
  · intro hmem
    refine mem_fetched.mpr (.inl (mem_map.mpr ⟨child, hchild, ?_⟩))
    rw [Table.joinName, if_pos hmem]

theorem joinName_mem_fetched (hchild : child ∈ rel.relations) :
    T.joinName child.type ∈ T.fetched rel :=
  mem_fetched.mpr (.inl (mem_map.mpr ⟨child, hchild, rfl⟩))

variable {A : Adapter σ} {d : Sql.Dialect} {db : Database} (hA : Serves A d db)

include hA

/-- **One relation of a table's rows**: what is attached to each of them is what it means there. -/
theorem yields_attachOne (hT : db.table? T.name = some T)
    (hattr : ∀ a ∈ rel.attributes, a ∈ T.names) (happart : Apart T (Catalog.ofDialect d) rel)
    (hfit : ∀ L, db.link? T child.type = some L → Fits db (Catalog.ofDialect d) L.table child)
    (hres : ∀ L, db.link? T child.type = some L → Resolves A d db L.table child)
    (hrel : rel.relations = done ++ child :: rest) {rows : List Record}
    (h : List.Forall₂ ((rowScope db T rel).Holds done) rows (first :: parents)) :
    Yields (attachOne A d T.name child (first :: parents))
      (List.Forall₂ ((rowScope db T rel).Holds (done ++ [child])) rows) := by
  have hchild : child ∈ rel.relations := hrel ▸ mem_append_cons_self
  have hnew : child.type ∉ (rowScope db T rel).names ++ done.map Relation.type := by
    rw [mem_append, not_or]
    exact ⟨type_not_mem_fetched happart hchild, not_mem_done happart.distinguished hrel⟩
  -- the first parent tells whether the table has the column
  have hsingular : firstHas (first :: parents) (idColumn child.type) =
      decide (idColumn child.type ∈ T.names) := by
    rw [Scope.firstHas_eq h, decide_eq_decide, mem_append,
      or_iff_left (idColumn_not_mem_done happart.distinguished hrel)]
    exact idColumn_mem_fetched hattr hchild
  rw [attachOne, Scope.firstHas_eq h, if_neg (by simpa using hnew), join_eq, hsingular,
    T.isEmpty_name, Bool.not_false]
  refine Yields.bind (yields_joinFor hA hT child.type) fun target htarget => ?_
  obtain ⟨L, hL, rfl⟩ := htarget
  obtain ⟨hsource, hone, hcolumn, htable⟩ := link?_eq_some hL
  refine yields_joinAlong hA htable (hfit L hL) (fun _ => hcolumn) (hres L hL) hnew ?_ h
  intro row p hp
  -- the value that is bound is the parent's own, in the column that the link starts from
  have hbound : (p.get? (if decide (idColumn child.type ∈ T.names) = true then idColumn child.type
      else "id")).getD .null = cell row L.source := by
    have hname : (if decide (idColumn child.type ∈ T.names) = true then idColumn child.type
        else "id") = L.source := by
      rw [hsource, Table.joinName]
      simp only [decide_eq_true_iff]
    rw [hname, hp.get? L.source (hsource ▸ joinName_mem_fetched hchild)]
    rfl
  show db.related T row child = _
  rw [Database.related, hL, hbound, ← hone]
  rfl

/-- **The levels follow the tree**: the relations nested in a relation that fits a table are
resolved for the rows of that table. -/
theorem resolves_of_fits (hT : db.table? T.name = some T)
    (hfit : Fits db (Catalog.ofDialect d) T rel) : Resolves A d db T rel := by
  induction hfit with
  | @intro T rel _ hattr happart hnested ih =>
    intro rows s out t hrun
    refine shownRows_of_holds (yields_resolve ?_ (nil_append _).symm
      (holds_fetchedRows db T rel rows) s out t hrun)
    intro done child rest hrel first parents h
    have hchild : child ∈ rel.relations := hrel ▸ mem_append_cons_self
    exact yields_attachOne hA hT hattr happart (hnested child hchild)
      (fun L hL => ih child hchild L hL (link?_eq_some hL).2.2.2) hrel h

end Level

/-! ## The query -/

/-- The scope of the one row at the top of a query. -/
def rootScope (db : Database) : Scope Unit where
  names := []
  cell _ _ := .null
  base _ := []
  value _ := db.shownTable

section Root

variable {A : Adapter σ} {d : Sql.Dialect} {db : Database} (hA : Serves A d db)
variable {root child : Relation} {done rest : List Relation}

include hA

/-- **One relation at the top of a query**: all rows of its table are attached. -/
theorem yields_attachOne_root (hdist : Distinguished root.relations) {T : Table}
    (hT : db.table? child.type = some T) (hfit : Fits db (Catalog.ofDialect d) T child)
    (hrel : root.relations = done ++ child :: rest) {rows : List Unit}
    (h : List.Forall₂ ((rootScope db).Holds done) rows (first :: parents)) :
    Yields (attachOne A d "" child (first :: parents))
      (List.Forall₂ ((rootScope db).Holds (done ++ [child])) rows) := by
  have hnew : child.type ∉ (rootScope db).names ++ done.map Relation.type :=
    not_mem_done hdist hrel
  have hplural : idColumn child.type ∉ (rootScope db).names ++ done.map Relation.type :=
    idColumn_not_mem_done hdist hrel
  have hown : db.table? T.name = some T := by
    rw [Database.name_of_table? hT]
    exact hT
  -- without a table above it the relation is looked up by its own name
  rw [attachOne, Scope.firstHas_eq h, if_neg (by simpa using hnew), join_eq, Scope.firstHas_eq h,
    decide_eq_false hplural]
  refine Yields.bind (P := fun target => target = ⟨child.type, ""⟩) (Yields.pure rfl)
    fun target htarget => ?_
  subst htarget
  refine yields_joinAlong hA hT hfit (fun hkeyed => ?_) (resolves_of_fits hA hown hfit) hnew ?_ h
  · exact absurd hkeyed (by decide)
  intro _ p _
  show db.shownTable child = _
  rw [Database.shownTable, hT]
  rfl

/-- The relations of a query are attached to its one row. -/
theorem yields_resolve_root (hfits : QueryFits db (Catalog.ofDialect d) root) :
    Yields (resolve A d "" root.relations [Row.empty])
      (List.Forall₂ ((rootScope db).Holds root.relations) [()]) := by
  have hstart : List.Forall₂ ((rootScope db).Holds []) [()] [Row.empty] :=
    .cons ⟨rfl, fun _ hn => absurd hn not_mem_nil, rfl⟩ .nil
  refine yields_resolve ?_ (nil_append _).symm hstart
  intro done child rest hrel first parents h
  have hchild : child ∈ root.relations := hrel ▸ mem_append_cons_self
  obtain ⟨T, hT, hfit⟩ := hfits.relations child hchild
  exact yields_attachOne_root hA hfits.distinguished hT hfit hrel h

end Root

/-- A lone relation's value shows what the relation means. -/
theorem shown_get?_of_holds {only : Relation} (h : (rootScope db).Holds [only] () p) :
    ((p.get? only.type).getD .null).shown = db.shownTable only := by
  obtain ⟨fields⟩ := p
  have hkeys : fields.map Field.key = [only.type] := h.allKeys
  obtain ⟨⟨key, value, hidden⟩, rfl, rfl⟩ := map_eq_singleton_iff.mp hkeys
  have hshown : Value.shownFields [⟨only.type, value, hidden⟩] =
      [(only.type, db.shownTable only)] := h.shown
  rw [Row.get?_cons, if_pos rfl]
  cases hidden with
  | true => cases hshown
  | false => exact (Prod.mk.inj (List.cons.inj hshown).1).2

/-- The result of a query whose relations are attached shows what the query means. -/
theorem shown_resultOf {root : Relation} (h : (rootScope db).Holds root.relations () p) :
    (resultOf root [p]).shown = db.meaning root := by
  have hrow : (Value.row p).shown =
      .map (root.relations.map fun child => (child.type, db.shownTable child)) := by
    rw [Value.shown, h.shown]
    rfl
  unfold resultOf Database.meaning
  rcases hrel : root.relations with _ | ⟨only, _ | ⟨next, more⟩⟩
  · rw [hrel] at hrow
    exact hrow
  · rw [hrel] at h
    exact shown_get?_of_holds h
  · rw [hrel] at hrow
    exact hrow

/-- **An execution computes the nested join.**  On a store that serves a database, a query that fits
the database, of any depth and width and in any dialect, shows what it means if it is executed with
success. -/
theorem shown_execute_eq_meaning {A : Adapter σ} {d : Sql.Dialect} {db : Database}
    (hA : Serves A d db) {root : Relation} (hfits : QueryFits db (Catalog.ofDialect d) root)
    {s t : Session σ} {v : Value} (hrun : (execute A d root).run s = (.ok v, t)) :
    v.shown = db.meaning root := by
  rw [execute, hfits.not_mutation, if_neg Bool.false_ne_true] at hrun
  obtain ⟨parents, u, hresolve, hresult⟩ := run_bind_eq_ok hrun
  have hlevel := yields_resolve_root hA hfits s parents u hresolve
  cases hresult
  cases hlevel with
  | cons hp hrest =>
    cases hrest
    exact shown_resultOf hp

/-- The users of the database used below. -/
def garageUsers : Table where
  name := "users"
  columns := [("id", "INTEGER"), ("name", "TEXT")]
  keys := []
  rows := [Row.ofList [("id", .int 1), ("name", .text "Ann")],
    Row.ofList [("id", .int 2), ("name", .text "Bo")]]
  name_ne_empty := by decide
  id_mem := by decide
  source_mem := by decide
  target_id := by decide

/-- Its cars: two of one user, and one of nobody. -/
def garageCars : Table where
  name := "cars"
  columns := [("id", "INTEGER"), ("brand", "TEXT"), ("userId", "INTEGER")]
  keys := [⟨"userId", "users", ""⟩]
  rows := [Row.ofList [("id", .int 1), ("brand", .text "Saab"), ("userId", .int 1)],
    Row.ofList [("id", .int 2), ("brand", .text "Fiat"), ("userId", .null)],
    Row.ofList [("id", .int 3), ("brand", .text "Volvo"), ("userId", .int 1)]]
  name_ne_empty := by decide
  id_mem := by decide
  source_mem := by decide
  target_id := by decide

def garage : Database where
  tables := [garageUsers, garageCars]
  equal
    | .int n, .int m => n == m
    | _, _ => false
  equal_null v := by cases v <;> exact ⟨rfl, rfl⟩
  closed := by
    intro T hT k hk
    refine ⟨garageUsers, mem_cons_self, ?_⟩
    rcases mem_cons.mp hT with rfl | hT
    · cases hk
    · obtain rfl := mem_singleton.mp hT
      obtain rfl := mem_singleton.mp hk
      rfl

/-- Cars, each with its user. -/
def garageCarRelation : Relation where
  type := "cars"
  attributes := ["brand", "userId"]
  relations := [{ type := "user", attributes := ["name"] }]

/-- The query used below: users with their cars, and all cars. -/
def garageQuery : Relation where
  relations :=
    [{ type := "users", attributes := ["name"], relations := [garageCarRelation] },
     garageCarRelation]

theorem fits_garageCarRelation :
    Fits garage (Catalog.ofDialect .sqlite) garageCars garageCarRelation := by
  refine .intro rfl (by decide) ⟨by decide, by decide, by decide +kernel, by decide⟩ ?_
  intro child hchild L hL
  obtain rfl := mem_singleton.mp hchild
  cases hL
  exact .leaf rfl (by decide) rfl

theorem queryFits_garageQuery : QueryFits garage (Catalog.ofDialect .sqlite) garageQuery := by
  refine ⟨rfl, by decide, ?_⟩
  intro child hchild
  rcases mem_cons.mp hchild with rfl | hchild
  · refine ⟨garageUsers, rfl, .intro rfl (by decide)
      ⟨by decide, by decide, by decide +kernel, by decide⟩ ?_⟩
    intro child hchild L hL
    obtain rfl := mem_singleton.mp hchild
    cases hL
    exact fits_garageCarRelation
  · obtain rfl := mem_singleton.mp hchild
    exact ⟨garageCars, rfl, fits_garageCarRelation⟩

theorem shown_execute_garageQuery :
    let ann := .map [("name", .text "Ann")]
    let saab := .map [("userId", .int 1), ("brand", .text "Saab"), ("user", ann)]
    let fiat := .map [("userId", .null), ("brand", .text "Fiat"), ("user", .null)]
    let volvo := .map [("userId", .int 1), ("brand", .text "Volvo"), ("user", ann)]
    ∃ v t, (execute (garage.adapter .sqlite) .sqlite garageQuery).run { store := () } = (.ok v, t) ∧
      v.shown = .map
        [("users", .list [.map [("name", .text "Ann"), ("cars", .list [saab, volvo])],
            .map [("name", .text "Bo"), ("cars", .list [])]]),
         ("cars", .list [saab, fiat, volvo])] := by
  intro ann saab fiat volvo
  have hserves := garage.serves_adapter (d := .sqlite) List.mem_cons_self
  obtain ⟨v, t, hrun⟩ := exists_run_eq_ok
    (w := execute (garage.adapter .sqlite) .sqlite garageQuery) (s := { store := () })
    (by decide +kernel)
  exact ⟨v, t, hrun, shown_execute_eq_meaning hserves queryFits_garageQuery hrun⟩

end TreeQuery.Execute
