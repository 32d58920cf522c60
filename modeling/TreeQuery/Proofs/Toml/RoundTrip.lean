import TreeQuery.Proofs.Toml.Lines
import TreeQuery.Toml.Document

/-!
# Tables read back as they were written

Settings and tables that were written are read back as a table with the same entries in the same
order (`read_document`): keys must be distinct, empty tables are left out, and there must be no
replacement character.

All settings of one line after the other go to the same table, the topmost one or the one whose
header came last.  `Opens` is the view of the whole document from there: a context leads to a table,
and replacing the table there replaces it in the whole.  No list and no dotted key is ever written,
so nothing but the table itself changes on the way.
-/

namespace TreeQuery.Toml

open List

/-! ## Tables -/

namespace Table

variable {t : Table} {k : String}

theorem put_append (h : t.lookup k = none) (t' : Table) (i : Item) :
    (t ++ t').put k i = t ++ t'.put k i := by
  induction t with
  | nil => rfl
  | cons e t ih =>
    obtain ⟨k', i'⟩ := e
    rw [lookup_cons] at h
    by_cases hk : k = k'
    · simp [hk] at h
    have hne : (k' == k) = false := by simpa using fun heq => hk heq.symm
    have hne' : (k == k') = false := by simpa using hk
    rw [hne'] at h
    simp [put, hne, ih h]

theorem put_of_lookup_eq_none (h : t.lookup k = none) (i : Item) : t.put k i = t ++ [(k, i)] := by
  simpa [put] using put_append h [] i

theorem lookup_concat (h : t.lookup k = none) (i : Item) : (t ++ [(k, i)]).lookup k = some i := by
  simp [lookup_append, h]

theorem put_concat (h : t.lookup k = none) (i j : Item) :
    (t ++ [(k, i)]).put k j = t ++ [(k, j)] := by
  simpa [put] using put_append h [(k, i)] j

theorem lookup_eq_none_of_not_mem (h : k ∉ t.map Prod.fst) : t.lookup k = none := by
  rw [lookup_eq_none_iff]
  intro e he
  have hne : k ≠ e.1 := by
    rintro rfl
    exact h (mem_map_of_mem he)
  simpa using hne

end Table

/-! ## One line after the other -/

namespace Building

/-- **A context leads to a table of a document**: `plug` puts a table there. -/
structure Opens (context : List String) (plug : Table → Table) : Prop where
  at? : ∀ t, (plug t).at? context = some t
  putAt : ∀ t new, Table.putAt new context (plug t) = plug new

theorem opens_root : Opens [] id where
  at? _ := rfl
  putAt _ _ := rfl

theorem opens_table {front : Table} {name : String} (h : front.lookup name = none) :
    Opens [name] fun t => front ++ [(name, .table t)] where
  at? t := by
    simp [Table.at?, Table.lookup_concat h]
  putAt t new := by
    simp [Table.putAt, Table.lookup_concat h, Table.put_concat h]

/-- A document in which nothing is implied and no list was given. -/
def plain (root : Table) : Building :=
  ⟨root, [], []⟩

def entryOf (e : String × String) : String × Item :=
  (e.1, .text e.2)

variable {context : List String} {plug : Table → Table}

/-- A setting goes to the end of the table that the context leads to. -/
theorem Opens.run_setting (h : Opens context plug) {t : Table} {e : String × String}
    (hnew : t.lookup e.1 = none) :
    (plain (plug t)).run context (.setting e) =
      some (plain (plug (t ++ [entryOf e])), context) := by
  obtain ⟨k, v⟩ := e
  simp [run, Statement.setting, fields, openDotted, item, define, plain, h.at?, h.putAt, hnew,
    Table.put_of_lookup_eq_none, noteKey, noteKind, entryOf]

theorem Opens.runAll_settings (h : Opens context plug) (t : Table) {es : List (String × String)}
    (hkeys : (t.map Prod.fst ++ es.map Prod.fst).Nodup) (rest : List Statement) :
    (plain (plug t)).runAll context (es.map .setting ++ rest) =
      (plain (plug (t ++ es.map entryOf))).runAll context rest := by
  induction es generalizing t with
  | nil => simp
  | cons e es ih =>
    have hnew : t.lookup e.1 = none := by
      refine Table.lookup_eq_none_of_not_mem fun hmem => ?_
      exact (nodup_append.mp hkeys).2.2 e.1 hmem e.1 mem_cons_self rfl
    rw [map_cons, cons_append, runAll, h.run_setting hnew]
    dsimp only
    rw [ih _ (by simpa [entryOf] using hkeys), map_cons, append_assoc,
      singleton_append]

/-- A header opens a new table at the end of the document. -/
theorem run_header {root : Table} {name : String} (h : root.lookup name = none) :
    (plain root).run context (.table [name]) =
      some (plain (root ++ [(name, .table [])]), [name]) := by
  simp [run, openTable, pass, define, plain, Table.at?, Table.putAt, h,
    Table.put_of_lookup_eq_none h, noteKind]

/-- The entry of a table, none if it is empty. -/
def entriesOf (table : String × List (String × String)) : Table :=
  if table.2.isEmpty then [] else [(table.1, .table (table.2.map entryOf))]

theorem runAll_tables (context : List String) {root : Table}
    {tables : List (String × List (String × String))}
    (hnames : (root.map Prod.fst ++ tables.map Prod.fst).Nodup)
    (hkeys : ∀ t ∈ tables, (t.2.map Prod.fst).Nodup) :
    (plain root).runAll context (tables.flatMap Statement.ofTable) =
      some (plain (root ++ tables.flatMap entriesOf)) := by
  induction tables generalizing root context with
  | nil => simp [runAll]
  | cons t tables ih =>
    obtain ⟨name, es⟩ := t
    obtain ⟨hes, htables⟩ := forall_mem_cons.mp hkeys
    rw [flatMap_cons, flatMap_cons]
    by_cases hempty : es = []
    · subst hempty
      refine ih _ (hnames.sublist ?_) htables
      exact (List.Sublist.refl _).append (sublist_cons_self _ _)
    have hnew : root.lookup name = none := by
      refine Table.lookup_eq_none_of_not_mem fun hmem => ?_
      exact (nodup_append.mp hnames).2.2 name hmem name mem_cons_self rfl
    have hstatements : Statement.ofTable (name, es) = .table [name] :: es.map .setting := by
      simp [Statement.ofTable, hempty]
    have hentries : entriesOf (name, es) = [(name, .table (es.map entryOf))] := by
      simp [entriesOf, hempty]
    rw [hstatements, hentries, cons_append, runAll, run_header hnew]
    dsimp only
    rw [(opens_table hnew).runAll_settings [] (by simpa using hes), nil_append,
      ih _ (by simpa using hnames) htables, append_assoc]

end Building

/-- **Settings and tables read back as they were written**, unless a replacement character is in
one of them. -/
theorem read_document {entries : List (String × String)}
    {tables : List (String × List (String × String))}
    (hbare : ∀ t ∈ tables, isBareName t.1)
    (hnames : (entries.map Prod.fst ++ tables.map Prod.fst).Nodup)
    (hkeys : ∀ t ∈ tables, (t.2.map Prod.fst).Nodup) :
    read (document entries tables) =
      if (entries ++ tables.flatMap Prod.snd).any isReplaced then none
      else some (entries.map Building.entryOf ++ tables.flatMap Building.entriesOf) := by
  have hsettings := Building.opens_root.runAll_settings [] (nodup_append.mp hnames).1
    (tables.flatMap Statement.ofTable)
  have hroot : ((entries.map Building.entryOf).map Prod.fst ++ tables.map Prod.fst).Nodup := by
    simpa [Building.entryOf, Function.comp_def] using hnames
  have hrun : Building.start.runAll []
      (entries.map .setting ++ tables.flatMap Statement.ofTable) =
        some (.plain (entries.map Building.entryOf ++ tables.flatMap Building.entriesOf)) :=
    hsettings.trans (Building.runAll_tables [] hroot hkeys)
  rw [read, readAll_document entries hbare]
  by_cases hreplaced : (entries ++ tables.flatMap Prod.snd).any isReplaced = true
  · rw [if_pos hreplaced, if_pos hreplaced]
  rw [if_neg hreplaced, if_neg hreplaced]
  dsimp only
  rw [hrun]
  rfl

end TreeQuery.Toml
