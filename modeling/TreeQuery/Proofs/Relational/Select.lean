import Mathlib.Data.List.Basic
import TreeQuery.Proofs.Relational.Database
import TreeQuery.Proofs.Text.Pieces
import TreeQuery.Store.Adapter

/-!
# Stores that serve a database

The statements that reach a store are of one form (`Select`): some columns of a table, of all its
rows or of those whose key equals a bound value.  An adapter serves a database (`Serves`) if it
answers these statements, and the two statements of the catalog, as the database has it.  It may
refuse any call; what it answers has to be right.

`Database.adapter` is such an adapter: it reads the statement back from its text (`Select.read?`)
and so serves every database in each of the built-in dialects.
-/

namespace TreeQuery.Relational

open List Schema Store

/-- **A statement that selects columns** from a table, of all rows or of those with a given key. -/
structure Select where
  table : String
  key : Option String
  columns : List String
  deriving DecidableEq, Repr

namespace Select

/-- The condition that a key sets. -/
def condition (d : Sql.Dialect) : Option String → String
  | none => ""
  | some k => " WHERE " ++ d.quote k ++ " = ?"

def text (q : Select) (d : Sql.Dialect) : String :=
  "WITH temp AS (SELECT * FROM " ++ d.quote q.table ++ condition d q.key ++ ") SELECT " ++
    ",".intercalate (q.columns.map d.quote) ++ " FROM temp"

/-- The statement is about columns of a table. -/
structure On (q : Select) (T : Table) : Prop where
  key_mem : ∀ k ∈ q.key, k ∈ T.names
  columns_mem : ∀ n ∈ q.columns, n ∈ T.names
  columns_ne_nil : q.columns ≠ []

/-- The rows that the statement selects, for the values bound to it. -/
def rows (q : Select) (db : Database) (T : Table) (args : List Value) : List Record :=
  match q.key with
  | none => T.rows
  | some k => T.rows.filter fun r => db.equal (cell r k) (args.head?.getD .null)

def project (columns : List String) (row : Record) : Record :=
  Row.ofList (columns.map fun n => (n, cell row n))

def answer (q : Select) (db : Database) (T : Table) (args : List Value) : List Record :=
  (q.rows db T args).map (project q.columns)

end Select

/-- **An adapter serves a database** in a dialect: whatever it answers is right. -/
structure Serves {σ : Type} (A : Adapter σ) (d : Sql.Dialect) (db : Database) : Prop where
  columns : ∀ {t s rows s'}, A.all (Catalog.ofDialect d).columns [.text t] s = (.ok rows, s') →
    rows.map (fun r => (textOf r "name", textOf r "type")) = db.columns t
  foreignKeys : ∀ {t s rows s'},
    A.all (Catalog.ofDialect d).foreignKeys [.text t] s = (.ok rows, s') →
      rows.map foreignKeyOf = db.keys t
  prepare : ∀ {sql s stmt s'}, A.prepare sql s = (.ok stmt, s') → stmt.sql = sql
  runAll : ∀ {q : Select} {T stmt args s rows s'}, db.table? q.table = some T → q.On T →
    stmt.sql = q.text d → A.runAll stmt args s = (.ok rows, s') → rows = q.answer db T args
  runOne : ∀ {q : Select} {T stmt args s row s'}, db.table? q.table = some T → q.On T →
    stmt.sql = q.text d → A.runOne stmt args s = (.ok row, s') → row = (q.answer db T args).head?

/-! ## Reading quoted names -/

namespace Select

/-- Reads quoted names that stand between commas.  Inside a name, `read` is what has been read of
it; otherwise a quote has to come. -/
def readNames (q : Char) (read : Option (List Char)) :
    List Char → Option (List String × List Char)
  | [] => none
  | [c] =>
    match read with
    | none => none
    | some name => if c = q then some ([String.ofList name], []) else none
  | c :: c' :: rest =>
    match read with
    | none => if c = q then readNames q (some []) (c' :: rest) else none
    | some name =>
      if c = q then
        if c' = q then readNames q (some (name ++ [q])) rest
        else if c' = ',' then
          (readNames q none rest).map fun r => (String.ofList name :: r.1, r.2)
        else some ([String.ofList name], c' :: rest)
      else readNames q (some (name ++ [c])) (c' :: rest)

/-- A character that can stand around names: none of those that follow a name. -/
def IsQuote (q : Char) : Prop :=
  q ≠ ',' ∧ q ≠ ')' ∧ q ≠ ' '

instance (q : Char) : Decidable (IsQuote q) :=
  inferInstanceAs (Decidable (_ ∧ _))

/-- What comes after names ends them. -/
def Ends (q : Char) (rest : List Char) : Prop :=
  ∀ c ∈ rest.head?, c ≠ q ∧ c ≠ ','

variable {rest : List Char} {q : Char}

theorem readNames_open (q : Char) (h : rest ≠ []) :
    readNames q none (q :: rest) = readNames q (some []) rest := by
  cases rest with
  | nil => exact absurd rfl h
  | cons c rest => rw [readNames, if_pos rfl]

theorem readNames_char {c : Char} (hc : c ≠ q) (name : List Char) (h : rest ≠ []) :
    readNames q (some name) (c :: rest) = readNames q (some (name ++ [c])) rest := by
  cases rest with
  | nil => exact absurd rfl h
  | cons c' rest => rw [readNames, if_neg hc]

theorem readNames_end (h : Ends q rest) (name : List Char) :
    readNames q (some name) (q :: rest) = some ([String.ofList name], rest) := by
  cases rest with
  | nil => rw [readNames, if_pos rfl]
  | cons c rest =>
    obtain ⟨hq, hcomma⟩ := h c rfl
    rw [readNames, if_pos rfl, if_neg hq, if_neg hcomma]

theorem readNames_comma (hq : IsQuote q) (name rest : List Char) :
    readNames q (some name) (q :: ',' :: rest) =
      (readNames q none rest).map fun r => (String.ofList name :: r.1, r.2) := by
  rw [readNames, if_pos rfl, if_neg hq.1.symm, if_pos rfl]

/-- A name is read up to the quote that ends it. -/
theorem readNames_double (q : Char) (name read rest : List Char) :
    readNames q (some read) (Sql.Identifier.double q name ++ q :: rest) =
      readNames q (some (read ++ name)) (q :: rest) := by
  induction name generalizing read with
  | nil => rw [Sql.Identifier.double, nil_append, append_nil]
  | cons c name ih =>
    rw [Sql.Identifier.double]
    by_cases hc : c = q
    · -- a quote inside the name stands twice
      rw [if_pos hc, hc]
      show readNames q (some read) (q :: q :: (Sql.Identifier.double q name ++ q :: rest)) = _
      rw [readNames, if_pos rfl, if_pos rfl, ih, append_assoc]
      rfl
    · rw [if_neg hc, cons_append, readNames_char hc read (by simp), ih, append_assoc]
      rfl

theorem readNames_quote (q : Char) (name : String) (rest : List Char) :
    readNames q none (Sql.Identifier.quote q name.toList ++ rest) =
      readNames q (some name.toList) (q :: rest) := by
  rw [Sql.Identifier.quote, cons_append, append_assoc, readNames_open q (by simp),
    singleton_append, readNames_double, nil_append]

/-- **Names between commas, each in quotes, are read back.** -/
theorem readNames_intercalate (hq : IsQuote q) (hrest : Ends q rest)
    {names : List String} (hne : names ≠ []) :
    readNames q none
      ([','].intercalate (names.map fun n => Sql.Identifier.quote q n.toList) ++ rest) =
        some (names, rest) := by
  induction names with
  | nil => exact absurd rfl hne
  | cons name names ih =>
    cases names with
    | nil =>
      rw [map_singleton, intercalate_singleton, readNames_quote, readNames_end hrest,
        String.ofList_toList]
    | cons next names =>
      have hmore := ih (by simp)
      rw [map_cons] at hmore
      rw [map_cons, map_cons, intercalate_cons_cons, append_assoc,
        append_assoc, readNames_quote, singleton_append, readNames_comma hq, hmore,
        String.ofList_toList]
      rfl

/-! ## Reading statements -/

def readName (q : Char) (text : List Char) : Option (String × List Char) :=
  match readNames q none text with
  | some ([name], rest) => some (name, rest)
  | _ => none

/-- Reads a condition, if there is one. -/
def readCondition (q : Char) (text : List Char) : Option (Option String × List Char) :=
  match text.dropPrefix? " WHERE ".toList with
  | none => some (none, text)
  | some rest =>
    (readName q rest).bind fun key =>
      (key.2.dropPrefix? " = ?".toList).map fun rest => (some key.1, rest)

/-- **Reads a statement back from its text.** -/
def read? (d : Sql.Dialect) (text : String) : Option Select :=
  let q := d.identifierQuote.getD '"'
  (text.toList.dropPrefix? "WITH temp AS (SELECT * FROM ".toList).bind fun rest =>
    (readName q rest).bind fun table =>
      (readCondition q table.2).bind fun key =>
        (key.2.dropPrefix? ") SELECT ".toList).bind fun rest =>
          (readNames q none rest).map fun columns => ⟨table.1, key.1, columns.1⟩

theorem dropPrefix?_append (p rest : List Char) : (p ++ rest).dropPrefix? p = some rest :=
  List.dropPrefix?_eq_some_iff.mpr ⟨p, rfl, beq_self_eq_true p⟩

theorem toList_quote (d : Sql.Dialect) (name : String) :
    (d.quote name).toList = Sql.Identifier.quote (d.identifierQuote.getD '"') name.toList :=
  String.toList_ofList

theorem readName_quote {d : Sql.Dialect}
    (h : Ends (d.identifierQuote.getD '"') rest) (name : String) :
    readName (d.identifierQuote.getD '"') ((d.quote name).toList ++ rest) = some (name, rest) := by
  rw [readName, toList_quote, readNames_quote, readNames_end h, String.ofList_toList]

theorem toList_text (q : Select) (d : Sql.Dialect) :
    (q.text d).toList = "WITH temp AS (SELECT * FROM ".toList ++ ((d.quote q.table).toList ++
      ((condition d q.key).toList ++ (") SELECT ".toList ++
        ((",".intercalate (q.columns.map d.quote)).toList ++ " FROM temp".toList)))) :=
  Text.toList_foldl_append _ [_, _, _, _] _

section Read

variable {d : Sql.Dialect} (hd : IsQuote (d.identifierQuote.getD '"'))

include hd

theorem ends_condition (key : Option String) (rest : List Char) :
    Ends (d.identifierQuote.getD '"')
      ((condition d key).toList ++ (") SELECT ".toList ++ rest)) := by
  intro c hc
  cases key with
  | none =>
    obtain rfl : ')' = c := Option.some.inj hc
    exact ⟨hd.2.1.symm, by decide⟩
  | some k =>
    have hhead : ((condition d (some k)).toList ++ (") SELECT ".toList ++ rest)).head? =
        some ' ' := by
      rw [condition, String.toList_append, String.toList_append, append_assoc,
        append_assoc]
      rfl
    rw [hhead] at hc
    obtain rfl : ' ' = c := Option.some.inj hc
    exact ⟨hd.2.2.symm, by decide⟩

theorem readCondition_condition (key : Option String) (rest : List Char) :
    readCondition (d.identifierQuote.getD '"')
      ((condition d key).toList ++ (") SELECT ".toList ++ rest)) =
        some (key, ") SELECT ".toList ++ rest) := by
  cases key with
  | none => rfl
  | some k =>
    have hends : Ends (d.identifierQuote.getD '"')
        (" = ?".toList ++ (") SELECT ".toList ++ rest)) := by
      intro c hc
      obtain rfl : ' ' = c := Option.some.inj hc
      exact ⟨hd.2.2.symm, by decide⟩
    rw [condition, String.toList_append, String.toList_append, append_assoc, append_assoc,
      readCondition, dropPrefix?_append]
    dsimp only
    rw [readName_quote hends, Option.bind_some, dropPrefix?_append, Option.map_some]

/-- **A statement is determined by its text.** -/
theorem read?_text {q : Select} (hne : q.columns ≠ []) : read? d (q.text d) = some q := by
  have hends : Ends (d.identifierQuote.getD '"') " FROM temp".toList := by
    intro c hc
    obtain rfl : ' ' = c := Option.some.inj hc
    exact ⟨hd.2.2.symm, by decide⟩
  have hcolumns : (",".intercalate (q.columns.map d.quote)).toList =
      [','].intercalate
        (q.columns.map fun n => Sql.Identifier.quote (d.identifierQuote.getD '"') n.toList) := by
    rw [String.toList_intercalate, map_map]
    exact congrArg _ (map_congr_left fun n _ => toList_quote d n)
  have htext := toList_text q d
  rw [hcolumns] at htext
  rw [read?, htext, dropPrefix?_append, Option.bind_some, readName_quote (ends_condition hd _ _),
    Option.bind_some, readCondition_condition hd, Option.bind_some, dropPrefix?_append,
    Option.bind_some, readNames_intercalate hd hends hne]
  rfl

end Read

end Select

/-! ## A store for every database -/

namespace Database

variable (db : Database) (d : Sql.Dialect)

/-- A statement that the store does not know. -/
def refusal : StoreError := .database "no such statement"

/-- The rows by which the catalog gives a table's columns. -/
def columnRows (name : String) : List Record :=
  (db.columns name).map fun col => Row.ofList [("name", .text col.1), ("type", .text col.2)]

/-- The rows by which the catalog gives a table's foreign keys. -/
def keyRows (name : String) : List Record :=
  (db.keys name).map fun k =>
    Row.ofList [("from", .text k.source), ("table", .text k.table), ("to", .text k.target)]

/-- The rows that a statement selects, if it can be read and its table exists. -/
def reply (sql : String) (args : List Value) : Except StoreError (List Record) :=
  match Select.read? d sql with
  | none => .error refusal
  | some q =>
    match db.table? q.table with
    | none => .error refusal
    | some T => .ok (q.answer db T args)

/-- **The store of a database.** -/
def adapter : Adapter Unit where
  all sql args _ :=
    match args with
    | [.text name] =>
      if sql = (Catalog.ofDialect d).columns then (.ok (db.columnRows name), ())
      else if sql = (Catalog.ofDialect d).foreignKeys then (.ok (db.keyRows name), ())
      else (.error refusal, ())
    | _ => (.error refusal, ())
  prepare sql _ := (.ok ⟨sql, none⟩, ())
  runAll stmt args _ := (db.reply d stmt.sql args, ())
  runOne stmt args _ := ((db.reply d stmt.sql args).map List.head?, ())
  finalize _ _ := (.ok (), ())

variable {d}

theorem reply_text (hd : Select.IsQuote (d.identifierQuote.getD '"')) {q : Select} {T : Table}
    (hT : db.table? q.table = some T) (hne : q.columns ≠ []) (args : List Value) :
    db.reply d (q.text d) args = .ok (q.answer db T args) := by
  rw [reply, Select.read?_text hd hne]
  dsimp only
  rw [hT]

/-- **Every database has a store that serves it**, in each built-in dialect. -/
theorem serves_adapter (hd : d ∈ Sql.Dialect.all) : Serves (db.adapter d) d db := by
  have hquote : ∀ d ∈ Sql.Dialect.all, Select.IsQuote (d.identifierQuote.getD '"') := by decide
  have hcatalog : ∀ d ∈ Sql.Dialect.all,
      (Catalog.ofDialect d).foreignKeys ≠ (Catalog.ofDialect d).columns := by decide +kernel
  constructor
  case columns =>
    intro t s rows s' h
    have hrows : db.columnRows t = rows := by
      unfold adapter at h
      dsimp only at h
      rw [if_pos rfl] at h
      exact Except.ok.inj (Prod.mk.inj h).1
    rw [← hrows, columnRows, map_map]
    exact map_id _
  case foreignKeys =>
    intro t s rows s' h
    have hrows : db.keyRows t = rows := by
      unfold adapter at h
      dsimp only at h
      rw [if_neg (hcatalog d hd), if_pos rfl] at h
      exact Except.ok.inj (Prod.mk.inj h).1
    rw [← hrows, keyRows, map_map]
    exact map_id _
  case prepare =>
    intro sql s stmt s' h
    cases h
    rfl
  case runAll =>
    intro q T stmt args s rows s' hT hq hsql h
    have hreply : db.reply d stmt.sql args = .ok rows := (Prod.mk.inj h).1
    rw [hsql, db.reply_text (hquote d hd) hT hq.columns_ne_nil] at hreply
    exact (Except.ok.inj hreply).symm
  case runOne =>
    intro q T stmt args s row s' hT hq hsql h
    have hreply : (db.reply d stmt.sql args).map List.head? = .ok row := (Prod.mk.inj h).1
    rw [hsql, db.reply_text (hquote d hd) hT hq.columns_ne_nil] at hreply
    exact (Except.ok.inj hreply).symm

end Database

end TreeQuery.Relational
