import TreeQuery.Proofs.Execute.Mutation

/-!
# One foreign key, followed both ways

A foreign key of one table to another links their rows in two ways.  From the table that declares
it, a row refers to one row of the other (`Holdings.referred`); from the other table, a row has the
rows listed under it (`Holdings.listed`).  `listed_iff_referred` says that a relation to many rows
follows the key to the column `id` of its parents, whichever column the key refers to.  So the two
ways are inverse to each other along every key that refers to `id`, and `listed_not_inverse` is a
key along which they are not.

What a store holds is given by `Holdings`: rows and foreign keys by table, and what the part of a
statement behind its scope makes of the rows in scope, whatever that part is.
-/

namespace TreeQuery

open List Query Schema Store

namespace Schema

/-- The column that a foreign key refers to: `id` where it is left implicit. -/
def ForeignKey.column (k : ForeignKey) : String :=
  if k.target.isEmpty then "id" else k.target

theorem pluralJoin_eq_ok {parent child : String} {keys : List ForeignKey} {j : Join}
    (h : pluralJoin parent child keys = .ok j) :
    ∃ k, keys.filter (fun k => k.table == parent) = [k] ∧ j = ⟨child, k.source⟩ := by
  unfold pluralJoin at h
  split at h
  · cases h
  · cases h
    exact ⟨_, ‹_›, rfl⟩
  · cases h

theorem singularJoin_eq_ok {parent child : String} {keys : List ForeignKey} {j : Join}
    (h : singularJoin parent child keys = .ok j) :
    ∃ k, keys.find? (fun k => k.source == idColumn child) = some k ∧ j = ⟨k.table, k.column⟩ := by
  unfold singularJoin at h
  split at h
  · cases h
    exact ⟨_, ‹_›, rfl⟩
  · cases h

end Schema

namespace Relational

/-! ## What a store holds -/

/-- **What a store holds**, and how it answers statements with a scope. -/
structure Holdings where
  rows : String → List Record
  keys : String → List ForeignKey
  /-- The comparison of two values. -/
  equal : Value → Value → Bool
  equal_comm : ∀ v w, equal v w = equal w v
  /-- What the part of a statement behind its scope makes of the rows in scope, with the values
  bound to it. -/
  select : String → List Value → List Record → List Record

namespace Holdings

variable (H : Holdings)

/-- The rows in the scope of a statement: those of a table whose key equals a value. -/
def scope (j : Join) (v : Value) : List Record :=
  (H.rows j.table).filter fun r => H.equal (cell r j.key) v

/-- **The rows listed under a parent**, along a foreign key of their table. -/
def listed (table : String) (k : ForeignKey) (parent : Record) : List Record :=
  H.scope ⟨table, k.source⟩ (cell parent "id")

def referred (k : ForeignKey) (row : Record) : List Record :=
  H.scope ⟨k.table, k.column⟩ (cell row k.source)

theorem mem_scope {j : Join} {v : Value} {r : Record} :
    r ∈ H.scope j v ↔ r ∈ H.rows j.table ∧ H.equal (cell r j.key) v :=
  mem_filter

/-- Along a key that refers to `id`, a row is listed under those that it refers to. -/
theorem mem_listed_iff_mem_referred {table : String} {k : ForeignKey} (hk : k.column = "id")
    {parent stored row : Record} (hstored : stored ∈ H.rows k.table)
    (hid : cell stored "id" = cell parent "id") (hrow : row ∈ H.rows table) :
    row ∈ H.listed table k parent ↔ stored ∈ H.referred k row := by
  rw [listed, referred, mem_scope, mem_scope, hk, hid, H.equal_comm]
  exact ⟨fun h => ⟨hstored, h.2⟩, fun h => ⟨hrow, h.2⟩⟩

end Holdings

def scopedText (d : Sql.Dialect) (j : Join) (rest : String) : String :=
  "WITH temp AS (SELECT * FROM " ++ d.quote j.table ++ " WHERE " ++ d.quote j.key ++ " = ?" ++
    (") SELECT " ++ rest)

/-- **An adapter answers from holdings** in a dialect: it may refuse any call, and what it answers
is right. -/
structure Answers {σ : Type} (A : Adapter σ) (d : Sql.Dialect) (H : Holdings) : Prop where
  foreignKeys : ∀ {t s rows s'},
    A.all (Catalog.ofDialect d).foreignKeys [.text t] s = (.ok rows, s') →
      rows.map foreignKeyOf = H.keys t
  prepare : A.KeepsTexts
  runAll : ∀ {j rest stmt v args s rows s'}, stmt.sql = scopedText d j rest →
    A.runAll stmt (v :: args) s = (.ok rows, s') → rows = H.select rest args (H.scope j v)
  runOne : ∀ {j rest stmt v args s row s'}, stmt.sql = scopedText d j rest →
    A.runOne stmt (v :: args) s = (.ok row, s') →
      row = (H.select rest args (H.scope j v)).head?

/-! ## A store for all holdings -/

/-- Reads the scope of a statement and what stands behind it. -/
def readScoped? (d : Sql.Dialect) (text : String) : Option (Join × String) :=
  let q := d.identifierQuote.getD '"'
  (text.toList.dropPrefix? "WITH temp AS (SELECT * FROM ".toList).bind fun rest =>
    (Select.readName q rest).bind fun table =>
      (table.2.dropPrefix? " WHERE ".toList).bind fun rest =>
        (Select.readName q rest).bind fun key =>
          (key.2.dropPrefix? " = ?".toList).bind fun rest =>
            (rest.dropPrefix? ") SELECT ".toList).map fun rest =>
              (⟨table.1, key.1⟩, String.ofList rest)

theorem toList_scopedText (d : Sql.Dialect) (j : Join) (rest : String) :
    (scopedText d j rest).toList = "WITH temp AS (SELECT * FROM ".toList ++
      ((d.quote j.table).toList ++ (" WHERE ".toList ++ ((d.quote j.key).toList ++
        (" = ?".toList ++ (") SELECT " ++ rest).toList)))) :=
  Text.toList_foldl_append _ [_, _, _, _] _

theorem ends_space {q : Char} (hq : Select.IsQuote q) {text : List Char}
    (h : text.head? = some ' ') : Select.Ends q text := by
  intro c hc
  rw [h] at hc
  obtain rfl : ' ' = c := Option.some.inj hc
  exact ⟨hq.2.2.symm, by decide⟩

/-- **A statement with a scope is determined by its text.** -/
theorem readScoped?_scopedText {d : Sql.Dialect}
    (hd : Select.IsQuote (d.identifierQuote.getD '"')) (j : Join) (rest : String) :
    readScoped? d (scopedText d j rest) = some (j, rest) := by
  rw [readScoped?, toList_scopedText, Select.dropPrefix?_append, Option.bind_some,
    Select.readName_quote (ends_space hd rfl), Option.bind_some, Select.dropPrefix?_append,
    Option.bind_some, Select.readName_quote (ends_space hd rfl), Option.bind_some,
    Select.dropPrefix?_append, Option.bind_some, String.toList_append, Select.dropPrefix?_append,
    Option.map_some, String.ofList_toList]

namespace Holdings

variable (H : Holdings) (d : Sql.Dialect)

/-- The rows by which a catalog gives a table's foreign keys. -/
def keyRows (table : String) : List Record :=
  (H.keys table).map fun k =>
    Row.ofList [("from", .text k.source), ("table", .text k.table), ("to", .text k.target)]

/-- The answer to a statement with a scope. -/
def reply (sql : String) : List Value → Except StoreError (List Record)
  | [] => .error Database.refusal
  | v :: args =>
    match readScoped? d sql with
    | none => .error Database.refusal
    | some (j, rest) => .ok (H.select rest args (H.scope j v))

/-- **A store with some holdings.**  Its tables do not tell their columns. -/
def adapter : Adapter Unit where
  all sql args _ :=
    match args with
    | [.text table] =>
      (.ok (if sql = (Catalog.ofDialect d).foreignKeys then H.keyRows table else []), ())
    | _ => (.error Database.refusal, ())
  prepare sql _ := (.ok ⟨sql, none⟩, ())
  runAll stmt args _ := (H.reply d stmt.sql args, ())
  runOne stmt args _ := ((H.reply d stmt.sql args).map head?, ())
  finalize _ _ := (.ok (), ())

variable {d}

theorem reply_scopedText (hd : Select.IsQuote (d.identifierQuote.getD '"')) (j : Join)
    (rest : String) (v : Value) (args : List Value) :
    H.reply d (scopedText d j rest) (v :: args) = .ok (H.select rest args (H.scope j v)) := by
  rw [reply, readScoped?_scopedText hd]

/-- **All holdings have a store that answers from them**, in each built-in dialect. -/
theorem answers_adapter (hd : d ∈ Sql.Dialect.all) : Answers (H.adapter d) d H := by
  have hquote : ∀ d ∈ Sql.Dialect.all, Select.IsQuote (d.identifierQuote.getD '"') := by decide
  constructor
  case foreignKeys =>
    intro t s rows s' h
    have hrows : H.keyRows t = rows := by
      unfold adapter at h
      dsimp only at h
      rw [if_pos rfl] at h
      exact Except.ok.inj (Prod.mk.inj h).1
    rw [← hrows, keyRows, map_map]
    exact map_id _
  case prepare =>
    intro sql s stmt s' h
    cases h
    rfl
  case runAll =>
    intro j rest stmt v args s rows s' hsql h
    have hreply : H.reply d stmt.sql (v :: args) = .ok rows := (Prod.mk.inj h).1
    rw [hsql, H.reply_scopedText (hquote d hd)] at hreply
    exact (Except.ok.inj hreply).symm
  case runOne =>
    intro j rest stmt v args s row s' hsql h
    have hreply : (H.reply d stmt.sql (v :: args)).map head? = .ok row := (Prod.mk.inj h).1
    rw [hsql, H.reply_scopedText (hquote d hd)] at hreply
    exact (Except.ok.inj hreply).symm

end Holdings

end Relational

namespace Execute

open Relational Work

variable {σ : Type} {table : String}

/-! ## Relations along a foreign key -/

section Served

variable (A : Adapter σ) (d : Sql.Dialect) (H : Holdings)

/-- **A parent with many related rows**, before and after: its `id` is bound to the statement, which
gives what is made of the rows listed under the parent; these are attached, with their own relations
resolved. -/
def Lists (many : Relation) (k : ForeignKey) (parent parent' : Record) : Prop :=
  ∃ stmt rest hidden rows, stmt.sql = scopedText d ⟨many.type, k.source⟩ rest ∧
    (∃ s t, A.runAll stmt (cell parent "id" :: many.bindings) s = (.ok rows, t)) ∧
    rows = H.select rest many.bindings (H.listed many.type k parent) ∧
    ∃ related, (∃ s t, (resolve A d many.type many.relations
        (rows.map fun r => r.hide hidden)).run s = (.ok related, t)) ∧
      parent' = parent.set many.type (.rows related)

/-- **A parent with one related row**, before and after: its value in the column of the foreign key
is bound to the statement, which gives the first of what is made of the rows that the parent refers
to, if there is any. -/
def Refers (one : Relation) (k : ForeignKey) (parent parent' : Record) : Prop :=
  ∃ stmt rest hidden found, stmt.sql = scopedText d ⟨k.table, k.column⟩ rest ∧
    (∃ s t, A.runOne stmt (cell parent k.source :: one.bindings) s = (.ok found, t)) ∧
    found = (H.select rest one.bindings (H.referred k parent)).head? ∧
    match found with
    | none => parent' = parent.set one.type .null
    | some row => ∃ related, (∃ s t, (resolve A d k.table one.relations
        [row.hide hidden]).run s = (.ok related, t)) ∧
      parent' = parent.set one.type ((related.head?.map .row).getD .null)

end Served

theorem statementText_eq_scopedText (d : Sql.Dialect) (target : Join) (proj : Projection)
    (clause : String) :
    statementText d target true proj clause = scopedText d target
      (proj.sql ++ " FROM temp" ++ (if clause.isEmpty then "" else " " ++ clause)) := by
  unfold statementText scopedText
  simp only [if_true, ← String.append_assoc]

/-- What a work yields is a result of it. -/
theorem Yields.self {α : Type} (w : Work σ α) : Yields w fun a => ∃ s t, w.run s = (.ok a, t) :=
  fun s _ t h => ⟨s, t, h⟩

section Joins

variable {A : Adapter σ} {d : Sql.Dialect} {H : Holdings} (hA : Answers A d H)

include hA

theorem yields_foreignKeys_answers (table : String) :
    Yields (foreignKeys A (Catalog.ofDialect d) table) fun keys => keys = H.keys table := by
  refine Yields.bind (P := fun rows => rows.map foreignKeyOf = H.keys table) ?_
    fun rows hrows => Yields.pure hrows
  exact Yields.call fun _ _ hs => hA.foreignKeys (Prod.ext hs rfl)

theorem yields_joinFor_many (htable : table ≠ "") (type : String) :
    Yields (joinFor A (Catalog.ofDialect d) table type false) fun target =>
      ∃ k, (H.keys type).filter (fun k => k.table == table) = [k] ∧ target = ⟨type, k.source⟩ := by
  rw [joinFor, if_neg (by simpa using htable), if_neg (by simp), plural]
  refine Yields.bind (yields_foreignKeys_answers hA type) fun keys hkeys => ?_
  rw [hkeys]
  exact fun s target t h => pluralJoin_eq_ok (yields_orFail _ s target t h)

theorem yields_joinFor_one (htable : table ≠ "") (type : String) :
    Yields (joinFor A (Catalog.ofDialect d) table type true) fun target =>
      ∃ k, (H.keys table).find? (fun k => k.source == idColumn type) = some k ∧
        target = ⟨k.table, k.column⟩ := by
  rw [joinFor, if_neg (by simpa using htable), if_pos rfl, singular]
  refine Yields.bind (yields_foreignKeys_answers hA table) fun keys hkeys => ?_
  rw [hkeys]
  exact fun s target t h => singularJoin_eq_ok (yields_orFail _ s target t h)

/-- A relation with a scope serves its parents one by one. -/
theorem yields_joinAlong_scoped {child : Relation} {isSingular : Bool} {target : Join}
    {R : Record → Record → Prop} (parents : List Record)
    (hone : ∀ {stmt rest} hidden parent, stmt.sql = scopedText d target rest →
      Yields (joinOne A d child target true isSingular hidden stmt parent) (R parent)) :
    Yields (joinAlong A d child true isSingular parents target) (List.Forall₂ R parents) := by
  refine Yields.of_bind fun cols => ?_
  split
  · exact Yields.throw _
  refine Yields.withStatement hA.prepare fun stmt hsql => Yields.of_bind fun _ => ?_
  rw [statementText_eq_scopedText] at hsql
  refine Yields.mapM (forall₂_same.mpr fun parent _ => rfl) ?_
  rintro parent _ rfl
  exact hone _ parent hsql

theorem yields_joinOne_many {many : Relation} {k : ForeignKey} {stmt : Statement} {rest : String}
    (hidden : List String) (parent : Record)
    (hsql : stmt.sql = scopedText d ⟨many.type, k.source⟩ rest) :
    Yields (joinOne A d many ⟨many.type, k.source⟩ true false hidden stmt parent)
      (Lists A d H many k parent) := by
  simp only [joinOne, relatedTo, Bool.false_eq_true, if_false, bind_assoc]
  refine Yields.bind (Yields.call fun s rows hs => ?_ :
    Yields _ fun rows => ∃ s t, A.runAll stmt (cell parent "id" :: many.bindings) s =
      (.ok rows, t)) ?_
  · exact ⟨s.store, _, Prod.ext hs rfl⟩
  rintro rows ⟨s, t, hrun⟩
  refine Yields.bind (Yields.self _) fun related hrelated => Yields.pure ?_
  exact ⟨stmt, rest, hidden, rows, hsql, ⟨s, t, hrun⟩, hA.runAll hsql hrun, related, hrelated,
    rfl⟩

theorem yields_joinOne_one {one : Relation} {k : ForeignKey} (hk : k.source = idColumn one.type)
    {stmt : Statement} {rest : String} (hidden : List String) (parent : Record)
    (hsql : stmt.sql = scopedText d ⟨k.table, k.column⟩ rest) :
    Yields (joinOne A d one ⟨k.table, k.column⟩ true true hidden stmt parent)
      (Refers A d H one k parent) := by
  simp only [joinOne, relatedTo, if_true, bind_assoc]
  refine Yields.bind (Yields.call fun s found hs => ?_ :
    Yields _ fun found => ∃ s t, A.runOne stmt (cell parent k.source :: one.bindings) s =
      (.ok found, t)) ?_
  · -- the value is read from the column named after the relation, which is the key's own
    rw [hk]
    exact ⟨s.store, _, Prod.ext hs rfl⟩
  rintro found ⟨s, t, hrun⟩
  have hfound := hA.runOne hsql hrun
  cases found with
  | none =>
    exact Yields.pure ⟨stmt, rest, hidden, none, hsql, ⟨s, t, hrun⟩, hfound, rfl⟩
  | some row =>
    dsimp only
    rw [bind_assoc]
    refine Yields.bind (Yields.self _) fun related hrelated => Yields.pure ?_
    exact ⟨stmt, rest, hidden, some row, hsql, ⟨s, t, hrun⟩, hfound, related, hrelated, rfl⟩

/-- A relation to many rows lists them along the only key of their table to the parents' table. -/
theorem yields_join_many (htable : table ≠ "") {many : Relation}
    {parents : List Record} (hmany : firstHas parents (idColumn many.type) = false) :
    Yields (join A d table many parents) fun out =>
      ∃ k, (H.keys many.type).filter (fun k => k.table == table) = [k] ∧
        List.Forall₂ (Lists A d H many k) parents out := by
  have hkeyed : (!table.isEmpty) = true := by simpa using htable
  rw [join_eq, hmany, hkeyed]
  refine Yields.bind (yields_joinFor_many hA htable many.type) ?_
  rintro _ ⟨k, hk, rfl⟩ s out t hrun
  refine ⟨k, hk, yields_joinAlong_scoped hA parents (fun hidden parent hsql => ?_) s out t hrun⟩
  exact yields_joinOne_many hA hidden parent hsql

/-- A relation to one row finds it along the first key at the column named after the relation. -/
theorem yields_join_one (htable : table ≠ "") {one : Relation}
    {parents : List Record} (hone : firstHas parents (idColumn one.type)) :
    Yields (join A d table one parents) fun out =>
      ∃ k, (H.keys table).find? (fun k => k.source == idColumn one.type) = some k ∧
        List.Forall₂ (Refers A d H one k) parents out := by
  have hkeyed : (!table.isEmpty) = true := by simpa using htable
  rw [join_eq, hone, hkeyed]
  refine Yields.bind (yields_joinFor_one hA htable one.type) ?_
  rintro _ ⟨k, hk, rfl⟩ s out t hrun
  have hsource : k.source = idColumn one.type := by simpa using find?_some hk
  refine ⟨k, hk, yields_joinAlong_scoped hA parents (fun hidden parent hsql => ?_) s out t hrun⟩
  exact yields_joinOne_one hA hsource hidden parent hsql

/-- **Following a key to many rows inverts following it to one**, if the key refers to `id`.  A
relation to many rows has just one key of its table to go by.  It binds the `id` of each parent to
its statement, and lists the rows whose value in the key's column equals it.  A relation from these
rows that goes by the same key binds the value in the key's column, and finds the rows whose value
in the column referred to equals that. -/
theorem listed_iff_referred {table : String} (htable : table ≠ "") {many : Relation}
    {parents out : List Record} (hmany : firstHas parents (idColumn many.type) = false)
    {s t : Session σ} (hrun : (join A d table many parents).run s = (.ok out, t)) :
    ∃ k, (H.keys many.type).filter (fun k => k.table == table) = [k] ∧
      List.Forall₂ (Lists A d H many k) parents out ∧
      (∀ {one : Relation} {rows out' : List Record} {s' t' : Session σ}, many.type ≠ "" →
        firstHas rows (idColumn one.type) = true →
        (H.keys many.type).find? (fun k => k.source == idColumn one.type) = some k →
        (join A d many.type one rows).run s' = (.ok out', t') →
          List.Forall₂ (Refers A d H one k) rows out') ∧
      (k.column = "id" → ∀ parent, ∀ stored ∈ H.rows table, cell stored "id" = cell parent "id" →
        ∀ row ∈ H.rows many.type,
          (row ∈ H.listed many.type k parent ↔ stored ∈ H.referred k row)) := by
  obtain ⟨k, hk, hlists⟩ := yields_join_many hA htable hmany s out t hrun
  refine ⟨k, hk, hlists, ?_, ?_⟩
  · intro one rows out' s' t' htype hone hfirst hrun'
    -- the key it goes by is the first one at the column, so it is `k`
    obtain ⟨k', hk', hrefers⟩ := yields_join_one hA htype hone s' out' t' hrun'
    rw [hfirst] at hk'
    cases hk'
    exact hrefers
  · intro hid parent stored hstored hsame row hrow
    have htarget : k.table = table := by
      have hmem : k ∈ (H.keys many.type).filter fun k => k.table == table := by simp [hk]
      simpa using (List.mem_filter.mp hmem).2
    rw [← htarget] at hstored
    exact H.mem_listed_iff_mem_referred hid hstored hsame hrow

end Joins

/-! ## A key to another column -/

/-- Users, and cars that declare one foreign key. -/
def fleet (key : ForeignKey) : Holdings where
  rows table :=
    if table = "users" then
      [Row.ofList [("id", .text "1"), ("email", .text "ann@x")],
       Row.ofList [("id", .text "2"), ("email", .text "bo@x")]]
    else if table = "cars" then
      [Row.ofList [("id", .text "7"), ("userId", .text "1"), ("owner", .text "bo@x")],
       Row.ofList [("id", .text "8"), ("userId", .text "2"), ("owner", .text "ann@x")]]
    else []
  keys table := if table = "cars" then [key] else []
  equal v w :=
    match v, w with
    | .text a, .text b => a == b
    | _, _ => false
  equal_comm v w := by
    cases v <;> cases w <;> first | rfl | exact Bool.beq_comm
  select _ _ rows := rows

def fleetCars : Relation where
  type := "cars"
  attributes := ["id"]

/-- What is bound to the statements that a work runs. -/
def boundBy {α : Type} (w : Work Unit α) : List (List String) :=
  ((w.run { store := () }).2.calls.filter fun c => c.kind = .run).map fun c =>
    c.args.map Value.display

theorem listed_iff_referred_fleet :
    let H := fleet ⟨"userId", "users", ""⟩
    ∃ out t, (join (H.adapter .sqlite) .sqlite "users" fleetCars (H.rows "users")).run
        { store := () } = (.ok out, t) ∧
      ∃ k, (H.keys "cars").filter (fun k => k.table == "users") = [k] ∧ k.column = "id" ∧
        List.Forall₂ (Lists (H.adapter .sqlite) .sqlite H fleetCars k) (H.rows "users") out ∧
        ∀ user ∈ H.rows "users", ∀ car ∈ H.rows "cars",
          (car ∈ H.listed "cars" k user ↔ user ∈ H.referred k car) := by
  intro H
  have hanswers := H.answers_adapter (d := .sqlite) List.mem_cons_self
  obtain ⟨out, t, hrun⟩ := exists_run_eq_ok
    (w := join (H.adapter .sqlite) .sqlite "users" fleetCars (H.rows "users"))
    (s := { store := () }) (by decide +kernel)
  obtain ⟨k, hk, hlists, -, hinverse⟩ := listed_iff_referred hanswers (by decide)
    (by decide +kernel) hrun
  have hid : k.column = "id" := by
    cases hk
    decide
  exact ⟨out, t, hrun, k, hk, hid, hlists, fun user huser car hcar =>
    hinverse hid user user huser rfl car hcar⟩

/-- **The two ways differ along a key to another column**: the `id` of each user is bound to the
statement for its cars, not the value that the cars refer to, and no car is listed, although each
refers to a user. -/
theorem listed_not_inverse :
    let k : ForeignKey := ⟨"owner", "users", "email"⟩
    let H := fleet k
    boundBy (join (H.adapter .sqlite) .sqlite "users" fleetCars (H.rows "users")) =
        [["1"], ["2"]] ∧
      (H.rows "users").map (fun user => (cell user k.column).display) = ["ann@x", "bo@x"] ∧
      (∀ user ∈ H.rows "users", H.listed "cars" k user = []) ∧
      (H.rows "cars").map (fun car => (H.referred k car).map fun user => (cell user "id").display) =
        [["2"], ["1"]] := by
  refine ⟨by decide +kernel, by decide +kernel, ?_, by decide +kernel⟩
  intro user huser
  rw [← List.isEmpty_iff]
  revert user
  decide +kernel

end Execute
end TreeQuery
