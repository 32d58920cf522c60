import TreeQuery.Proofs.Execute.Projection
import TreeQuery.Proofs.Query.Marks
import TreeQuery.Proofs.Store.Traffic
import TreeQuery.Proofs.Text.Pieces

/-!
# Placeholders and arguments agree

A statement that reaches a database with numbered placeholders has been put together by three
parts of the library: the reader of the query writes question marks into the clauses, the executor
pastes quoted names, expressions and clauses into a statement and puts the join's own question mark
in front of those of the clause, and the dialect numbers what it takes for placeholders.  For plain
templates the three agree (`placeholders_agree`): in every statement that is sent, the placeholders
are `$1` to `$n`, where `n` is the number of arguments of each run; and in the statement of a join
along a key, `$1` is the key and the placeholders from `$2` on are the values of the clause.

What the executor sends for one relation is `JoinTraffic`: questions to the catalog, then one
statement, run with the arguments of one parent after the other.
-/

namespace TreeQuery

open List Store Sql Sql.Placeholder

variable {cs : List Char} {text : String}

namespace Sql.Placeholder

/-- A text with its question marks counted, and what it becomes when it is numbered. -/
structure Numbers (cs : List Char) (k : Nat) (out : Nat → List Char) : Prop where
  composed : Composed cs k
  text : ∀ n, numberedFrom n cs = out n

namespace Numbers

theorem self (h : Composed cs 0) : Numbers cs 0 fun _ => cs :=
  ⟨h, h.numberedFrom_eq_self⟩

theorem of_tame (h : Tame cs) :
    Numbers cs (cs.count '?') fun n => renumber n cs :=
  ⟨.plain h, h.numberedFrom_eq⟩

theorem append {ds : List Char} {k l : Nat} {out out' : Nat → List Char}
    (hc : Numbers cs k out) (hd : Numbers ds l out') (hparted : Parted cs ds) :
    Numbers (cs ++ ds) (k + l) fun n => out n ++ out' (n + k) := by
  refine ⟨hc.composed.append hd.composed hparted, fun n => ?_⟩
  rw [hc.composed.numberedFrom_append hparted, hc.text, hd.text]

end Numbers

end Sql.Placeholder

namespace Execute

open Query Schema

/-! ## The texts of statements -/

theorem toList_quote_postgres (name : String) :
    (Dialect.postgres.quote name).toList = Identifier.quote '"' name.toList := by
  simp [Dialect.quote, Dialect.postgres]

theorem toList_bind_postgres (text : String) :
    (Dialect.postgres.bind text).toList = numberedFrom 1 text.toList :=
  String.toList_ofList

theorem composed_quote (name : String) : Composed (Dialect.postgres.quote name).toList 0 := by
  rw [toList_quote_postgres]
  exact .quote rfl _

variable {proj : Projection} {cols : List Column} {events : List Event} {keyed : Bool}
  {parents : List Record} {α : Type}

/-- **The select list of a well marked node** is composed, whatever the columns are called. -/
theorem composed_plan? {rel : Relation} (hrel : rel.Marked)
    (h : plan? .postgres cols rel = some proj) :
    Placeholder.Composed proj.sql.toList 0 := by
  rw [plan?_eq_projected] at h
  split at h
  · cases h
  cases h
  rw [String.toList_intercalate]
  refine .intercalate fun part hpart => ?_
  obtain ⟨item, hitem, rfl⟩ := mem_map.mp hpart
  obtain ⟨name, hname, rfl⟩ := mem_map.mp hitem
  unfold selectedText
  split
  · exact composed_quote name
  · rename_i hbare
    obtain ⟨htame, hnone⟩ := hrel.attributes name (mem_attributes_of_not_quoted hname hbare)
    exact .constant htame hnone

/-- The condition on the key in the statement of a join. -/
def condition (keyed : Bool) (key : String) : String :=
  if keyed then " WHERE " ++ Dialect.postgres.quote key ++ " = ?" else ""

/-- The clause of a node as it stands at the end of a statement. -/
def ending (clause : String) : String :=
  if clause.isEmpty then "" else " " ++ clause

/-- The condition on the key, with the key as the first placeholder. -/
def numberedCondition (keyed : Bool) (key : String) : String :=
  if keyed then " WHERE " ++ Dialect.postgres.quote key ++ " = $1" else ""

/-- The clause at the end of a statement, numbered after the key. -/
def numberedEnding (keyed : Bool) (clause : String) : String :=
  String.ofList (renumber (if keyed then 2 else 1) (ending clause).toList)

/-- **The statement of a join** as a database with numbered placeholders gets it. -/
def joinText (keyed : Bool) (table key select clause : String) : String :=
  "WITH temp AS (SELECT * FROM " ++ Dialect.postgres.quote table ++ numberedCondition keyed key ++
    ") SELECT " ++ select ++ " FROM temp" ++ numberedEnding keyed clause

theorem numbers_condition (keyed : Bool) (key : String) :
    Placeholder.Composed (condition keyed key).toList (if keyed then 1 else 0) ∧
      numberedFrom 1 (condition keyed key).toList = (numberedCondition keyed key).toList := by
  cases keyed with
  | false =>
    have hnil : Placeholder.Composed [] 0 := .constant (by decide) rfl
    exact ⟨hnil, hnil.numberedFrom_eq_self 1⟩
  | true =>
    have hwhere : Numbers " WHERE ".toList 0 _ := .self (.constant (by decide) rfl)
    have hkey : Numbers (Dialect.postgres.quote key).toList 0 _ := .self (composed_quote key)
    have hmark : Numbers " = ?".toList 1 _ := .of_tame (by decide)
    have h := hwhere.append (hkey.append hmark (parted_of_head (by simp [Separator])))
      (parted_of_getLast (by simp [Separator]))
    have hone : renumber 1 " = ?".toList = " = $1".toList := by decide
    simp only [condition, numberedCondition, if_true, String.toList_append, append_assoc]
    exact ⟨h.composed, by rw [h.text, hone]⟩

theorem tame_ending {clause : String} (h : Tame clause.toList) : Tame (ending clause).toList := by
  unfold ending
  split
  · decide
  · have hblank : Tame " ".toList := by decide
    rw [String.toList_append]
    exact hblank.append h (parted_of_getLast (by simp [Separator])).meets

theorem count_ending (clause : String) :
    (ending clause).toList.count '?' = clause.toList.count '?' := by
  unfold ending
  split
  · rename_i hempty
    rw [String.isEmpty_iff.mp hempty]
  · simp

/-- **The statement of a join, numbered**: one placeholder for the key, if there is one, and one for
each question mark of the clause. -/
theorem numbers_statementText (target : Join) (keyed : Bool) {clause : String}
    (hselect : Placeholder.Composed proj.sql.toList 0) (hclause : Tame clause.toList) :
    Placeholder.Composed (statementText .postgres target keyed proj clause).toList
        ((if keyed then 1 else 0) + clause.toList.count '?') ∧
      Dialect.postgres.bind (statementText .postgres target keyed proj clause) =
        joinText keyed target.table target.key proj.sql clause := by
  have hopen : Numbers "WITH temp AS (SELECT * FROM ".toList 0 _ :=
    .self (.constant (by decide) rfl)
  have htable : Numbers (Dialect.postgres.quote target.table).toList 0 _ := .self (composed_quote _)
  have hmiddle : Numbers ") SELECT ".toList 0 _ := .self (.constant (by decide) rfl)
  have hfrom : Numbers " FROM temp".toList 0 _ := .self (.constant (by decide) rfl)
  have hending : Parted " FROM temp".toList (ending clause).toList := by
    refine parted_of_head ?_
    unfold ending
    split <;> simp [Separator]
  have hseam (rest : List Char) : Parted (Dialect.postgres.quote target.table).toList
      ((condition keyed target.key).toList ++ (") SELECT ".toList ++ rest)) := by
    refine parted_of_head ?_
    cases keyed <;> simp [condition, Separator]
  have hcondition : Numbers (condition keyed target.key).toList (if keyed then 1 else 0) _ :=
    ⟨(numbers_condition keyed target.key).1, fun _ => rfl⟩
  have h := hopen.append (htable.append (hcondition.append
    (hmiddle.append ((Numbers.self hselect).append
      (hfrom.append (.of_tame (tame_ending hclause)) hending)
      (parted_of_head (by simp [Separator]))) (parted_of_getLast (by simp [Separator])))
    (parted_of_head (by simp [Separator]))) (hseam _)) (parted_of_getLast (by simp [Separator]))
  have htext : (statementText .postgres target keyed proj clause).toList =
      "WITH temp AS (SELECT * FROM ".toList ++ ((Dialect.postgres.quote target.table).toList ++
        ((condition keyed target.key).toList ++ (") SELECT ".toList ++ (proj.sql.toList ++
          (" FROM temp".toList ++ (ending clause).toList))))) :=
    Text.toList_foldl_append _ [_, _, _, _, _] _
  rw [← htext] at h
  constructor
  · simpa only [Nat.zero_add, count_ending] using h.composed
  have hend : renumber (1 + 0 + 0 + (if keyed then 1 else 0) + 0 + 0 + 0) (ending clause).toList =
      (numberedEnding keyed clause).toList := by
    rw [numberedEnding, String.toList_ofList]
    cases keyed <;> rfl
  apply String.toList_inj.mp
  refine (toList_bind_postgres _).trans ((h.text 1).trans ?_)
  rw [hend, (numbers_condition keyed target.key).2]
  exact (Text.toList_foldl_append _ [_, _, _, _, _] _).symm

/-! ## What is sent -/

/-- **Placeholders and arguments agree**: a statement that is run has the placeholders `$1` to `$n`
for its `n` arguments, in order and each once; one that is prepared has them for some `n`.  Nothing
else is sent. -/
def Agrees : Event → Prop
  | .query sql args => placeholders sql.toList = range' 1 args.length
  | .run sql args => placeholders sql.toList = range' 1 args.length
  | .prepare sql => ∃ n, placeholders sql.toList = range' 1 n
  | .close sql => ∃ n, placeholders sql.toList = range' 1 n
  | _ => False

/-- **The statement that serves a relation**, along a key or not: nothing in the select list is a
placeholder, and the clause has the placeholders that follow the key's. -/
structure JoinStatement (child : Relation) (keyed : Bool) (text : String) : Prop where
  form : ∃ table key select, placeholders select.toList = [] ∧
    text = joinText keyed table key select child.sql
  clause : placeholders (numberedEnding keyed child.sql).toList =
    range' (if keyed then 2 else 1) child.bindings.length
  whole : placeholders text.toList =
    range' 1 ((if keyed then 1 else 0) + child.bindings.length)

/-- The value by which a parent is joined: that of the column named after the relation, if the
first parent has it, or of its `id`. -/
def joinKey (child : Relation) (parents : List Record) (parent : Record) : Value :=
  (parent.get? (if firstHas parents (idColumn child.type) then idColumn child.type else "id")).getD
    .null

/-- The arguments of the run for one parent: the join key first, then the values of the clause. -/
def joinArguments (child : Relation) (keyed : Bool) (parents : List Record) (parent : Record) :
    List Value :=
  (if keyed then [joinKey child parents parent] else []) ++ child.bindings

/-- The events of a statement that is run once for each list of arguments; each run may be followed
by events of nested relations, which agree as well. -/
inductive Served (text : String) : List (List Value) → List Event → Prop
  | nil : Served text [] []
  | cons {args : List Value} {rest : List (List Value)} {nested later : List Event} :
      (∀ e ∈ nested, Agrees e) → Served text rest later →
        Served text (args :: rest) (.run text args :: (nested ++ later))

/-- A question to the catalog about one table. -/
def Question (e : Event) : Prop :=
  Agrees e ∧ ∃ sql table, e = .query sql [.text table]

/-- **What is sent to resolve a relation for parents**: questions to the catalog, each about one
table, and then a statement that is run for one parent after the other, until a run fails. -/
def JoinTraffic (child : Relation) (keyed : Bool) (parents : List Record) (events : List Event) :
    Prop :=
  ∃ catalog rest, events = catalog ++ rest ∧ (∀ e ∈ catalog, Question e) ∧
    (rest = [] ∨ ∃ text, JoinStatement child keyed text ∧ ∃ n served tail,
      Served text ((parents.take n).map (joinArguments child keyed parents)) served ∧
        (tail = [] ∨ tail = [.close text]) ∧ rest = .prepare text :: served ++ tail)

theorem joinStatement_of_plan {child : Relation} (hchild : child.Marked) (target : Join)
    (keyed : Bool)
    (hplan : plan? .postgres cols child = some proj) :
    JoinStatement child keyed
      (Dialect.postgres.bind (statementText .postgres target keyed proj child.sql)) := by
  have hselect := composed_plan? hchild hplan
  obtain ⟨hcomposed, htext⟩ := numbers_statementText target keyed hselect hchild.clause
  refine ⟨⟨target.table, target.key, proj.sql, ?_, htext⟩, ?_, ?_⟩
  · have hnone := hselect.placeholders_numberedFrom 1
    rwa [hselect.numberedFrom_eq_self] at hnone
  · have hending := (tame_ending hchild.clause).placeholders_renumber (if keyed then 2 else 1)
    rwa [count_ending, hchild.count, ← String.toList_ofList (l := renumber _ _)] at hending
  · have hall := hcomposed.placeholders_numberedFrom 1
    rwa [hchild.count, ← toList_bind_postgres] at hall

/-- All that a served statement sends agrees. -/
theorem Served.agrees {n : Nat} (htext : placeholders text.toList = range' 1 n)
    {argss : List (List Value)} (hargs : ∀ args ∈ argss, args.length = n)
    (h : Served text argss events) : ∀ e ∈ events, Agrees e := by
  induction h with
  | nil => simp
  | cons hnested _ ih =>
    obtain ⟨hlength, hargs⟩ := forall_mem_cons.mp hargs
    refine forall_mem_cons.mpr ⟨?_, ?_⟩
    · rw [Agrees, htext, hlength]
    · exact forall_mem_append.mpr ⟨hnested, ih hargs⟩

theorem JoinTraffic.agrees {child : Relation} (h : JoinTraffic child keyed parents events) :
    ∀ e ∈ events, Agrees e := by
  obtain ⟨catalog, rest, rfl, hcatalog, hrest⟩ := h
  refine forall_mem_append.mpr ⟨fun e he => (hcatalog e he).1, ?_⟩
  rcases hrest with rfl | ⟨text, htext, n, served, tail, hserved, htail, rfl⟩
  · simp
  have hprepared : ∃ n, placeholders text.toList = range' 1 n := ⟨_, htext.whole⟩
  refine forall_mem_append.mpr ⟨forall_mem_cons.mpr ⟨hprepared, ?_⟩, ?_⟩
  · refine hserved.agrees htext.whole fun args hargs => ?_
    obtain ⟨parent, -, rfl⟩ := mem_map.mp hargs
    cases keyed <;> simp [joinArguments, Nat.add_comm]
  · rcases htail with rfl | rfl
    · simp
    · simpa [Agrees] using hprepared

/-! ## Executions -/

section Executions

variable {δ : Type} (C : Connection δ) (reportsClose : Bool)

/-- The store behind a watched connection to a database with numbered placeholders. -/
def numberedStore : Adapter (Client (δ × List Event)) :=
  adapter C.observed (.ofDialect .postgres reportsClose)

variable {C reportsClose} (c : Client (δ × List Event))

theorem toList_append_ofList {s : String} {front : List Char} (h : s.toList = front)
    (back : List Char) : (s ++ String.ofList back).toList = front ++ back := by
  rw [String.toList_append, h, String.toList_ofList]

theorem question_columns (table : String) :
    Question (.query (Dialect.postgres.bind Catalog.postgres.columns) [.text table]) := by
  -- the characters are spelled out first: they are all that the numbering has to read
  have hchars : Catalog.postgres.columns.toList = _ :=
    toList_append_ofList (toList_append_ofList (toList_append_ofList String.toList_ofList _) _) _
  refine ⟨?_, _, table, rfl⟩
  rw [Agrees, toList_bind_postgres, hchars, length_singleton]
  decide +kernel

theorem question_foreignKeys (table : String) :
    Question (.query (Dialect.postgres.bind Catalog.postgres.foreignKeys) [.text table]) := by
  have hchars : Catalog.postgres.foreignKeys.toList = _ :=
    toList_append_ofList (toList_append_ofList (toList_append_ofList (toList_append_ofList
      (toList_append_ofList (toList_append_ofList (toList_append_ofList (toList_append_ofList
        (toList_append_ofList String.toList_ofList _) _) _) _) _) _) _) _) _
  refine ⟨?_, _, table, rfl⟩
  rw [Agrees, toList_bind_postgres, hchars, length_singleton]
  decide +kernel

theorem asks_question {sql table : String}
    (h : Question (.query (Dialect.postgres.bind sql) [.text table])) (read : List Record → α) :
    Sends c (do
      let rows ← Work.call (Session.all (numberedStore C reportsClose) sql [.text table])
      return read rows) fun _ events => ∀ e ∈ events, Question e := by
  refine Sends.each_bind ((Sends.all C _ _ _).mono fun _ events hevents => ?_)
    fun _ => Sends.pure (by simp)
  rw [hevents]
  exact forall_mem_singleton.mpr h

theorem asks_orFail (r : Except RelationError α) :
    Sends c (orFail r : Work (Client (δ × List Event)) α)
      fun _ events => ∀ e ∈ events, Question e := by
  cases r with
  | ok a => exact Sends.pure (by simp)
  | error e => exact Sends.throw (by simp)

theorem asks_joinFor (table type : String) (isSingular : Bool) :
    Sends c
      (joinFor (numberedStore C reportsClose) (Catalog.ofDialect .postgres) table type isSingular)
      fun _ events => ∀ e ∈ events, Question e := by
  unfold joinFor
  split
  · exact Sends.pure (by simp)
  · split
    · exact Sends.each_bind (asks_question c (question_foreignKeys table) _)
        fun _ => asks_orFail c _
    · exact Sends.each_bind (asks_question c (question_foreignKeys type) _)
        fun _ => asks_orFail c _

/-- What is sent for one parent: its run, and what its rows need. -/
def ServedOne (text : String) (args : List Value) {α : Type} (r : Except Failure α)
    (events : List Event) : Prop :=
  (events = [] ∧ ∃ e, r = .error e) ∨
    ∃ nested, events = .run text args :: nested ∧ ∀ e ∈ nested, Agrees e

/-- **One parent after the other.**  If each is served by a run with its own arguments, the events
are those of the parents served, in order. -/
theorem sends_mapM_served {args : Record → List Value}
    {f : Record → Work (Client (δ × List Event)) Record}
    (hf : ∀ parent, Sends c (f parent) (ServedOne text (args parent))) (parents : List Record) :
    Sends c (parents.mapM f)
      fun _ events => ∃ n, Served text ((parents.take n).map args) events := by
  induction parents with
  | nil => exact Sends.pure ⟨0, .nil⟩
  | cons parent parents ih =>
    rw [mapM_cons]
    have hrest (row : Record) :
        Sends c (parents.mapM f >>= fun rows => pure (row :: rows)) fun _ events =>
          ∃ n, Served text ((parents.take n).map args) events := by
      have hdone (rows : List Record) :
          Sends c (pure (row :: rows) : Work _ _) fun _ events => events = [] := Sends.pure rfl
      refine ih.bind hdone (fun _ _ h => h) fun _ xs _ ys h hys => ?_
      rwa [hys, append_nil]
    refine (hf parent).bind hrest ?_ ?_
    · rintro e xs (⟨rfl, -⟩ | ⟨nested, rfl, hnested⟩)
      · exact ⟨0, .nil⟩
      · exact ⟨1, by simpa using Served.cons hnested .nil⟩
    · rintro row xs r ys (⟨-, e, he⟩ | ⟨nested, rfl, hnested⟩) ⟨n, hn⟩
      · cases he
      · exact ⟨n + 1, .cons hnested hn⟩

/-- The catalog may be asked before a relation is resolved. -/
theorem sends_after_questions {β : Type} {w : Work (Client (δ × List Event)) α}
    {f : α → Work (Client (δ × List Event)) β} {child : Relation}
    (hw : Sends c w fun _ events => ∀ e ∈ events, Question e)
    (hf : ∀ a, Sends c (f a) fun _ events => JoinTraffic child keyed parents events) :
    Sends c (w >>= f) fun _ events => JoinTraffic child keyed parents events := by
  refine hw.bind hf ?_ ?_
  · intro e xs hxs
    exact ⟨xs, [], (append_nil xs).symm, hxs, .inl rfl⟩
  · rintro a xs r ys hxs ⟨catalog, rest, rfl, hcatalog, hrest⟩
    exact ⟨xs ++ catalog, rest, (append_assoc _ _ _).symm,
      forall_mem_append.mpr ⟨hxs, hcatalog⟩, hrest⟩

/-- A statement that serves a relation, prepared and run for its parents. -/
theorem sends_statement {child : Relation}
    (htext : JoinStatement child keyed (Dialect.postgres.bind text))
    {body : Statement → Work (Client (δ × List Event)) (List Record)}
    (hbody : ∀ c' stmt, c'.Holds stmt (Dialect.postgres.bind text) →
      Sends c' (body stmt) fun _ events => ∃ n, Served (Dialect.postgres.bind text)
        ((parents.take n).map (joinArguments child keyed parents)) events) :
    Sends c (Work.withStatement (numberedStore C reportsClose) text body)
      fun _ events => JoinTraffic child keyed parents events := by
  refine (Sends.withStatement C _ hbody).mono ?_
  rintro r events (⟨rfl, -⟩ | ⟨-, inner, tail, ⟨n, hserved⟩, -, htail, rfl⟩)
  · exact ⟨[], _, rfl, by simp, .inr ⟨_, htext, 0, [], [], .nil, .inl rfl, rfl⟩⟩
  · exact ⟨[], _, rfl, by simp, .inr ⟨_, htext, n, inner, tail, hserved, htail, rfl⟩⟩

section Join

variable {child : Relation} (hchild : child.Marked)
  (hres : ∀ c table parents, Sends c
    (resolve (numberedStore C reportsClose) .postgres table child.relations parents)
    fun _ events => ∀ e ∈ events, Agrees e)

include hres

theorem sends_joinOne (keyed : Bool) (parents : List Record) {stmt : Statement}
    (hstmt : c.Holds stmt text) (target : Join) (hidden : List String) (parent : Record) :
    Sends c (joinOne (numberedStore C reportsClose) .postgres child target keyed
      (firstHas parents (idColumn child.type)) hidden stmt parent)
      (ServedOne text (joinArguments child keyed parents parent)) := by
  have hrun {α β : Type} {w : Work (Client (δ × List Event)) α}
      {f : α → Work (Client (δ × List Event)) β}
      (hw : Sends c w (Sends.Ran text (joinArguments child keyed parents parent)))
      (hf : ∀ a, Sends c (f a) fun _ events => ∀ e ∈ events, Agrees e) :
      Sends c (w >>= f) (ServedOne text (joinArguments child keyed parents parent)) := by
    refine hw.bind hf ?_ ?_
    · rintro e xs (rfl | ⟨rfl, -⟩)
      · exact .inr ⟨[], rfl, by simp⟩
      · exact .inl ⟨rfl, e, rfl⟩
    · rintro a xs r ys (rfl | ⟨-, e, he⟩) hys
      · exact .inr ⟨ys, rfl, hys⟩
      · cases he
  unfold joinOne relatedTo
  dsimp only
  split
  · rename_i hone
    have hargs : (if keyed then [(parent.get? (idColumn child.type)).getD .null] else []) ++
        child.bindings = joinArguments child keyed parents parent := by
      rw [joinArguments, joinKey, if_pos hone]
    rw [hargs, bind_assoc]
    refine hrun (Sends.runOne C _ hstmt _) fun row => ?_
    cases row with
    | none => exact Sends.pure (by simp)
    | some row =>
      dsimp only
      rw [bind_assoc]
      exact (hres c _ _).each_bind fun _ => Sends.pure (by simp)
  · rename_i hmany
    have hargs : (if keyed then [(parent.get? "id").getD .null] else []) ++ child.bindings =
        joinArguments child keyed parents parent := by
      rw [joinArguments, joinKey, if_neg hmany]
    simp only [hargs, bind_assoc]
    exact hrun (Sends.runAll C _ hstmt _) fun rows =>
      (hres c _ _).each_bind fun _ => Sends.pure (by simp)

include hchild

theorem sends_joinAlong (keyed : Bool) (parents : List Record) (target : Join) :
    Sends c (joinAlong (numberedStore C reportsClose) .postgres child keyed
      (firstHas parents (idColumn child.type)) parents target)
      fun _ events => JoinTraffic child keyed parents events := by
  unfold joinAlong
  refine sends_after_questions c (asks_question c (question_columns target.table) _) fun cols => ?_
  split
  · exact Sends.throw ⟨[], [], rfl, by simp, .inl rfl⟩
  rename_i proj hplan
  refine sends_statement c (joinStatement_of_plan hchild target keyed hplan)
    fun c' stmt hstmt => ?_
  refine Sends.bind (P := fun _ events => events = []) (Sends.note _ _ rfl) (fun _ =>
    sends_mapM_served c' (sends_joinOne c' hres keyed parents hstmt target proj.hidden) parents)
    ?_ ?_
  · rintro e xs rfl
    exact ⟨0, .nil⟩
  · rintro _ xs r ys rfl hys
    exact hys

/-- **Resolving a relation sends its traffic**, if all that its nested relations send agrees. -/
theorem sends_join_step (table : String) (parents : List Record) :
    Sends c (join (numberedStore C reportsClose) .postgres table child parents)
      fun _ events => JoinTraffic child (!table.isEmpty) parents events := by
  rw [join_eq]
  exact sends_after_questions c (asks_joinFor c table child.type _) fun target =>
    sends_joinAlong c hchild hres (!table.isEmpty) parents target

end Join

theorem sends_lookInside (child : Relation) (parents : List Record) :
    Sends c (lookInside child parents) fun _ events => ∀ e ∈ events, Agrees e := by
  unfold lookInside
  refine Sends.each_bind (Sends.note _ _ (by simp)) fun _ => ?_
  split
  · exact Sends.pure (by simp)
  · exact Sends.throw (by simp)

theorem sends_resolve_step {children : List Relation}
    (hjoin : ∀ child ∈ children, ∀ c table parents, Sends c
      (join (numberedStore C reportsClose) .postgres table child parents)
      fun _ events => ∀ e ∈ events, Agrees e)
    (table : String) (parents : List Record) :
    Sends c (resolve (numberedStore C reportsClose) .postgres table children parents)
      fun _ events => ∀ e ∈ events, Agrees e := by
  induction children generalizing parents with
  | nil =>
    rw [resolve_nil]
    exact Sends.pure (by simp)
  | cons child rest ih =>
    cases parents with
    | nil =>
      rw [resolve_empty]
      exact Sends.pure (by simp)
    | cons first parents =>
      obtain ⟨hchild, hrest⟩ := forall_mem_cons.mp hjoin
      rw [resolve_cons]
      refine Sends.each_bind ?_ (ih hrest)
      unfold attachOne
      split
      · exact sends_lookInside c child _
      · exact hchild c table _

/-- **What is sent for a relation** of a well marked tree, at any depth. -/
theorem sends_join {child : Relation} (hchild : child.AllMarked) (table : String)
    (parents : List Record) :
    Sends c (join (numberedStore C reportsClose) .postgres table child parents)
      fun _ events => JoinTraffic child (!table.isEmpty) parents events := by
  induction child using Relation.nested_induction generalizing c table parents with
  | step child ih =>
    obtain ⟨hmarked, hnested⟩ := Relation.allMarked_iff.mp hchild
    refine sends_join_step c hmarked (fun c table parents => ?_) table parents
    refine sends_resolve_step c (fun nested hmem c table parents => ?_) table parents
    exact (ih nested hmem c (hnested nested hmem) table parents).mono fun _ _ h => h.agrees

theorem sends_resolve {children : List Relation} (h : ∀ child ∈ children, child.AllMarked)
    (table : String) (parents : List Record) :
    Sends c (resolve (numberedStore C reportsClose) .postgres table children parents)
      fun _ events => ∀ e ∈ events, Agrees e :=
  sends_resolve_step c (fun child hmem c table parents =>
    (sends_join c (h child hmem) table parents).mono fun _ _ h => h.agrees) table parents

/-- The statement of a mutation has a placeholder for each of its values. -/
theorem agrees_mutation {root : Relation} (hroot : root.Marked)
    (hplan : plan? .postgres cols root = some proj) :
    Agrees (.query (Dialect.postgres.bind (root.sql ++ " RETURNING " ++ proj.sql))
      root.bindings) := by
  have hreturning : Placeholder.Composed " RETURNING ".toList 0 := .constant (by decide) rfl
  have h := (Placeholder.Composed.plain hroot.clause).append (hreturning.append
    (composed_plan? hroot hplan) (parted_of_getLast (by simp [Separator])))
    (parted_of_head (by simp [Separator]))
  rw [Agrees, toList_bind_postgres, String.toList_append, String.toList_append, append_assoc,
    h.placeholders_numberedFrom, hroot.count, Nat.add_zero]

/-- **All that the execution of a well marked tree sends agrees.** -/
theorem sends_execute {root : Relation} (hroot : root.AllMarked) :
    Sends c (execute (numberedStore C reportsClose) .postgres root)
      fun _ events => ∀ e ∈ events, Agrees e := by
  obtain ⟨hmarked, hnested⟩ := Relation.allMarked_iff.mp hroot
  rw [execute]
  split
  · refine Sends.each_bind ?_ fun _ => Sends.pure (by simp)
    rw [mutate]
    split
    · refine Sends.each_bind ?_ fun cols => ?_
      · unfold mutationColumns
        split
        · exact Sends.pure (by simp)
        · exact (asks_question c (question_columns root.table) _).mono
            fun _ events h e he => (h e he).1
      unfold mutateOver
      split
      · exact Sends.throw (by simp)
      rename_i proj hplan
      refine Sends.each_bind (Sends.note _ _ (by simp)) fun _ =>
        Sends.each_bind ((Sends.all C _ _ _).mono fun _ events h => ?_)
          fun _ => sends_resolve c hnested _ _
      rw [h]
      exact forall_mem_singleton.mpr (agrees_mutation hmarked hplan)
    · exact Sends.throw (by simp)
  · exact Sends.each_bind (sends_resolve c hnested _ _) fun _ => Sends.pure (by simp)

end Executions

/-- The events that a work adds to the record of the connection. -/
def sent {δ α : Type} (w : Work (Client (δ × List Event)) α)
    (s : Session (Client (δ × List Event))) : List Event :=
  (w.run s).2.store.database.2.drop s.store.database.2.length

theorem Sends.sent {δ : Type} {w : Work (Client (δ × List Event)) α}
    {P : Except Failure α → List Event → Prop} {s : Session (Client (δ × List Event))}
    (h : Sends s.store w P) : P (w.run s).1 (sent w s) := by
  obtain ⟨-, events, hevents, hP⟩ := h s (.refl _)
  rw [Execute.sent, hevents, drop_left]
  exact hP

/-- **Placeholders and arguments agree**, down to the database.  Let a plain template be executed
over any connection to a database with numbered placeholders, whatever its tables are called and
whatever it replies.  Then every statement that is sent has the placeholders `$1` to `$n` outside of
quoted runs, each once and in order, for the `n` arguments of each of its runs.  For every relation
of the query, at any depth and for any parents, the statement is run with the arguments of one
parent after the other; along a key, `$1` is the join key of the parent and the `k`-th placeholder
after it the `k`-th value of the relation. -/
theorem placeholders_agree {t : Template} (ht : t.Plain) {root : Relation}
    (hroot : t.parse = .ok root) {δ : Type} (C : Connection δ) (reportsClose : Bool)
    (s : Session (Client (δ × List Event))) :
    (∀ e ∈ sent (execute (numberedStore C reportsClose) .postgres root) s, Agrees e) ∧
      ∀ child ∈ Relation.nodesOf root.relations, ∀ table parents,
        JoinTraffic child (!table.isEmpty) parents
          (sent (join (numberedStore C reportsClose) .postgres table child parents) s) := by
  have hmarked := marked_of_parse ht hroot
  refine ⟨Sends.sent (sends_execute s.store hmarked), fun child hchild table parents => ?_⟩
  have hall : child.AllMarked := by
    intro n hn
    refine hmarked n (Relation.mem_nodes_trans ?_ hn)
    rw [Relation.nodes_eq]
    exact List.mem_cons_of_mem _ hchild
  exact Sends.sent (sends_join s.store hall table parents)

/-! ## Examples -/

/-- What the execution of a query sends to a database that answers with one row. -/
def sentToOneRow (root : Relation) : List Event :=
  sent (execute (numberedStore oneRow false) .postgres root) { store := { database := ((), []) } }

/-- An update with a value, and a relation joined to the changed rows with a sequence of two. -/
def keyedUpdate : Template where
  segments := ["UPDATE users SET a = ", " \x7b\n b\n cars WHERE d IN (", ") \x7b\n e\n \x7d\n\x7d"]
  values := [.int 30, .list [.text "Saab", .null]]

theorem unquoted_of_all (h : cs.all (fun c => !Placeholder.isQuote c) = true) :
    ∀ c ∈ cs, Placeholder.isQuote c = false := by
  intro c hc
  simpa using all_eq_true.mp h c hc

theorem plain_keyedUpdate : keyedUpdate.Plain where
  unmarked := by decide +kernel
  unquoted := unquoted_of_all (by decide +kernel)
  no_line_comment := by decide +kernel
  no_comment := by decide +kernel
  no_dollar d _ h := by
    have hnone : '$' ∉ keyedUpdate.literal := by decide +kernel
    exact hnone (h.subset mem_cons_self)
  no_digit k v d hv _ hd := by
    rcases k with _ | _ | k
    · cases hd
      rfl
    · cases hd
      rfl
    · cases hv

/-- Seven events reach the database, the last three for the cars of the changed user. -/
theorem placeholders_agree_keyedUpdate :
    ∃ root, keyedUpdate.parse = .ok root ∧ (sentToOneRow root).length = 7 ∧
      (∀ e ∈ sentToOneRow root, Agrees e) ∧
      ∀ child ∈ Relation.nodesOf root.relations, ∀ table parents,
        JoinTraffic child (!table.isEmpty) parents
          (sent (join (numberedStore oneRow false) .postgres table child parents)
            { store := { database := ((), []) } }) := by
  have hroot : keyedUpdate.parse = .ok
      { sql := "UPDATE users SET a = ?", table := "users", bindings := [.int 30],
        attributes := ["b"],
        relations := [{ type := "cars", sql := "WHERE d IN (?,?)",
                        bindings := [.text "Saab", .null], attributes := ["e"] }] } := by
    rfl
  exact ⟨_, hroot, by decide +kernel, placeholders_agree plain_keyedUpdate hroot oneRow false _⟩

/-- Whether a run has other placeholders than arguments. -/
def runDiffers : Event → Bool
  | .run sql args => placeholders sql.toList != range' 1 args.length
  | _ => false

theorem exists_not_agrees (h : events.any runDiffers) :
    ∃ e ∈ events, ¬ Agrees e := by
  obtain ⟨e, he, hdiffers⟩ := any_eq_true.mp h
  refine ⟨e, he, ?_⟩
  cases e with
  | run sql args => simpa [runDiffers, Agrees] using hdiffers
  | _ => cases hdiffers

def ownPlaceholder : Template := .ofText "users WHERE a = $1 \x7b\n id\n\x7d"

/-- A query with a value in front of a digit. -/
def valueBeforeDigit : Template := ⟨["users WHERE a = ", "0 \x7b\n id\n\x7d"], [.int 4]⟩

/-- **A placeholder of the query's own, or a value in front of a digit, breaks the agreement**: the
first query sends `$1` and no argument, the second `$10` and one argument. -/
theorem exists_bare_not_agrees :
    (ownPlaceholder.Bare ∧ ∃ root, ownPlaceholder.parse = .ok root ∧
        ∃ e ∈ sentToOneRow root, ¬ Agrees e) ∧
      valueBeforeDigit.Bare ∧ ∃ root, valueBeforeDigit.parse = .ok root ∧
        ∃ e ∈ sentToOneRow root, ¬ Agrees e := by
  have hown : ownPlaceholder.parse = .ok
      { relations := [{ type := "users", sql := "WHERE a = $1", attributes := ["id"] }] } := by
    rfl
  have hdigit : valueBeforeDigit.parse = .ok
      { relations := [{ type := "users", sql := "WHERE a = ?0", bindings := [.int 4],
                        attributes := ["id"] }] } := by
    rfl
  refine ⟨⟨?_, _, hown, exists_not_agrees (by decide +kernel)⟩, ?_, _, hdigit,
    exists_not_agrees (by decide +kernel)⟩
  · exact ⟨by decide +kernel, unquoted_of_all (by decide +kernel), by decide +kernel,
      by decide +kernel⟩
  · exact ⟨by decide +kernel, unquoted_of_all (by decide +kernel), by decide +kernel,
      by decide +kernel⟩

end Execute
end TreeQuery
