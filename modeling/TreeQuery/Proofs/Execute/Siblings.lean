import Mathlib.Data.List.Forall2
import TreeQuery.Json.Write
import TreeQuery.Proofs.Execute.Compositional
import TreeQuery.Proofs.Row

/-!
# What siblings know of each other

The relations of one level are resolved one after the other, and each attaches its values to the
rows that the next one looks at.  How a relation is resolved depends on few keys of these rows
(`looksAt`): its own type, the type followed by `Id`, and the column that joins it.

`executeBy` keeps the rows as they were fetched apart from the rows as the earlier siblings left
them, and resolves every relation by the rows that a `Basis` picks out of the two.  If siblings did
not know of each other, the basis would be the fetched rows alone (`Basis.fetched`).  It is that for
every relation but those that look at a key under which an earlier sibling has put its own values
(`Basis.unlessTaken`, `execute_eq_executeBy`); such siblings do interfere (`siblings_interfere`).
-/

namespace TreeQuery

open List Store

namespace Work

variable {σ α β : Type}

/-- What is made of the outcome of a prepared statement's work can be made of it inside. -/
theorem withStatement_map (A : Adapter σ) (sql : String) (body : Statement → Work σ α) (f : α → β) :
    (withStatement A sql fun stmt => body stmt >>= fun a => pure (f a)) =
      withStatement A sql body >>= fun a => pure (f a) := by
  funext s
  show (withStatement A sql _).run s = (withStatement A sql body >>= _).run s
  rw [run_bind, run_withStatement, run_withStatement]
  rcases Session.prepare A sql s with ⟨e | stmt, t⟩
  · rfl
  dsimp only
  rw [run_bind]
  rcases (body stmt).run t with ⟨e | a, u⟩
  · rfl
  · show (closing (.ok (f a)) (Session.finalize A stmt u).1, (Session.finalize A stmt u).2) = _
    dsimp only
    rcases Session.finalize A stmt u with ⟨e | ⟨⟩, v⟩ <;> rfl

end Work

namespace Execute

open Query Schema Work

variable {σ : Type}

/-! ## The values of a relation -/

/-- Attaches a value, if there is one, to a row. -/
def attachTo (type : String) (row : Record) : Option Value → Record
  | none => row
  | some v => row.set type v

/-- Attaches values to rows, one to each. -/
def attachAll (type : String) : List Record → List (Option Value) → List Record
  | row :: rows, v :: vs => attachTo type row v :: attachAll type rows vs
  | rows, _ => rows

/-- The parts of the documents of rows that a relation selects; a row may hold no document. -/
def documents (child : Relation) : List Record → Except Failure (List (Option Value))
  | [] => .ok []
  | row :: rest =>
    match held ((row.get? child.type).getD .null) with
    | .nothing => (documents child rest).map (none :: ·)
    | .document v => (documents child rest).map (some (filter child v) :: ·)
    | .undecodable => .error (.undecodable child.type)

/-- The values of a relation that looks into documents. -/
def valuesInside (child : Relation) (rows : List Record) : Work σ (List (Option Value)) :=
  note "filtering json relation"
    [("relation", .text child.type), ("parents", .int rows.length)] >>= fun _ =>
  match documents child rows with
  | .ok values => pure values
  | .error e => throw e

section Values

variable (A : Adapter σ) (d : Sql.Dialect)

/-- The values of a relation for all rows, once its table is known: from one prepared statement. -/
def valuesAlong (nested : String → List Record → Work σ (List Record)) (child : Relation)
    (keyed isSingular : Bool) (rows : List Record) (target : Join) :
    Work σ (List (Option Value)) :=
  serveAll A d child keyed isSingular rows target fun hidden stmt row =>
    relatedTo A (nested target.table) child keyed isSingular hidden stmt row >>= fun v =>
      pure (some v)

/-- **The values of a relation** for the rows by which it is resolved, one for each.  A relation
whose type is a key of the rows looks into documents; one whose type followed by `Id` is a key has
one related row; any other has many. -/
def valuesVia (nested : String → List Record → Work σ (List Record)) (table : String)
    (child : Relation) (rows : List Record) : Work σ (List (Option Value)) :=
  if firstHas rows child.type then valuesInside child rows
  else
    joinFor A (Catalog.ofDialect d) table child.type (firstHas rows (idColumn child.type)) >>=
      valuesAlong A d nested child (!table.isEmpty) (firstHas rows (idColumn child.type)) rows

end Values

/-! ## Resolving by a basis -/

/-- The keys of a level's rows that decide how a relation is resolved: its type; unless it looks
into documents, its type followed by `Id`; and if it has many related rows of a table, `id`. -/
def looksAt (keyed : Bool) (child : Relation) (rows : List Record) : List String :=
  child.type ::
    if firstHas rows child.type then []
    else idColumn child.type ::
      if firstHas rows (idColumn child.type) then [] else if keyed then ["id"] else []

/-- **The rows by which a relation is resolved**, out of those that were fetched and those that its
earlier siblings left.  A level is keyed if its rows are those of a table. -/
abbrev Basis :=
  (keyed : Bool) → (earlier : List Relation) → Relation → (fetched current : List Record) →
    List Record

/-- The rows as they were fetched. -/
def Basis.fetched : Basis :=
  fun _ _ _ fetched _ => fetched

/-- The rows as they were fetched, unless the relation looks at a key that is the type of an earlier
sibling. -/
def Basis.unlessTaken : Basis :=
  fun keyed earlier child fetched current =>
    if earlier.any fun e => (looksAt keyed child fetched).contains e.type then current else fetched

mutual

/-- The values of a relation, with the relations nested in it resolved by a basis. -/
def valuesBy (B : Basis) (A : Adapter σ) (d : Sql.Dialect) (table : String) :
    Relation → List Record → Work σ (List (Option Value))
  | ⟨type, childTable, sql, bindings, attributes, relations⟩, rows =>
    valuesVia A d (fun table related => resolveBy B A d table [] relations related related) table
      ⟨type, childTable, sql, bindings, attributes, relations⟩ rows

/-- **Resolves relations one after the other**, each by the rows that the basis picks. -/
def resolveBy (B : Basis) (A : Adapter σ) (d : Sql.Dialect) (table : String)
    (earlier : List Relation) :
    List Relation → (fetched current : List Record) → Work σ (List Record)
  | [], _, current => pure current
  | child :: rest, fetched, current =>
    if fetched.isEmpty then pure []
    else
      valuesBy B A d table child (B (!table.isEmpty) earlier child fetched current) >>=
        fun values => resolveBy B A d table (earlier ++ [child]) rest fetched
          (attachAll child.type current values)

end

/-- Resolves the relations of a level for the rows that were fetched. -/
def resolveLevel (B : Basis) (A : Adapter σ) (d : Sql.Dialect) (table : String)
    (children : List Relation) (rows : List Record) : Work σ (List Record) :=
  resolveBy B A d table [] children rows rows

/-- **The result of a query** whose relations are resolved by a basis. -/
def executeBy (B : Basis) (A : Adapter σ) (d : Sql.Dialect) (root : Relation) : Work σ Value :=
  if root.isMutation then
    (if d.returning then
        mutationColumns A d root.table >>=
          mutateOver A d root (resolveLevel B A d root.table root.relations)
      else throw (.returningUnsupported d.name)) >>= fun rows => pure (.rows rows)
  else
    resolveLevel B A d "" root.relations [Row.empty] >>= fun rows => pure (resultOf root rows)

/-! ## Values, then attached -/

theorem filterParents_eq (child : Relation) (rows : List Record) :
    filterParents child rows = (documents child rows).map (attachAll child.type rows) := by
  induction rows with
  | nil => rfl
  | cons row rest ih =>
    rw [filterParents, documents, ih]
    cases held ((row.get? child.type).getD .null) with
    | nothing => cases documents child rest <;> rfl
    | document v => cases documents child rest <;> rfl
    | undecodable => rfl

theorem lookInside_eq (child : Relation) (rows : List Record) :
    (lookInside child rows : Work σ (List Record)) =
      valuesInside child rows >>= fun values => pure (attachAll child.type rows values) := by
  unfold lookInside valuesInside
  rw [filterParents_eq, bind_assoc]
  cases documents child rows <;> rfl

/-- A loop that gives each row its value is a loop over the values, which are attached at the end.
-/
theorem mapM_attachTo (type : String) (value : Record → Work σ (Option Value))
    (rows : List Record) :
    (rows.mapM fun row => value row >>= fun v => pure (attachTo type row v)) =
      rows.mapM value >>= fun values => pure (attachAll type rows values) := by
  induction rows with
  | nil => rfl
  | cons row rows ih =>
    rw [mapM_cons, mapM_cons, ih]
    simp only [bind_assoc, pure_bind]
    rfl

section Attached

variable (A : Adapter σ) (d : Sql.Dialect)

theorem joinAlong_eq (child : Relation) (keyed isSingular : Bool) (rows : List Record)
    (target : Join) :
    joinAlong A d child keyed isSingular rows target =
      valuesAlong A d (fun table => resolve A d table child.relations) child keyed isSingular rows
        target >>= fun values => pure (attachAll child.type rows values) := by
  unfold joinAlong valuesAlong serveAll
  rw [bind_assoc]
  congr 1
  funext cols
  cases plan? d cols child with
  | none => rfl
  | some proj =>
    dsimp only
    rw [← withStatement_map]
    congr 1
    funext stmt
    rw [bind_assoc, ← mapM_attachTo]
    congr 1
    funext _
    congr 1
    funext row
    rw [joinOne, bind_assoc]
    rfl

/-- **What is done for one relation**: its values are found, then attached. -/
theorem attachOne_eq (table : String) (child : Relation) (rows : List Record) :
    attachOne A d table child rows =
      valuesVia A d (fun table => resolve A d table child.relations) table child rows >>=
        fun values => pure (attachAll child.type rows values) := by
  unfold attachOne valuesVia
  split
  · exact lookInside_eq child rows
  rw [join_eq, bind_assoc]
  congr 1
  funext target
  exact joinAlong_eq A d child _ _ rows target

end Attached

/-! ## Rows that agree -/

/-- Two rows hold the same under some keys. -/
def AgreesOn (keys : List String) (f r : Record) : Prop :=
  ∀ key ∈ keys, r.get? key = f.get? key

/-- Two rows hold the same under all keys but some. -/
def AgreesOff (keys : List String) (f r : Record) : Prop :=
  ∀ key, key ∉ keys → r.get? key = f.get? key

variable {f r : Record} {child : Relation}

theorem AgreesOff.agreesOn {taken keys : List String} (h : AgreesOff taken f r)
    (hfree : ∀ key ∈ taken, key ∉ keys) : AgreesOn keys f r :=
  fun key hkey => h key fun htaken => hfree key htaken hkey

theorem AgreesOff.attachTo {taken : List String} (h : AgreesOff taken f r)
    (type : String) (v : Option Value) : AgreesOff (taken ++ [type]) f (attachTo type r v) := by
  intro key hkey
  rw [mem_append, mem_singleton, not_or] at hkey
  cases v with
  | none => exact h key hkey.1
  | some v => exact (Row.get?_set_of_ne hkey.2 v).trans (h key hkey.1)

/-- Attaching values under one more key. -/
theorem forall₂_attachAll {taken : List String} {fetched rows : List Record}
    (h : List.Forall₂ (AgreesOff taken) fetched rows) (type : String)
    (values : List (Option Value)) :
    List.Forall₂ (AgreesOff (taken ++ [type])) fetched (attachAll type rows values) := by
  induction h generalizing values with
  | nil => cases values <;> exact .nil
  | @cons f r fetched rows hfr hrest ih =>
    cases values with
    | nil =>
      -- too few values: the rows stay as they are
      refine List.Forall₂.imp (fun f r hfr key hkey => hfr key fun htaken => ?_) (.cons hfr hrest)
      exact hkey (mem_append_left _ htaken)
    | cons v values => exact .cons (hfr.attachTo type v) (ih values)

section Agree

variable {keys : List String} {fetched rows : List Record}
  (h : List.Forall₂ (AgreesOn keys) fetched rows)

include h

theorem firstHas_of_agreesOn {key : String} (hkey : key ∈ keys) :
    firstHas rows key = firstHas fetched key := by
  cases h with
  | nil => rfl
  | @cons f r _ _ hfr _ =>
    show r.has key = f.has key
    rw [Bool.eq_iff_iff, Row.has_iff, Row.has_iff, ← Row.get?_isSome, ← Row.get?_isSome,
      hfr key hkey]

theorem documents_congr (hkey : child.type ∈ keys) :
    documents child rows = documents child fetched := by
  induction h with
  | nil => rfl
  | cons hfr _ ih => rw [documents, documents, hfr _ hkey, ih]

theorem mapM_congr {α : Type} {value : Record → Work σ α}
    (hvalue : ∀ f r, AgreesOn keys f r → value r = value f) :
    rows.mapM value = fetched.mapM value := by
  induction h with
  | nil => rfl
  | cons hfr _ ih => rw [mapM_cons, mapM_cons, hvalue _ _ hfr, ih]

end Agree

theorem relatedTo_congr (A : Adapter σ) (nested : List Record → Work σ (List Record))
    {keyed isSingular : Bool} (hidden : List String) (stmt : Statement)
    (h : keyed → r.get? (if isSingular then idColumn child.type else "id") =
      f.get? (if isSingular then idColumn child.type else "id")) :
    relatedTo A nested child keyed isSingular hidden stmt r =
      relatedTo A nested child keyed isSingular hidden stmt f := by
  unfold relatedTo
  cases keyed with
  | false => rfl
  | true => simp only [h rfl]

/-- **How a relation is resolved depends on the keys that it looks at**: rows that agree there give
the same values, by the same calls. -/
theorem valuesVia_congr (A : Adapter σ) (d : Sql.Dialect)
    (nested : String → List Record → Work σ (List Record)) {table : String}
    {fetched rows : List Record}
    (h : List.Forall₂ (AgreesOn (looksAt (!table.isEmpty) child fetched)) fetched rows) :
    valuesVia A d nested table child rows = valuesVia A d nested table child fetched := by
  have htype := firstHas_of_agreesOn h (mem_cons_self : child.type ∈ _)
  have hlength : rows.length = fetched.length := h.length_eq.symm
  unfold valuesVia
  rw [htype]
  split
  · unfold valuesInside
    rw [documents_congr h mem_cons_self, hlength]
  rename_i hinside
  have hid : idColumn child.type ∈ looksAt (!table.isEmpty) child fetched := by
    rw [looksAt, if_neg hinside]
    exact mem_cons_of_mem _ mem_cons_self
  rw [firstHas_of_agreesOn h hid]
  congr 1
  funext target
  unfold valuesAlong serveAll
  congr 1
  funext cols
  cases plan? d cols child with
  | none => rfl
  | some proj =>
    dsimp only
    rw [hlength]
    congr 1
    funext stmt
    congr 1
    funext _
    refine mapM_congr h fun f r hfr => ?_
    rw [relatedTo_congr A _ _ _ fun hkeyed => hfr _ ?_]
    -- the column that joins is one of the keys
    split
    · exact hid
    · rename_i hmany
      rw [looksAt, if_neg hinside, if_neg hmany, if_pos hkeyed]
      exact mem_cons_of_mem _ (mem_cons_of_mem _ mem_cons_self)

/-! ## Executions -/

section Executions

variable (A : Adapter σ) (d : Sql.Dialect) {fetched current : List Record}

theorem valuesBy_eq (B : Basis) (table : String) (child : Relation) (rows : List Record) :
    valuesBy B A d table child rows =
      valuesVia A d (fun table => resolveLevel B A d table child.relations) table child rows := by
  cases child
  rw [valuesBy]
  rfl

/-- The values of a relation are the same by its basis as by the rows that its earlier siblings
left. -/
theorem valuesVia_unlessTaken (nested : String → List Record → Work σ (List Record))
    (table : String) (child : Relation) {earlier : List Relation}
    (h : List.Forall₂ (AgreesOff (earlier.map Relation.type)) fetched current) :
    valuesVia A d nested table child
        (Basis.unlessTaken (!table.isEmpty) earlier child fetched current) =
      valuesVia A d nested table child current := by
  unfold Basis.unlessTaken
  split
  · rfl
  rename_i hfree
  refine (valuesVia_congr A d nested (h.imp fun f r hfr => hfr.agreesOn ?_)).symm
  intro key htaken hkey
  obtain ⟨e, he, rfl⟩ := mem_map.mp htaken
  exact hfree (any_eq_true.mpr ⟨e, he, contains_iff_mem.mpr hkey⟩)

/-- **A level, relation by relation.**  Here `earlier` are the siblings that are done, and the rows
as these left them agree with the fetched ones under all keys but their types. -/
theorem resolve_eq_resolveBy (table : String) {children : List Relation}
    (hnested : ∀ child ∈ children, ∀ table rows, resolve A d table child.relations rows =
      resolveLevel .unlessTaken A d table child.relations rows)
    {earlier : List Relation}
    (h : List.Forall₂ (AgreesOff (earlier.map Relation.type)) fetched current) :
    resolve A d table children current =
      resolveBy .unlessTaken A d table earlier children fetched current := by
  induction children generalizing earlier current with
  | nil => rw [resolve_nil, resolveBy]
  | cons child rest ih =>
    cases h with
    | nil =>
      rw [resolve_empty, resolveBy]
      rfl
    | @cons f r fetched current hfr hrest =>
      have hlevel := List.Forall₂.cons hfr hrest
      have hown : (fun table => resolve A d table child.relations) =
          fun table => resolveLevel .unlessTaken A d table child.relations := by
        funext table rows
        exact hnested child mem_cons_self table rows
      rw [resolve_cons, attachOne_eq, bind_assoc, resolveBy, if_neg (by simp), valuesBy_eq, hown,
        valuesVia_unlessTaken A d _ table child hlevel]
      congr 1
      funext values
      rw [pure_bind]
      -- the type of this child joins those of the earlier siblings
      refine ih (fun c hc => hnested c (mem_cons_of_mem _ hc)) ?_
      rw [map_append]
      exact forall₂_attachAll hlevel child.type values

/-- The relations nested in a relation are resolved for any rows as their basis tells. -/
theorem resolve_eq_resolveLevel (rel : Relation) (table : String) (rows : List Record) :
    resolve A d table rel.relations rows =
      resolveLevel .unlessTaken A d table rel.relations rows := by
  induction rel using Relation.nested_induction generalizing table rows with
  | step rel ih =>
    refine resolve_eq_resolveBy A d table ih ?_
    rw [forall₂_same]
    exact fun row _ key _ => rfl

/-- **Siblings know of each other only by the keys they look at.**  Every execution, of any query on
any store, resolves each relation by the rows as they were fetched, unless the relation looks at a
key that is the type of an earlier sibling. -/
theorem execute_eq_executeBy (root : Relation) :
    execute A d root = executeBy .unlessTaken A d root := by
  rw [execute, executeBy, mutate]
  have hresolve (table : String) := funext (resolve_eq_resolveLevel A d root table)
  rw [hresolve, hresolve]

end Executions

/-! ## Siblings that interfere -/

/-- A store whose tables all have the columns `id` and `name`, refer to `users`, and hold two
rows. -/
def twinStore : Adapter Unit where
  all sql _ _ :=
    (.ok (if sql = Catalog.sqlite.columns then
        ["id", "name"].map fun n => Row.ofList [("name", .text n), ("type", .text "TEXT")]
      else [Row.ofList [("from", .text "userId"), ("table", .text "users"), ("to", .text "id")]]),
      ())
  prepare sql _ := (.ok ⟨sql, none⟩, ())
  runAll _ _ _ := (.ok rows, ())
  runOne _ _ _ := (.ok rows.head?, ())
  finalize _ _ := (.ok (), ())
where
  rows : List Record :=
    ["Ann", "Bo"].map fun n => Row.ofList [("id", .text "\"7\""), ("name", .text n)]

/-- All that can be seen of a work: its calls, and its result if it has one. -/
def transcript (w : Work Unit Value) : List (CallKind × String × Option String) × Option String :=
  let r := w.run { store := () }
  (r.2.calls.map fun c => (c.kind, c.sql, Json.encode (.list c.args)),
    r.1.toOption.bind Json.encode)

/-- Queries of siblings that interfere: two of one type, one whose type is that of the other
followed by `Id`, and one that looks into the column by which the other is joined. -/
def entangledQueries : List Relation :=
  [{ relations := [{ type := "users", attributes := ["id"] },
      { type := "users", attributes := ["name"] }] },
   { relations := [{ type := "userId", attributes := ["id"] },
      { type := "user", attributes := ["id"] }] },
   { relations := [{ type := "users", relations := [{ type := "id", attributes := ["*"] },
      { type := "cars", attributes := ["name"] }] }] }]

/-- **Siblings interfere**: these queries succeed, but do not do what they would do if each relation
were resolved by the rows as they were fetched. -/
theorem siblings_interfere :
    entangledQueries.all fun root =>
      (transcript (execute twinStore .sqlite root)).2.isSome &&
        decide (transcript (execute twinStore .sqlite root) ≠
          transcript (executeBy .fetched twinStore .sqlite root)) := by
  decide +kernel

end Execute
end TreeQuery
