import TreeQuery.Proofs.Execute.Compositional
import TreeQuery.Store.Connection

/-!
# Executions on stores that reply by text

Let the replies of a store be a function of the texts of the statements and their arguments
(`RepliesBy`).  Then what a resolution comes to is a function of these replies, without a session:
`resolveFrom` computes it, and `settled_resolve` says that every resolution comes to it, from
whatever state it starts.

A store may refuse a statement that has been released, and still reply by text as long as statements
can be run.  So a statement is `live` in some states of the store, and works are looked at where the
statements around them are live (`Settled`).  The store behind a connection that replies by text is
of this kind (`repliesBy_adapter`).
-/

namespace TreeQuery

open List Query Schema

namespace Store

/-! ## Replies -/

/-- **What a store replies** to its calls, by the text of the statement and the arguments. -/
structure Replies where
  all : String → List Value → Except StoreError (List Record)
  prepare : String → Except StoreError Unit
  runAll : String → List Value → Except StoreError (List Record)
  runOne : String → List Value → Except StoreError (Option Record)
  finalize : String → Except StoreError Unit

/-- **An adapter whose replies depend on text and arguments only.**  A prepared statement is live,
and it stays so until it is released; releasing it spares the statements that were live when it was
prepared. -/
structure RepliesBy {σ : Type} (A : Adapter σ) (R : Replies) (live : σ → Statement → Prop) :
    Prop where
  all : ∀ sql args s, (A.all sql args s).1 = R.all sql args
  prepare_error : ∀ {sql s e t}, A.prepare sql s = (.error e, t) → R.prepare sql = .error e
  prepare_ok : ∀ {sql s stmt t}, A.prepare sql s = (.ok stmt, t) →
    R.prepare sql = .ok () ∧ stmt.sql = sql ∧ live t stmt
  runAll : ∀ {stmt s}, live s stmt → ∀ args, (A.runAll stmt args s).1 = R.runAll stmt.sql args
  runOne : ∀ {stmt s}, live s stmt → ∀ args, (A.runOne stmt args s).1 = R.runOne stmt.sql args
  finalize : ∀ {stmt s}, live s stmt → (A.finalize stmt s).1 = R.finalize stmt.sql
  live_all : ∀ {stmt s}, live s stmt → ∀ sql args, live (A.all sql args s).2 stmt
  live_prepare : ∀ {stmt s}, live s stmt → ∀ sql, live (A.prepare sql s).2 stmt
  live_runAll : ∀ {stmt s}, live s stmt → ∀ other args, live (A.runAll other args s).2 stmt
  live_runOne : ∀ {stmt s}, live s stmt → ∀ other args, live (A.runOne other args s).2 stmt
  live_finalize : ∀ {sql s stmt t other u}, A.prepare sql s = (.ok stmt, t) → live s other →
    live u other → live (A.finalize stmt u).2 other

/-! ## Connections -/

section Connections

variable {δ : Type}

/-- A connection whose replies do not depend on what was done before. -/
structure Connection.Steady (C : Connection δ) : Prop where
  query : ∀ sql args db db', (C.query sql args db).1 = (C.query sql args db').1
  prepare : ∀ sql db db', (C.prepare sql db).1 = (C.prepare sql db').1
  run : ∀ sql args db db', (C.run sql args db).1 = (C.run sql args db').1
  close : ∀ sql db db', (C.close sql db).1 = (C.close sql db').1

/-- The reply to releasing a statement. -/
def Access.readClose (a : Access) : Except String Unit → Except StoreError Unit
  | .error message => if a.reportsClose then .error (.database message) else .ok ()
  | .ok () => .ok ()

/-- **The replies of the store behind a connection**, as they are in one state of the database. -/
def Replies.behind (C : Connection δ) (a : Access) (db : δ) : Replies where
  all sql args := readReply a.readAll (C.query (a.bind sql) args db).1
  prepare sql := (C.prepare (a.bind sql) db).1.mapError .database
  runAll sql args := readReply a.readAll (C.run (a.bind sql) args db).1
  runOne sql args := readReply a.readOne (C.run (a.bind sql) args db).1
  finalize sql := a.readClose (C.close (a.bind sql) db).1

/-- A statement is open on a client, with the text it was prepared from. -/
def Client.IsOpen (a : Access) (c : Client δ) (stmt : Statement) : Prop :=
  ∃ n, stmt.number = some n ∧ c.statements[n]? = some ⟨stmt.sql, a.bind stmt.sql, false, 0⟩

namespace Client

variable {a : Access} {c : Client δ} {stmt : Statement}

theorem IsOpen.find? (h : c.IsOpen a stmt) :
    ∃ n, c.find? stmt = some (n, ⟨stmt.sql, a.bind stmt.sql, false, 0⟩) := by
  obtain ⟨n, hn, hstmt⟩ := h
  exact ⟨n, by rw [Client.find?, hn]; dsimp only; rw [hstmt]; rfl⟩

theorem IsOpen.open? (h : c.IsOpen a stmt) :
    c.open? stmt = .ok ⟨stmt.sql, a.bind stmt.sql, false, 0⟩ := by
  obtain ⟨n, hfind⟩ := h.find?
  rw [Client.open?, hfind]
  rfl

/-- Statements stay open as long as their entries stand. -/
theorem IsOpen.mono {c' : Client δ} (h : c.IsOpen a stmt)
    (hstatements : ∀ (n : Nat) p, c.statements[n]? = some p → c'.statements[n]? = some p) :
    c'.IsOpen a stmt := by
  obtain ⟨n, hn, hstmt⟩ := h
  exact ⟨n, hn, hstatements n _ hstmt⟩

end Client

section Adapter

variable (C : Connection δ) (a : Access)

theorem statements_runAll (stmt : Statement) (args : List Value) (c : Client δ) :
    ((adapter C a).runAll stmt args c).2.statements = c.statements := by
  unfold adapter adapterAmong
  dsimp only
  split <;> rfl

theorem statements_runOne (stmt : Statement) (args : List Value) (c : Client δ) :
    ((adapter C a).runOne stmt args c).2.statements = c.statements := by
  unfold adapter adapterAmong
  dsimp only
  split <;> rfl

theorem prepare_eq_ok {C : Connection δ} {a : Access} {sql : String} {c t : Client δ}
    {stmt : Statement} (h : (adapter C a).prepare sql c = (.ok stmt, t)) :
    (C.prepare (a.bind sql) c.database).1 = .ok () ∧ stmt = ⟨sql, some c.statements.length⟩ ∧
      t.statements = c.statements ++ [⟨sql, a.bind sql, false, 0⟩] := by
  unfold adapter adapterAmong at h
  dsimp only at h
  split at h
  · cases h
  rename_i hprepare
  cases h
  rw [hprepare]
  exact ⟨rfl, rfl, rfl⟩

/-- Releasing a statement changes no entry but its own. -/
theorem getElem?_statements_finalize {stmt : Statement} {n : Nat} (hne : stmt.number ≠ some n)
    (c : Client δ) :
    ((adapter C a).finalize stmt c).2.statements[n]? = c.statements[n]? := by
  unfold adapter adapterAmong
  dsimp only
  split
  · rfl
  rename_i m p hfind
  have hm : stmt.number = some m := by
    unfold Client.find? at hfind
    split at hfind
    · cases hfind
    · rename_i k hk
      obtain ⟨p', -, hp⟩ := Option.map_eq_some_iff.mp hfind
      rw [hk, (Prod.mk.inj hp).1]
  have hmn : m ≠ n := fun heq => hne (heq ▸ hm)
  split
  · rfl
  · split <;> exact getElem?_modify_ne _ _ hmn

/-- **The store behind a steady connection replies by text and arguments.** -/
theorem repliesBy_adapter {C : Connection δ} (hC : C.Steady) (db : δ) :
    RepliesBy (adapter C a) (.behind C a db) (Client.IsOpen a) where
  all sql args c := congrArg (readReply a.readAll) (hC.query _ _ _ _)
  prepare_error := by
    intro sql c e t h
    unfold adapter adapterAmong at h
    dsimp only at h
    split at h
    · rename_i message db' hprepare
      cases h
      show (C.prepare (a.bind sql) db).1.mapError _ = _
      rw [hC.prepare _ db c.database, hprepare]
      rfl
    · cases h
  prepare_ok := by
    intro sql c stmt t h
    obtain ⟨hprepare, rfl, hstatements⟩ := prepare_eq_ok h
    refine ⟨?_, rfl, c.statements.length, rfl, ?_⟩
    · show (C.prepare (a.bind sql) db).1.mapError _ = _
      rw [hC.prepare _ db c.database, hprepare]
      rfl
    · rw [hstatements, getElem?_concat_length]
  runAll := by
    intro stmt c h args
    unfold adapter adapterAmong
    dsimp only
    rw [h.open?]
    exact congrArg (readReply a.readAll) (hC.run _ _ _ _)
  runOne := by
    intro stmt c h args
    unfold adapter adapterAmong
    dsimp only
    rw [h.open?]
    exact congrArg (readReply a.readOne) (hC.run _ _ _ _)
  finalize := by
    intro stmt c h
    obtain ⟨n, hfind⟩ := h.find?
    unfold adapter adapterAmong
    dsimp only
    rw [hfind]
    show _ = a.readClose (C.close (a.bind stmt.sql) db).1
    rw [hC.close _ db c.database]
    dsimp only
    rcases (C.close (a.bind stmt.sql) c.database).1 with message | ⟨⟩ <;> rfl
  live_all h _ _ := h
  live_prepare := by
    intro stmt c h sql
    refine h.mono fun n p hp => ?_
    unfold adapter adapterAmong
    dsimp only
    split
    · exact hp
    · exact List.getElem?_append_left (List.getElem?_eq_some_iff.mp hp).1 ▸ hp
  live_runAll h other args := h.mono fun n p hp => by rw [statements_runAll]; exact hp
  live_runOne h other args := h.mono fun n p hp => by rw [statements_runOne]; exact hp
  live_finalize := by
    intro sql c stmt t other u h hother hu
    obtain ⟨-, rfl, -⟩ := prepare_eq_ok h
    obtain ⟨n, hn, hc⟩ := hother
    obtain ⟨n', hn', hopen⟩ := hu
    obtain rfl : n = n' := Option.some.inj (hn.symm.trans hn')
    have hlt : n < c.statements.length := (List.getElem?_eq_some_iff.mp hc).1
    refine ⟨n, hn, ?_⟩
    rw [getElem?_statements_finalize, hopen]
    exact fun heq => absurd (Option.some.inj heq) (by omega)

end Adapter

end Connections

end Store

namespace Execute

open Store Work

/-! ## What is settled by the replies -/

section Settled

variable {σ α β : Type} (live : σ → Statement → Prop) {x : Except Failure α}
  {y : α → Except Failure β}

/-- **The outcome of a work is settled** wherever some statements are live, and they stay live. -/
def Settled (top : List Statement) (w : Work σ α) (x : Except Failure α) : Prop :=
  ∀ s, (∀ stmt ∈ top, live s.store stmt) →
    (w.run s).1 = x ∧ ∀ stmt ∈ top, live (w.run s).2.store stmt

variable {live} {top : List Statement}

theorem Settled.pure (a : α) : Settled live top (pure a) (.ok a) :=
  fun _ hs => ⟨rfl, hs⟩

theorem Settled.throw (e : Failure) : Settled live top (throw e : Work σ α) (.error e) :=
  fun _ hs => ⟨rfl, hs⟩

theorem Settled.bind {w : Work σ α} {f : α → Work σ β} (hw : Settled live top w x)
    (hf : ∀ a, Settled live top (f a) (y a)) : Settled live top (w >>= f) (x >>= y) := by
  intro s hs
  obtain ⟨hx, ht⟩ := hw s hs
  subst hx
  rw [run_bind]
  rcases hrun : w.run s with ⟨e | a, t⟩
  · rw [hrun] at ht
    exact ⟨rfl, ht⟩
  · rw [hrun] at ht
    exact hf a t ht

/-- A remark settles nothing. -/
theorem Settled.noted (message : String) (details : List (String × Value)) {w : Work σ α}
    (hw : Settled live top w x) : Settled live top (note message details >>= fun _ => w) x := by
  have hnote : Settled live top (note message details) (.ok ()) := fun _ hs => ⟨rfl, hs⟩
  exact hnote.bind fun _ => hw

theorem Settled.call {f : Session σ → Except StoreError α × Session σ} {r : Except StoreError α}
    (hr : ∀ s, (∀ stmt ∈ top, live s.store stmt) → (f s).1 = r)
    (ht : ∀ s stmt, live s.store stmt → live (f s).2.store stmt) :
    Settled live top (call f) (r.mapError Failure.store) := by
  intro s hs
  rw [run_call, hr s hs]
  exact ⟨rfl, fun stmt hstmt => ht s stmt (hs stmt hstmt)⟩

theorem Settled.mapM {f : α → Work σ β} (h : ∀ a, Settled live top (f a) (y a)) (as : List α) :
    Settled live top (as.mapM f) (as.mapM y) := by
  induction as with
  | nil => exact Settled.pure []
  | cons a as ih =>
    rw [mapM_cons, mapM_cons]
    exact (h a).bind fun b => ih.bind fun bs => Settled.pure (b :: bs)

variable {A : Adapter σ} {R : Replies} (hA : RepliesBy A R live)

include hA

theorem Settled.all (sql : String) (args : List Value) :
    Settled live top (Work.call (Session.all A sql args))
      ((R.all sql args).mapError Failure.store) :=
  .call (fun s _ => hA.all sql args s.store) fun _ _ h => hA.live_all h sql args

theorem Settled.runAll {stmt : Statement} (hstmt : stmt ∈ top) (args : List Value) :
    Settled live top (Work.call (Session.runAll A stmt args))
      ((R.runAll stmt.sql args).mapError Failure.store) :=
  .call (fun _ hs => hA.runAll (hs stmt hstmt) args) fun _ _ h => hA.live_runAll h stmt args

theorem Settled.runOne {stmt : Statement} (hstmt : stmt ∈ top) (args : List Value) :
    Settled live top (Work.call (Session.runOne A stmt args))
      ((R.runOne stmt.sql args).mapError Failure.store) :=
  .call (fun _ hs => hA.runOne (hs stmt hstmt) args) fun _ _ h => hA.live_runOne h stmt args

/-- The work with a prepared statement is settled by its text. -/
theorem Settled.withStatement {sql : String} {body : Statement → Work σ α}
    (h : ∀ stmt, stmt.sql = sql → Settled live (stmt :: top) (body stmt) x) :
    Settled live top (withStatement A sql body)
      ((R.prepare sql).mapError Failure.store >>= fun _ => closing x (R.finalize sql)) := by
  intro s hs
  rw [run_withStatement]
  unfold Session.prepare Session.outcome
  dsimp only
  have hkeeps : ∀ stmt ∈ top, live (A.prepare sql s.store).2 stmt :=
    fun stmt hstmt => hA.live_prepare (hs stmt hstmt) sql
  rcases hprepare : A.prepare sql s.store with ⟨e | stmt, t⟩
  · rw [hprepare] at hkeeps
    rw [hA.prepare_error hprepare]
    exact ⟨rfl, hkeeps⟩
  rw [hprepare] at hkeeps
  obtain ⟨hreply, rfl, hlive⟩ := hA.prepare_ok hprepare
  obtain ⟨hx, hdone⟩ := h stmt rfl ⟨t, _, _⟩ (forall_mem_cons.mpr ⟨hlive, hkeeps⟩)
  obtain ⟨hstmt, hothers⟩ := forall_mem_cons.mp hdone
  rw [hreply]
  refine ⟨?_, fun other hother =>
    hA.live_finalize hprepare (hs other hother) (hothers other hother)⟩
  show closing _ (A.finalize stmt _).1 = closing x (R.finalize stmt.sql)
  rw [hx]
  exact congrArg (closing x) (hA.finalize hstmt)

end Settled

/-! ## Resolutions by replies -/

section ByReplies

variable (R : Replies) (d : Sql.Dialect)

/-- The columns of a table, by the replies. -/
def columnsFrom (c : Catalog) (table : String) : Except Failure (List Column) :=
  (R.all c.columns [.text table]).mapError Failure.store >>= fun rows => .ok (rows.map (columnOf c))

/-- The foreign keys of a table, by the replies. -/
def foreignKeysFrom (c : Catalog) (table : String) : Except Failure (List ForeignKey) :=
  (R.all c.foreignKeys [.text table]).mapError Failure.store >>= fun rows =>
    .ok (rows.map foreignKeyOf)

/-- The table and key of a relation, by the replies. -/
def targetFrom (c : Catalog) (table type : String) (isSingular : Bool) : Except Failure Join :=
  if table.isEmpty then .ok ⟨type, ""⟩
  else if isSingular then
    foreignKeysFrom R c table >>= fun keys =>
      (singularJoin table type keys).mapError Failure.relation
  else
    foreignKeysFrom R c type >>= fun keys => (pluralJoin table type keys).mapError Failure.relation

/-- **What a parent becomes** when a relation is attached, where the rows nested in it become what
`nested` says. -/
def joinOneFrom (nested : List Record → Except Failure (List Record)) (child : Relation)
    (keyed isSingular : Bool) (hidden : List String) (text : String) (parent : Record) :
    Except Failure Record :=
  let key := if isSingular then idColumn child.type else "id"
  let args := (if keyed then [(parent.get? key).getD .null] else []) ++ child.bindings
  if isSingular then
    (R.runOne text args).mapError Failure.store >>= fun
      | none => .ok (parent.set child.type .null)
      | some row =>
        nested [row.hide hidden] >>= fun rows =>
          .ok (parent.set child.type ((rows.head?.map .row).getD .null))
  else
    (R.runAll text args).mapError Failure.store >>= fun rows =>
      nested (rows.map fun r => r.hide hidden) >>= fun rows =>
        .ok (parent.set child.type (.rows rows))

/-- What parents become when a relation is attached to them, once its table is known. -/
def joinAlongFrom (nested : String → List Record → Except Failure (List Record)) (child : Relation)
    (keyed isSingular : Bool) (parents : List Record) (target : Join) :
    Except Failure (List Record) :=
  columnsFrom R (Catalog.ofDialect d) target.table >>= fun cols =>
    match plan? d cols child with
    | none => .error (.noAttributes child.type)
    | some proj =>
      let text := statementText d target keyed proj child.sql
      (R.prepare text).mapError Failure.store >>= fun _ =>
        closing
          (parents.mapM
            (joinOneFrom R (nested target.table) child keyed isSingular proj.hidden text))
          (R.finalize text)

/-- What parents become when a relation is attached to them. -/
def attachOneFrom (nested : String → List Record → Except Failure (List Record)) (table : String)
    (child : Relation) (parents : List Record) : Except Failure (List Record) :=
  if firstHas parents child.type then filterParents child parents
  else
    let isSingular := firstHas parents (idColumn child.type)
    targetFrom R (Catalog.ofDialect d) table child.type isSingular >>=
      joinAlongFrom R d nested child (!table.isEmpty) isSingular parents

mutual

/-- What parents become when a relation and those nested in it are attached to them. -/
def attachFrom (table : String) : Relation → List Record → Except Failure (List Record)
  | ⟨type, childTable, sql, bindings, attributes, relations⟩, parents =>
    attachOneFrom R d (fun table rows => resolveFrom table relations rows) table
      ⟨type, childTable, sql, bindings, attributes, relations⟩ parents

/-- **What rows become when relations are resolved** for them, by the replies. -/
def resolveFrom (table : String) : List Relation → List Record → Except Failure (List Record)
  | [], parents => .ok parents
  | child :: rest, parents =>
    if parents.isEmpty then .ok [] else attachFrom table child parents >>= resolveFrom table rest

end

theorem attachFrom_eq (table : String) (child : Relation) (parents : List Record) :
    attachFrom R d table child parents =
      attachOneFrom R d (fun table => resolveFrom R d table child.relations) table child
        parents := by
  cases child
  rw [attachFrom]

end ByReplies

section Resolutions

variable {σ : Type} {A : Adapter σ} {R : Replies} {live : σ → Statement → Prop}
  (hA : RepliesBy A R live) (d : Sql.Dialect) {top : List Statement}

include hA

theorem settled_columns (c : Catalog) (table : String) :
    Settled live top (columns A c table) (columnsFrom R c table) :=
  (Settled.all hA _ _).bind fun _ => .pure _

theorem settled_foreignKeys (c : Catalog) (table : String) :
    Settled live top (foreignKeys A c table) (foreignKeysFrom R c table) :=
  (Settled.all hA _ _).bind fun _ => .pure _

omit hA in
theorem settled_orFail {α : Type} (r : Except RelationError α) :
    Settled live top (orFail r) (r.mapError Failure.relation) := by
  cases r with
  | ok a => exact .pure a
  | error e => exact .throw (.relation e)

theorem settled_joinFor (c : Catalog) (table type : String) (isSingular : Bool) :
    Settled live top (joinFor A c table type isSingular)
      (targetFrom R c table type isSingular) := by
  unfold joinFor targetFrom
  split
  · exact .pure _
  · split
    · exact (settled_foreignKeys hA c table).bind fun keys => settled_orFail _
    · exact (settled_foreignKeys hA c type).bind fun keys => settled_orFail _

omit hA in
theorem settled_lookInside (child : Relation) (parents : List Record) :
    Settled live top (lookInside child parents) (filterParents child parents) := by
  refine .noted _ _ ?_
  cases filterParents child parents with
  | ok rows => exact .pure rows
  | error e => exact .throw e

section Nested

variable {child : Relation} {nested : String → List Record → Except Failure (List Record)}
  (hnested : ∀ top table parents,
    Settled live top (resolve A d table child.relations parents) (nested table parents))

include hnested

theorem settled_joinOne (target : Join) (keyed isSingular : Bool) (hidden : List String)
    {stmt : Statement} (hstmt : stmt ∈ top) (parent : Record) :
    Settled live top (joinOne A d child target keyed isSingular hidden stmt parent)
      (joinOneFrom R (nested target.table) child keyed isSingular hidden stmt.sql parent) := by
  unfold joinOne relatedTo joinOneFrom
  dsimp only
  split
  · rw [bind_assoc]
    refine (Settled.runOne hA hstmt _).bind fun row => ?_
    cases row with
    | none => exact .pure _
    | some row =>
      dsimp only
      rw [bind_assoc]
      exact (hnested _ _ _).bind fun rows => .pure _
  · simp only [bind_assoc]
    exact (Settled.runAll hA hstmt _).bind fun rows => (hnested _ _ _).bind fun rows => .pure _

theorem settled_joinAlong (keyed isSingular : Bool) (parents : List Record) (target : Join) :
    Settled live top (joinAlong A d child keyed isSingular parents target)
      (joinAlongFrom R d nested child keyed isSingular parents target) := by
  refine (settled_columns hA _ _).bind fun cols => ?_
  cases plan? d cols child with
  | none => exact .throw _
  | some proj =>
    refine Settled.withStatement hA fun stmt hsql => .noted _ _ ?_
    rw [← hsql]
    exact .mapM (fun parent => settled_joinOne hA d hnested target keyed isSingular _
      mem_cons_self parent) parents

theorem settled_attachOne (table : String) (parents : List Record) :
    Settled live top (attachOne A d table child parents)
      (attachOneFrom R d nested table child parents) := by
  unfold attachOne attachOneFrom
  split
  · exact settled_lookInside child parents
  · rw [join_eq]
    exact (settled_joinFor hA _ _ _ _).bind fun target => settled_joinAlong hA d hnested _ _ _ _

end Nested

omit hA in
theorem settled_resolve_step {children : List Relation}
    (hattach : ∀ child ∈ children, ∀ top table parents,
      Settled live top (attachOne A d table child parents) (attachFrom R d table child parents))
    (table : String) (parents : List Record) :
    Settled live top (resolve A d table children parents)
      (resolveFrom R d table children parents) := by
  induction children generalizing parents with
  | nil =>
    rw [resolve_nil, resolveFrom]
    exact .pure parents
  | cons child rest ih =>
    cases parents with
    | nil =>
      rw [resolve_empty, resolveFrom, if_pos isEmpty_nil]
      exact .pure []
    | cons first parents =>
      rw [resolve_cons, resolveFrom, if_neg (by simp)]
      obtain ⟨hchild, hrest⟩ := forall_mem_cons.mp hattach
      exact (hchild top table _).bind fun rows => ih hrest rows

theorem settled_attachFrom (child : Relation) (top : List Statement) (table : String)
    (parents : List Record) :
    Settled live top (attachOne A d table child parents) (attachFrom R d table child parents) := by
  induction child using Relation.nested_induction generalizing top table parents with
  | step child ih =>
    rw [attachFrom_eq]
    exact settled_attachOne hA d (fun top => settled_resolve_step d ih) table parents

/-- **A resolution comes to what the replies say**, from whatever state it starts. -/
theorem settled_resolve (table : String) (children : List Relation) (parents : List Record) :
    Settled live top (resolve A d table children parents)
      (resolveFrom R d table children parents) :=
  settled_resolve_step d (fun child _ => settled_attachFrom hA d child) table parents

theorem outcome_resolve (table : String) (children : List Relation) (parents : List Record)
    (s : Session σ) :
    ((resolve A d table children parents).run s).1 = resolveFrom R d table children parents := by
  have hsettled : Settled live [] (resolve A d table children parents)
      (resolveFrom R d table children parents) := settled_resolve hA d table children parents
  exact (hsettled s fun stmt hstmt => absurd hstmt not_mem_nil).1

end Resolutions

end Execute
end TreeQuery
