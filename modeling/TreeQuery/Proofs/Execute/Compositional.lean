import TreeQuery.Execute.Resolve
import TreeQuery.Proofs.Query.Tree

/-!
# How executions are put together

The work of an execution is made of few pieces: calls of the store, remarks, failures, sequences of
these, and prepared statements around them.  The equations of the first part say so for the
functions that call each other (`join_eq`, `resolve_cons`); later proofs use these and do not open
the functions again.

The second part is the induction they give.  Let a relation between works over two stores hold of
equal calls and be kept by sequences and prepared statements (`Compositional`).  Then it holds
between the two executions of every query (`Compositional.execute`).  The relation may depend on
the statement that is prepared innermost: the only one that is ever run.  With the same store twice
this is a rule for one execution.
-/

namespace TreeQuery

open Store

namespace Work

variable {σ α β : Type}

theorem run_bind (w : Work σ α) (f : α → Work σ β) (s : Session σ) :
    (w >>= f).run s =
      match w.run s with
      | (.ok a, t) => (f a).run t
      | (.error e, t) => (.error e, t) := by
  show (ExceptT.bindCont f (w.run s).1) (w.run s).2 = _
  rcases w.run s with ⟨_ | a, t⟩ <;> rfl

variable {s t : Session σ} {w : Work σ α} {f : α → Work σ β}

theorem run_bind_ok {a : α} (h : w.run s = (.ok a, t)) : (w >>= f).run s = (f a).run t := by
  rw [run_bind, h]

theorem run_bind_error {e : Failure}
    (h : w.run s = (.error e, t)) : (w >>= f).run s = (.error e, t) := by
  rw [run_bind, h]

/-- A sequence succeeds when both of its parts do. -/
theorem run_bind_eq_ok {b : β} (h : (w >>= f).run s = (.ok b, t)) :
    ∃ a u, w.run s = (.ok a, u) ∧ (f a).run u = (.ok b, t) := by
  rcases hw : w.run s with ⟨e | a, u⟩
  · rw [run_bind_error hw] at h
    cases h
  · rw [run_bind_ok hw] at h
    exact ⟨a, u, rfl, h⟩

theorem exists_run_eq_ok (h : (w.run s).1.isOk) :
    ∃ a t, w.run s = (.ok a, t) := by
  rcases hw : w.run s with ⟨e | a, t⟩
  · rw [hw] at h
    cases h
  · exact ⟨a, t, rfl⟩

theorem run_call (f : Session σ → Except StoreError α × Session σ) (s : Session σ) :
    (call f).run s = ((f s).1.mapError Failure.store, (f s).2) := by
  unfold call
  rcases h : f s with ⟨e | a, t⟩ <;> simp only [ExceptT.run_mk, h] <;> rfl

theorem run_call_eq_ok {f : Session σ → Except StoreError α × Session σ} {a : α}
    (h : (call f).run s = (.ok a, t)) : f s = (.ok a, t) := by
  rw [run_call] at h
  rcases hf : f s with ⟨e | b, u⟩ <;> rw [hf] at h <;> cases h
  rfl

/-- What becomes of the outcome of a prepared statement's work when the statement is released. -/
def closing : Except Failure α → Except StoreError Unit → Except Failure α
  | .error e, _ => .error e
  | .ok _, .error e => .error (.store e)
  | .ok a, .ok () => .ok a

/-- **A prepared statement** is released after the work done with it, whatever becomes of either. -/
theorem run_withStatement (A : Adapter σ) (sql : String) (body : Statement → Work σ α)
    (s : Session σ) :
    (withStatement A sql body).run s =
      match Session.prepare A sql s with
      | (.error e, t) => (.error (.store e), t)
      | (.ok stmt, t) =>
        let done := (body stmt).run t
        let closed := Session.finalize A stmt done.2
        (closing done.1 closed.1, closed.2) := by
  unfold withStatement
  rw [run_bind, run_call]
  rcases Session.prepare A sql s with ⟨e | stmt, t⟩
  · rfl
  have hbody : (outcome (body stmt)).run t = (.ok ((body stmt).run t).1, ((body stmt).run t).2) :=
    rfl
  show (outcome (body stmt) >>= _).run t = _
  rw [run_bind_ok hbody]
  dsimp only
  generalize (body stmt).run t = done
  obtain ⟨r, u⟩ := done
  have hclose : (outcome (call (Session.finalize A stmt))).run u =
      (.ok ((Session.finalize A stmt u).1.mapError Failure.store),
        (Session.finalize A stmt u).2) := by
    show (Except.ok ((call (Session.finalize A stmt)).run u).1,
      ((call (Session.finalize A stmt)).run u).2) = _
    rw [run_call]
  rw [run_bind_ok hclose]
  dsimp only
  generalize Session.finalize A stmt u = closed
  obtain ⟨e | ⟨⟩, v⟩ := closed <;> rcases r with e' | a <;> rfl

/-- The work with a prepared statement succeeds when its three parts do. -/
theorem run_withStatement_eq_ok {A : Adapter σ} {sql : String} {body : Statement → Work σ α} {a : α}
    (h : (withStatement A sql body).run s = (.ok a, t)) :
    ∃ stmt u v, (call (Session.prepare A sql)).run s = (.ok stmt, u) ∧
      (body stmt).run u = (.ok a, v) ∧ (call (Session.finalize A stmt)).run v = (.ok (), t) := by
  rw [run_withStatement] at h
  rw [run_call]
  generalize Session.prepare A sql s = prepared at h ⊢
  obtain ⟨e | stmt, u⟩ := prepared
  · cases h
  rcases hbody : (body stmt).run u with ⟨e | b, v⟩
  · simp only [hbody] at h
    cases h
  rcases hfin : Session.finalize A stmt v with ⟨e | ⟨⟩, w⟩
  · simp only [hbody, hfin] at h
    cases h
  · simp only [hbody, hfin, closing] at h
    cases h
    exact ⟨stmt, u, v, rfl, hbody, by rw [run_call, hfin]; rfl⟩

end Work

namespace Execute

open Query Schema Work

/-! ## The functions in pieces -/

section Pieces

variable {σ : Type} (A : Adapter σ) (d : Sql.Dialect)

/-- What is done for one parent: what the relation has for it is attached. -/
def joinOne (child : Relation) (target : Join) (keyed isSingular : Bool) (hidden : List String)
    (stmt : Statement) (parent : Record) : Work σ Record :=
  relatedTo A (resolve A d target.table child.relations) child keyed isSingular hidden stmt
    parent >>= fun v => pure (parent.set child.type v)

/-- What is done for all parents once the table is known. -/
def joinAlong (child : Relation) (keyed isSingular : Bool) (parents : List Record) (target : Join) :
    Work σ (List Record) :=
  serveAll A d child keyed isSingular parents target
    (joinOne A d child target keyed isSingular)

theorem join_eq (table : String) (child : Relation) (parents : List Record) :
    join A d table child parents =
      joinFor A (Catalog.ofDialect d) table child.type (firstHas parents (idColumn child.type)) >>=
        joinAlong A d child (!table.isEmpty) (firstHas parents (idColumn child.type)) parents := by
  cases child
  unfold join
  rfl

/-- What is done for one relation: it looks into a document or joins a table. -/
def attachOne (table : String) (child : Relation) (parents : List Record) :
    Work σ (List Record) :=
  if firstHas parents child.type then lookInside child parents else join A d table child parents

theorem resolve_nil (table : String) (parents : List Record) :
    resolve A d table [] parents = pure parents := by
  unfold resolve
  rfl

theorem resolve_empty (table : String) (children : List Relation) :
    resolve A d table children [] = pure [] := by
  cases children <;> unfold resolve <;> rfl

theorem resolve_cons (table : String) (child : Relation) (rest : List Relation) (first : Record)
    (parents : List Record) :
    resolve A d table (child :: rest) (first :: parents) =
      attachOne A d table child (first :: parents) >>= resolve A d table rest := by
  rw [resolve]
  unfold attachOne
  rw [if_neg (by simp)]
  dsimp only
  split <;> rfl

end Pieces

/-! ## What holds of every execution -/

/-- **A relation between works over two stores** that holds of equal calls and is kept when works
are put together.  `top` is the innermost prepared statement, around the works. -/
structure Compositional {σ τ : Type} (A : Adapter σ) (B : Adapter τ)
    (Φ : Option Statement → ∀ {α : Type}, Work σ α → Work τ α → Prop) : Prop where
  pure : ∀ {α : Type} (top : Option Statement) (a : α), Φ top (pure a) (pure a)
  throw : ∀ {α : Type} (top : Option Statement) (e : Failure),
    Φ top (throw e : Work σ α) (throw e : Work τ α)
  bind : ∀ {α β : Type} {top : Option Statement} {v : Work σ α} {w : Work τ α}
    {f : α → Work σ β} {g : α → Work τ β},
    Φ top v w → (∀ a, Φ top (f a) (g a)) → Φ top (v >>= f) (w >>= g)
  note : ∀ (top : Option Statement) (message : String) (details : List (String × Value)),
    Φ top (note message details) (note message details)
  all : ∀ (top : Option Statement) (sql : String) (args : List Value),
    Φ top (call (Session.all A sql args)) (call (Session.all B sql args))
  runAll : ∀ (stmt : Statement) (args : List Value),
    Φ (some stmt) (call (Session.runAll A stmt args)) (call (Session.runAll B stmt args))
  runOne : ∀ (stmt : Statement) (args : List Value),
    Φ (some stmt) (call (Session.runOne A stmt args)) (call (Session.runOne B stmt args))
  withStatement : ∀ {α : Type} (top : Option Statement) (sql : String)
    {body : Statement → Work σ α} {body' : Statement → Work τ α},
    (∀ stmt, Φ (some stmt) (body stmt) (body' stmt)) →
      Φ top (withStatement A sql body) (withStatement B sql body')

namespace Compositional

variable {σ τ : Type} {A : Adapter σ} {B : Adapter τ}
  {Φ : Option Statement → ∀ {α : Type}, Work σ α → Work τ α → Prop}
variable (h : Compositional A B Φ)

include h

theorem mapM {α β : Type} {top : Option Statement} {f : α → Work σ β} {g : α → Work τ β}
    (hfg : ∀ a, Φ top (f a) (g a)) (as : List α) : Φ top (as.mapM f) (as.mapM g) := by
  induction as with
  | nil => exact h.pure top []
  | cons a as ih =>
    rw [List.mapM_cons, List.mapM_cons]
    exact h.bind (hfg a) fun b => h.bind ih fun bs => h.pure top (b :: bs)

variable (top : Option Statement)

theorem columns (c : Catalog) (table : String) : Φ top (columns A c table) (columns B c table) :=
  h.bind (h.all top _ _) fun rows => h.pure top (rows.map (columnOf c))

theorem foreignKeys (c : Catalog) (table : String) :
    Φ top (foreignKeys A c table) (foreignKeys B c table) :=
  h.bind (h.all top _ _) fun rows => h.pure top (rows.map foreignKeyOf)

theorem orFail {α : Type} (r : Except RelationError α) : Φ top (orFail r) (orFail r) := by
  cases r with
  | ok a => exact h.pure top a
  | error e => exact h.throw top (.relation e)

theorem joinFor (c : Catalog) (table type : String) (isSingular : Bool) :
    Φ top (joinFor A c table type isSingular) (joinFor B c table type isSingular) := by
  unfold Execute.joinFor
  split
  · exact h.pure top _
  split
  · exact h.bind (h.foreignKeys top c table) fun keys =>
      h.orFail top (singularJoin table type keys)
  · exact h.bind (h.foreignKeys top c type) fun keys => h.orFail top (pluralJoin table type keys)

theorem lookInside (child : Relation) (parents : List Record) :
    Φ top (lookInside child parents) (lookInside child parents) := by
  unfold Execute.lookInside
  refine h.bind (h.note top _ _) fun _ => ?_
  split
  · exact h.pure top _
  · exact h.throw top _

variable (d : Sql.Dialect)

/-- The relation holds of a relation's work if it holds of the work of those nested in it. -/
theorem join_step (child : Relation)
    (hres : ∀ top table parents, Φ top (resolve A d table child.relations parents)
      (resolve B d table child.relations parents))
    (top : Option Statement) (table : String) (parents : List Record) :
    Φ top (join A d table child parents) (join B d table child parents) := by
  rw [join_eq, join_eq]
  refine h.bind (h.joinFor top _ _ _ _) fun target => ?_
  refine h.bind (h.columns top _ _) fun cols => ?_
  split
  · exact h.throw top _
  refine h.withStatement top _ fun stmt => h.bind (h.note _ _ _) fun _ => ?_
  refine h.mapM (fun parent => ?_) _
  refine h.bind ?_ fun v => h.pure _ _
  unfold relatedTo
  dsimp only
  split
  · refine h.bind (h.runOne stmt _) fun row => ?_
    cases row with
    | none => exact h.pure _ _
    | some row => exact h.bind (hres _ _ _) fun rows => h.pure _ _
  · exact h.bind (h.runAll stmt _) fun rows => h.bind (hres _ _ _) fun rows => h.pure _ _

theorem resolve_step (children : List Relation) (hjoin : ∀ child ∈ children, ∀ top table parents,
      Φ top (join A d table child parents) (join B d table child parents))
    (top : Option Statement) (table : String) (parents : List Record) :
    Φ top (resolve A d table children parents) (resolve B d table children parents) := by
  induction children generalizing parents with
  | nil =>
    rw [resolve_nil, resolve_nil]
    exact h.pure top parents
  | cons child rest ih =>
    cases parents with
    | nil =>
      rw [resolve_empty, resolve_empty]
      exact h.pure top []
    | cons first parents =>
      rw [resolve_cons, resolve_cons]
      refine h.bind ?_ fun parents => ih (fun c hc => hjoin c (List.mem_cons_of_mem _ hc)) parents
      unfold attachOne
      split
      · exact h.lookInside top child _
      · exact hjoin child List.mem_cons_self top table _

theorem join (child : Relation) (top : Option Statement) (table : String) (parents : List Record) :
    Φ top (join A d table child parents) (Execute.join B d table child parents) := by
  induction child using Relation.nested_induction generalizing top table parents with
  | step child ih =>
    exact h.join_step d child (h.resolve_step d child.relations ih) top table parents

theorem resolve (children : List Relation) (top : Option Statement) (table : String)
    (parents : List Record) :
    Φ top (resolve A d table children parents) (Execute.resolve B d table children parents) :=
  h.resolve_step d children (fun child _ => h.join d child) top table parents

/-- **What is kept by putting works together holds of the executions of any query.** -/
theorem execute (root : Relation) : Φ none (execute A d root) (execute B d root) := by
  unfold Execute.execute
  split
  · refine h.bind ?_ fun rows => h.pure none _
    unfold mutate
    split
    · refine h.bind ?_ fun cols => ?_
      · unfold mutationColumns
        split
        · exact h.pure none []
        · exact h.columns none _ _
      · unfold mutateOver
        split
        · exact h.throw none _
        · exact h.bind (h.note none _ _) fun _ => h.bind (h.all none _ _) fun rows =>
            h.resolve d root.relations none _ _
    · exact h.throw none _
  · exact h.bind (h.resolve d root.relations none _ _) fun parents => h.pure none _

end Compositional

/-- **A relation between works that holds call by call**: of equal calls, those that prepare and
finalize statements among them, and it is kept by sequences and when failures are caught. -/
structure CallWise {σ τ : Type} (A : Adapter σ) (B : Adapter τ)
    (Φ : ∀ {α : Type}, Work σ α → Work τ α → Prop) : Prop where
  pure : ∀ {α : Type} (a : α), Φ (pure a) (pure a)
  throw : ∀ {α : Type} (e : Failure), Φ (throw e : Work σ α) (throw e : Work τ α)
  bind : ∀ {α β : Type} {v : Work σ α} {w : Work τ α} {f : α → Work σ β} {g : α → Work τ β},
    Φ v w → (∀ a, Φ (f a) (g a)) → Φ (v >>= f) (w >>= g)
  outcome : ∀ {α : Type} {v : Work σ α} {w : Work τ α}, Φ v w → Φ (outcome v) (outcome w)
  note : ∀ message details, Φ (note message details) (note message details)
  all : ∀ sql args, Φ (call (Session.all A sql args)) (call (Session.all B sql args))
  prepare : ∀ sql, Φ (call (Session.prepare A sql)) (call (Session.prepare B sql))
  runAll : ∀ stmt args, Φ (call (Session.runAll A stmt args)) (call (Session.runAll B stmt args))
  runOne : ∀ stmt args, Φ (call (Session.runOne A stmt args)) (call (Session.runOne B stmt args))
  finalize : ∀ stmt, Φ (call (Session.finalize A stmt)) (call (Session.finalize B stmt))

theorem CallWise.compositional {σ τ : Type} {A : Adapter σ} {B : Adapter τ}
    {Φ : ∀ {α : Type}, Work σ α → Work τ α → Prop} (h : CallWise A B Φ) :
    Compositional A B fun _ {_} v w => Φ v w where
  pure _ := h.pure
  throw _ := h.throw
  bind := h.bind
  note _ := h.note
  all _ := h.all
  runAll := h.runAll
  runOne := h.runOne
  withStatement _ sql _ _ hbody := by
    unfold withStatement
    refine h.bind (h.prepare sql) fun stmt => h.bind (h.outcome (hbody stmt)) fun result =>
      h.bind (h.outcome (h.finalize stmt)) fun closed => ?_
    rcases result with e | a
    · exact h.throw e
    · rcases closed with e | ⟨⟩
      · exact h.throw e
      · exact h.pure a

end Execute
end TreeQuery
