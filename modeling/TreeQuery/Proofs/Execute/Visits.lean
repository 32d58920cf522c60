import TreeQuery.Proofs.Execute.Mutation
import TreeQuery.Proofs.Execute.Siblings

/-!
# How often a relation is prepared

A relation is resolved for a group of rows at a time: the one row that stands for the query, the
rows that a mutation changed, or the rows that one run of the statement around it gave.  For each
group it prepares a statement, runs it once for every row, and releases it; and each of these runs
gives the next group to the relations nested in it.  A `Visit` is what becomes of a relation and one
group.  The exchanges of every execution that succeeds are the log of such visits, one to each
relation of a level for each group of rows that is not empty (`exchanges_visits`).

So a relation is prepared once for every group, not once for all the rows of its level.  On the
upper two levels of a query there is only one group; below, there are as many as the runs of the
statement around that gave a row, and a query of three relations may prepare four statements
(`exists_prepared_twice`).
-/

namespace TreeQuery

open List

namespace Store.Exchange

def IsQuestion (c : Schema.Catalog) : Exchange → Prop
  | .all sql _ _ => sql = c.columns ∨ sql = c.foreignKeys
  | _ => False

/-- A run of a prepared statement that succeeded. -/
def IsRunOf (stmt : Statement) : Exchange → Prop
  | .runAll stmt' _ (.ok _) => stmt' = stmt
  | .runOne stmt' _ (.ok _) => stmt' = stmt
  | _ => False

/-- The number of rows that came back. -/
def given (e : Exchange) : Nat :=
  e.rows.length

def isOf (kind : CallKind) (e : Exchange) : Bool :=
  e.call.kind == kind

theorem IsQuestion.isOf {c : Schema.Catalog} {e : Exchange} (h : e.IsQuestion c) (kind : CallKind) :
    e.isOf kind = (.all == kind) := by
  cases e with
  | all sql args reply => rfl
  | _ => exact h.elim

theorem IsRunOf.isOf {stmt : Statement} {e : Exchange} (h : e.IsRunOf stmt) (kind : CallKind) :
    e.isOf kind = (.run == kind) := by
  cases e with
  | runAll _ _ _ => rfl
  | runOne _ _ _ => rfl
  | _ => exact h.elim

end Store.Exchange

namespace Execute

open Query Schema Store Work

variable {σ : Type} {children : List Relation}

/-- **A group of rows** that relations are resolved for: how many there are, and the keys of the
first one. -/
structure Group where
  size : Nat
  keys : String → Bool

namespace Group

def of (rows : List Record) : Group :=
  ⟨rows.length, firstHas rows⟩

/-- The group when a relation has been attached to its rows. -/
def attach (g : Group) (type : String) : Group :=
  { g with keys := fun key => g.keys key || key == type }

/-- Hiding keys does not change a group. -/
theorem of_hide (rows : List Record) (hidden : List String) :
    of (rows.map fun r => r.hide hidden) = of rows := by
  rw [of, length_map, firstHas_hide, of]

end Group

/-! ## Visits -/

mutual

/-- **What becomes of a relation and a group of rows.** -/
inductive Visit where
  /-- The relation looks into documents that the rows hold, and asks nothing of the store. -/
  | inside
  /-- After questions to the catalog a statement is prepared.  The rows have their turns, and the
  statement is released. -/
  | joined (asked : List Exchange) (sql : String) (stmt : Statement) (turns : List Turn)

/-- **The turn of one row**: the statement is run for it, and the nested relations are visited with
the rows that the run gave. -/
inductive Turn where
  | mk (run : Exchange) (nested : List Visit)

end

def Turn.run : Turn → Exchange
  | .mk run _ => run

def Turn.nested : Turn → List Visit
  | .mk _ nested => nested

mutual

/-- The exchanges of a visit, in order. -/
def Visit.log : Visit → List Exchange
  | .inside => []
  | .joined asked sql stmt turns =>
    asked ++ .prepare sql (.ok stmt) :: (logOfTurns turns ++ [.finalize stmt (.ok ())])

/-- The exchanges of a turn, in order. -/
def Turn.log : Turn → List Exchange
  | .mk run nested => run :: logOf nested

/-- The exchanges of visits one after the other. -/
def logOf : List Visit → List Exchange
  | [] => []
  | v :: rest => v.log ++ logOf rest

/-- The exchanges of turns one after the other. -/
def logOfTurns : List Turn → List Exchange
  | [] => []
  | t :: rest => t.log ++ logOfTurns rest

end

/-- The statement is one for the relation: it has its clause, and its columns. -/
def IsStatementOf (d : Sql.Dialect) (child : Relation) (sql : String) : Prop :=
  ∃ target keyed cols proj, plan? d cols child = some proj ∧
    sql = statementText d target keyed proj child.sql

mutual

/-- **A visit of the relation `child` with a group of rows**.  It looks into them if the first one
holds the type of the relation.  If not, it prepares a statement of the relation, and every row has
one turn. -/
def Visit.Fits (d : Sql.Dialect) (child : Relation) (g : Group) : Visit → Prop
  | .inside => g.keys child.type = true
  | .joined asked sql stmt turns =>
    g.keys child.type = false ∧ (∀ e ∈ asked, e.IsQuestion (Catalog.ofDialect d)) ∧
      IsStatementOf d child sql ∧ turns.length = g.size ∧ turnsFit d child stmt turns

/-- The turns are turns with a statement of the relation `child`. -/
def turnsFit (d : Sql.Dialect) (child : Relation) (stmt : Statement) : List Turn → Prop
  | [] => True
  | t :: rest => t.Fits d child stmt ∧ turnsFit d child stmt rest

/-- **A turn with the statement of the relation `child`**: the statement is run, and if that gave
rows, each nested relation is visited with them. -/
def Turn.Fits (d : Sql.Dialect) (child : Relation) (stmt : Statement) : Turn → Prop
  | .mk run nested =>
    run.IsRunOf stmt ∧
      if run.given = 0 then nested = [] else visitsFit d child.relations (.of run.rows) nested

/-- The visits are one to each of the relations, with a group that each of them is attached to. -/
def visitsFit (d : Sql.Dialect) : List Relation → Group → List Visit → Prop
  | [], _, [] => True
  | child :: rest, g, v :: visits =>
    v.Fits d child g ∧ visitsFit d rest (g.attach child.type) visits
  | _, _, _ => False

end

/-- **The visits for a group of rows**: one to each relation of the level, or none if there are no
rows. -/
def LevelFits (d : Sql.Dialect) (children : List Relation) (g : Group) (level : List Visit) :
    Prop :=
  if g.size = 0 then level = [] else visitsFit d children g level

variable {root child : Relation} {stmt : Statement} {g : Group} {v : Visit} {rest : List Relation}
  {level : List Visit}

theorem turnsFit_iff {d : Sql.Dialect} {turns : List Turn} :
    turnsFit d child stmt turns ↔ ∀ t ∈ turns, t.Fits d child stmt := by
  induction turns with
  | nil => simp [turnsFit]
  | cons t rest ih => simp [turnsFit, ih]

/-! ## What a work that succeeds has said to its store -/

/-- **What a work that succeeds yields, and what it said to its store.** -/
def Tells {α : Type} (w : Work (Logged σ) α) (P : α → List Exchange → Prop) : Prop :=
  ∀ s a t, w.run s = (.ok a, t) → ∃ l, t.seen = s.seen ++ l ∧ P a l

section Tells

variable {α β : Type} {P : α → List Exchange → Prop} {Q : β → List Exchange → Prop}

variable {w : Work (Logged σ) α}

theorem Tells.mono {P' : α → List Exchange → Prop} (hw : Tells w P) (h : ∀ a l, P a l → P' a l) :
    Tells w P' := by
  intro s a t hrun
  obtain ⟨l, hl, hP⟩ := hw s a t hrun
  exact ⟨l, hl, h a l hP⟩

theorem Tells.pure {a : α} (h : P a []) : Tells (pure a : Work (Logged σ) α) P := by
  intro s b t hrun
  cases hrun
  exact ⟨[], (append_nil _).symm, h⟩

theorem Tells.throw (e : Failure) : Tells (throw e : Work (Logged σ) α) P := by
  intro s b t hrun
  cases hrun

theorem Tells.bind {f : α → Work (Logged σ) β} (hw : Tells w P)
    (hf : ∀ a l, P a l → Tells (f a) fun b l' => Q b (l ++ l')) : Tells (w >>= f) Q := by
  intro s b t hrun
  obtain ⟨a, u, ha, hb⟩ := run_bind_eq_ok hrun
  obtain ⟨l, hl, hP⟩ := hw s a u ha
  obtain ⟨l', hl', hQ⟩ := hf a l hP u b t hb
  exact ⟨l ++ l', by rw [hl', hl, append_assoc], hQ⟩

/-- What yields something and tells something. -/
theorem Tells.and_yields {R : α → Prop} (hw : Tells w P) (h : Yields w R) :
    Tells w fun a l => R a ∧ P a l := by
  intro s a t hrun
  obtain ⟨l, hl, hP⟩ := hw s a t hrun
  exact ⟨l, hl, h s a t hrun, hP⟩

theorem tells_note (message : String) (details : List (String × Value)) :
    Tells (note message details : Work (Logged σ) Unit) fun _ l => l = [] := by
  intro s a t hrun
  cases hrun
  exact ⟨[], (append_nil _).symm, rfl⟩

/-- A call that adds one exchange with its reply. -/
theorem tells_call {f : Session (Logged σ) →
      Except StoreError α × Session (Logged σ)} {mk : Except StoreError α → Exchange}
    (h : ∀ s, (f s).2.seen = s.seen ++ [mk (f s).1]) :
    Tells (call f) fun a l => l = [mk (.ok a)] := by
  intro s a t hrun
  have hseen := h s
  rw [run_call_eq_ok hrun] at hseen
  exact ⟨_, hseen, rfl⟩

theorem Tells.withStatement {A : Adapter σ} {sql : String}
    {body : Statement → Work (Logged σ) α} {P : Statement → α → List Exchange → Prop}
    (h : ∀ stmt, Tells (body stmt) (P stmt)) :
    Tells (withStatement A.observed sql body) fun a l => ∃ stmt l', P stmt a l' ∧
      l = .prepare sql (.ok stmt) :: (l' ++ [.finalize stmt (.ok ())]) := by
  intro s a t hrun
  obtain ⟨stmt, u, v, hprepare, hbody, hfinalize⟩ := run_withStatement_eq_ok hrun
  obtain ⟨_, hu, rfl⟩ := tells_call (Session.seen_prepare A sql) s stmt u hprepare
  obtain ⟨l, hv, hP⟩ := h stmt u a v hbody
  obtain ⟨_, ht, rfl⟩ := tells_call (Session.seen_finalize A stmt) v () t hfinalize
  refine ⟨_, ?_, stmt, l, hP, rfl⟩
  rw [ht, hv, hu]
  simp only [append_assoc, cons_append, nil_append]

/-- A loop in which every element has its turn. -/
theorem tells_mapM_turns {R : Turn → Prop} {f : α → Work (Logged σ) β}
    (h : ∀ a, Tells (f a) fun _ l => ∃ t, R t ∧ l = t.log) (as : List α) :
    Tells (as.mapM f) fun _ l => ∃ turns : List Turn, turns.length = as.length ∧
      (∀ t ∈ turns, R t) ∧ l = logOfTurns turns := by
  induction as with
  | nil =>
    rw [mapM_nil]
    exact Tells.pure ⟨[], rfl, fun _ ht => absurd ht not_mem_nil, rfl⟩
  | cons a as ih =>
    rw [mapM_cons]
    refine (h a).bind ?_
    rintro b _ ⟨t, ht, rfl⟩
    refine ih.bind ?_
    rintro bs _ ⟨turns, hlength, hturns, rfl⟩
    refine Tells.pure ⟨t :: turns, ?_, forall_mem_cons.mpr ⟨ht, hturns⟩, ?_⟩
    · rw [length_cons, length_cons, hlength]
    · rw [append_nil, logOfTurns]

end Tells

/-! ## What resolving says to the store -/

variable {A : Adapter σ} {d : Sql.Dialect}

theorem tells_question {sql : String} (table : String)
    (h : sql = (Catalog.ofDialect d).columns ∨ sql = (Catalog.ofDialect d).foreignKeys)
    {α : Type} (read : List Record → α) :
    Tells (do
      let rows ← Work.call (Session.all A.observed sql [.text table])
      return read rows) fun _ l => ∀ e ∈ l, e.IsQuestion (Catalog.ofDialect d) := by
  refine (tells_call fun s => rfl).bind (P := fun rows l =>
    l = [.all sql [.text table] (.ok rows)]) ?_
  rintro rows _ rfl
  exact Tells.pure (forall_mem_singleton.mpr h)

theorem tells_orFail {α : Type} (r : Except RelationError α) :
    Tells (orFail r : Work (Logged σ) α) fun _ l => l = [] := by
  cases r with
  | ok a => exact Tells.pure rfl
  | error e => exact Tells.throw _

theorem tells_joinFor (table type : String) (isSingular : Bool) :
    Tells (joinFor A.observed (Catalog.ofDialect d) table type isSingular) fun _ l =>
      ∀ e ∈ l, e.IsQuestion (Catalog.ofDialect d) := by
  have hkeys : ∀ of : String, ∀ find : List ForeignKey → Except RelationError Join,
      Tells (foreignKeys A.observed (Catalog.ofDialect d) of >>= fun keys => orFail (find keys))
        fun _ l => ∀ e ∈ l, e.IsQuestion (Catalog.ofDialect d) := fun of find =>
    (tells_question of (.inr rfl) _).bind fun keys l hl =>
      (tells_orFail (find keys)).mono fun _ l' hl' => by rwa [hl', append_nil]
  unfold joinFor
  split
  · exact Tells.pure fun _ he => absurd he not_mem_nil
  · split
    · exact hkeys table (singularJoin table type)
    · exact hkeys type (pluralJoin table type)

/-- **Resolving relations for a group of rows is a level of visits.** -/
def VisitsLevel (A : Adapter σ) (d : Sql.Dialect) (children : List Relation) : Prop :=
  ∀ table parents, Tells (resolve A.observed d table children parents) fun _ l =>
    ∃ level, LevelFits d children (.of parents) level ∧ l = logOf level

/-- **Resolving a relation for a group of rows is a visit.** -/
def VisitsOne (A : Adapter σ) (d : Sql.Dialect) (child : Relation) : Prop :=
  ∀ table parents, firstHas parents child.type = false →
    Tells (join A.observed d table child parents) fun _ l =>
      ∃ v : Visit, v.Fits d child (.of parents) ∧ l = v.log

/-- The run for a row, followed by the visits for the rows that it gave, is the turn of the row. -/
theorem Tells.turn {α β : Type} (run : Exchange) (hrun : run.IsRunOf stmt)
    {w : Work (Logged σ) α} {f : α → Work (Logged σ) β}
    (hf : ∀ a, Tells (f a) fun _ l => l = [])
    (hw : Tells w fun _ l =>
      ∃ level, LevelFits d child.relations (.of run.rows) level ∧ l = logOf level) :
    Tells (w >>= f) fun _ l => ∃ t : Turn, t.Fits d child stmt ∧ [run] ++ l = t.log := by
  refine hw.bind ?_
  rintro a _ ⟨level, hlevel, rfl⟩
  refine (hf a).mono ?_
  rintro _ _ rfl
  exact ⟨.mk run level, ⟨hrun, hlevel⟩, by rw [append_nil]; rfl⟩

theorem tells_joinOne (hres : VisitsLevel A d child.relations) (target : Join)
    (keyed isSingular : Bool) (hidden : List String) (stmt : Statement) (parent : Record) :
    Tells (joinOne A.observed d child target keyed isSingular hidden stmt parent) fun _ l =>
      ∃ t : Turn, t.Fits d child stmt ∧ l = t.log := by
  refine Tells.bind (P := fun _ l => ∃ t : Turn, t.Fits d child stmt ∧ l = t.log) ?_
    fun v l ⟨t, ht, hl⟩ => Tells.pure ⟨t, ht, (append_nil l).trans hl⟩
  unfold relatedTo
  dsimp only
  split
  · refine (tells_call fun s => rfl).bind (P := fun row l => l = [.runOne stmt _ (.ok row)]) ?_
    rintro row _ rfl
    cases row with
    | none => exact Tells.pure ⟨.mk (.runOne stmt _ (.ok none)) [], ⟨rfl, rfl⟩, rfl⟩
    | some row =>
      have hlevel := hres target.table ([row].map fun r => r.hide hidden)
      rw [Group.of_hide] at hlevel
      exact Tells.turn (.runOne stmt _ (.ok (some row))) rfl (fun rows => Tells.pure rfl) hlevel
  · refine (tells_call fun s => rfl).bind (P := fun rows l => l = [.runAll stmt _ (.ok rows)]) ?_
    rintro rows _ rfl
    have hlevel := hres target.table (rows.map fun r => r.hide hidden)
    rw [Group.of_hide] at hlevel
    exact Tells.turn (.runAll stmt _ (.ok rows)) rfl (fun rows => Tells.pure rfl) hlevel

theorem visitsOne_of_level (hres : VisitsLevel A d child.relations) : VisitsOne A d child := by
  intro table parents hjoin
  rw [join_eq]
  refine (tells_joinFor table child.type _).bind fun target asked hasked => ?_
  refine (tells_question target.table (.inl rfl) _).bind fun cols asked' hasked' => ?_
  split
  · exact Tells.throw _
  rename_i proj hplan
  refine (Tells.withStatement (P := fun stmt _ l => ∃ turns : List Turn,
    turns.length = parents.length ∧ (∀ t ∈ turns, t.Fits d child stmt) ∧
      l = logOfTurns turns) fun stmt => ?_).mono ?_
  · refine (tells_note _ _).bind ?_
    rintro _ _ rfl
    exact tells_mapM_turns (tells_joinOne hres target _ _ proj.hidden stmt) parents
  rintro _ _ ⟨stmt, _, ⟨turns, hlength, hfits, rfl⟩, rfl⟩
  refine ⟨.joined (asked ++ asked') _ stmt turns,
    ⟨hjoin, ?_, ⟨target, !table.isEmpty, cols, proj, hplan, rfl⟩, hlength,
      turnsFit_iff.mpr hfits⟩, ?_⟩
  · intro e he
    exact (mem_append.mp he).elim (hasked e) (hasked' e)
  · rw [Visit.log, append_assoc]

theorem tells_lookInside (child : Relation) (parents : List Record) :
    Tells (lookInside child parents : Work (Logged σ) _) fun _ l => l = [] := by
  unfold lookInside
  refine (tells_note _ _).bind ?_
  rintro _ _ rfl
  split
  · exact Tells.pure rfl
  · exact Tells.throw _

/-- A relation is either looked for in the documents of the rows or joined. -/
theorem tells_attachOne (hjoin : VisitsOne A d child) (table : String) (parents : List Record) :
    Tells (attachOne A.observed d table child parents) fun _ l =>
      ∃ v : Visit, v.Fits d child (.of parents) ∧ l = v.log := by
  unfold attachOne
  split
  · rename_i hinside
    refine (tells_lookInside child parents).mono ?_
    rintro _ _ rfl
    exact ⟨.inside, hinside, rfl⟩
  · rename_i houtside
    exact hjoin table parents (by simpa using houtside)

theorem visitsLevel_of_each
    (h : ∀ child ∈ children, VisitsOne A d child) : VisitsLevel A d children := by
  intro table parents
  cases parents with
  | nil =>
    rw [resolve_empty]
    exact Tells.pure ⟨[], rfl, rfl⟩
  | cons first parents =>
    -- each relation sees the group that those before it are attached to
    have hall : ∀ rows : List Record, rows ≠ [] →
        Tells (resolve A.observed d table children rows) fun _ l =>
          ∃ level, visitsFit d children (.of rows) level ∧ l = logOf level := by
      induction children with
      | nil =>
        intro rows _
        rw [resolve_nil]
        exact Tells.pure ⟨[], trivial, rfl⟩
      | cons child rest ih =>
        intro rows hrows
        obtain ⟨hchild, hrest⟩ := forall_mem_cons.mp h
        cases rows with
        | nil => exact absurd rfl hrows
        | cons row rows =>
          rw [resolve_cons]
          refine ((tells_attachOne hchild table (row :: rows)).and_yields
            (adds_attachOne A.observed d table child (row :: rows))).bind ?_
          rintro rows' _ ⟨⟨hlength, hkeys⟩, v, hv, rfl⟩
          have hgroup : Group.of rows' = (Group.of (row :: rows)).attach child.type := by
            rw [Group.of, hlength, hkeys hrows]
            rfl
          have hne : rows' ≠ [] := ne_nil_of_length_pos (hlength ▸ Nat.succ_pos _)
          refine (ih hrest rows' hne).mono ?_
          rintro _ _ ⟨level, hlevel, rfl⟩
          rw [hgroup] at hlevel
          exact ⟨v :: level, ⟨hv, hlevel⟩, by rw [logOf]⟩
    exact hall (first :: parents) (cons_ne_nil _ _)

theorem visitsOne (A : Adapter σ) (d : Sql.Dialect) (child : Relation) : VisitsOne A d child := by
  induction child using Relation.nested_induction with
  | step child ih => exact visitsOne_of_level (visitsLevel_of_each ih)

theorem visitsLevel (A : Adapter σ) (d : Sql.Dialect) (children : List Relation) :
    VisitsLevel A d children :=
  visitsLevel_of_each fun child _ => visitsOne A d child

/-! ## The visits to each relation -/

/-- The exchanges of a visit that are its own, and not of the nested relations. -/
def Visit.own : Visit → List Exchange
  | .inside => []
  | .joined asked sql stmt turns =>
    asked ++ .prepare sql (.ok stmt) :: (turns.map Turn.run ++ [.finalize stmt (.ok ())])

/-- The visits to the nested relations, for each run that gave a row. -/
def Visit.levels : Visit → List (List Visit)
  | .inside => []
  | .joined _ _ _ turns => (turns.filter fun t => t.run.given != 0).map Turn.nested

/-- **What becomes of a relation in an execution**: the number of groups of rows that it was
resolved for, and its visits. -/
structure Account where
  node : Relation
  groups : Nat
  visits : List Visit

namespace Account

/-- The exchanges that are the relation's own. -/
def exchanges (a : Account) : List Exchange :=
  a.visits.flatMap Visit.own

/-- The number of calls of a kind that were made for the relation. -/
def count (a : Account) (kind : CallKind) : Nat :=
  a.exchanges.countP (Exchange.isOf kind)

end Account

mutual

/-- The accounts of a relation and of those nested in it, whose groups of rows are what the runs for
it gave. -/
def accountsAt (groups : Nat) (visits : List Visit) : Relation → List Account
  | ⟨type, table, sql, bindings, attributes, relations⟩ =>
    ⟨⟨type, table, sql, bindings, attributes, relations⟩, groups, visits⟩ ::
      accountsOf (visits.flatMap Visit.levels) relations

/-- **The accounts of relations**, each before those nested in it.  `levels` has the visits to the
relations for each group of rows. -/
def accountsOf (levels : List (List Visit)) : List Relation → List Account
  | [] => []
  | child :: rest =>
    accountsAt levels.length (levels.filterMap head?) child ++
      accountsOf (levels.map tail) rest

end

theorem accountsOf_cons (levels : List (List Visit)) (child : Relation) (rest : List Relation) :
    accountsOf levels (child :: rest) =
      ⟨child, levels.length, levels.filterMap head?⟩ ::
        (accountsOf ((levels.filterMap head?).flatMap Visit.levels) child.relations ++
          accountsOf (levels.map tail) rest) := by
  rw [accountsOf]
  cases child
  rw [accountsAt, cons_append]

/-- The visits for each group of rows are visits to the relations `children`. -/
def AllFit (d : Sql.Dialect) (children : List Relation) (levels : List (List Visit)) : Prop :=
  ∀ level ∈ levels, ∃ g, visitsFit d children g level

/-- What is nested in a visit are visits to the nested relations. -/
theorem Visit.Fits.levels (h : v.Fits d child g) : AllFit d child.relations v.levels := by
  cases v with
  | inside => exact fun _ hlevel => absurd hlevel not_mem_nil
  | joined asked sql stmt turns =>
    obtain ⟨-, -, -, -, hturns⟩ := h
    intro level hlevel
    obtain ⟨t, ht, rfl⟩ := mem_map.mp hlevel
    obtain ⟨ht, hgiven⟩ := mem_filter.mp ht
    have hfits := turnsFit_iff.mp hturns t ht
    obtain ⟨run, nested⟩ := t
    have hne : ¬ run.given = 0 := by simpa [Turn.run] using hgiven
    rw [Turn.Fits, if_neg hne] at hfits
    exact ⟨_, hfits.2⟩

variable {levels : List (List Visit)}

theorem AllFit.heads (h : AllFit d (child :: rest) levels) :
    ∀ v ∈ levels.filterMap head?, ∃ g, v.Fits d child g := by
  intro v hv
  obtain ⟨level, hlevel, hhead⟩ := mem_filterMap.mp hv
  obtain ⟨g, hfits⟩ := h level hlevel
  cases level with
  | nil => cases hhead
  | cons w ws =>
    cases hhead
    exact ⟨g, hfits.1⟩

theorem AllFit.nested (h : AllFit d (child :: rest) levels) :
    AllFit d child.relations ((levels.filterMap head?).flatMap Visit.levels) := by
  intro level hlevel
  obtain ⟨v, hv, hlevel⟩ := mem_flatMap.mp hlevel
  obtain ⟨g, hfits⟩ := h.heads v hv
  exact hfits.levels level hlevel

theorem AllFit.tails (h : AllFit d (child :: rest) levels) : AllFit d rest (levels.map tail) := by
  intro _ htail
  obtain ⟨level, hlevel, rfl⟩ := mem_map.mp htail
  obtain ⟨g, hfits⟩ := h level hlevel
  cases level with
  | nil => exact hfits.elim
  | cons w ws => exact ⟨g.attach child.type, hfits.2⟩

/-- **Induction over accounts**: what holds of no relations, and of a relation with others behind
it whenever it holds of the relations nested in it and of the others. -/
theorem accountsOf_induction {P : List Relation → List (List Visit) → List Account → Prop}
    (nil : ∀ levels, AllFit d [] levels → P [] levels [])
    (cons : ∀ child rest levels nested others, AllFit d (child :: rest) levels →
      P child.relations ((levels.filterMap head?).flatMap Visit.levels) nested →
      P rest (levels.map tail) others →
      P (child :: rest) levels
        (⟨child, levels.length, levels.filterMap head?⟩ :: (nested ++ others)))
    (children : List Relation) (levels : List (List Visit)) (h : AllFit d children levels) :
    P children levels (accountsOf levels children) := by
  have hof : ∀ children : List Relation,
      (∀ child ∈ children, ∀ levels, AllFit d child.relations levels →
        P child.relations levels (accountsOf levels child.relations)) →
      ∀ levels, AllFit d children levels → P children levels (accountsOf levels children) := by
    intro children
    induction children with
    | nil => exact fun _ levels hfits => nil levels hfits
    | cons child rest ih =>
      intro heach levels hfits
      obtain ⟨hchild, hrest⟩ := forall_mem_cons.mp heach
      rw [accountsOf_cons]
      exact cons child rest levels _ _ hfits (hchild _ hfits.nested) (ih hrest _ hfits.tails)
  refine hof children (fun child hchild => ?_) levels h
  clear hchild
  induction child using Relation.nested_induction with
  | step child ih => exact hof child.relations ih

/-- **There is one account for each node.** -/
theorem node_accountsOf (h : AllFit d children levels) :
    (accountsOf levels children).map Account.node = Relation.nodesOf children := by
  refine accountsOf_induction (P := fun children _ as =>
    as.map Account.node = Relation.nodesOf children) (fun _ _ => rfl) ?_ children levels h
  intro child rest levels nested others _ hnested hothers
  rw [map_cons, map_append, hnested, hothers, Relation.nodesOf, Relation.nodes_eq,
    cons_append]

/-! ## Every exchange belongs to one relation -/

theorem perm_logOfTurns {turns : List Turn} (h : turnsFit d child stmt turns) :
    (logOfTurns turns).Perm (turns.map Turn.run ++
      ((turns.filter fun t => t.run.given != 0).map Turn.nested).flatMap logOf) := by
  induction turns with
  | nil => exact .refl _
  | cons t rest ih =>
    obtain ⟨run, nested⟩ := t
    obtain ⟨⟨-, hnested⟩, hrest⟩ := h
    have hperm := ih hrest
    rw [logOfTurns, Turn.log, map_cons, filter_cons]
    split
    · -- the visits of this turn move behind the runs of the others
      rw [map_cons, flatMap_cons]
      refine (List.Perm.append_left (run :: logOf nested) hperm).trans ?_
      exact List.Perm.cons run (perm_append_comm_assoc _ _ _)
    · rename_i hgiven
      have hzero : run.given = 0 := by simpa [Turn.run] using hgiven
      rw [if_pos hzero] at hnested
      rw [hnested, logOf]
      exact hperm.cons run

/-- The exchanges of a visit are its own and those of the nested visits. -/
theorem Visit.Fits.perm_log (h : v.Fits d child g) :
    v.log.Perm (v.own ++ v.levels.flatMap logOf) := by
  cases v with
  | inside => exact .refl _
  | joined asked sql stmt turns =>
    obtain ⟨-, -, -, -, hturns⟩ := h
    rw [Visit.log, Visit.own, Visit.levels, append_assoc, cons_append, append_assoc]
    refine List.Perm.append_left asked (List.Perm.cons _ ?_)
    refine ((perm_logOfTurns hturns).append_right _).trans ?_
    rw [append_assoc]
    exact List.Perm.append_left _ perm_append_comm

theorem perm_flatMap_log {visits : List Visit} (h : ∀ v ∈ visits, ∃ g, v.Fits d child g) :
    (visits.flatMap Visit.log).Perm
      (visits.flatMap Visit.own ++ (visits.flatMap Visit.levels).flatMap logOf) := by
  induction visits with
  | nil => exact .refl _
  | cons v rest ih =>
    obtain ⟨⟨g, hv⟩, hrest⟩ := forall_mem_cons.mp h
    simp only [flatMap_cons, flatMap_append]
    refine (hv.perm_log.append (ih hrest)).trans ?_
    simp only [append_assoc]
    exact List.Perm.append_left v.own (perm_append_comm_assoc _ _ _)

theorem perm_heads (h : AllFit d (child :: rest) levels) : (levels.flatMap logOf).Perm
      ((levels.filterMap head?).flatMap Visit.log ++
        (levels.map tail).flatMap logOf) := by
  induction levels with
  | nil => exact .refl _
  | cons level levels ih =>
    obtain ⟨⟨g, hlevel⟩, hlevels⟩ := forall_mem_cons.mp h
    cases level with
    | nil => exact hlevel.elim
    | cons v vs =>
      simp only [flatMap_cons, logOf, head?_cons, filterMap_cons, map_cons,
        tail_cons, append_assoc]
      refine List.Perm.append_left v.log ?_
      exact (List.Perm.append_left (logOf vs) (ih hlevels)).trans
        (perm_append_comm_assoc _ _ _)

/-- **Every exchange of the visits belongs to the account of one relation.** -/
theorem perm_accountsOf (h : AllFit d children levels) :
    (levels.flatMap logOf).Perm ((accountsOf levels children).flatMap Account.exchanges) := by
  refine accountsOf_induction (P := fun _ levels as =>
    (levels.flatMap logOf).Perm (as.flatMap Account.exchanges)) ?_ ?_ children levels h
  · intro levels hfits
    have hnil : levels.flatMap logOf = [] := by
      refine flatMap_eq_nil_iff.mpr fun level hlevel => ?_
      obtain ⟨g, hfits⟩ := hfits level hlevel
      cases level with
      | nil => rfl
      | cons v vs => exact hfits.elim
    rw [hnil]
    exact .refl _
  · intro child rest levels nested others hfits hnested hothers
    refine (perm_heads hfits).trans ?_
    rw [flatMap_cons, flatMap_append, ← append_assoc]
    exact ((perm_flatMap_log hfits.heads).trans (List.Perm.append_left _ hnested)).append hothers

/-! ## One statement for each group -/

/-- A visit prepares at most one statement. -/
theorem Visit.Fits.count_own_le (h : v.Fits d child g) :
    v.own.countP (Exchange.isOf .prepare) ≤ 1 := by
  cases v with
  | inside => exact Nat.zero_le _
  | joined asked sql stmt turns =>
    obtain ⟨-, hasked, -, -, hturns⟩ := h
    have hquestions : asked.countP (Exchange.isOf .prepare) = 0 :=
      countP_eq_zero.mpr fun e he => by rw [(hasked e he).isOf]; decide
    have hruns : (turns.map Turn.run).countP (Exchange.isOf .prepare) = 0 := by
      refine countP_eq_zero.mpr fun e he => ?_
      obtain ⟨⟨run, nested⟩, ht, rfl⟩ := mem_map.mp he
      rw [Turn.run, (turnsFit_iff.mp hturns _ ht).1.isOf]
      decide
    rw [Visit.own, countP_append, countP_cons, countP_append, hquestions, hruns]
    exact Nat.le_refl 1

/-- **A relation is prepared at most once for every group of rows.** -/
theorem count_prepare_le (h : AllFit d children levels) :
    ∀ a ∈ accountsOf levels children, a.count .prepare ≤ a.groups := by
  refine accountsOf_induction (P := fun _ _ as => ∀ a ∈ as, a.count .prepare ≤ a.groups) ?_ ?_
    children levels h
  · exact fun _ _ _ ha => absurd ha not_mem_nil
  intro child rest levels nested others hfits hnested hothers
  refine forall_mem_cons.mpr ⟨?_, forall_mem_append.mpr ⟨hnested, hothers⟩⟩
  refine Nat.le_trans ?_ (length_filterMap_le head? levels)
  -- at most one preparation for each visit
  have hheads := hfits.heads
  show ((levels.filterMap head?).flatMap Visit.own).countP _ ≤ _
  generalize levels.filterMap head? = visits at hheads ⊢
  induction visits with
  | nil => exact Nat.le_refl _
  | cons v visits ih =>
    obtain ⟨⟨g, hv⟩, hvisits⟩ := forall_mem_cons.mp hheads
    rw [flatMap_cons, countP_append, length_cons, Nat.add_comm]
    exact Nat.add_le_add (ih hvisits) hv.count_own_le

/-- Relations with nothing nested in them are all resolved for the groups of their level. -/
theorem groups_accountsOf_of_leaves
    (h : ∀ child ∈ children, child.relations = []) (levels : List (List Visit)) :
    ∀ a ∈ accountsOf levels children, a.groups = levels.length := by
  induction children generalizing levels with
  | nil => exact fun _ ha => absurd ha not_mem_nil
  | cons child rest ih =>
    obtain ⟨hchild, hrest⟩ := forall_mem_cons.mp h
    rw [accountsOf_cons, hchild, accountsOf, nil_append]
    refine forall_mem_cons.mpr ⟨rfl, fun a ha => ?_⟩
    rw [ih hrest _ a ha, length_map]

/-- A visit with one row gives at most one group to the nested relations. -/
theorem Visit.Fits.length_levels_le (h : v.Fits d child g) : v.levels.length ≤ g.size := by
  cases v with
  | inside => exact Nat.zero_le _
  | joined asked sql stmt turns =>
    obtain ⟨-, -, -, hlength, -⟩ := h
    rw [Visit.levels, length_map, ← hlength]
    exact length_filter_le _ turns

/-- **On two levels below a single row there is one group at most.** -/
theorem groups_accountsOf_le (hone : g.size = 1) (hlevel : visitsFit d children g level)
    (h : ∀ child ∈ children, ∀ nested ∈ child.relations, nested.relations = []) :
    ∀ a ∈ accountsOf [level] children, a.groups ≤ 1 := by
  induction children generalizing level g with
  | nil => exact fun _ ha => absurd ha not_mem_nil
  | cons child rest ih =>
    obtain ⟨hchild, hrest⟩ := forall_mem_cons.mp h
    cases level with
    | nil => exact hlevel.elim
    | cons v visits =>
      obtain ⟨hv, hvisits⟩ := hlevel
      rw [accountsOf_cons]
      refine forall_mem_cons.mpr ⟨Nat.le_refl 1, forall_mem_append.mpr
        ⟨fun a ha => ?_, ih (g := g.attach child.type) hone hvisits hrest⟩⟩
      rw [groups_accountsOf_of_leaves hchild _ a ha]
      have hlevels : ([v :: visits].filterMap head?).flatMap Visit.levels = v.levels :=
        append_nil _
      rw [hlevels, ← hone]
      exact hv.length_levels_le

/-! ## Executions -/

/-- **What comes before the visits of an execution**, and the group of rows they start with: for a
mutation its statement, which returned the rows, and otherwise nothing, with the one row that stands
for the query. -/
def Opens (d : Sql.Dialect) (root : Relation) (opening : List Exchange) (g : Group) : Prop :=
  if root.isMutation then
    ∃ asked returning rows, (∀ e ∈ asked, e.IsQuestion (Catalog.ofDialect d)) ∧
      opening = asked ++ [.all (root.sql ++ " RETURNING " ++ returning) root.bindings (.ok rows)] ∧
      g = .of rows
  else opening = [] ∧ g = .of [Row.empty]

theorem Opens.count_prepare {opening : List Exchange} (h : Opens d root opening g) :
    opening.countP (Exchange.isOf .prepare) = 0 := by
  unfold Opens at h
  split at h
  · obtain ⟨asked, returning, rows, hasked, rfl, -⟩ := h
    rw [countP_append, countP_eq_zero.mpr fun e he => by rw [(hasked e he).isOf]; decide]
    rfl
  · rw [h.1]
    rfl

/-- A mutation asks for the columns, runs its statement, and visits its relations with the rows that
were returned. -/
theorem tells_mutate (hroot : root.isMutation) :
    Tells (mutate A.observed d root) fun _ l => ∃ opening g level,
      l = opening ++ logOf level ∧ Opens d root opening g ∧
        LevelFits d root.relations g level := by
  rw [mutate]
  split
  · have hcolumns : Tells (mutationColumns A.observed d root.table) fun _ l =>
        ∀ e ∈ l, e.IsQuestion (Catalog.ofDialect d) := by
      unfold mutationColumns
      split
      · exact Tells.pure fun _ he => absurd he not_mem_nil
      · exact tells_question root.table (.inl rfl) _
    refine hcolumns.bind fun cols asked hasked => ?_
    unfold mutateOver
    split
    · exact Tells.throw _
    rename_i proj _
    refine (tells_note _ _).bind ?_
    rintro _ _ rfl
    refine (tells_call fun s => rfl).bind (P := fun rows l =>
      l = [.all (root.sql ++ " RETURNING " ++ proj.sql) root.bindings (.ok rows)]) ?_
    rintro rows _ rfl
    refine (visitsLevel A d root.relations _ _).mono ?_
    rintro _ _ ⟨level, hlevel, rfl⟩
    rw [Group.of_hide] at hlevel
    refine ⟨asked ++ [.all (root.sql ++ " RETURNING " ++ proj.sql) root.bindings (.ok rows)],
      .of rows, level, ?_, ?_, hlevel⟩
    · rw [append_assoc]
      rfl
    · rw [Opens, if_pos hroot]
      exact ⟨asked, proj.sql, rows, hasked, rfl, rfl⟩
  · exact Tells.throw _

/-- **An execution that succeeds is a level of visits** after its opening. -/
theorem tells_execute (A : Adapter σ) (d : Sql.Dialect) (root : Relation) :
    Tells (execute A.observed d root) fun _ l => ∃ opening g level,
      l = opening ++ logOf level ∧ Opens d root opening g ∧
        LevelFits d root.relations g level := by
  rw [execute]
  split
  · rename_i hroot
    refine (tells_mutate hroot).bind fun rows l hl => Tells.pure ?_
    rwa [append_nil]
  rename_i hroot
  refine (visitsLevel A d root.relations "" [Row.empty]).bind ?_
  rintro rows _ ⟨level, hlevel, rfl⟩
  refine Tells.pure ⟨[], _, level, append_nil _, ?_, hlevel⟩
  rw [Opens, if_neg hroot]
  exact ⟨rfl, rfl⟩

/-- **The accounts of the relations of a query**, for the visits of its level and the group of rows
that they were made with. -/
def accounts (root : Relation) (g : Group) (level : List Visit) : List Account :=
  accountsOf (if g.size = 0 then [] else [level]) root.relations

theorem LevelFits.allFit (h : LevelFits d children g level) :
    AllFit d children (if g.size = 0 then [] else [level]) := by
  unfold LevelFits at h
  split
  · exact fun _ hl => absurd hl not_mem_nil
  · rename_i hsome
    rw [if_neg hsome] at h
    exact forall_mem_singleton.mpr ⟨g, h⟩

theorem LevelFits.perm_logOf (h : LevelFits d root.relations g level) :
    (logOf level).Perm ((accounts root g level).flatMap Account.exchanges) := by
  have hperm := perm_accountsOf h.allFit
  unfold LevelFits at h
  rw [accounts]
  split at h
  · rename_i hzero
    rw [if_pos hzero] at hperm ⊢
    rw [h]
    exact hperm
  · rename_i hsome
    rw [if_neg hsome, flatMap_singleton] at hperm
    rw [if_neg hsome]
    exact hperm

/-- Calls made at most once for each of several relations. -/
theorem countP_flatMap_le_length {as : List Account} {kind : CallKind}
    (h : ∀ a ∈ as, a.count kind ≤ 1) :
    (as.flatMap Account.exchanges).countP (Exchange.isOf kind) ≤ as.length := by
  induction as with
  | nil => exact Nat.le_refl _
  | cons a as ih =>
    obtain ⟨ha, has⟩ := forall_mem_cons.mp h
    rw [flatMap_cons, countP_append, length_cons, Nat.add_comm]
    exact Nat.add_le_add (ih has) ha

/-- The calls of a kind on the record of a session are those among the exchanges. -/
theorem count_execute (A : Adapter σ) (d : Sql.Dialect) (root : Relation) (s : σ)
    (kind : CallKind) :
    ((execute A d root).run { store := s }).2.count kind =
      (exchanges A d root s).countP (Exchange.isOf kind) := by
  rw [Session.count, (execute_observed A d root s).2, countP_map]
  rfl

/-- **One prepared statement for each group of rows.**  The exchanges of an execution that succeeds
are, after the opening of a mutation, the log of visits: one to each relation of a level for each
group of rows, with at most one statement, which is run once for each row of the group.  Every
exchange belongs to one node of the query, and no node is prepared more often than there are groups
of rows for it: one for the relations of the top level, and for nested relations one for each run of
the statement around them that gave a row.  So a query without a mutation whose relations are nested
at most two levels deep prepares at most as many statements as it has nodes. -/
theorem exchanges_visits {root : Relation} {s : σ} {v : Value} (h : outcome A d root s = .ok v) :
    ∃ opening g level,
      exchanges A d root s = opening ++ logOf level ∧ Opens d root opening g ∧
      LevelFits d root.relations g level ∧
      (accounts root g level).map Account.node = Relation.nodesOf root.relations ∧
      (logOf level).Perm ((accounts root g level).flatMap Account.exchanges) ∧
      ((execute A d root).run { store := s }).2.count .prepare =
        ((accounts root g level).flatMap Account.exchanges).countP (Exchange.isOf .prepare) ∧
      (∀ a ∈ accounts root g level, a.count .prepare ≤ a.groups) ∧
      (root.isMutation = false →
        (∀ child ∈ root.relations, ∀ nested ∈ child.relations, nested.relations = []) →
        ((execute A d root).run { store := s }).2.count .prepare ≤
          (Relation.nodesOf root.relations).length) := by
  obtain ⟨l, hseen, opening, g, level, rfl, hopens, hlevel⟩ :=
    tells_execute A d root { store := (s, []) } v (observe A d root s).2 (Prod.ext h rfl)
  have hexchanges : exchanges A d root s = opening ++ logOf level := hseen
  have hperm := hlevel.perm_logOf
  have hnodes := node_accountsOf hlevel.allFit
  have hbound := count_prepare_le hlevel.allFit
  have hcount : ((execute A d root).run { store := s }).2.count .prepare =
      ((accounts root g level).flatMap Account.exchanges).countP (Exchange.isOf .prepare) := by
    rw [count_execute, hexchanges, List.countP_append, hopens.count_prepare, Nat.zero_add]
    exact hperm.countP_eq _
  refine ⟨opening, g, level, hexchanges, hopens, hlevel, hnodes, hperm, hcount, hbound, ?_⟩
  intro hroot hshallow
  rw [Opens, hroot, if_neg Bool.false_ne_true] at hopens
  obtain ⟨-, rfl⟩ := hopens
  have hgroups : ∀ a ∈ accounts root (.of [Row.empty]) level, a.groups ≤ 1 :=
    groups_accountsOf_le rfl hlevel hshallow
  rw [hcount, ← hnodes, List.length_map]
  exact countP_flatMap_le_length fun a ha => Nat.le_trans (hbound a ha) (hgroups a ha)

/-- Users, their users, and the users of these. -/
def usersThrice : Relation :=
  { relations := [users [users [users []]]] }
where
  users (relations : List Relation) : Relation :=
    { type := "users", attributes := ["id"], relations }

/-- In a store where everyone has two users the statement of the lowest level is prepared twice. -/
theorem exchanges_visits_usersThrice :
    ∃ v, outcome twinStore .sqlite usersThrice () = .ok v ∧ ∃ opening g level,
      exchanges twinStore .sqlite usersThrice () = opening ++ logOf level ∧
      Opens .sqlite usersThrice opening g ∧
      LevelFits .sqlite usersThrice.relations g level ∧
      ∀ a ∈ accounts usersThrice g level, a.count .prepare ≤ a.groups := by
  obtain ⟨v, t, hrun⟩ : ∃ v t, (execute twinStore.observed .sqlite usersThrice).run
      { store := ((), []) } = (.ok v, t) := exists_run_eq_ok (by decide +kernel)
  have hok : outcome twinStore .sqlite usersThrice () = .ok v := congrArg Prod.fst hrun
  obtain ⟨opening, g, level, hexchanges, hopens, hlevel, -, -, -, hbound, -⟩ :=
    exchanges_visits hok
  exact ⟨v, hok, opening, g, level, hexchanges, hopens, hlevel, hbound⟩

/-- **More statements than relations**: a query of three relations that succeeds and prepares four
statements. -/
theorem exists_prepared_twice :
    (outcome twinStore .sqlite usersThrice ()).isOk = true ∧
      (Relation.nodesOf usersThrice.relations).length = 3 ∧
      ((execute twinStore .sqlite usersThrice).run { store := () }).2.count .prepare = 4 := by
  decide +kernel

end Execute
end TreeQuery
