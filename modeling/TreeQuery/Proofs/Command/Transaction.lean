import TreeQuery.Command.Line
import TreeQuery.Proofs.Command.Auditing
import TreeQuery.Proofs.Store.Traffic

/-!
# Explaining leaves no trace

A query is explained inside a transaction that is undone in any case.  To see that, the connection
keeps a journal: `Connection.journaled` replies as the connection does, and notes what reached it
and whether it was done.  `Undone` says which journals a command may leave that works in such a
transaction, and `explain_undone` that every command line which asks to explain a query leaves one
of them and touches no file, on every connection.

The journal is followed from the inside out.  Whatever a store is asked to do, only statements reach
the connection (`compositional_grows`), so this is all that a run of queries adds to the journal;
opening a database and the transaction add their own events around it; and nothing else that the
command does reaches the connection at all (`Action.Idle`).
-/

namespace TreeQuery

open List

namespace Store

variable {δ : Type}

/-! ## Journals -/

/-- **What reached a database**, in order, and whether it was done. -/
abbrev Journal := List (Event × Bool)

/-- The outcome of an event, with the journal after it. -/
def journal {α : Type} (e : Event) (r : Except String α × δ) (j : Journal) :
    Except String α × (δ × Journal) :=
  (r.1, r.2, j ++ [(e, r.1.isOk)])

def Connection.journaled (C : Connection δ) : Connection (δ × Journal) where
  connect s := journal .connect (C.connect s.1) s.2
  ping s := journal .ping (C.ping s.1) s.2
  exec sql s := journal (.exec sql) (C.exec sql s.1) s.2
  begin s := journal .begin (C.begin s.1) s.2
  rollback s := journal .rollback (C.rollback s.1) s.2
  query sql args s := journal (.query sql args) (C.query sql args s.1) s.2
  prepare sql s := journal (.prepare sql) (C.prepare sql s.1) s.2
  run sql args s := journal (.run sql args) (C.run sql args s.1) s.2
  close sql s := journal (.close sql) (C.close sql s.1) s.2

def Event.isOpening : Event → Bool
  | .connect => true
  | .ping => true
  | .exec _ => true
  | _ => false

/-- An event of a statement: it is run at once, or prepared, run and closed. -/
def Event.isStatement : Event → Bool
  | .query _ _ => true
  | .prepare _ => true
  | .run _ _ => true
  | .close _ => true
  | _ => false

/-- The journal has grown by some kind of events. -/
def Grows (kind : Event → Bool) (s t : δ × Journal) : Prop :=
  ∃ more : Journal, t.2 = s.2 ++ more ∧ ∀ e ∈ more, kind e.1 = true

section Grows

variable {kind : Event → Bool} {s t u : δ × Journal}

theorem Grows.refl (s : δ × Journal) : Grows kind s s :=
  ⟨[], (append_nil _).symm, fun _ h => absurd h not_mem_nil⟩

theorem Grows.trans (h : Grows kind s t) (h' : Grows kind t u) : Grows kind s u := by
  obtain ⟨more, hmore, hkind⟩ := h
  obtain ⟨more', hmore', hkind'⟩ := h'
  refine ⟨more ++ more', by rw [hmore', hmore, append_assoc], ?_⟩
  intro e he
  exact (mem_append.mp he).elim (hkind e) (hkind' e)

theorem grows_journal {α : Type} {e : Event} (he : kind e) (r : Except String α × δ)
    (s : δ × Journal) : Grows kind s (journal e r s.2).2 :=
  ⟨[(e, r.1.isOk)], rfl, fun _ h => by rwa [mem_singleton.mp h]⟩

end Grows

/-! ## The statements of a store -/

section Adapter

variable (C : Connection δ) (a : Access) (c : Client (δ × Journal))

theorem grows_all (sql : String) (args : List Value) :
    Grows Event.isStatement c.database ((adapter C.journaled a).all sql args c).2.database :=
  grows_journal rfl _ _

theorem grows_prepare (sql : String) :
    Grows Event.isStatement c.database ((adapter C.journaled a).prepare sql c).2.database := by
  have hgrows : Grows Event.isStatement c.database
      (C.journaled.prepare (a.bind sql) c.database).2 := grows_journal rfl _ _
  unfold adapter adapterAmong
  dsimp only
  generalize C.journaled.prepare (a.bind sql) c.database = r at hgrows ⊢
  obtain ⟨e | ⟨⟩, db⟩ := r <;> exact hgrows

theorem grows_runAll (stmt : Statement) (args : List Value) :
    Grows Event.isStatement c.database ((adapter C.journaled a).runAll stmt args c).2.database := by
  unfold adapter adapterAmong
  dsimp only
  split
  · exact Grows.refl _
  · exact grows_journal rfl _ _

theorem grows_runOne (stmt : Statement) (args : List Value) :
    Grows Event.isStatement c.database ((adapter C.journaled a).runOne stmt args c).2.database := by
  unfold adapter adapterAmong
  dsimp only
  split
  · exact Grows.refl _
  · exact grows_journal rfl _ _

theorem grows_finalize (stmt : Statement) :
    Grows Event.isStatement c.database ((adapter C.journaled a).finalize stmt c).2.database := by
  unfold adapter adapterAmong
  dsimp only
  split
  · exact Grows.refl _
  rename_i n p hfind
  split
  · exact Grows.refl _
  · have hgrows : Grows Event.isStatement c.database
        (C.journaled.close p.bound c.database).2 := grows_journal rfl _ _
    split <;> exact hgrows

end Adapter

/-- **Opening a database** sends nothing but what opening takes. -/
theorem grows_openDatabase (C : Connection δ) (driver source : String) (s : δ × Journal) :
    Grows Event.isOpening s (openDatabase C.journaled driver source s).2 := by
  have hconnect : Grows Event.isOpening s (C.journaled.connect s).2 := grows_journal rfl _ _
  unfold openDatabase
  split
  · exact Grows.refl _
  split
  · exact Grows.refl _
  generalize C.journaled.connect s = connected at hconnect ⊢
  obtain ⟨e | ⟨⟩, t⟩ := connected
  · exact hconnect
  have hping : Grows Event.isOpening s (C.journaled.ping t).2 :=
    hconnect.trans (grows_journal rfl _ _)
  dsimp only
  generalize C.journaled.ping t = pinged at hping ⊢
  obtain ⟨e | ⟨⟩, u⟩ := pinged
  · exact hping
  dsimp only
  split
  · have hexec : Grows Event.isOpening s
        (C.journaled.exec "PRAGMA foreign_keys = ON" u).2 :=
      hping.trans (grows_journal rfl _ _)
    generalize C.journaled.exec "PRAGMA foreign_keys = ON" u = done at hexec ⊢
    obtain ⟨e | ⟨⟩, v⟩ := done <;> exact hexec
  · exact hping

end Store

namespace Execute

open Store Work

variable {δ : Type}

/-- Every piece of an execution sends nothing but statements. -/
theorem compositional_grows (C : Connection δ) (a : Access) :
    Compositional (Store.adapter C.journaled a) (Store.adapter C.journaled a) fun _ {_} w _ =>
      ∀ s, Grows Event.isStatement s.store.database (w.run s).2.store.database :=
  CallWise.compositional
    { pure := fun _ _ => Grows.refl _
      throw := fun _ _ => Grows.refl _
      bind := fun {_ _ v _ _ _} hv hf s => by
        have hfirst := hv s
        rcases h : v.run s with ⟨e | a, t⟩
        · rw [h] at hfirst
          rw [run_bind_error h]
          exact hfirst
        · rw [h] at hfirst
          rw [run_bind_ok h]
          exact hfirst.trans (hf a t)
      outcome := fun h => h
      note := fun _ _ _ => Grows.refl _
      all := fun sql args s => run_call (Session.all _ sql args) s ▸ grows_all C a s.store sql args
      prepare := fun sql s => run_call (Session.prepare _ sql) s ▸ grows_prepare C a s.store sql
      runAll := fun stmt args s =>
        run_call (Session.runAll _ stmt args) s ▸ grows_runAll C a s.store stmt args
      runOne := fun stmt args s =>
        run_call (Session.runOne _ stmt args) s ▸ grows_runOne C a s.store stmt args
      finalize := fun stmt s =>
        run_call (Session.finalize _ stmt) s ▸ grows_finalize C a s.store stmt }

end Execute

namespace Command

open Query Store Execute
open TreeQuery.Command.Action

variable {δ α β ε : Type} {rest : List String}

variable (C : Connection δ)

/-- **A run of queries sends nothing but statements**, whatever becomes of it. -/
theorem grows_executeAll (a : Access) (d : Sql.Dialect) (index : Nat) (roots : List Relation)
    (s : Session (Client (δ × Journal))) :
    Grows Event.isStatement s.store.database
      (executeAll (Store.adapter C.journaled a) d index roots s).2.store.database := by
  induction roots generalizing index s with
  | nil => exact Grows.refl _
  | cons root rest ih =>
    have hblock := (compositional_grows C a).execute d root s
    rcases h : (execute (Store.adapter C.journaled a) d root).run s with ⟨e | v, t⟩
    · rw [h] at hblock
      rw [executeAll_cons_error h]
      exact hblock
    · rw [h] at hblock
      rw [executeAll_cons_ok h]
      exact hblock.trans (ih (index + 1) t)

/-! ## The command -/

def GrowsBy (kind : Event → Bool) (x : Action (δ × Journal) α) : Prop :=
  ∀ st, Grows kind st.database (x.run st).2.database

section GrowsBy

variable {kind : Event → Bool}

theorem GrowsBy.of_idle {x : Action (δ × Journal) α} (h : Idle x) : GrowsBy kind x := by
  intro st
  rw [(h st).2]
  exact Grows.refl _

theorem GrowsBy.bind {x : Action (δ × Journal) α} {f : α → Action (δ × Journal) β}
    (hx : GrowsBy kind x) (hf : ∀ a, GrowsBy kind (f a)) : GrowsBy kind (x >>= f) :=
  run_bind_trans (S := fun st st' => Grows kind st.database st'.database) Grows.trans hx hf

theorem GrowsBy.onDatabase {f : δ × Journal → α × (δ × Journal)}
    (h : ∀ s, Grows kind s (f s).2) : GrowsBy kind (Action.onDatabase f) :=
  fun st => h st.database

end GrowsBy

theorem growsBy_opened (s : Surroundings) (o : Options) (g : Settings) (args : List String) :
    GrowsBy Event.isOpening (opened C.journaled s o g args) := by
  refine (GrowsBy.of_idle (idle_find s o g args)).bind fun given =>
    (GrowsBy.of_idle (idle_queries o given)).bind fun roots => GrowsBy.bind ?_ fun d =>
      GrowsBy.of_idle (.pure _)
  exact (GrowsBy.onDatabase (grows_openDatabase C _ _)).bind fun r =>
    (GrowsBy.of_idle (.orFail o r _ _ _)).bind fun d =>
      (GrowsBy.of_idle (.remark _ _ _)).bind fun _ => GrowsBy.of_idle (.pure _)

theorem growsBy_runAll (a : Access) (d : Sql.Dialect) (g : Settings) (roots : List Relation) :
    GrowsBy Event.isStatement (runAll C.journaled a d g roots) := by
  refine (GrowsBy.onDatabase fun s => ?_).bind fun r =>
    (GrowsBy.of_idle (.remark _ _ _)).bind fun _ => GrowsBy.of_idle (.pure _)
  have hgrows := grows_executeAll C a d 1 roots { store := { database := s } }
  generalize executeAll (Store.adapter C.journaled a) d 1 roots { store := { database := s } } = r
    at hgrows ⊢
  exact hgrows

/-- **The journals of a command that undoes what it does.**  It breaks off while it opens the
database, or it cannot begin a transaction, or it sends statements inside of one and ends with
rolling it back. -/
inductive Undone : Journal → Prop
  | unopened {opening : Journal} (h : ∀ e ∈ opening, e.1.isOpening = true) : Undone opening
  | unbegun {opening : Journal} (h : ∀ e ∈ opening, e.1.isOpening = true) :
      Undone (opening ++ [(.begin, false)])
  | rolledBack {opening inner : Journal} (h : ∀ e ∈ opening, e.1.isOpening = true)
      (h' : ∀ e ∈ inner, e.1.isStatement = true) (done : Bool) :
      Undone (opening ++ (.begin, true) :: inner ++ [(.rollback, done)])

theorem undone_nil : Undone [] :=
  .unopened fun _ h => absurd h not_mem_nil

/-- A failed step breaks off; files and database stay as they are. -/
theorem run_orFail_error (o : Options) (e : ε) (code : ε → ErrorCode) (message : ε → String)
    (suggestion : ε → String) (st : State δ) :
    ∃ stop st', (orFail o (.error e) code message suggestion : Action δ α).run st =
        (.error stop, st') ∧ st'.database = st.database := by
  obtain ⟨stop, st', hstop⟩ := run_fail (α := α) o (code e) (message e) (suggestion e) st
  have hidle := Idle.fail (α := α) o (code e) (message e) (suggestion e) st
  rw [hstop] at hidle
  exact ⟨stop, st', hstop, hidle.2⟩

/-- **The transaction**: what it adds to the journal. -/
theorem journal_runUndone (d : Sql.Dialect) (o : Options) (g : Settings) (roots : List Relation)
    (st : State (δ × Journal)) :
    ((runUndone C.journaled d o g roots).run st).2.database.2 = st.database.2 ++ [(.begin, false)] ∨
      ∃ inner done, (∀ e ∈ inner, e.1.isStatement) ∧
        ((runUndone C.journaled d o g roots).run st).2.database.2 =
          st.database.2 ++ (.begin, true) :: inner ++ [(.rollback, done)] := by
  have hjournal : (C.journaled.begin st.database).2.2 =
      st.database.2 ++ [(.begin, (C.journaled.begin st.database).1.isOk)] := rfl
  unfold runUndone
  rw [run_bind_ok (run_onDatabase C.journaled.begin st)]
  rcases hbegin : C.journaled.begin st.database with ⟨e | ⟨⟩, db⟩
  · rw [hbegin] at hjournal
    obtain ⟨stop, st', hstop, hdatabase⟩ := run_orFail_error (α := Unit) o e
      (fun _ => .databaseError) (fun e => "failed to begin transaction: " ++ e) (fun _ => "")
      { st with database := db }
    rw [run_bind_error hstop, hdatabase]
    exact .inl hjournal
  rw [hbegin] at hjournal
  obtain ⟨inner, hinner, hkind⟩ := growsBy_runAll C (.ofDialect d true) d g roots
    { st with database := db }
  obtain ⟨calls, st', hrun, -⟩ := run_runAll C.journaled g (.ofDialect d true) d roots
    { st with database := db }
  rw [hrun] at hinner
  -- running the queries never breaks the action off, so the rollback is always reached
  refine .inr ⟨inner, (C.journaled.rollback st'.database).1.isOk, hkind, ?_⟩
  have hbegun : (orFail o (.ok () : Except String Unit) (fun _ => .databaseError)
      (fun e => "failed to begin transaction: " ++ e) (fun _ => "") : Action (δ × Journal) Unit).run
        { st with database := db } = (.ok (), { st with database := db }) := rfl
  rw [run_bind_ok hbegun, run_bind_ok hrun,
    run_bind_ok (run_onDatabase C.journaled.rollback st')]
  show st'.database.2 ++ [(Event.rollback, _)] = _
  rw [show st'.database.2 = _ from hinner, show db.2 = _ from hjournal]
  simp only [append_assoc, cons_append, nil_append]
  rfl

theorem idle_explained (s : Surroundings) (o : Options) (g : Settings) (calls : List Call) :
    Idle (explained s o g calls : Action δ Unit) := by
  unfold explained
  dsimp only
  split
  · split
    · exact .pure _
    · exact .print _
  · exact .print _

/-- What follows an action and is idle changes neither files nor database. -/
theorem run_bind_idle (x : Action δ α) {f : α → Action δ β} (hf : ∀ a, Idle (f a)) (st : State δ) :
    ((x >>= f).run st).2.files = (x.run st).2.files ∧
      ((x >>= f).run st).2.database = (x.run st).2.database := by
  rcases h : x.run st with ⟨e | a, st'⟩
  · rw [run_bind_error h]
    exact ⟨rfl, rfl⟩
  · rw [run_bind_ok h]
    exact hf a st'

section Explain

variable (C : Connection δ) (s : Surroundings) (o : Options) (g : Settings) (args : List String)

theorem idle_afterUndone (roots : List Relation)
    (r : Except (Nat × Failure) (List Value) × List Call) :
    Idle (resultsOrFail o roots r.1 >>= fun _ => explained s o g r.2 : Action δ Unit) :=
  (Idle.orFail o _ _ _ _).bind fun _ => idle_explained s o g _

theorem touchesNothing_runExplain : TouchesNothing (runExplain C s o g args) := by
  rw [runExplain]
  refine (touchesNothing_opened C s o g args).bind fun found => TouchesNothing.bind ?_ fun r =>
    .of_idle (idle_afterUndone s o g _ r)
  refine (TouchesNothing.onDatabase _).bind fun begun => (TouchesNothing.orFail o _ _ _ _).bind
    fun _ => TouchesNothing.bind ?_ fun r => (TouchesNothing.onDatabase _).bind fun _ => .pure _
  exact (TouchesNothing.onDatabase _).bind fun _ => (TouchesNothing.remark _ _ _).bind fun _ =>
    .pure _

/-- **Explaining a query** leaves a journal of a command that undoes what it does. -/
theorem undone_runExplain {st : State (δ × Journal)} (hst : st.database.2 = []) :
    Undone ((runExplain C.journaled s o g args).run st).2.database.2 := by
  obtain ⟨opening, hopening, hkind⟩ := growsBy_opened C s o g args st
  rw [hst, nil_append] at hopening
  rw [runExplain]
  rcases hopened : (opened C.journaled s o g args).run st with ⟨e | ⟨given, roots, d⟩, st'⟩
  · rw [hopened] at hopening
    rw [run_bind_error hopened, show st'.database.2 = _ from hopening]
    exact .unopened hkind
  rw [hopened] at hopening
  -- what is shown after the rollback adds no event
  rw [run_bind_ok hopened, (run_bind_idle _ (idle_afterUndone s o g roots) st').2]
  rcases journal_runUndone C d o g roots st' with hrefused | ⟨inner, done, hinner, hdone⟩
  · rw [hrefused, show st'.database.2 = _ from hopening]
    exact .unbegun hkind
  · rw [hdone, show st'.database.2 = _ from hopening]
    exact .rolledBack hkind hinner done

/-- A command line that asks to explain a query does just that, once its options and arguments have
been read and checked. -/
theorem act_explain (h : Verb.find args = .ok (.explain, rest)) :
    Idle (act C s args) ∨ ∃ o words, act C s args =
      Settings.load s o >>= fun g => runExplain C s o g words := by
  unfold act
  rw [h]
  simp only [bind, Except.bind]
  generalize Options.read _ rest = read
  rcases read with e | ⟨o, words⟩
  · exact .inl (Idle.throw _)
  dsimp only
  by_cases hhelp : (o.help || !Verb.explain.isRunnable) = true
  · rw [if_pos hhelp]
    exact .inl (Idle.print _)
  rw [if_neg hhelp]
  rcases Verb.checkArity .explain words with e | ⟨⟩
  · exact .inl (Idle.throw _)
  · exact .inr ⟨o, words, rfl⟩

theorem touchesNothing_act (h : Verb.find args = .ok (.explain, rest)) :
    TouchesNothing (act C s args) := by
  rcases act_explain C s args h with hidle | ⟨o, words, hact⟩
  · exact .of_idle hidle
  · rw [hact]
    exact (TouchesNothing.of_idle (idle_load s o)).bind fun g =>
      touchesNothing_runExplain C s o g words

theorem undone_act (h : Verb.find args = .ok (.explain, rest))
    (st : State (δ × Journal)) (hst : st.database.2 = []) :
    Undone ((act C.journaled s args).run st).2.database.2 := by
  rcases act_explain C.journaled s args h with hidle | ⟨o, words, hact⟩
  · rw [(hidle st).2, hst]
    exact undone_nil
  have hload := (idle_load s o st).2
  rw [hact]
  rcases hrun : (Settings.load s o).run st with ⟨e | g, st'⟩
  · rw [hrun] at hload
    rw [run_bind_error hrun, show st'.database = _ from hload, hst]
    exact undone_nil
  · rw [hrun] at hload
    rw [run_bind_ok hrun]
    exact undone_runExplain C s o g words ((congrArg Prod.snd hload).trans hst)

/-- **Explaining leaves no trace.**  However a command line is written that asks to explain a query,
and whatever the database does with it, no file changes.  What reaches the database are events of
opening it, and no more if that fails; these and a transaction that could not be begun; or these,
the beginning of the transaction, the events of the query's statements, and the rollback, which is
the last event. -/
theorem explain_undone (files : Files) (db : δ) {rest : List String}
    (h : Verb.find args = .ok (.explain, rest)) :
    (run C s files db args).files = files ∧
      Undone (run C.journaled s files (db, []) args).database.2 := by
  have hfiles := touchesNothing_act C s args h { files := files, database := db }
  have hjournal := undone_act C s args h { files := files, database := (db, []) } rfl
  exact ⟨hfiles.symm, hjournal⟩

end Explain

/-- The update is executed, then the statement of its relation cannot be prepared: all of it lies
between the beginning of the transaction and the rollback. -/
theorem explain_undone_sampleQuery :
    let args := ["--dsn", "x", "explain", sampleQuery]
    let after := run (sampleDatabase false).journaled {} .empty ((), []) args
    Verb.find args = .ok (.explain, ["--dsn", "x", sampleQuery]) ∧
      (run (sampleDatabase false) {} .empty () args).files = .empty ∧
      Undone after.database.2 ∧
      after.database.2.map (fun e => (e.1.kind, e.2)) =
        [("open", true), ("ping", true), ("exec", true), ("begin", true), ("query", true),
          ("query", true), ("query", true), ("query", true), ("prepare", false),
          ("rollback", true)] := by
  intro args after
  have hfind : Verb.find args = .ok (.explain, ["--dsn", "x", sampleQuery]) := by decide +kernel
  obtain ⟨hfiles, hundone⟩ := explain_undone (sampleDatabase false) {} args .empty () hfind
  exact ⟨hfind, hfiles, hundone, by decide +kernel⟩

end Command
end TreeQuery
