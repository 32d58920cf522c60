import TreeQuery.Proofs.Execute.Compositional

/-!
# What an execution and its store say to each other

The record of a session holds the calls as they were made.  To speak about what became of them, an
adapter is watched from the outside: `Adapter.observed` answers as the adapter does and keeps every
call together with its reply (`Exchange`).  `exchanges` is the list that one execution leaves, and
it is all that an execution depends on: a store that knows nothing but this list, and gives its
replies one after the other (`replay`), leads to the same calls and the same outcome
(`execute_replay`).
-/

namespace TreeQuery

open List

namespace Store

/-- **A call and its reply.** -/
inductive Exchange where
  | all (sql : String) (args : List Value) (reply : Except StoreError (List Record))
  | prepare (sql : String) (reply : Except StoreError Statement)
  | runAll (stmt : Statement) (args : List Value) (reply : Except StoreError (List Record))
  | runOne (stmt : Statement) (args : List Value) (reply : Except StoreError (Option Record))
  | finalize (stmt : Statement) (reply : Except StoreError Unit)

namespace Exchange

/-- The call of an exchange, as a session records it. -/
def call : Exchange → Call
  | .all sql args _ => ⟨.all, sql, args⟩
  | .prepare sql _ => ⟨.prepare, sql, []⟩
  | .runAll stmt args _ => ⟨.run, stmt.sql, args⟩
  | .runOne stmt args _ => ⟨.run, stmt.sql, args⟩
  | .finalize stmt _ => ⟨.finalize, stmt.sql, []⟩

/-- The rows of the reply. -/
def rows : Exchange → List Record
  | .all _ _ (.ok rows) => rows
  | .runAll _ _ (.ok rows) => rows
  | .runOne _ _ (.ok (some row)) => [row]
  | _ => []

end Exchange

/-- A store and the exchanges with it so far. -/
abbrev Logged (σ : Type) := σ × List Exchange

/-- **The adapter under observation**: it answers as before, and keeps what was asked and
answered. -/
def Adapter.observed {σ : Type} (A : Adapter σ) : Adapter (Logged σ) where
  all sql args s :=
    let r := A.all sql args s.1
    (r.1, r.2, s.2 ++ [.all sql args r.1])
  prepare sql s :=
    let r := A.prepare sql s.1
    (r.1, r.2, s.2 ++ [.prepare sql r.1])
  runAll stmt args s :=
    let r := A.runAll stmt args s.1
    (r.1, r.2, s.2 ++ [.runAll stmt args r.1])
  runOne stmt args s :=
    let r := A.runOne stmt args s.1
    (r.1, r.2, s.2 ++ [.runOne stmt args r.1])
  finalize stmt s :=
    let r := A.finalize stmt s.1
    (r.1, r.2, s.2 ++ [.finalize stmt r.1])

/-- Prepared statements keep the text that they were prepared with. -/
def Adapter.KeepsTexts {σ : Type} (A : Adapter σ) : Prop :=
  ∀ {sql s stmt s'}, A.prepare sql s = (.ok stmt, s') → stmt.sql = sql

def Session.seen {σ : Type} (s : Session (Logged σ)) : List Exchange :=
  s.store.2

theorem Session.seen_prepare {σ : Type} (A : Adapter σ) (sql : String)
    (s : Session (Logged σ)) :
    (Session.prepare A.observed sql s).2.seen =
      s.seen ++ [.prepare sql (Session.prepare A.observed sql s).1] := rfl

theorem Session.seen_finalize {σ : Type} (A : Adapter σ) (stmt : Statement)
    (s : Session (Logged σ)) :
    (Session.finalize A.observed stmt s).2.seen =
      s.seen ++ [.finalize stmt (Session.finalize A.observed stmt s).1] := rfl

def outOfScript : StoreError := .database "no reply is left"

/-- **The store that replays exchanges.**  It gives the replies of a list one after the other, as
long as the calls are of the kinds, and the unprepared ones of the texts, that the list has. -/
def replay : Adapter (List Exchange) where
  all sql _
    | .all sql' args r :: rest =>
      if sql' = sql then (r, rest) else (.error outOfScript, .all sql' args r :: rest)
    | script => (.error outOfScript, script)
  prepare sql
    | .prepare sql' r :: rest =>
      if sql' = sql then (r, rest) else (.error outOfScript, .prepare sql' r :: rest)
    | script => (.error outOfScript, script)
  runAll _ _
    | .runAll _ _ r :: rest => (r, rest)
    | script => (.error outOfScript, script)
  runOne _ _
    | .runOne _ _ r :: rest => (r, rest)
    | script => (.error outOfScript, script)
  finalize _
    | .finalize _ r :: rest => (r, rest)
    | script => (.error outOfScript, script)

theorem replay_all (sql : String) (args : List Value) (r : Except StoreError (List Record))
    (rest : List Exchange) : replay.all sql args (.all sql args r :: rest) = (r, rest) :=
  if_pos rfl

theorem replay_prepare (sql : String) (r : Except StoreError Statement) (rest : List Exchange) :
    replay.prepare sql (.prepare sql r :: rest) = (r, rest) :=
  if_pos rfl

end Store

namespace Execute

open Query Store Work

variable {σ : Type}

/-- **An execution under observation**: its outcome, and the session it leaves. -/
def observe (A : Adapter σ) (d : Sql.Dialect) (root : Relation) (s : σ) :
    Except Failure Value × Session (Logged σ) :=
  (execute A.observed d root).run { store := (s, []) }

def outcome (A : Adapter σ) (d : Sql.Dialect) (root : Relation) (s : σ) : Except Failure Value :=
  (observe A d root s).1

/-- **What an execution and its store said to each other**, in order. -/
def exchanges (A : Adapter σ) (d : Sql.Dialect) (root : Relation) (s : σ) : List Exchange :=
  (observe A d root s).2.seen

/-! ## What executions say -/

/-- **A property of what is said** inside of the innermost prepared statement, in a work that
succeeds or not.  It holds of every call by itself, and is kept when more is said after a success,
and when all is said with a statement of its own. -/
structure Sayable (A : Adapter σ) (P : Option Statement → Bool → List Exchange → Prop) : Prop where
  nothing : ∀ top ok, P top ok []
  append : ∀ {top ok l l'}, P top true l → P top ok l' → P top ok (l ++ l')
  all : ∀ top ok sql args s, P top ok [.all sql args (A.all sql args s).1]
  runAll : ∀ stmt ok args s, P (some stmt) ok [.runAll stmt args (A.runAll stmt args s).1]
  runOne : ∀ stmt ok args s, P (some stmt) ok [.runOne stmt args (A.runOne stmt args s).1]
  refused : ∀ top sql e, P top false [.prepare sql (.error e)]
  bracket : ∀ {top sql stmt ok l} s, (A.prepare sql s).1 = .ok stmt → P (some stmt) ok l →
    ∀ closed ok', P top (ok && ok') (.prepare sql (.ok stmt) :: l ++ [.finalize stmt closed])

namespace Sayable

variable {A : Adapter σ} {P : Option Statement → Bool → List Exchange → Prop} (h : Sayable A P)

include h

theorem withStatement {α : Type} (top : Option Statement) (sql : String)
    {body : Statement → Work (Logged σ) α}
    (hbody : ∀ stmt s, ∃ l, ((body stmt).run s).2.seen = s.seen ++ l ∧
      P (some stmt) ((body stmt).run s).1.isOk l) (s : Session (Logged σ)) :
    ∃ l, ((withStatement A.observed sql body).run s).2.seen = s.seen ++ l ∧
      P top ((withStatement A.observed sql body).run s).1.isOk l := by
  have hseen := Session.seen_prepare A sql s
  have hprepared : (Session.prepare A.observed sql s).1 = (A.prepare sql s.store.1).1 := rfl
  rw [run_withStatement]
  generalize Session.prepare A.observed sql s = prepared at hseen hprepared ⊢
  obtain ⟨e | stmt, t⟩ := prepared
  · exact ⟨_, hseen, h.refused top sql e⟩
  obtain ⟨l, hl, hP⟩ := hbody stmt t
  dsimp only at hseen ⊢
  generalize (body stmt).run t = done at hl hP ⊢
  obtain ⟨r, v⟩ := done
  have hclosed := Session.seen_finalize A stmt v
  dsimp only at hl hP ⊢
  generalize Session.finalize A.observed stmt v = closed at hclosed ⊢
  obtain ⟨c, w⟩ := closed
  refine ⟨.prepare sql (.ok stmt) :: l ++ [.finalize stmt c], ?_, ?_⟩
  · rw [hclosed, hl, hseen]
    simp only [append_assoc, cons_append, nil_append]
  · have hok : (closing r c).isOk = (r.isOk && c.isOk) := by
      cases r <;> cases c <;> rfl
    rw [hok]
    exact h.bracket s.store.1 hprepared.symm hP c c.isOk

theorem compositional : Compositional A.observed A.observed fun top {_} w _ =>
    ∀ s, ∃ l, (w.run s).2.seen = s.seen ++ l ∧ P top (w.run s).1.isOk l where
  pure top _ _ := ⟨[], (append_nil _).symm, h.nothing top true⟩
  throw top _ _ := ⟨[], (append_nil _).symm, h.nothing top false⟩
  note top _ _ _ := ⟨[], (append_nil _).symm, h.nothing top true⟩
  bind {_ _ _ v _ _ _} hv hf s := by
    obtain ⟨l, hl, hP⟩ := hv s
    rcases hrun : v.run s with ⟨e | a, t⟩
    · rw [hrun] at hl hP
      rw [run_bind_error hrun]
      exact ⟨l, hl, hP⟩
    · rw [hrun] at hl hP
      obtain ⟨l', hl', hP'⟩ := hf a t
      rw [run_bind_ok hrun]
      exact ⟨l ++ l', by rw [hl', hl, append_assoc], h.append hP hP'⟩
  all top sql args s := by
    rw [run_call]
    exact ⟨_, rfl, h.all top _ sql args s.store.1⟩
  runAll stmt args s := by
    rw [run_call]
    exact ⟨_, rfl, h.runAll stmt _ args s.store.1⟩
  runOne stmt args s := by
    rw [run_call]
    exact ⟨_, rfl, h.runOne stmt _ args s.store.1⟩
  withStatement top sql _ _ hbody := h.withStatement top sql hbody

/-- **What executions say has the property.** -/
theorem execute (d : Sql.Dialect) (root : Relation) (s : Session (Logged σ)) :
    ∃ l, ((execute A.observed d root).run s).2.seen = s.seen ++ l ∧
      P none ((Execute.execute A.observed d root).run s).1.isOk l :=
  h.compositional.execute d root s

end Sayable

/-! ## Watching changes nothing -/

/-- A session and the same session watched: one store, one record of calls, and the exchanges seen
are those of the record. -/
def Watches (s : Session σ) (u : Session (Logged σ)) : Prop :=
  s.store = u.store.1 ∧ s.calls = u.calls ∧ u.calls = u.seen.map Exchange.call

/-- A work and the same work watched have the same outcome. -/
def Watched {α : Type} (v : Work σ α) (w : Work (Logged σ) α) : Prop :=
  ∀ s u, Watches s u → (v.run s).1 = (w.run u).1 ∧ Watches (v.run s).2 (w.run u).2

/-- A session and its watched copy after one call. -/
theorem Watches.advance {s : Session σ} {u : Session (Logged σ)} (h : Watches s u)
    (e : Exchange) (store : σ) :
    Watches { s.record e.call with store := store }
      { u.record e.call with store := (store, u.store.2 ++ [e]) } := by
  obtain ⟨-, hcalls, hseen⟩ := h
  refine ⟨rfl, ?_, ?_⟩
  · show s.calls ++ [e.call] = u.calls ++ [e.call]
    rw [hcalls]
  · show u.calls ++ [e.call] = (u.store.2 ++ [e]).map Exchange.call
    rw [map_append, hseen]
    rfl

variable {α : Type} {w : Work (List Exchange) α}

theorem watched_call {f : Session σ → Except StoreError α × Session σ}
    {g : Session (Logged σ) → Except StoreError α × Session (Logged σ)}
    (h : ∀ s u, Watches s u → (f s).1 = (g u).1 ∧ Watches (f s).2 (g u).2) :
    Watched (call f) (call g) := by
  intro s u hs
  obtain ⟨hr, hw⟩ := h s u hs
  rw [run_call, run_call, hr]
  exact ⟨rfl, hw⟩

theorem Watched.bind {β : Type} {v : Work σ α} {w : Work (Logged σ) α}
    {f : α → Work σ β} {g : α → Work (Logged σ) β} (hvw : Watched v w)
    (hfg : ∀ a, Watched (f a) (g a)) : Watched (v >>= f) (w >>= g) := by
  intro s u hs
  obtain ⟨hr, ht⟩ := hvw s u hs
  rw [run_bind, run_bind]
  generalize v.run s = done at hr ht ⊢
  generalize w.run u = done' at hr ht ⊢
  obtain ⟨r, t⟩ := done
  obtain ⟨r', t'⟩ := done'
  obtain rfl : r = r' := hr
  cases r with
  | error e => exact ⟨rfl, ht⟩
  | ok a => exact hfg a t t' ht

theorem Watched.outcome {v : Work σ α} {w : Work (Logged σ) α}
    (h : Watched v w) : Watched (Work.outcome v) (Work.outcome w) := by
  intro s u hs
  obtain ⟨hr, ht⟩ := h s u hs
  exact ⟨congrArg Except.ok hr, ht⟩

theorem callWise_watched (A : Adapter σ) : CallWise A A.observed Watched where
  pure _ := fun _ _ hs => ⟨rfl, hs⟩
  throw _ := fun _ _ hs => ⟨rfl, hs⟩
  bind hvw hfg := hvw.bind hfg
  outcome h := h.outcome
  note _ _ := fun _ _ hs => ⟨rfl, hs⟩
  all sql args := watched_call fun s u hs => by
    rw [Session.all, hs.1]
    exact ⟨rfl, hs.advance (.all sql args _) _⟩
  prepare sql := watched_call fun s u hs => by
    rw [Session.prepare, hs.1]
    exact ⟨rfl, hs.advance (.prepare sql _) _⟩
  runAll stmt args := watched_call fun s u hs => by
    rw [Session.runAll, hs.1]
    exact ⟨rfl, hs.advance (.runAll stmt args _) _⟩
  runOne stmt args := watched_call fun s u hs => by
    rw [Session.runOne, hs.1]
    exact ⟨rfl, hs.advance (.runOne stmt args _) _⟩
  finalize stmt := watched_call fun s u hs => by
    rw [Session.finalize, hs.1]
    exact ⟨rfl, hs.advance (.finalize stmt _) _⟩

/-- **Watching changes nothing**: an execution has the outcome of the watched one, and its record
of calls is the record of the exchanges. -/
theorem execute_observed (A : Adapter σ) (d : Sql.Dialect) (root : Relation) (s : σ) :
    ((execute A d root).run { store := s }).1 = outcome A d root s ∧
      ((execute A d root).run { store := s }).2.calls =
        (exchanges A d root s).map Exchange.call := by
  obtain ⟨hr, -, hcalls, hseen⟩ :=
    (callWise_watched A).compositional.execute d root { store := s } { store := (s, []) }
      ⟨rfl, rfl, rfl⟩
  exact ⟨hr, hcalls.trans hseen⟩

/-! ## An execution depends on the replies alone -/

/-- A work over an observed store and a work over the replaying store do the same: whatever
exchanges the first one adds, the second one takes from its script, with the same calls and the
same outcome. -/
def Replays {α : Type} (v : Work (Logged σ) α) (w : Work (List Exchange) α) : Prop :=
  ∀ s, ∃ l, (v.run s).2.seen = s.seen ++ l ∧
    ∀ (u : Session (List Exchange)) rest, u.store = l ++ rest →
      (w.run u).1 = (v.run s).1 ∧ (w.run u).2.store = rest ∧
        (w.run u).2.calls = u.calls ++ l.map Exchange.call

theorem replays_of_nothing {v : Work (Logged σ) α}
    {r : Except Failure α} (hv : ∀ s, (v.run s).1 = r ∧ (v.run s).2.seen = s.seen)
    (hw : ∀ u, (w.run u).1 = r ∧ (w.run u).2.store = u.store ∧ (w.run u).2.calls = u.calls) :
    Replays v w := by
  intro s
  refine ⟨[], by rw [(hv s).2, append_nil], ?_⟩
  intro u rest hu
  obtain ⟨hr, hstore, hcalls⟩ := hw u
  exact ⟨by rw [hr, (hv s).1], by rw [hstore, hu, nil_append],
    by rw [hcalls, map_nil, append_nil]⟩

theorem Replays.bind {β : Type} {v : Work (Logged σ) α}
    {f : α → Work (Logged σ) β} {g : α → Work (List Exchange) β}
    (hvw : Replays v w) (hfg : ∀ a, Replays (f a) (g a)) : Replays (v >>= f) (w >>= g) := by
  intro s
  obtain ⟨l, hl, hplay⟩ := hvw s
  rcases hv : v.run s with ⟨e | a, t⟩
  · rw [hv] at hl hplay
    refine ⟨l, by rw [run_bind_error hv]; exact hl, ?_⟩
    intro u rest hu
    rcases hw : w.run u with ⟨r, u'⟩
    have h := hplay u rest hu
    rw [hw] at h
    obtain ⟨rfl, hstore, hcalls⟩ := h
    rw [run_bind_error hv, run_bind_error hw]
    exact ⟨rfl, hstore, hcalls⟩
  · rw [hv] at hl hplay
    obtain ⟨l', hl', hplay'⟩ := hfg a t
    refine ⟨l ++ l', by rw [run_bind_ok hv, hl', hl, append_assoc], ?_⟩
    intro u rest hu
    rw [append_assoc] at hu
    rcases hw : w.run u with ⟨r, u'⟩
    have h := hplay u (l' ++ rest) hu
    rw [hw] at h
    obtain ⟨rfl, hstore, hcalls⟩ := h
    obtain ⟨hr', hstore', hcalls'⟩ := hplay' u' rest hstore
    rw [run_bind_ok hv, run_bind_ok hw]
    refine ⟨hr', hstore', ?_⟩
    rw [hcalls', hcalls, map_append, append_assoc]

theorem Replays.outcome {v : Work (Logged σ) α} (h : Replays v w) :
    Replays (Work.outcome v) (Work.outcome w) := by
  intro s
  obtain ⟨l, hl, hplay⟩ := h s
  refine ⟨l, hl, fun u rest hu => ?_⟩
  obtain ⟨hr, hrest⟩ := hplay u rest hu
  exact ⟨congrArg Except.ok hr, hrest⟩

/-- A single call that adds one exchange and takes the same one from the script. -/
theorem replays_call {f : Session (Logged σ) → Except StoreError α × Session (Logged σ)}
    {g : Session (List Exchange) → Except StoreError α × Session (List Exchange)}
    (e : Session (Logged σ) → Exchange) (he : ∀ s, (f s).2.seen = s.seen ++ [e s])
    (hplay : ∀ s (u : Session (List Exchange)) rest, u.store = e s :: rest →
      (g u).1 = (f s).1 ∧ (g u).2.store = rest ∧ (g u).2.calls = u.calls ++ [(e s).call]) :
    Replays (call f) (call g) := by
  intro s
  refine ⟨[e s], by rw [run_call, he], ?_⟩
  intro u rest hu
  obtain ⟨hr, hstore, hcalls⟩ := hplay s u rest hu
  rw [run_call, run_call, hr]
  exact ⟨rfl, hstore, hcalls⟩

theorem callWise_replays (A : Adapter σ) : CallWise A.observed replay Replays where
  pure _ := replays_of_nothing (fun _ => ⟨rfl, rfl⟩) fun _ => ⟨rfl, rfl, rfl⟩
  throw _ := replays_of_nothing (fun _ => ⟨rfl, rfl⟩) fun _ => ⟨rfl, rfl, rfl⟩
  bind hvw hfg := hvw.bind hfg
  outcome h := h.outcome
  note _ _ := replays_of_nothing (fun _ => ⟨rfl, rfl⟩) fun _ => ⟨rfl, rfl, rfl⟩
  all sql args := replays_call (fun s => .all sql args (A.all sql args s.store.1).1)
    (fun _ => rfl) fun s u rest hu => by
      rw [Session.all, hu, replay_all]
      exact ⟨rfl, rfl, rfl⟩
  prepare sql := replays_call (fun s => .prepare sql (A.prepare sql s.store.1).1)
    (fun _ => rfl) fun s u rest hu => by
      rw [Session.prepare, hu, replay_prepare]
      exact ⟨rfl, rfl, rfl⟩
  runAll stmt args := replays_call (fun s => .runAll stmt args (A.runAll stmt args s.store.1).1)
    (fun _ => rfl) fun s u rest hu => by
      rw [Session.runAll, hu]
      exact ⟨rfl, rfl, rfl⟩
  runOne stmt args := replays_call (fun s => .runOne stmt args (A.runOne stmt args s.store.1).1)
    (fun _ => rfl) fun s u rest hu => by
      rw [Session.runOne, hu]
      exact ⟨rfl, rfl, rfl⟩
  finalize stmt := replays_call (fun s => .finalize stmt (A.finalize stmt s.store.1).1)
    (fun _ => rfl) fun s u rest hu => by
      rw [Session.finalize, hu]
      exact ⟨rfl, rfl, rfl⟩

/-- **An execution depends on the replies alone**: on a store that replays its exchanges it has the
same outcome, uses up the script, and makes the calls of the exchanges. -/
theorem execute_replay (A : Adapter σ) (d : Sql.Dialect) (root : Relation) (s : σ) :
    ∃ t, (execute replay d root).run { store := exchanges A d root s } = (outcome A d root s, t) ∧
      t.store = [] ∧ t.calls = (exchanges A d root s).map Exchange.call := by
  obtain ⟨l, hl, hplay⟩ :=
    (callWise_replays A).compositional.execute d root ({ store := (s, []) } : Session (Logged σ))
  have hseen : exchanges A d root s = l := hl
  obtain ⟨hr, hstore, hcalls⟩ := hplay { store := l } [] (append_nil l).symm
  refine ⟨((execute replay d root).run { store := l }).2, ?_, hstore, ?_⟩
  · rw [hseen]
    exact Prod.ext hr rfl
  · rw [hseen, hcalls]
    rfl

end Execute
end TreeQuery
