import TreeQuery.Proofs.Execute.Compositional
import TreeQuery.Store.Connection

/-!
# What reaches the database

A connection is watched from the outside: `Connection.observed` replies as the connection does and
keeps every event that reaches it.  `Sends` says of a work which events it adds, together with its
outcome; there is one rule for each way in which works are put together.

Between preparing a statement and running it, other statements come and go.  None of them changes
the text that the handle stands for: the texts of the prepared statements only grow
(`Client.Extends`).  So what is known of a client stays known of all clients that extend it, and
`Sends` speaks of every work begun on such a client.
-/

namespace TreeQuery.Store

open List

/-- What reaches a database. -/
inductive Event where
  | connect
  | ping
  | exec (sql : String)
  | begin
  | rollback
  | query (sql : String) (args : List Value)
  | prepare (sql : String)
  | run (sql : String) (args : List Value)
  | close (sql : String)

def Event.kind : Event → String
  | .connect => "open"
  | .ping => "ping"
  | .exec _ => "exec"
  | .begin => "begin"
  | .rollback => "rollback"
  | .query _ _ => "query"
  | .prepare _ => "prepare"
  | .run _ _ => "run"
  | .close _ => "close"

variable {δ ε : Type} {text : String}

/-- **The connection under observation**: it replies as before, and keeps what reached it under a
name for it. -/
def Connection.observedAs (name : Event → ε) (C : Connection δ) : Connection (δ × List ε) where
  connect s := ((C.connect s.1).1, (C.connect s.1).2, s.2 ++ [name .connect])
  ping s := ((C.ping s.1).1, (C.ping s.1).2, s.2 ++ [name .ping])
  exec sql s := ((C.exec sql s.1).1, (C.exec sql s.1).2, s.2 ++ [name (.exec sql)])
  begin s := ((C.begin s.1).1, (C.begin s.1).2, s.2 ++ [name .begin])
  rollback s := ((C.rollback s.1).1, (C.rollback s.1).2, s.2 ++ [name .rollback])
  query sql args s :=
    ((C.query sql args s.1).1, (C.query sql args s.1).2, s.2 ++ [name (.query sql args)])
  prepare sql s := ((C.prepare sql s.1).1, (C.prepare sql s.1).2, s.2 ++ [name (.prepare sql)])
  run sql args s :=
    ((C.run sql args s.1).1, (C.run sql args s.1).2, s.2 ++ [name (.run sql args)])
  close sql s := ((C.close sql s.1).1, (C.close sql s.1).2, s.2 ++ [name (.close sql)])

def Connection.observed (C : Connection δ) : Connection (δ × List Event) :=
  C.observedAs id

/-- A database that accepts everything, and gives every statement the same reply. -/
def Connection.answering (reply : Reply) : Connection Unit where
  connect _ := (.ok (), ())
  ping _ := (.ok (), ())
  exec _ _ := (.ok (), ())
  begin _ := (.ok (), ())
  rollback _ := (.ok (), ())
  query _ _ _ := (.ok reply, ())
  prepare _ _ := (.ok (), ())
  run _ _ _ := (.ok reply, ())
  close _ _ := (.ok (), ())

/-- A database that answers every question with one row. -/
def oneRow : Connection Unit :=
  .answering
    { columns := ["id", "name", "type", "table", "from", "to"]
      rows := [[.int 7, .text "id", .text "integer", .text "users", .text "userId", .text "id"]] }

/-! ## The statements of a client -/

variable {stmt : Statement}

namespace Client

/-- The texts of the prepared statements, as the database knows them. -/
def texts (c : Client δ) : List String :=
  c.statements.map Prepared.bound

/-- **A later state of a client**: its statements are followed by new ones. -/
def Extends (c c' : Client δ) : Prop :=
  c.texts <+: c'.texts

/-- A handle stands for a text. -/
def Holds (c : Client δ) (stmt : Statement) (text : String) : Prop :=
  ∃ n, stmt.number = some n ∧ c.texts[n]? = some text

theorem Extends.refl (c : Client δ) : c.Extends c :=
  prefix_rfl

theorem Extends.trans {a b c : Client δ} (h : a.Extends b) (h' : b.Extends c) : a.Extends c :=
  List.IsPrefix.trans h h'

theorem Holds.of_extends {c c' : Client δ}
    (h : c.Holds stmt text) (hext : c.Extends c') : c'.Holds stmt text := by
  obtain ⟨n, hn, htext⟩ := h
  obtain ⟨more, hmore⟩ := hext
  refine ⟨n, hn, ?_⟩
  have hlt : n < c.texts.length := (List.getElem?_eq_some_iff.mp htext).1
  rw [← hmore, getElem?_append_left hlt]
  exact htext

/-- The statement found behind a handle has the text that the handle stands for. -/
theorem Holds.bound_eq {c : Client δ} (h : c.Holds stmt text) :
    ∃ n p, c.find? stmt = some (n, p) ∧ p.bound = text := by
  obtain ⟨n, hn, htext⟩ := h
  rw [texts, getElem?_map, Option.map_eq_some_iff] at htext
  obtain ⟨p, hp, htext⟩ := htext
  exact ⟨n, p, by simp [find?, hn, hp], htext⟩

theorem texts_markClosed (c : Client δ) (n : Nat) : (c.markClosed n).texts = c.texts := by
  unfold texts markClosed
  apply ext_getElem?
  intro i
  simp only [getElem?_map, getElem?_modify]
  by_cases hi : n = i
  · subst hi
    cases c.statements[n]? <;> simp
  · simp [hi]

end Client

/-! ## Works and what they send -/

/-- **What a work sends**: begun on a client that extends `c`, it adds events to the record of the
connection, and `P` holds of its outcome and these events. -/
def Sends {α : Type} (c : Client (δ × List Event)) (w : Work (Client (δ × List Event)) α)
    (P : Except Failure α → List Event → Prop) : Prop :=
  ∀ s, c.Extends s.store → s.store.Extends (w.run s).2.store ∧
    ∃ events, (w.run s).2.store.database.2 = s.store.database.2 ++ events ∧ P (w.run s).1 events

namespace Sends

variable {α β : Type} {c : Client (δ × List Event)}

variable {P : Except Failure α → List Event → Prop} {w : Work (Client (δ × List Event)) α}

theorem of_nothing
    (hstore : ∀ s, (w.run s).2.store = s.store) (h : ∀ s, P (w.run s).1 []) : Sends c w P := by
  intro s _
  rw [hstore]
  exact ⟨.refl _, [], by simp, h s⟩

theorem pure {a : α} (h : P (.ok a) []) :
    Sends c (pure a) P :=
  of_nothing (fun _ => rfl) fun _ => h

theorem throw {e : Failure} (h : P (.error e) []) :
    Sends c (throw e) P :=
  of_nothing (fun _ => rfl) fun _ => h

theorem note (message : String) (details : List (String × Value))
    {P : Except Failure Unit → List Event → Prop} (h : P (.ok ()) []) :
    Sends c (Work.note message details) P :=
  of_nothing (fun _ => rfl) fun _ => h

theorem mono {Q : Except Failure α → List Event → Prop}
    (h : Sends c w P) (hPQ : ∀ r events, P r events → Q r events) : Sends c w Q := by
  intro s hs
  obtain ⟨hext, events, hevents, hP⟩ := h s hs
  exact ⟨hext, events, hevents, hPQ _ _ hP⟩

/-- **A sequence sends what its parts send**, up to a failure. -/
theorem bind {f : α → Work (Client (δ × List Event)) β}
    {Q : α → Except Failure β → List Event → Prop}
    {R : Except Failure β → List Event → Prop} (hw : Sends c w P) (hf : ∀ a, Sends c (f a) (Q a))
    (herror : ∀ e xs, P (.error e) xs → R (.error e) xs)
    (hok : ∀ a xs r ys, P (.ok a) xs → Q a r ys → R r (xs ++ ys)) : Sends c (w >>= f) R := by
  intro s hs
  obtain ⟨hext, xs, hxs, hP⟩ := hw s hs
  rcases hrun : w.run s with ⟨e | a, t⟩
  · rw [Work.run_bind_error hrun]
    rw [hrun] at hext hxs hP
    exact ⟨hext, xs, hxs, herror e xs hP⟩
  · rw [Work.run_bind_ok hrun]
    rw [hrun] at hext hxs hP
    obtain ⟨hext', ys, hys, hQ⟩ := hf a t (hs.trans hext)
    refine ⟨hext.trans hext', xs ++ ys, ?_, hok a xs _ ys hP hQ⟩
    rw [hys, hxs, append_assoc]

/-- What holds of every event of the parts of a sequence holds of every event of the sequence. -/
theorem each_bind {f : α → Work (Client (δ × List Event)) β} {φ : Event → Prop}
    (hw : Sends c w fun _ events => ∀ e ∈ events, φ e)
    (hf : ∀ a, Sends c (f a) fun _ events => ∀ e ∈ events, φ e) :
    Sends c (w >>= f) fun _ events => ∀ e ∈ events, φ e :=
  hw.bind hf (fun _ _ h => h) fun _ _ _ _ hx hy => forall_mem_append.mpr ⟨hx, hy⟩

variable (C : Connection δ) (a : Access)

theorem all (sql : String) (args : List Value) :
    Sends c (Work.call (Session.all (adapter C.observed a) sql args))
      fun _ events => events = [.query (a.bind sql) args] := by
  intro s _
  rw [Work.run_call]
  exact ⟨.refl _, _, rfl, rfl⟩

/-- What running a statement sends: the statement's text and the arguments.  Nothing is sent only
if the run fails. -/
def Ran (text : String) (args : List Value) (r : Except Failure α) (events : List Event) : Prop :=
  events = [.run text args] ∨ events = [] ∧ ∃ e, r = .error e

theorem run_open {args : List Value} {call : Session (Client (δ × List Event)) →
      Except StoreError α × Session (Client (δ × List Event))}
    (read : Except String Reply → Except StoreError α) (h : c.Holds stmt text)
    (hcall : ∀ s, call s = (s.record ⟨.run, stmt.sql, args⟩).outcome
      (match s.store.open? stmt with
        | .error e => (.error e, s.store)
        | .ok p =>
          let r := C.observed.run p.bound args s.store.database
          (read r.1, { s.store with database := r.2 }))) :
    Sends c (Work.call call) (Ran text args) := by
  intro s hs
  obtain ⟨n, p, hfind, rfl⟩ := (h.of_extends hs).bound_eq
  rw [Work.run_call, hcall]
  by_cases hp : p.closed = true
  · have hopen : s.store.open? stmt = .error (.finalized p.sql) := by
      simp [Client.open?, hfind, hp]
    rw [hopen]
    exact ⟨.refl _, [], (append_nil _).symm, .inr ⟨rfl, _, rfl⟩⟩
  · have hopen : s.store.open? stmt = .ok p := by
      simp [Client.open?, hfind, hp]
    rw [hopen]
    exact ⟨.refl _, _, rfl, .inl rfl⟩

theorem runAll (h : c.Holds stmt text) (args : List Value) :
    Sends c (Work.call (Session.runAll (adapter C.observed a) stmt args)) (Ran text args) := by
  refine run_open C (readReply a.readAll) h fun s => ?_
  show (s.record _).outcome ((adapter C.observed a).runAll stmt args s.store) = _
  unfold adapter adapterAmong
  cases hopen : s.store.open? stmt with
  | error e => simp only [hopen]
  | ok p => simp only [hopen]

theorem runOne (h : c.Holds stmt text) (args : List Value) :
    Sends c (Work.call (Session.runOne (adapter C.observed a) stmt args)) (Ran text args) := by
  refine run_open C (readReply a.readOne) h fun s => ?_
  show (s.record _).outcome ((adapter C.observed a).runOne stmt args s.store) = _
  unfold adapter adapterAmong
  cases hopen : s.store.open? stmt with
  | error e => simp only [hopen]
  | ok p => simp only [hopen]

/-- Preparing sends the text of the statement; if it succeeds the handle stands for that text. -/
theorem prepare_cases (sql : String) (s : Session (Client (δ × List Event))) :
    (∃ e t, Session.prepare (adapter C.observed a) sql s = (.error e, t) ∧
        s.store.Extends t.store ∧
        t.store.database.2 = s.store.database.2 ++ [.prepare (a.bind sql)]) ∨
      ∃ stmt t, Session.prepare (adapter C.observed a) sql s = (.ok stmt, t) ∧
        s.store.Extends t.store ∧ t.store.Holds stmt (a.bind sql) ∧
        t.store.database.2 = s.store.database.2 ++ [.prepare (a.bind sql)] := by
  unfold Session.prepare adapter adapterAmong
  dsimp only
  rcases hr : C.observed.prepare (a.bind sql) s.store.database with ⟨e | ⟨⟩, db⟩
  all_goals
    have hlog : db.2 = s.store.database.2 ++ [.prepare (a.bind sql)] := by
      rw [← congrArg (fun r => r.2.2) hr]
      rfl
  · exact .inl ⟨_, _, rfl, .refl _, hlog⟩
  · refine .inr ⟨_, _, rfl, ?_, ⟨s.store.statements.length, rfl, ?_⟩, hlog⟩
    · exact ⟨[a.bind sql], by simp [Client.texts]⟩
    · simp [Client.texts]

/-- Releasing a statement sends at most that it is closed. -/
theorem finalize_cases {s : Session (Client (δ × List Event))} (h : s.store.Holds stmt text) :
    s.store.Extends (Session.finalize (adapter C.observed a) stmt s).2.store ∧
      ∃ tail, (tail = [] ∨ tail = [.close text]) ∧
        (Session.finalize (adapter C.observed a) stmt s).2.store.database.2 =
          s.store.database.2 ++ tail := by
  obtain ⟨n, p, hfind, rfl⟩ := h.bound_eq
  unfold Session.finalize adapter adapterAmong
  dsimp only
  by_cases hp : p.closed = true
  · simp only [Session.record, hfind, hp, if_true]
    exact ⟨.refl _, [], .inl rfl, (append_nil _).symm⟩
  simp only [Session.record, hfind, hp, Bool.false_eq_true, if_false]
  have hext (db : δ × List Event) :
      s.store.Extends { s.store.markClosed n with database := db } := by
    have := s.store.texts_markClosed n
    exact ⟨[], by rw [append_nil, ← this]; rfl⟩
  cases (C.observed.close p.bound s.store.database).1 <;>
    exact ⟨hext _, _, .inr rfl, rfl⟩

/-- What a prepared statement sends around the work done with it: `P` holds of the outcome of that
work and of what it sends. -/
def Framed (text : String) (P : Except Failure α → List Event → Prop) (r : Except Failure α)
    (events : List Event) : Prop :=
  (events = [.prepare text] ∧ ∃ e, r = .error e) ∨
    ∃ r' inner tail, P r' inner ∧ (∀ x, r = .ok x → r' = .ok x) ∧
      (tail = [] ∨ tail = [.close text]) ∧ events = .prepare text :: inner ++ tail

/-- **A prepared statement**: the work is done on a client where the handle stands for the bound
text of the statement. -/
theorem withStatement {sql : String} {body : Statement → Work (Client (δ × List Event)) α}
    (h : ∀ c' stmt, c'.Holds stmt (a.bind sql) → Sends c' (body stmt) P) :
    Sends c (Work.withStatement (adapter C.observed a) sql body) (Framed (a.bind sql) P) := by
  intro s _
  rw [Work.run_withStatement]
  rcases prepare_cases C a sql s with
    ⟨e, t, hprep, hext, hlog⟩ | ⟨stmt, t, hprep, hext, hholds, hlog⟩
  · rw [hprep]
    exact ⟨hext, _, hlog, .inl ⟨rfl, _, rfl⟩⟩
  rw [hprep]
  dsimp only
  obtain ⟨hext', inner, hinner, hP⟩ := h t.store stmt hholds t (.refl _)
  generalize (body stmt).run t = done at hext' hinner hP ⊢
  obtain ⟨r, u⟩ := done
  obtain ⟨hext'', tail, htail, hclosed⟩ := finalize_cases C a (hholds.of_extends hext')
  refine ⟨(hext.trans hext').trans hext'', .prepare (a.bind sql) :: inner ++ tail, ?_,
    .inr ⟨r, inner, tail, hP, ?_, htail, rfl⟩⟩
  · rw [hclosed, hinner, hlog]
    simp only [append_assoc, cons_append, nil_append]
  intro x hx
  generalize (Session.finalize (adapter C.observed a) stmt u).1 = closed at hx
  rcases r with e | y
  · cases hx
  · rcases closed with e | ⟨⟩ <;> cases hx
    rfl

end Sends

end TreeQuery.Store
