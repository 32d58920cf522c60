import TreeQuery.Proofs.Execute.Exchange
import TreeQuery.Proofs.Store.Traffic

/-!
# The lifetime of prepared statements

Statements are prepared, run and finalized in any order, through any handles and at any of several
stores, and the databases may fail any call.  A `History` is what comes of such requests, one after
the other: of each, the exchange with the caller, what reached the databases, and the prepared
statements before and after.

`Moves` says once what a request can do.  From it follow the two facts that hold along every
history: the statements at hand are what the history says they are (`Accounts`), and each request is
served as the history before it demands (`Orderly`).
-/

namespace TreeQuery.Store

open List

variable {δ : Type}

/-! ## Requests and how they are served -/

/-- A request about one prepared statement. -/
inductive Request where
  | prepare (sql : String)
  | runAll (stmt : Statement) (args : List Value)
  | runOne (stmt : Statement) (args : List Value)
  | finalize (stmt : Statement)

/-- The exchange with the caller, and the client after it. -/
def Request.answer (A : Adapter (Client δ)) (c : Client δ) : Request → Exchange × Client δ
  | .prepare sql => let r := A.prepare sql c; (.prepare sql r.1, r.2)
  | .runAll stmt args => let r := A.runAll stmt args c; (.runAll stmt args r.1, r.2)
  | .runOne stmt args => let r := A.runOne stmt args c; (.runOne stmt args r.1, r.2)
  | .finalize stmt => let r := A.finalize stmt c; (.finalize stmt r.1, r.2)

/-- **A request as it was served**: the exchange with the caller, what reached which database, and
the prepared statements before and after. -/
structure Served where
  before : List Prepared
  exchange : Exchange
  sent : List (Nat × Event)
  after : List Prepared

/-- A client whose databases are under observation. -/
abbrev Watched (δ : Type) : Type := Client (δ × List (Nat × Event))

def watched (C : Nat → Connection δ) (i : Nat) : Connection (δ × List (Nat × Event)) :=
  (C i).observedAs (Prod.mk i)

/-- Asks one of the stores. -/
def serve (C : Nat → Connection δ) (a : Nat → Access) (c : Watched δ) (i : Nat) (r : Request) :
    Served × Watched δ :=
  let (exchange, d) := r.answer (adapterAmong (watched C) i (a i)) c
  (⟨c.statements, exchange, d.database.2.drop c.database.2.length, d.statements⟩, d)

/-- **What comes of requests**, one after the other, while there are no statements at first. -/
inductive History (C : Nat → Connection δ) (a : Nat → Access) : List Served → Watched δ → Prop
  | start (db : δ × List (Nat × Event)) : History C a [] ⟨db, []⟩
  | more {front : List Served} {c : Watched δ} (before : History C a front c) (i : Nat)
      (r : Request) : History C a (front ++ [(serve C a c i r).1]) (serve C a c i r).2

namespace Exchange

/-- The handle that a call was made with. -/
def handle? : Exchange → Option Statement
  | .all .. | .prepare .. => none
  | .runAll stmt .. | .runOne stmt .. | .finalize stmt _ => some stmt

/-- Whether the reply was an error. -/
def failed : Exchange → Bool
  | .all _ _ reply | .runAll _ _ reply => !reply.isOk
  | .prepare _ reply => !reply.isOk
  | .runOne _ _ reply => !reply.isOk
  | .finalize _ reply => !reply.isOk

def isFinalize : Exchange → Bool
  | .finalize .. => true
  | _ => false

end Exchange

/-! ## What a request can do -/

/-- A handle stands for a statement at hand. -/
structure Denotes (ps : List Prepared) (stmt : Statement) (n : Nat) (p : Prepared) : Prop where
  number : stmt.number = some n
  known : ps[n]? = some p

theorem Denotes.lt {ps : List Prepared} {stmt : Statement} {n : Nat} {p : Prepared}
    (h : Denotes ps stmt n p) : n < ps.length :=
  (List.getElem?_eq_some_iff.mp h.known).1

/-- A handle stands for none of so many statements. -/
def Foreign (count : Nat) (stmt : Statement) : Prop :=
  ∀ n, stmt.number = some n → count ≤ n

/-- **What serving a request can do** to the statements at hand. -/
inductive Moves (i : Nat) (a : Access) (ps : List Prepared) :
    Exchange → List (Nat × Event) → List Prepared → Prop
  | refused (sql : String) (e : StoreError) :
    Moves i a ps (.prepare sql (.error e)) [(i, .prepare (a.bind sql))] ps
  | prepared (sql : String) (stmt : Statement) :
    Moves i a ps (.prepare sql (.ok stmt)) [(i, .prepare (a.bind sql))]
      (ps ++ [⟨sql, a.bind sql, false, i⟩])
  | foreign {x : Exchange} {stmt : Statement} (handle : x.handle? = some stmt)
      (unknown : Foreign ps.length stmt) (failed : x.failed = true) : Moves i a ps x [] ps
  | late {x : Exchange} {stmt : Statement} {n : Nat} {p : Prepared} (handle : x.handle? = some stmt)
      (denotes : Denotes ps stmt n p) (closed : p.closed = true)
      (failed : x.failed = !x.isFinalize) : Moves i a ps x [] ps
  | run {x : Exchange} {stmt : Statement} {n : Nat} {p : Prepared} (handle : x.handle? = some stmt)
      (denotes : Denotes ps stmt n p) (still : p.closed = false) (isRun : x.isFinalize = false)
      (args : List Value) : Moves i a ps x [(p.source, .run p.bound args)] ps
  | close {stmt : Statement} {n : Nat} {p : Prepared} (reply : Except StoreError Unit)
      (denotes : Denotes ps stmt n p) (still : p.closed = false) :
    Moves i a ps (.finalize stmt reply) [(p.source, .close p.bound)]
      (ps.modify n fun p => { p with closed := true })

theorem Client.find?_cases (c : Client δ) (stmt : Statement) :
    (c.find? stmt = none ∧ Foreign c.statements.length stmt) ∨
      ∃ n p, c.find? stmt = some (n, p) ∧ Denotes c.statements stmt n p := by
  unfold find?
  cases hn : stmt.number with
  | none => exact .inl ⟨rfl, fun n h => by rw [hn] at h; cases h⟩
  | some n =>
    cases hp : c.statements[n]? with
    | none =>
      refine .inl ⟨by simp [hp], fun m h => ?_⟩
      obtain rfl := Option.some.inj (hn.symm.trans h)
      exact List.getElem?_eq_none_iff.mp hp
    | some p => exact .inr ⟨n, p, by simp [hp], hn, hp⟩

section Serving

variable (C : Nat → Connection δ) (c : Watched δ) (i : Nat)

/-- A run reaches the database only through a statement that is open. -/
theorem moves_run {α : Type} {stmt : Statement} (a : Access) (args : List Value)
    (read : Except String Reply → Except StoreError α) {x : Except StoreError α → Exchange}
    (handle : ∀ r, (x r).handle? = some stmt) (failed : ∀ r, (x r).failed = !r.isOk)
    (isRun : ∀ r, (x r).isFinalize = false) {r : Except StoreError α × Watched δ}
    (hr : r = match c.open? stmt with
      | .error e => (.error e, c)
      | .ok p =>
        let (reply, db) := (watched C p.source).run p.bound args c.database
        (read reply, { c with database := db })) :
    Moves i a c.statements (x r.1) (r.2.database.2.drop c.database.2.length) r.2.statements := by
  rcases c.find?_cases stmt with ⟨hfind, hforeign⟩ | ⟨n, p, hfind, hdenotes⟩
  · simp only [Client.open?, hfind] at hr
    rw [hr, drop_length]
    exact .foreign (handle _) hforeign (failed _)
  cases hp : p.closed with
  | true =>
    simp only [Client.open?, hfind, hp, if_true] at hr
    rw [hr, drop_length]
    exact .late (handle _) hdenotes hp (by rw [failed, isRun]; rfl)
  | false =>
    simp only [Client.open?, hfind, hp, Bool.false_eq_true, if_false] at hr
    have hsent : r.2.database.2.drop c.database.2.length = [(p.source, .run p.bound args)] := by
      rw [hr]
      exact drop_left
    rw [hsent, hr]
    exact .run (handle _) hdenotes hp (isRun _) args

/-- **One request**: whatever the database replies, it does one of these things. -/
theorem moves_serve (a : Nat → Access) (r : Request) :
    Moves i (a i) c.statements (serve C a c i r).1.exchange (serve C a c i r).1.sent
      (serve C a c i r).1.after := by
  have hsent : ∀ e : Nat × Event, (c.database.2 ++ [e]).drop c.database.2.length = [e] :=
    fun _ => drop_left
  cases r with
  | prepare sql =>
    have hlog : ((watched C i).prepare ((a i).bind sql) c.database).2.2 =
      c.database.2 ++ [(i, .prepare ((a i).bind sql))] := rfl
    unfold serve Request.answer adapterAmong
    dsimp only
    generalize (watched C i).prepare ((a i).bind sql) c.database = reply at hlog ⊢
    obtain ⟨e | u, db⟩ := reply <;> dsimp only at hlog ⊢ <;> rw [hlog, hsent]
    · exact .refused sql _
    · exact .prepared sql _
  | runAll stmt args =>
    exact moves_run C c i (a i) args (readReply (a i).readAll) (x := .runAll stmt args)
      (fun _ => rfl) (fun _ => rfl) (fun _ => rfl) rfl
  | runOne stmt args =>
    exact moves_run C c i (a i) args (readReply (a i).readOne) (x := .runOne stmt args)
      (fun _ => rfl) (fun _ => rfl) (fun _ => rfl) rfl
  | finalize stmt =>
    unfold serve Request.answer adapterAmong
    dsimp only
    rcases c.find?_cases stmt with ⟨hfind, hforeign⟩ | ⟨n, p, hfind, hdenotes⟩
    · simp only [hfind, drop_length]
      exact .foreign rfl hforeign rfl
    cases hp : p.closed with
    | true =>
      simp only [hfind, hp, if_true, drop_length]
      exact .late rfl hdenotes hp rfl
    | false =>
      simp only [hfind, hp, Bool.false_eq_true, if_false]
      cases ((watched C p.source).close p.bound c.database).1 <;>
        exact hsent (p.source, .close p.bound) ▸ .close _ hdenotes hp

end Serving

/-! ## What a history says -/

def Event.isClose : Event → Bool
  | .close _ => true
  | _ => false

namespace Served

def prepares (s : Served) : Bool :=
  s.exchange matches .prepare _ (.ok _)

/-- The number of the statement that a request is about; a new one gets the next number. -/
def subject? (s : Served) : Option Nat :=
  match s.exchange with
  | .prepare .. => some s.before.length
  | x => x.handle?.bind Statement.number

/-- The request finalizes the statement of a number. -/
def Finalizes (n : Nat) (s : Served) : Prop :=
  ∃ stmt reply p, s.exchange = .finalize stmt reply ∧ Denotes s.before stmt n p

end Served

open Served

/-- The number of statements that a history has prepared. -/
def preparedIn (history : List Served) : Nat :=
  history.countP prepares

def FinalizedIn (n : Nat) (history : List Served) : Prop :=
  ∃ s ∈ history, s.Finalizes n

/-- How often databases were told to close by requests about the statement of a number. -/
def closesIn (n : Nat) (history : List Served) : Nat :=
  ((history.filter fun s => s.subject? == some n).flatMap sent).countP fun e => e.2.isClose

/-- **A request is served as the history before it demands.** -/
structure Orderly (front : List Served) (s : Served) : Prop where
  /-- There are as many statements as have been prepared. -/
  known : s.before.length = preparedIn front
  /-- A handle that stands for none of them fails, and no database hears of it. -/
  foreign : ∀ stmt, s.exchange.handle? = some stmt → Foreign (preparedIn front) stmt →
    s.exchange.failed = true ∧ s.sent = []
  /-- Once a statement was finalized its runs fail, finalizing it again succeeds, and no database
  hears of either. -/
  late : ∀ stmt n, s.exchange.handle? = some stmt → stmt.number = some n → FinalizedIn n front →
    s.exchange.failed = !s.exchange.isFinalize ∧ s.sent = []
  /-- A statement is run and closed on the database that it was prepared on, whichever store is
  asked. -/
  routed : ∀ stmt n p, s.exchange.handle? = some stmt → Denotes s.before stmt n p →
    ∀ e ∈ s.sent, e.1 = p.source
  /-- A database is told to close a statement only when that is finalized for the first time. -/
  closing : ∀ e ∈ s.sent, e.2.isClose = true → ∃ n p, s.Finalizes n ∧ ¬ FinalizedIn n front ∧
    s.before[n]? = some p ∧ e = (p.source, .close p.bound)
  /-- Other statements stay as they are. -/
  apart : ∀ m, s.subject? ≠ some m → s.after[m]? = s.before[m]?

/-- **The statements at hand are what the history says they are.** -/
structure Accounts (front : List Served) (ps : List Prepared) : Prop where
  length : ps.length = preparedIn front
  finalized : ∀ n, FinalizedIn n front → n < ps.length
  closed : ∀ n p, ps[n]? = some p → (p.closed = true ↔ FinalizedIn n front)
  once : ∀ n, FinalizedIn n front → closesIn n front = 1
  never : ∀ n, ¬ FinalizedIn n front → closesIn n front = 0

variable {front : List Served} {s : Served} {n : Nat} {stmt : Statement}

theorem subject?_of_handle (h : s.exchange.handle? = some stmt) : s.subject? = stmt.number := by
  cases hx : s.exchange <;> simp_all [subject?, Exchange.handle?]

theorem prepares_of_handle (h : s.exchange.handle? = some stmt) : s.prepares = false := by
  cases hx : s.exchange <;> simp_all [prepares, Exchange.handle?]

theorem finalizes_iff {reply : Except StoreError Unit} {p : Prepared} {m : Nat}
    (h : s.exchange = .finalize stmt reply) (hdenotes : Denotes s.before stmt n p) :
    s.Finalizes m ↔ m = n := by
  constructor
  · rintro ⟨stmt', reply', p', h', hdenotes'⟩
    cases h.symm.trans h'
    exact Option.some.inj (hdenotes'.number.symm.trans hdenotes.number)
  · rintro rfl
    exact ⟨stmt, reply, p, h, hdenotes⟩

theorem preparedIn_concat :
    preparedIn (front ++ [s]) = preparedIn front + if s.prepares then 1 else 0 := by
  simp [preparedIn, countP_append, countP_singleton]

theorem finalizedIn_concat :
    FinalizedIn n (front ++ [s]) ↔ FinalizedIn n front ∨ s.Finalizes n := by
  simp [FinalizedIn, or_and_right, exists_or]

theorem closesIn_concat :
    closesIn n (front ++ [s]) = closesIn n front +
      if s.subject? = some n then s.sent.countP (fun e => e.2.isClose) else 0 := by
  unfold closesIn
  rw [filter_append, flatMap_append, countP_append]
  by_cases h : s.subject? = some n <;> simp [h]

/-- A request that neither closes a statement nor finalizes one anew leaves the accounts as they
are, but for a new statement. -/
theorem Accounts.idle (h : Accounts front s.before)
    (hlength : s.after.length = s.before.length + if s.prepares then 1 else 0)
    (hfinal : ∀ n, s.Finalizes n → FinalizedIn n front)
    (hsent : s.sent.countP (fun e => e.2.isClose) = 0)
    (hclosed : ∀ n p, s.after[n]? = some p → (p.closed ↔ FinalizedIn n front)) :
    Accounts (front ++ [s]) s.after := by
  have hsame : ∀ n, FinalizedIn n (front ++ [s]) ↔ FinalizedIn n front :=
    fun n => finalizedIn_concat.trans (or_iff_left_of_imp (hfinal n))
  have hcloses : ∀ n, closesIn n (front ++ [s]) = closesIn n front := by
    intro n
    rw [closesIn_concat, hsent, ite_self, Nat.add_zero]
  constructor
  · rw [hlength, preparedIn_concat, h.length]
  · intro n hn
    exact Nat.lt_of_lt_of_le (h.finalized n ((hsame n).mp hn)) (by omega)
  · intro n p hp
    rw [hsame]
    exact hclosed n p hp
  · intro n hn
    rw [hcloses, h.once n ((hsame n).mp hn)]
  · intro n hn
    rw [hcloses, h.never n fun hfront => hn ((hsame n).mpr hfront)]

/-- **What one request adds to the accounts.** -/
theorem Accounts.concat {i : Nat} {a : Access} (h : Accounts front s.before)
    (hm : Moves i a s.before s.exchange s.sent s.after) : Accounts (front ++ [s]) s.after := by
  obtain ⟨ps, x, sent, ps'⟩ := s
  dsimp only at h hm ⊢
  cases hm with
  | refused sql e => exact h.idle rfl (fun n hn => by grind [Finalizes]) rfl h.closed
  | prepared sql stmt =>
    refine h.idle (by simp [prepares]) (fun n hn => by grind [Finalizes]) rfl ?_
    intro n p hp
    -- the new statement is open, and nobody can have finalized it
    grind [h.closed n p, h.finalized n]
  | foreign handle unknown failed =>
    refine h.idle (by rw [prepares_of_handle handle]; rfl) ?_ rfl h.closed
    rintro n ⟨stmt, reply, p, rfl, hdenotes⟩
    cases handle
    exact absurd hdenotes.lt (Nat.not_lt.mpr (unknown n hdenotes.number))
  | late handle denotes closed failed =>
    refine h.idle (by rw [prepares_of_handle handle]; rfl) ?_ rfl h.closed
    rintro n ⟨stmt, reply, p, rfl, hdenotes⟩
    cases handle
    obtain rfl := Option.some.inj (denotes.number.symm.trans hdenotes.number)
    exact (h.closed _ _ denotes.known).mp closed
  | run handle denotes still isRun args =>
    refine h.idle (by rw [prepares_of_handle handle]; rfl) ?_ rfl h.closed
    rintro n ⟨stmt, reply, p, rfl, -⟩
    cases isRun
  | @close stmt n p reply denotes still =>
    have hfresh : ¬ FinalizedIn n front := by
      rw [← h.closed n p denotes.known, still]
      exact Bool.false_ne_true
    constructor
    · rw [length_modify, preparedIn_concat, h.length]
      rfl
    · intro m hm
      rw [finalizedIn_concat, finalizes_iff rfl denotes] at hm
      rw [length_modify]
      rcases hm with hm | rfl
      · exact h.finalized m hm
      · exact denotes.lt
    · intro m q hq
      rw [finalizedIn_concat, finalizes_iff rfl denotes]
      grind [h.closed m]
    all_goals
      intro m hm
      rw [finalizedIn_concat, finalizes_iff rfl denotes] at hm
      rw [closesIn_concat, subject?_of_handle rfl, denotes.number]
      grind [h.once m, h.never m, Event.isClose]

section Histories

variable {C : Nat → Connection δ} {a : Nat → Access} {log : List Served} {c : Watched δ}

theorem History.accounts (h : History C a log c) : Accounts log c.statements := by
  induction h with
  | start db => exact ⟨rfl, by simp [FinalizedIn], by simp, by simp [FinalizedIn], fun _ _ => rfl⟩
  | @more front c _ i r ih => exact ih.concat (s := (serve C a c i r).1) (moves_serve C c i a r)

end Histories

end TreeQuery.Store
