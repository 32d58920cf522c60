import Mathlib.Algebra.GroupWithZero.Nat
import TreeQuery.Proofs.Command.Action
import TreeQuery.Proofs.Execute.Lifecycle
import TreeQuery.Proofs.Explain.Listing

/-!
# How runs are accounted for

The calls of an execution come from a log in which statements are nested (`Orderly`).  There each
statement has runs of its own, those made between its preparation and its finalization and not
inside of another statement (`ownRuns`), and `accounts` lists them.

A statement is known by its text when calls are collected.  So the collected statements agree with
the accounts as long as no statement is prepared inside of one with its own text (`Untwinned`).
Otherwise the outer statement has its runs only until the inner one is prepared (`reported`), and
the runs that follow are lost (`runs_lost`).  `statements_account` says so of all logs, and of the
runs of queries on all stores.
-/

namespace TreeQuery.Explain

open List Store

/-! ## The runs of nested statements -/

open Execute

/-- **The runs of a statement's own** among exchanges: those made while it is the innermost one, up
to its finalization.  It lies below `n` others at first. -/
def ownRuns : Nat → List Exchange → List (List Value)
  | _, [] => []
  | n, .all _ _ _ :: rest => ownRuns n rest
  | n, .prepare _ (.ok _) :: rest => ownRuns (n + 1) rest
  | n, .prepare _ (.error _) :: rest => ownRuns n rest
  | 0, .runAll _ args _ :: rest => args :: ownRuns 0 rest
  | n + 1, .runAll _ _ _ :: rest => ownRuns (n + 1) rest
  | 0, .runOne _ args _ :: rest => args :: ownRuns 0 rest
  | n + 1, .runOne _ _ _ :: rest => ownRuns (n + 1) rest
  | 0, .finalize _ _ :: _ => []
  | n + 1, .finalize _ _ :: rest => ownRuns n rest

/-- The statements of a log, one for each direct query and one for each preparation.  A statement
that could be prepared has its own runs among the exchanges that follow, as far as `reach` goes. -/
def listedWithin (reach : String → List Exchange → List Exchange) : List Exchange → List Statement
  | [] => []
  | .all sql args _ :: rest => ⟨false, sql, [args]⟩ :: listedWithin reach rest
  | .prepare sql (.ok _) :: rest =>
    ⟨true, sql, ownRuns 0 (reach sql rest)⟩ :: listedWithin reach rest
  | .prepare sql (.error _) :: rest => ⟨true, sql, []⟩ :: listedWithin reach rest
  | .runAll _ _ _ :: rest => listedWithin reach rest
  | .runOne _ _ _ :: rest => listedWithin reach rest
  | .finalize _ _ :: rest => listedWithin reach rest

/-- **The accounts of a log**: every statement with all of its own runs. -/
def accounts : List Exchange → List Statement :=
  listedWithin fun _ l => l

/-- An exchange that prepares, or fails to prepare, a statement with a text. -/
def prepares (sql : String) : Exchange → Bool
  | .prepare sql' _ => sql' == sql
  | _ => false

/-- **What is reported of a log**: every statement with its own runs up to the next preparation of
its text. -/
def reported : List Exchange → List Statement :=
  listedWithin fun sql l => l.takeWhile fun e => !prepares sql e

/-- The exchanges lead from some open statements to others, innermost first: only the innermost one
is run or finalized. -/
def Leads (opened : List Store.Statement) (l : List Exchange) (after : List Store.Statement) :
    Prop :=
  (lifeEvents (fun _ => true) l).foldlM LifeEvent.next opened = some after

section Leads

variable {opened after : List Store.Statement} {rest : List Exchange} {stmt : Store.Statement}

theorem leads_event {e : Exchange} {event : LifeEvent}
    (he : lifeEvent? (fun _ => true) e = some event) (h : Leads opened (e :: rest) after) :
    ∃ mid, LifeEvent.next opened event = some mid ∧ Leads mid rest after := by
  rw [Leads, lifeEvents, filterMap_cons_some he, foldlM_cons] at h
  cases hnext : LifeEvent.next opened event with
  | none =>
    rw [hnext] at h
    cases h
  | some mid =>
    rw [hnext] at h
    exact ⟨mid, rfl, h⟩

theorem Leads.ran {e : Exchange} (he : lifeEvent? (fun _ => true) e = some (.ran stmt))
    (h : Leads opened (e :: rest) after) :
    Leads opened rest after ∧ ∃ below, opened = stmt :: below := by
  obtain ⟨mid, hnext, hrest⟩ := leads_event he h
  obtain ⟨hhead, rfl⟩ := LifeEvent.next_ran_eq_some.mp hnext
  exact ⟨hrest, List.head?_eq_some_iff.mp hhead⟩

theorem Leads.finalized {reply : Except StoreError Unit}
    (h : Leads opened (.finalize stmt reply :: rest) after) :
    ∃ below, opened = stmt :: below ∧ Leads below rest after := by
  obtain ⟨mid, hnext, hrest⟩ := leads_event rfl h
  exact ⟨mid, LifeEvent.next_finalized_eq_some.mp hnext, hrest⟩

end Leads

/-- The store failed to prepare a statement. -/
def refused : Exchange → Bool
  | .prepare _ (.error _) => true
  | _ => false

/-- Once a statement could not be prepared, nothing is done but to finalize others. -/
def Halts (l : List Exchange) : Prop :=
  l.Pairwise fun e later => refused e = true → later.call.kind = .finalize

/-- Statements keep the texts that they are prepared with. -/
def Faithful (l : List Exchange) : Prop :=
  ∀ sql stmt, Exchange.prepare sql (.ok stmt) ∈ l → stmt.sql = sql

/-- **The log of an execution**: statements are nested, keep their texts, and none is run after
another could not be prepared. -/
structure Orderly (l : List Exchange) : Prop where
  bracketed : WellBracketed (lifeEvents (fun _ => true) l)
  faithful : Faithful l
  halts : Halts l

variable {l : List Exchange}

theorem Faithful.tail {e : Exchange} (h : Faithful (e :: l)) : Faithful l :=
  fun sql stmt hmem => h sql stmt (mem_cons_of_mem _ hmem)

theorem runsUntil_of_finalizing (sql : String) (h : ∀ e ∈ l, e.call.kind = .finalize) :
    runsUntil sql (l.map Exchange.call) = [] := by
  induction l with
  | nil => rfl
  | cons e l ih =>
    rw [map_cons, runsUntil, h e mem_cons_self, ih fun e he => h e (.tail _ he)]
    split <;> rfl

theorem ownRuns_of_finalizing (h : ∀ e ∈ l, e.call.kind = .finalize) (n : Nat) :
    ownRuns n l = [] := by
  induction l generalizing n with
  | nil => rfl
  | cons e l ih =>
    have hrest := ih fun e he => h e (mem_cons_of_mem _ he)
    have hkind := h e mem_cons_self
    cases e with
    | finalize stmt reply =>
      cases n with
      | zero => rfl
      | succ n => exact hrest n
    | _ => cases hkind

/-- **The runs of a text are those of the statement**, up to the next preparation of its text: the
statements above it have other texts. -/
theorem runsUntil_eq_ownRuns {sql : String} {stmt : Store.Statement} (above : List Store.Statement)
    {opened after : List Store.Statement} (hstmt : stmt.sql = sql)
    (habove : ∀ p ∈ above, p.sql ≠ sql) (hl : Leads (above ++ stmt :: opened) l after)
    (htexts : Faithful l) :
    runsUntil sql (l.map Exchange.call) =
      ownRuns above.length (l.takeWhile fun e => !prepares sql e) := by
  -- `above` are the statements opened since: none has the text, or the runs would have ended there
  induction l generalizing above with
  | nil => rfl
  | cons e l ih =>
    -- the innermost statement is run, which has the text just if nothing lies above
    have hrun : ∀ {runner args}, Leads (above ++ stmt :: opened) l after →
        (∃ below, above ++ stmt :: opened = runner :: below) →
        (if runner.sql = sql then args :: runsUntil sql (l.map Exchange.call)
          else runsUntil sql (l.map Exchange.call)) =
        if above.length = 0 then
          args :: ownRuns above.length (l.takeWhile fun e => !prepares sql e)
        else ownRuns above.length (l.takeWhile fun e => !prepares sql e) := by
      rintro runner args hrest ⟨below, hhead⟩
      rw [ih above habove hrest htexts.tail]
      cases above with
      | nil =>
        cases hhead
        rw [if_pos hstmt, if_pos length_nil]
      | cons p above =>
        cases hhead
        rw [if_neg (habove _ mem_cons_self), if_neg (by simp)]
    cases e with
    | all text args reply =>
      refine Eq.trans ?_ (ih above habove hl htexts.tail)
      simp [Exchange.call, runsUntil]
    | prepare text reply =>
      by_cases htext : text = sql
      · subst htext
        simp [Exchange.call, runsUntil, prepares, ownRuns]
      rw [map_cons, runsUntil_of_ne htext, takeWhile_cons_of_pos (by simp [prepares, htext])]
      cases reply with
      | ok p =>
        refine ih (p :: above) ?_ hl htexts.tail
        intro p' hp'
        rcases mem_cons.mp hp' with rfl | hp'
        · rw [htexts text p' mem_cons_self]
          exact htext
        · exact habove p' hp'
      | error _ => exact ih above habove hl htexts.tail
    | runAll runner args reply =>
      obtain ⟨hrest, hhead⟩ := hl.ran rfl
      refine (hrun hrest hhead).trans ?_
      rw [takeWhile_cons_of_pos rfl]
      cases above <;> rfl
    | runOne runner args reply =>
      obtain ⟨hrest, hhead⟩ := hl.ran rfl
      refine (hrun hrest hhead).trans ?_
      rw [takeWhile_cons_of_pos rfl]
      cases above <;> rfl
    | finalize closed reply =>
      obtain ⟨below, hhead, hrest⟩ := hl.finalized
      rw [map_cons, takeWhile_cons_of_pos rfl]
      cases above with
      | nil =>
        cases hhead
        simp [Exchange.call, runsUntil, hstmt, ownRuns]
      | cons p above =>
        cases hhead
        rw [runsUntil_of_ne (habove _ mem_cons_self)]
        exact ih above (fun p hp => habove p (mem_cons_of_mem _ hp)) hrest htexts.tail

/-- What is listed of the calls of a log is what is reported of the log. -/
theorem listing_eq_reported (opened : List Store.Statement) {after : List Store.Statement}
    (hl : Leads opened l after) (htexts : Faithful l) (hhalts : Halts l) :
    listing (l.map Exchange.call) = reported l := by
  induction l generalizing opened with
  | nil => rfl
  | cons e l ih =>
    obtain ⟨hlater, hhalts'⟩ := pairwise_cons.mp hhalts
    cases e with
    | all sql args reply => exact congrArg (_ :: ·) (ih opened hl htexts.tail hhalts')
    | prepare sql reply =>
      cases reply with
      | ok stmt =>
        have hruns := runsUntil_eq_ownRuns [] (htexts sql stmt mem_cons_self)
          (fun _ hp => absurd hp not_mem_nil) hl htexts.tail
        have hrest := ih (stmt :: opened) hl htexts.tail hhalts'
        show (⟨true, sql, runsUntil sql _⟩ :: listing _ : List Statement) = _
        rw [hruns, hrest]
        rfl
      | error _ =>
        -- it is listed as if it were open, but from here on statements are only finalized
        show (⟨true, sql, runsUntil sql _⟩ :: listing _ : List Statement) = _
        rw [runsUntil_of_finalizing sql fun e he => hlater e he rfl,
          ih opened hl htexts.tail hhalts']
        rfl
    | runAll stmt args reply => exact ih opened (hl.ran rfl).1 htexts.tail hhalts'
    | runOne stmt args reply => exact ih opened (hl.ran rfl).1 htexts.tail hhalts'
    | finalize stmt reply =>
      obtain ⟨below, -, hrest⟩ := hl.finalized
      exact ih below hrest htexts.tail hhalts'

/-! ## Statements inside of others with the same text -/

/-- No statement is prepared inside of one with its own text; some texts are those of the open
statements. -/
def Untwinned : List String → List Exchange → Bool
  | _, [] => true
  | opened, .prepare sql (.ok _) :: rest => !opened.contains sql && Untwinned (sql :: opened) rest
  | opened, .finalize _ _ :: rest => Untwinned opened.tail rest
  | opened, .all _ _ _ :: rest => Untwinned opened rest
  | opened, .prepare _ (.error _) :: rest => Untwinned opened rest
  | opened, .runAll _ _ _ :: rest => Untwinned opened rest
  | opened, .runOne _ _ _ :: rest => Untwinned opened rest

/-- Without twins inside of it, a statement has all of its own runs before the next preparation of
its text. -/
theorem ownRuns_takeWhile {sql : String} (above : List String) {opened : List String}
    (hl : Untwinned (above ++ sql :: opened) l) (hhalts : Halts l) :
    ownRuns above.length (l.takeWhile fun e => !prepares sql e) = ownRuns above.length l := by
  induction l generalizing above with
  | nil => rfl
  | cons e l ih =>
    obtain ⟨hlater, hhalts'⟩ := pairwise_cons.mp hhalts
    cases e with
    | all text args reply =>
      rw [takeWhile_cons_of_pos rfl]
      exact ih above hl hhalts'
    | prepare text reply =>
      cases reply with
      | ok stmt =>
        obtain ⟨hnew, hrest⟩ := Bool.and_eq_true_iff.mp hl
        have htext : text ≠ sql := by
          rintro rfl
          simp at hnew
        rw [takeWhile_cons_of_pos (by simp [prepares, htext])]
        exact ih (text :: above) hrest hhalts'
      | error reason =>
        by_cases htext : text = sql
        · -- a failed preparation of the text cuts the runs off too, but none follow it
          rw [takeWhile_cons_of_neg (by simp [prepares, htext])]
          exact (ownRuns_of_finalizing (fun e he => hlater e he rfl) above.length).symm
        · rw [takeWhile_cons_of_pos (by simp [prepares, htext])]
          exact ih above hl hhalts'
    | runAll stmt args reply =>
      have hrest := ih above hl hhalts'
      rw [takeWhile_cons_of_pos rfl]
      cases above with
      | nil => exact congrArg (args :: ·) hrest
      | cons p above => exact hrest
    | runOne stmt args reply =>
      have hrest := ih above hl hhalts'
      rw [takeWhile_cons_of_pos rfl]
      cases above with
      | nil => exact congrArg (args :: ·) hrest
      | cons p above => exact hrest
    | finalize stmt reply =>
      rw [takeWhile_cons_of_pos rfl]
      cases above with
      | nil => rfl
      | cons p above => exact ih above hl hhalts'

theorem reported_eq_accounts {opened : List String} (hl : Untwinned opened l) (hhalts : Halts l) :
    reported l = accounts l := by
  induction l generalizing opened with
  | nil => rfl
  | cons e l ih =>
    have hhalts' := (pairwise_cons.mp hhalts).2
    cases e with
    | all sql args reply => exact congrArg (_ :: ·) (ih hl hhalts')
    | prepare sql reply =>
      cases reply with
      | ok stmt =>
        have hrest := (Bool.and_eq_true_iff.mp hl).2
        have hruns : ownRuns 0 (l.takeWhile fun e => !prepares sql e) = ownRuns 0 l :=
          ownRuns_takeWhile [] hrest hhalts'
        show (⟨true, sql, ownRuns 0 (l.takeWhile fun e => !prepares sql e)⟩ :: reported l :
          List Statement) = ⟨true, sql, ownRuns 0 l⟩ :: accounts l
        rw [ih hrest hhalts', hruns]
      | error reason => exact congrArg (_ :: ·) (ih hl hhalts')
    | runAll stmt args reply => exact ih hl hhalts'
    | runOne stmt args reply => exact ih hl hhalts'
    | finalize stmt reply => exact ih hl hhalts'

/-! ## Counting -/

/-- The number of runs that prepared statements have. -/
def runsOf (statements : List Statement) : Nat :=
  ((statements.filter Statement.prepared).map fun s => s.runs.length).sum

/-- The number of runs among exchanges. -/
def runsIn (l : List Exchange) : Nat :=
  l.countP fun e => e.call.kind == .run

/-- The number of runs that are the own ones of the open statements, of which there are some. -/
def openRuns : Nat → List Exchange → Nat
  | 0, _ => 0
  | n + 1, l => openRuns n l + (ownRuns n l).length

theorem openRuns_nil (n : Nat) : openRuns n [] = 0 := by
  induction n with
  | zero => rfl
  | succ n ih => rw [openRuns, ih, ownRuns, length_nil]

section OpenRuns

variable {e : Exchange} {l : List Exchange}

theorem openRuns_cons (h : ∀ n, ownRuns n (e :: l) = ownRuns n l) (n : Nat) :
    openRuns n (e :: l) = openRuns n l := by
  induction n with
  | zero => rfl
  | succ n ih => rw [openRuns, openRuns, ih, h]

/-- After a preparation, the own runs of the new statement are those of an open one. -/
theorem openRuns_prepare (h : ∀ n, ownRuns n (e :: l) = ownRuns (n + 1) l) (n : Nat) :
    openRuns n (e :: l) + (ownRuns 0 l).length = openRuns (n + 1) l := by
  induction n with
  | zero => rfl
  | succ n ih =>
    rw [openRuns, h, openRuns, ← ih]
    omega

theorem openRuns_run {args : List Value} (hown : ownRuns 0 (e :: l) = args :: ownRuns 0 l)
    (hothers : ∀ n, ownRuns (n + 1) (e :: l) = ownRuns (n + 1) l) (n : Nat) :
    openRuns (n + 1) (e :: l) = openRuns (n + 1) l + 1 := by
  induction n with
  | zero =>
    simp only [openRuns, hown, length_cons]
    omega
  | succ n ih =>
    show openRuns (n + 1) (e :: l) + (ownRuns (n + 1) (e :: l)).length =
      openRuns (n + 1) l + (ownRuns (n + 1) l).length + 1
    rw [ih, hothers]
    omega

theorem openRuns_finalize (hown : ownRuns 0 (e :: l) = [])
    (hothers : ∀ n, ownRuns (n + 1) (e :: l) = ownRuns n l) (n : Nat) :
    openRuns (n + 1) (e :: l) = openRuns n l := by
  induction n with
  | zero => simp only [openRuns, hown, length_nil]
  | succ n ih => rw [openRuns, ih, hothers, openRuns]

end OpenRuns

/-- **Every run is some statement's own**: that of one of the statements that are open at first, or
of one that is prepared later. -/
theorem openRuns_add_runsOf (opened : List Store.Statement) {after : List Store.Statement}
    (hl : Leads opened l after) : openRuns opened.length l + runsOf (accounts l) = runsIn l := by
  induction l generalizing opened with
  | nil => exact congrArg (· + 0) (openRuns_nil opened.length)
  | cons e l ih =>
    cases e with
    | all sql args reply =>
      rw [openRuns_cons (e := .all sql args reply) fun _ => rfl]
      exact ih opened hl
    | prepare sql reply =>
      cases reply with
      | ok stmt =>
        have hsum := openRuns_prepare (e := .prepare sql (.ok stmt)) (l := l) (fun _ => rfl)
          opened.length
        have hruns : runsOf (accounts (.prepare sql (.ok stmt) :: l)) =
            (ownRuns 0 l).length + runsOf (accounts l) := rfl
        have hrest : openRuns (opened.length + 1) l + runsOf (accounts l) = runsIn l :=
          ih (stmt :: opened) hl
        show _ = runsIn l
        omega
      | error reason =>
        have hruns : runsOf (accounts (.prepare sql (.error reason) :: l)) =
            0 + runsOf (accounts l) := rfl
        rw [hruns, Nat.zero_add, openRuns_cons (e := .prepare sql (.error reason)) fun _ => rfl]
        exact ih opened hl
    | runAll stmt args reply =>
      obtain ⟨hrest, below, rfl⟩ := hl.ran rfl
      rw [length_cons, openRuns_run (e := .runAll stmt args reply) rfl fun _ => rfl,
        Nat.add_right_comm, runsIn, countP_cons_of_pos rfl]
      exact congrArg (· + 1) (ih _ hrest)
    | runOne stmt args reply =>
      obtain ⟨hrest, below, rfl⟩ := hl.ran rfl
      rw [length_cons, openRuns_run (e := .runOne stmt args reply) rfl fun _ => rfl,
        Nat.add_right_comm, runsIn, countP_cons_of_pos rfl]
      exact congrArg (· + 1) (ih _ hrest)
    | finalize stmt reply =>
      obtain ⟨below, rfl, hrest⟩ := hl.finalized
      rw [length_cons, openRuns_finalize (e := .finalize stmt reply) rfl fun _ => rfl]
      exact ih below hrest

/-! ## The logs of executions -/

/-- What is said in a work that succeeds or not: texts are kept, and the work does not succeed if a
statement could not be prepared. -/
structure Says (ok : Bool) (l : List Exchange) : Prop where
  faithful : Faithful l
  halts : Halts l
  accepted : ok = true → ∀ e ∈ l, refused e = false

section Says

variable {ok : Bool} {l l' : List Exchange}

theorem says_nil (ok : Bool) : Says ok [] :=
  ⟨fun _ _ h => absurd h not_mem_nil, .nil, fun _ _ h => absurd h not_mem_nil⟩

theorem says_singleton {e : Exchange} (he : e.call.kind ≠ .prepare) : Says ok [e] := by
  have hrefused : refused e = false := by
    cases e with
    | prepare sql reply => exact absurd rfl he
    | _ => rfl
  refine ⟨fun sql stmt h => ?_, pairwise_singleton _ _, fun _ e' h => ?_⟩
  · rw [← mem_singleton.mp h] at he
    exact absurd rfl he
  · rwa [mem_singleton.mp h]

theorem Says.append (h : Says true l) (h' : Says ok l') : Says ok (l ++ l') where
  faithful sql stmt hmem := (mem_append.mp hmem).elim (h.faithful sql stmt)
    (h'.faithful sql stmt)
  halts := pairwise_append.mpr ⟨h.halts, h'.halts, fun e he _ _ hrefused => by
    rw [h.accepted rfl e he] at hrefused
    cases hrefused⟩
  accepted hok e he := (mem_append.mp he).elim (h.accepted rfl e) (h'.accepted hok e)

/-- What is said around the work with a prepared statement. -/
theorem Says.bracket {sql : String} {stmt : Store.Statement} (hsql : stmt.sql = sql)
    (h : Says ok l) (closed : Except StoreError Unit) (ok' : Bool) :
    Says (ok && ok') (.prepare sql (.ok stmt) :: l ++ [.finalize stmt closed]) where
  faithful sql' stmt' hmem := by
    rcases mem_append.mp hmem with hmem | hmem
    · rcases mem_cons.mp hmem with heq | hmem
      · cases heq
        exact hsql
      · exact h.faithful sql' stmt' hmem
    · cases mem_singleton.mp hmem
  halts := by
    refine pairwise_append.mpr ⟨pairwise_cons.mpr ⟨fun _ _ hrefused => ?_, h.halts⟩,
      pairwise_singleton _ _, fun _ _ e he _ => ?_⟩
    · cases hrefused
    · rw [mem_singleton.mp he]
      rfl
  accepted hok e he := by
    rcases mem_append.mp he with he | he
    · rcases mem_cons.mp he with rfl | he
      · rfl
      · exact h.accepted (Bool.and_eq_true_iff.mp hok).1 e he
    · rw [mem_singleton.mp he]
      rfl

end Says

section Executions

variable {σ : Type} {A : Adapter σ}

theorem sayable_of_keepsTexts (hA : A.KeepsTexts) : Sayable A fun _ => Says where
  nothing _ := says_nil
  append h h' := h.append h'
  all _ _ _ _ _ := says_singleton nofun
  runAll _ _ _ _ := says_singleton nofun
  runOne _ _ _ _ := says_singleton nofun
  refused _ _ _ := by
    refine ⟨fun sql stmt hmem => ?_, pairwise_singleton _ _, fun hok => ?_⟩
    · cases mem_singleton.mp hmem
    · cases hok
  bracket _ hprepared h := h.bracket (hA (Prod.ext hprepared rfl))

/-- Watching changes nothing in the calls of a run. -/
theorem watches_executeAll (d : Sql.Dialect) (index : Nat) (roots : List Query.Relation)
    {s : Session σ} {u : Session (Logged σ)} (hw : Watches s u) :
    Watches (Command.executeAll A d index roots s).2
      (Command.executeAll A.observed d index roots u).2 := by
  induction roots generalizing index s u with
  | nil => exact hw
  | cons root rest ih =>
    obtain ⟨hr, ht⟩ := (callWise_watched A).compositional.execute d root s u hw
    rcases h : (execute A d root).run s with ⟨r, t⟩
    rcases h' : (execute A.observed d root).run u with ⟨r', t'⟩
    rw [h, h'] at hr ht
    obtain rfl : r = r' := hr
    cases r with
    | error e =>
      rw [Command.executeAll_cons_error h, Command.executeAll_cons_error h']
      exact ht
    | ok v =>
      rw [Command.executeAll_cons_ok h, Command.executeAll_cons_ok h']
      exact ih (index + 1) ht

/-- **What a run adds to the exchanges** is orderly: its blocks are, and only the last one may
fail. -/
theorem said_executeAll (hA : A.KeepsTexts) (d : Sql.Dialect) (index : Nat)
    (roots : List Query.Relation) (u : Session (Logged σ)) :
    ∃ l, (Command.executeAll A.observed d index roots u).2.seen = u.seen ++ l ∧
      Says (Command.executeAll A.observed d index roots u).1.isOk l ∧
      Inside none (lifeEvents (fun _ => true) l) := by
  induction roots generalizing index u with
  | nil => exact ⟨[], (append_nil _).symm, says_nil _, inside_nil none⟩
  | cons root rest ih =>
    obtain ⟨l, hl, hinside⟩ := (sayable_inside A fun _ => true).execute d root u
    obtain ⟨l', hl', hsaid⟩ := (sayable_of_keepsTexts hA).execute d root u
    -- both speak of what was added to the exchanges seen before
    obtain rfl : l' = l := append_cancel_left (hl'.symm.trans hl)
    rcases h : (execute A.observed d root).run u with ⟨e | v, t⟩
    · rw [h] at hl hsaid
      rw [Command.executeAll_cons_error h]
      exact ⟨l', hl, hsaid, hinside⟩
    rw [h] at hl hsaid
    rw [Command.executeAll_cons_ok h]
    obtain ⟨m, hm, hsaid', hinside'⟩ := ih (index + 1) t
    refine ⟨l' ++ m, by rw [hm, hl, append_assoc], hsaid.append ?_, ?_⟩
    · generalize (Command.executeAll A.observed d (index + 1) rest t).1 = r at hsaid' ⊢
      cases r <;> exact hsaid'
    · rw [lifeEvents_append]
      exact hinside.append hinside'

/-- The store behind a connection keeps the texts of statements. -/
theorem keepsTexts_adapter {δ : Type} (C : Connection δ) (a : Access) :
    (Store.adapter C a).KeepsTexts := by
  intro sql c stmt c' h
  unfold Store.adapter Store.adapterAmong at h
  dsimp only at h
  split at h
  · cases h
  · cases h
    rfl

end Executions

/-- **The log of a run**: what its executions and the store said to each other. -/
def log {σ : Type} (A : Adapter σ) (d : Sql.Dialect) (roots : List Query.Relation) (s : σ) :
    List Exchange :=
  (Command.executeAll A.observed d 1 roots { store := (s, []) }).2.seen

/-- **How runs are accounted for.**  The statements of any orderly log are those that are reported
of it: one for each direct query and one for each preparation, in order, with the statement's own
runs up to the next preparation of its text.  If no statement is prepared inside of one with its own
text, these are all of its runs, and the runs add up.  The calls that a run of queries makes are
those of an orderly log, whatever becomes of the run, on every store that keeps the texts of
statements; the store behind a connection does. -/
theorem statements_account {σ : Type} (A : Adapter σ) (d : Sql.Dialect)
    (roots : List Query.Relation) (s : σ) :
    (∀ l, Orderly l →
      statements (l.map Exchange.call) = reported l ∧
        (Untwinned [] l = true →
          statements (l.map Exchange.call) = accounts l ∧
            runsOf (statements (l.map Exchange.call)) = runsIn l)) ∧
      (A.KeepsTexts →
        Orderly (log A d roots s) ∧
          (Command.executeAll A d 1 roots { store := s }).2.calls =
            (log A d roots s).map Exchange.call) ∧
      ∀ {δ : Type} (C : Connection δ) (a : Access), (Store.adapter C a).KeepsTexts := by
  refine ⟨fun l hl => ?_, fun hA => ?_, keepsTexts_adapter⟩
  · have hreported : statements (l.map Exchange.call) = reported l := by
      rw [statements_eq_listing]
      exact listing_eq_reported [] hl.bracketed hl.faithful hl.halts
    refine ⟨hreported, fun huntwinned => ?_⟩
    have haccounts := hreported.trans (reported_eq_accounts huntwinned hl.halts)
    have hcount := openRuns_add_runsOf [] hl.bracketed
    rw [List.length_nil, openRuns, Nat.zero_add] at hcount
    exact ⟨haccounts, by rw [haccounts, hcount]⟩
  · obtain ⟨l, hl, hsaid, hinside⟩ := said_executeAll hA d 1 roots
      ({ store := (s, []) } : Session (Logged σ))
    obtain ⟨-, hcalls, hseen⟩ := watches_executeAll (A := A) d 1 roots (s := { store := s })
      (u := { store := (s, []) }) ⟨rfl, rfl, rfl⟩
    have hlog : log A d roots s = l := hl
    refine ⟨?_, hcalls.trans hseen⟩
    rw [hlog]
    exact ⟨hinside [] fun _ h => (by cases h), hsaid.faithful, hsaid.halts⟩

/-! ## Runs that are lost -/

/-- A store in which cars refer to users, and every statement gives two rows. -/
def circle : Adapter Unit where
  all sql _ _ :=
    (.ok (if sql = Schema.Catalog.sqlite.columns then
        ["id", "userId"].map fun n => Row.ofList [("name", .text n), ("type", .text "INTEGER")]
      else [Row.ofList [("from", .text "userId"), ("table", .text "users"), ("to", .text "id")]]),
      ())
  prepare sql _ := (.ok ⟨sql, none⟩, ())
  runAll _ _ _ := (.ok rows, ())
  runOne _ _ _ := (.ok rows.head?, ())
  finalize _ _ := (.ok (), ())
where
  rows : List Record := [1, 2].map fun n => Row.ofList [("id", .int n), ("userId", .int n)]

theorem keepsTexts_circle : circle.KeepsTexts := by
  intro sql s stmt s' h
  cases h
  rfl

/-- Users and their cars, with relations nested in the cars. -/
def circleQuery (nested : List Query.Relation) : Query.Relation where
  relations := [{ type := "users", relations :=
    [{ type := "cars", attributes := ["userId"], relations := nested }] }]

theorem statements_account_circle :
    let roots := [circleQuery []]
    let calls := (Command.executeAll circle .sqlite 1 roots { store := () }).2.calls
    Untwinned [] (log circle .sqlite roots ()) = true ∧
      statements calls = accounts (log circle .sqlite roots ()) ∧
      runsOf (statements calls) = 3 := by
  intro roots calls
  obtain ⟨haccounted, hrun, -⟩ := statements_account circle .sqlite roots ()
  obtain ⟨horderly, hcalls⟩ := hrun keepsTexts_circle
  have huntwinned : Untwinned [] (log circle .sqlite roots ()) = true := by decide +kernel
  obtain ⟨haccounts, hruns⟩ := (haccounted _ horderly).2 huntwinned
  have hthree : runsIn (log circle .sqlite roots ()) = 3 := by decide +kernel
  refine ⟨huntwinned, ?_, ?_⟩
  · rw [show calls = _ from hcalls, haccounts]
  · rw [show calls = _ from hcalls, hruns, hthree]

/-- **Runs are lost.**  The users of the cars have cars again, selected by the statement that
selected the cars of the first user.  Its run for the second user is not reported. -/
theorem runs_lost :
    let cars : Query.Relation := { type := "cars", attributes := ["userId"] }
    let run := Command.executeAll circle .sqlite 1
      [circleQuery [{ type := "user", relations := [cars] }]] { store := () }
    run.1.isOk = true ∧ run.2.count .run = 11 ∧ runsOf (statements run.2.calls) = 10 := by
  decide +kernel

end TreeQuery.Explain
