import TreeQuery.Proofs.Execute.Exchange

/-!
# The life of a prepared statement

A statement is prepared, run any number of times, and finalized.  Reading the exchanges of an
execution as such events, and keeping the prepared statements that are not yet finalized as a
stack, **every event is allowed when it happens**: only the innermost statement is run, only the
innermost one is finalized, and at the end none is left (`WellBracketed`).  This holds of every
execution on every store (`exchanges_wellBracketed`): stores may answer anything, and fail any
call.

The invariant is local.  A piece of work inside a statement leaves the stack as it found it, with
that statement on top all the while (`Inside`), whether the work succeeds or not.
-/

namespace TreeQuery.Execute

open List Query Store Work

/-- An event in the life of a prepared statement. -/
inductive LifeEvent where
  | prepared (stmt : Statement)
  | ran (stmt : Statement)
  | finalized (stmt : Statement)
  deriving DecidableEq, Repr

variable {stmt : Statement} {events : List LifeEvent} {keep : Exchange → Bool} {α : Type}
  {top : Option Statement} {opened after : List Statement}

namespace LifeEvent

/-- **The open statements after an event**, innermost first, or nothing when the event is not
allowed: a statement may be run or finalized only while it is the innermost open one. -/
def next (opened : List Statement) : LifeEvent → Option (List Statement)
  | .prepared stmt => some (stmt :: opened)
  | .ran stmt => if opened.head? = some stmt then some opened else none
  | .finalized stmt => if opened.head? = some stmt then some opened.tail else none

theorem next_ran_eq_some :
    next opened (.ran stmt) = some after ↔ opened.head? = some stmt ∧ opened = after := by
  simp [next]

theorem next_finalized_eq_some :
    next opened (.finalized stmt) = some after ↔ opened = stmt :: after := by
  cases opened with
  | nil => simp [next]
  | cons top below => simp [next]

end LifeEvent

/-- **Well bracketed**: each event is allowed when it happens, and no statement stays open. -/
def WellBracketed (events : List LifeEvent) : Prop :=
  events.foldlM LifeEvent.next [] = some []

instance (events : List LifeEvent) : Decidable (WellBracketed events) :=
  inferInstanceAs (Decidable (_ = _))

/-- The event that an exchange is.  A statement that could not be prepared never lived; a run or a
finalization counts whether it succeeds or fails.  `keep` says which runs to look at. -/
def lifeEvent? (keep : Exchange → Bool) : Exchange → Option LifeEvent
  | .prepare _ (.ok stmt) => some (.prepared stmt)
  | .runAll stmt args r => if keep (.runAll stmt args r) then some (.ran stmt) else none
  | .runOne stmt args r => if keep (.runOne stmt args r) then some (.ran stmt) else none
  | .finalize stmt _ => some (.finalized stmt)
  | _ => none

/-- The events among the exchanges of an execution. -/
def lifeEvents (keep : Exchange → Bool) (l : List Exchange) : List LifeEvent :=
  l.filterMap (lifeEvent? keep)

theorem lifeEvents_append (keep : Exchange → Bool) (l l' : List Exchange) :
    lifeEvents keep (l ++ l') = lifeEvents keep l ++ lifeEvents keep l' :=
  filterMap_append

/-! ## Work inside a statement -/

/-- The events happen inside the statement `top`: they leave every stack with it on top as it
was. -/
def Inside (top : Option Statement) (events : List LifeEvent) : Prop :=
  ∀ opened : List Statement, (∀ stmt ∈ top, opened.head? = some stmt) →
    events.foldlM LifeEvent.next opened = some opened

theorem inside_nil (top : Option Statement) : Inside top [] :=
  fun _ _ => rfl

theorem Inside.append {events' : List LifeEvent}
    (h : Inside top events) (h' : Inside top events') : Inside top (events ++ events') := by
  intro opened htop
  rw [foldlM_append, h opened htop]
  exact h' opened htop

theorem inside_ran (stmt : Statement) : Inside (some stmt) [.ran stmt] := by
  intro opened htop
  have hnext : LifeEvent.next opened (.ran stmt) = some opened :=
    LifeEvent.next_ran_eq_some.mpr ⟨htop stmt rfl, rfl⟩
  rw [foldlM_cons, hnext]
  rfl

/-- A run happens inside its statement, looked at or not. -/
theorem inside_run {e : Exchange}
    (h : lifeEvent? keep e = if keep e then some (.ran stmt) else none) :
    Inside (some stmt) (lifeEvents keep [e]) := by
  rw [lifeEvents]
  by_cases hkeep : keep e
  · rw [filterMap_cons_some (h.trans (if_pos hkeep))]
    exact inside_ran stmt
  · rw [filterMap_cons_none (h.trans (if_neg hkeep))]
    exact inside_nil _

/-- What happens inside a statement, between its preparation and its finalization, happens inside
the statement around it. -/
theorem Inside.bracket (h : Inside (some stmt) events) :
    Inside top (.prepared stmt :: events ++ [.finalized stmt]) := by
  intro opened _
  -- whatever was open before, the statement itself is on top from here on
  rw [cons_append, foldlM_cons]
  show (events ++ [LifeEvent.finalized stmt]).foldlM LifeEvent.next (stmt :: opened) = some opened
  rw [foldlM_append, h (stmt :: opened) fun _ hs => hs]
  have hnext : LifeEvent.next (stmt :: opened) (.finalized stmt) = some opened :=
    LifeEvent.next_finalized_eq_some.mpr rfl
  show LifeEvent.next (stmt :: opened) (.finalized stmt) >>= _ = _
  rw [hnext]
  rfl

/-! ## Executions -/

variable {σ : Type}

/-- Every piece of an execution keeps inside the statement around it. -/
theorem sayable_inside (A : Adapter σ) (keep : Exchange → Bool) :
    Sayable A fun top _ l => Inside top (lifeEvents keep l) where
  nothing top _ := inside_nil top
  append hin hin' := by
    rw [lifeEvents_append]
    exact hin.append hin'
  all top _ _ _ _ := inside_nil top
  runAll _ _ _ _ := inside_run rfl
  runOne _ _ _ _ := inside_run rfl
  -- the statement was never prepared: there is an exchange but no event
  refused top _ _ := inside_nil top
  bracket {top _ _ _ l} _ _ hin closed _ := by
    show Inside top (_ :: lifeEvents keep (l ++ [.finalize _ closed]))
    rw [lifeEvents_append]
    exact hin.bracket

/-! ## Counting -/

/-- The stack never loses count: a statement is open as often as it was prepared and not yet
finalized. -/
theorem count_opened (h : events.foldlM LifeEvent.next opened = some after) (stmt : Statement) :
    after.count stmt + events.count (.finalized stmt) =
      opened.count stmt + events.count (.prepared stmt) := by
  induction events generalizing opened with
  | nil =>
    cases h
    rfl
  | cons e events ih =>
    rw [foldlM_cons] at h
    cases hn : LifeEvent.next opened e with
    | none =>
      rw [hn] at h
      cases h
    | some mid =>
      rw [hn] at h
      have hrest := ih h
      cases e with
      | prepared p =>
        cases hn
        simp only [count_cons, beq_iff_eq, reduceCtorEq, if_false,
          LifeEvent.prepared.injEq] at hrest ⊢
        omega
      | ran p =>
        obtain ⟨-, rfl⟩ := LifeEvent.next_ran_eq_some.mp hn
        simpa only [count_cons, beq_iff_eq, reduceCtorEq, if_false, Nat.add_zero] using hrest
      | finalized p =>
        rw [LifeEvent.next_finalized_eq_some.mp hn]
        simp only [count_cons, beq_iff_eq, reduceCtorEq, if_false,
          LifeEvent.finalized.injEq]
        omega

/-- **The life of statements.**  The events of every execution, read off the exchanges behind its
record of calls, are well bracketed, whichever of the runs are looked at: the stack of open
statements is respected by all of them and empty at the end.  In particular each statement is
finalized as often as it was prepared. -/
theorem exchanges_wellBracketed (A : Adapter σ) (d : Sql.Dialect) (root : Relation) (s : σ)
    (keep : Exchange → Bool) :
    ((execute A d root).run { store := s }).2.calls = (exchanges A d root s).map Exchange.call ∧
      WellBracketed (lifeEvents keep (exchanges A d root s)) ∧
      ∀ stmt, (lifeEvents keep (exchanges A d root s)).count (.finalized stmt) =
        (lifeEvents keep (exchanges A d root s)).count (.prepared stmt) := by
  obtain ⟨l, hl, hin⟩ := (sayable_inside A keep).execute d root { store := (s, []) }
  have hseen : exchanges A d root s = l := hl
  have hbracketed : WellBracketed (lifeEvents keep l) := hin [] fun _ hs => by cases hs
  refine ⟨(execute_observed A d root s).2, ?_⟩
  rw [hseen]
  refine ⟨hbracketed, fun stmt => ?_⟩
  have hcount := count_opened hbracketed stmt
  rwa [List.count_nil, Nat.zero_add, Nat.zero_add] at hcount

end TreeQuery.Execute
