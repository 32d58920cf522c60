import Mathlib.Data.List.Forall2
import TreeQuery.Proofs.Execute.Exchange

/-!
# The first failure decides

An execution can fail in two ways: a call of the store fails, or the execution itself finds that it
cannot go on.  Failures of the second kind leave no trace in the record of calls.  `Proceeds` lists
both as **steps**, in the order in which they happen: it follows how a work is put together, from
single calls and failures through sequences to the work done with a prepared statement.

However an execution proceeds, the first failure among its steps is the one it returns, as it is;
all that follows is that the statements which are open at that point are finalized, one after the
other, and what becomes of these calls changes nothing.  Without a failure there is a result
(`first_failure_decides`).

The invariant for a piece of work (`Fares`) is local: either no step fails and the open statements
are the same as before, or the steps break off at their first failure, and are followed by the
finalization of just those statements that the piece itself had opened.
-/

namespace TreeQuery

open List

namespace Store.Exchange

/-- The error that a call was answered with. -/
def error? : Exchange → Option StoreError
  | .all _ _ (.error e) => some e
  | .prepare _ (.error e) => some e
  | .runAll _ _ (.error e) => some e
  | .runOne _ _ (.error e) => some e
  | .finalize _ (.error e) => some e
  | _ => none

end Store.Exchange

namespace Execute

open Query Store Work

variable {σ : Type} {steps : List Step}

/-- **A step of an execution**: a call with its reply, or a failure of the execution's own. -/
inductive Step where
  | exchange (e : Exchange)
  | fault (e : Failure)

namespace Step

/-- The failure that arises in a step.  An error of the store is a failure as it is. -/
def failure? : Step → Option Failure
  | .exchange e => e.error?.map Failure.store
  | .fault e => some e

/-- The call that a step makes, with its reply. -/
def exchange? : Step → Option Exchange
  | .exchange e => some e
  | .fault _ => none

/-- The open statements after a step: a statement is open from its preparation until it is
finalized. -/
def stillOpen (opened : List Statement) : Step → List Statement
  | .exchange (.prepare _ (.ok stmt)) => stmt :: opened
  | .exchange (.finalize stmt _) => opened.erase stmt
  | _ => opened

/-- The step finalizes the statement, with any reply. -/
def Closes (stmt : Statement) (x : Step) : Prop :=
  ∃ reply, x = .exchange (.finalize stmt reply)

end Step

/-- **The statements that are open after some steps**, the last prepared first. -/
def openAfter (steps : List Step) : List Statement :=
  steps.foldl Step.stillOpen []

/-- **How a work proceeds** from a session, step by step. -/
inductive Proceeds (A : Adapter σ) : {α : Type} → Work σ α → Session σ → List Step → Prop
  | pure {α : Type} (a : α) (s : Session σ) : Proceeds A (pure a) s []
  | throw {α : Type} (e : Failure) (s : Session σ) :
      Proceeds A (throw e : Work σ α) s [.fault e]
  | note (message : String) (details : List (String × Value)) (s : Session σ) :
      Proceeds A (note message details) s []
  | all (sql : String) (args : List Value) (s : Session σ) :
      Proceeds A (call (Session.all A sql args)) s
        [.exchange (.all sql args (A.all sql args s.store).1)]
  | runAll (stmt : Statement) (args : List Value) (s : Session σ) :
      Proceeds A (call (Session.runAll A stmt args)) s
        [.exchange (.runAll stmt args (A.runAll stmt args s.store).1)]
  | runOne (stmt : Statement) (args : List Value) (s : Session σ) :
      Proceeds A (call (Session.runOne A stmt args)) s
        [.exchange (.runOne stmt args (A.runOne stmt args s.store).1)]
  | bind {α β : Type} {w : Work σ α} {f : α → Work σ β} {s t : Session σ} {a : α}
      {steps later : List Step} (hrun : w.run s = (.ok a, t)) (hw : Proceeds A w s steps)
      (hf : Proceeds A (f a) t later) : Proceeds A (w >>= f) s (steps ++ later)
  | bindFailed {α β : Type} {w : Work σ α} {f : α → Work σ β} {s t : Session σ} {e : Failure}
      {steps : List Step} (hrun : w.run s = (.error e, t)) (hw : Proceeds A w s steps) :
      Proceeds A (w >>= f) s steps
  | statement {α : Type} {sql : String} {body : Statement → Work σ α} {s t : Session σ}
      {stmt : Statement} {steps : List Step} (hprep : Session.prepare A sql s = (.ok stmt, t))
      (hbody : Proceeds A (body stmt) t steps) :
      Proceeds A (withStatement A sql body) s
        (.exchange (.prepare sql (.ok stmt)) :: steps ++
          [.exchange (.finalize stmt (A.finalize stmt ((body stmt).run t).2.store).1)])
  | statementFailed {α : Type} {sql : String} {body : Statement → Work σ α} {s t : Session σ}
      {e : StoreError} (hprep : Session.prepare A sql s = (.error e, t)) :
      Proceeds A (withStatement A sql body) s [.exchange (.prepare sql (.error e))]

/-- Every work that an execution is put together from proceeds in some steps. -/
theorem compositional_proceeds (A : Adapter σ) :
    Compositional A A (fun _ {_} w _ => ∀ s, ∃ steps, Proceeds A w s steps) where
  pure _ a s := ⟨_, .pure a s⟩
  throw _ e s := ⟨_, .throw e s⟩
  bind {_ _ _ w _ f _} hw hf s := by
    obtain ⟨steps, hsteps⟩ := hw s
    rcases hrun : w.run s with ⟨e | a, t⟩
    · exact ⟨steps, .bindFailed hrun hsteps⟩
    · obtain ⟨later, hlater⟩ := hf a t
      exact ⟨steps ++ later, .bind hrun hsteps hlater⟩
  note _ message details s := ⟨_, .note message details s⟩
  all _ sql args s := ⟨_, .all sql args s⟩
  runAll stmt args s := ⟨_, .runAll stmt args s⟩
  runOne stmt args s := ⟨_, .runOne stmt args s⟩
  withStatement _ sql _ _ h s := by
    rcases hprep : Session.prepare A sql s with ⟨e | stmt, t⟩
    · exact ⟨_, .statementFailed hprep⟩
    · obtain ⟨steps, hsteps⟩ := h stmt t
      exact ⟨_, .statement hprep hsteps⟩

/-! ## How steps fare -/

/-- No step fails, and no statement is open in the end that was not open before. -/
def Clean (steps : List Step) : Prop :=
  (∀ x ∈ steps, x.failure? = none) ∧ ∀ opened, steps.foldl Step.stillOpen opened = opened

/-- **The steps break off with a failure**: it is the first one, and after it only the statements
are finalized that the steps before it have opened. -/
def BreakOff (e : Failure) (steps : List Step) : Prop :=
  ∃ front x back own, steps = front ++ x :: back ∧ (∀ y ∈ front, y.failure? = none) ∧
    x.failure? = some e ∧ (∀ opened, (front ++ [x]).foldl Step.stillOpen opened = own ++ opened) ∧
    List.Forall₂ Step.Closes own back

/-- How steps fare that lead to an outcome. -/
def Fares {α : Type} (steps : List Step) : Except Failure α → Prop
  | .ok _ => Clean steps
  | .error e => BreakOff e steps

theorem clean_nil : Clean [] :=
  ⟨fun _ hx => absurd hx not_mem_nil, fun _ => rfl⟩

variable {x : Step} {e : Failure} {later : List Step} {α : Type}

theorem clean_singleton (hx : x.failure? = none)
    (hopen : ∀ opened, x.stillOpen opened = opened) : Clean [x] :=
  ⟨fun _ hy => by rwa [mem_singleton.mp hy], hopen⟩

theorem breakOff_singleton (hx : x.failure? = some e)
    (hopen : ∀ opened, x.stillOpen opened = opened) : BreakOff e [x] :=
  ⟨[], x, [], [], rfl, fun _ hy => absurd hy not_mem_nil, hx, hopen, .nil⟩

theorem Clean.append (h : Clean steps) (h' : Clean later) : Clean (steps ++ later) := by
  refine ⟨?_, ?_⟩
  · intro x hx
    rcases mem_append.mp hx with hx | hx
    · exact h.1 x hx
    · exact h'.1 x hx
  · intro opened
    rw [foldl_append, h.2, h'.2]

theorem Clean.append_breakOff (h : Clean steps)
    (h' : BreakOff e later) : BreakOff e (steps ++ later) := by
  obtain ⟨front, x, back, own, rfl, hfront, hx, hopen, hback⟩ := h'
  refine ⟨steps ++ front, x, back, own, (append_assoc _ _ _).symm, ?_, hx, ?_, hback⟩
  · intro y hy
    rcases mem_append.mp hy with hy | hy
    · exact h.1 y hy
    · exact hfront y hy
  · intro opened
    rw [append_assoc, foldl_append, h.2, hopen]

theorem Clean.append_fares {r : Except Failure α}
    (h : Clean steps) (h' : Fares later r) : Fares (steps ++ later) r := by
  cases r with
  | ok a => exact h.append h'
  | error e => exact h.append_breakOff h'

/-- One call that neither prepares nor finalizes a statement, by its reply. -/
theorem fares_exchange (x : Except StoreError α → Exchange) (r : Except StoreError α)
    (hopen : ∀ opened, Step.stillOpen opened (.exchange (x r)) = opened)
    (herror : ∀ e, (x (.error e)).error? = some e) (hok : ∀ a, (x (.ok a)).error? = none) :
    Fares [.exchange (x r)] (r.mapError Failure.store) := by
  cases r with
  | ok a => exact clean_singleton (by rw [Step.failure?, hok]; rfl) hopen
  | error e => exact breakOff_singleton (by rw [Step.failure?, herror]; rfl) hopen

/-- **The steps inside a statement**, between its preparation and its finalization.  If they break
off, the statement itself is the last one to be finalized. -/
theorem fares_statement {r : Except Failure α} (sql : String)
    (stmt : Statement) (h : Fares steps r) (closed : Except StoreError Unit) :
    Fares (.exchange (.prepare sql (.ok stmt)) :: steps ++ [.exchange (.finalize stmt closed)])
      (closing r closed) := by
  cases r with
  | error e =>
    obtain ⟨front, x, back, own, rfl, hfront, hx, hopen, hback⟩ := h
    refine ⟨Step.exchange (.prepare sql (.ok stmt)) :: front, x,
      back ++ [.exchange (.finalize stmt closed)], own ++ [stmt], ?_, ?_, hx, ?_, ?_⟩
    · simp only [cons_append, append_assoc]
    · intro y hy
      rcases mem_cons.mp hy with rfl | hy
      · rfl
      · exact hfront y hy
    · intro opened
      rw [append_assoc]
      exact hopen (stmt :: opened)
    · exact rel_append hback (.cons ⟨closed, rfl⟩ .nil)
  | ok a =>
    have hfront : ∀ y ∈ Step.exchange (.prepare sql (.ok stmt)) :: steps, y.failure? = none := by
      intro y hy
      rcases mem_cons.mp hy with rfl | hy
      · rfl
      · exact h.1 y hy
    have hopen : ∀ opened, (Step.exchange (.prepare sql (.ok stmt)) :: steps ++
        [Step.exchange (.finalize stmt closed)]).foldl Step.stillOpen opened = opened := by
      intro opened
      rw [foldl_append]
      show (steps.foldl Step.stillOpen (stmt :: opened)).erase stmt = opened
      rw [h.2, erase_cons_head]
    cases closed with
    | ok _ =>
      refine ⟨?_, hopen⟩
      intro y hy
      rcases mem_append.mp hy with hy | hy
      · exact hfront y hy
      · rw [mem_singleton.mp hy]
        rfl
    | error e => exact ⟨_, _, [], [], rfl, hfront, rfl, hopen, .nil⟩

/-- **However a work proceeds**, its steps fare as its outcome says. -/
theorem Proceeds.fares {A : Adapter σ} {w : Work σ α} {s : Session σ}
    (h : Proceeds A w s steps) : Fares steps (w.run s).1 := by
  induction h with
  | pure a s => exact clean_nil
  | throw e s => exact breakOff_singleton rfl fun _ => rfl
  | note message details s => exact clean_nil
  | all sql args s =>
    rw [run_call]
    exact fares_exchange (.all sql args) _ (fun _ => rfl) (fun _ => rfl) fun _ => rfl
  | runAll stmt args s =>
    rw [run_call]
    exact fares_exchange (.runAll stmt args) _ (fun _ => rfl) (fun _ => rfl) fun _ => rfl
  | runOne stmt args s =>
    rw [run_call]
    exact fares_exchange (.runOne stmt args) _ (fun _ => rfl) (fun _ => rfl) fun _ => rfl
  | bind hrun _ _ ihw ihf =>
    rw [run_bind_ok hrun]
    rw [hrun] at ihw
    exact ihw.append_fares ihf
  | bindFailed hrun _ ihw =>
    rw [run_bind_error hrun]
    rwa [hrun] at ihw
  | statement hprep _ ih =>
    rw [run_withStatement, hprep]
    exact fares_statement _ _ ih _
  | statementFailed hprep =>
    rw [run_withStatement, hprep]
    exact breakOff_singleton rfl fun _ => rfl

/-- The calls among the steps are those on the record. -/
theorem Proceeds.calls {A : Adapter σ} {w : Work σ α} {s : Session σ} (h : Proceeds A w s steps) :
    (w.run s).2.calls = s.calls ++ (steps.filterMap Step.exchange?).map Exchange.call := by
  induction h with
  | pure a s => exact (append_nil _).symm
  | throw e s => exact (append_nil _).symm
  | note message details s => exact (append_nil _).symm
  | all sql args s => rw [run_call]; rfl
  | runAll stmt args s => rw [run_call]; rfl
  | runOne stmt args s => rw [run_call]; rfl
  | bind hrun _ _ ihw ihf =>
    rw [run_bind_ok hrun, ihf]
    rw [hrun] at ihw
    rw [show _ = _ from ihw, filterMap_append, map_append, append_assoc]
  | bindFailed hrun _ ihw =>
    rw [run_bind_error hrun]
    rwa [hrun] at ihw
  | statement hprep _ ih =>
    have hcalls : _ ++ [_] = _ := congrArg (fun r => r.2.calls) hprep
    rw [run_withStatement, hprep]
    show _ ++ [_] = _
    rw [ih, ← hcalls]
    simp only [filterMap_cons, filterMap_append, cons_append, map_cons,
      map_append, append_assoc, filterMap_nil, map_nil, Step.exchange?]
    rfl
  | statementFailed hprep =>
    have hcalls := congrArg (fun r => r.2.calls) hprep
    rw [run_withStatement, hprep]
    exact hcalls.symm

/-! ## Executions -/

/-- A list has only one first element that fails. -/
theorem first_unique {front back front' back' : List Step} {x' : Step} {e' : Failure}
    (h : front ++ x :: back = front' ++ x' :: back') (hfront : ∀ y ∈ front, y.failure? = none)
    (hx : x.failure? = some e) (hfront' : ∀ y ∈ front', y.failure? = none)
    (hx' : x'.failure? = some e') : front = front' ∧ x = x' ∧ back = back' := by
  induction front generalizing front' with
  | nil =>
    cases front' with
    | nil => exact ⟨rfl, cons.inj h⟩
    | cons y front' =>
      obtain ⟨rfl, -⟩ := cons.inj h
      rw [hfront' x mem_cons_self] at hx
      cases hx
  | cons y front ih =>
    cases front' with
    | nil =>
      obtain ⟨rfl, -⟩ := cons.inj h
      rw [hfront y mem_cons_self] at hx'
      cases hx'
    | cons y' front' =>
      obtain ⟨rfl, htail⟩ := cons.inj h
      obtain ⟨rfl, hrest⟩ := ih htail (fun z hz => hfront z (mem_cons_of_mem _ hz))
        fun z hz => hfront' z (mem_cons_of_mem _ hz)
      exact ⟨rfl, hrest⟩

/-- **The first failure decides.**  An execution proceeds in some steps, and however it does, the
calls among them are those on the record.  If no step fails, there is a result.  The first failure
that arises, of the store or of the execution's own, is the one that is returned; and after it
nothing happens but that each statement still open is finalized once, the last prepared first. -/
theorem first_failure_decides (A : Adapter σ) (d : Sql.Dialect) (root : Relation) (s : σ) :
    (∃ steps, Proceeds A (execute A d root) { store := s } steps) ∧
      ∀ steps, Proceeds A (execute A d root) { store := s } steps →
        ((execute A d root).run { store := s }).2.calls =
            (steps.filterMap Step.exchange?).map Exchange.call ∧
          ((∀ x ∈ steps, x.failure? = none) →
            ∃ v, ((execute A d root).run { store := s }).1 = .ok v) ∧
          ∀ front x back e, steps = front ++ x :: back → (∀ y ∈ front, y.failure? = none) →
            x.failure? = some e →
            ((execute A d root).run { store := s }).1 = .error e ∧
              List.Forall₂ Step.Closes (openAfter (front ++ [x])) back := by
  refine ⟨(compositional_proceeds A).execute d root _, ?_⟩
  intro steps hsteps
  have hfares := hsteps.fares
  refine ⟨hsteps.calls, ?_, ?_⟩
  · intro hnone
    rcases hr : ((execute A d root).run { store := s }).1 with e | v
    · rw [hr] at hfares
      obtain ⟨front, x, back, own, rfl, -, hx, -⟩ := hfares
      rw [hnone x (List.mem_append_right _ List.mem_cons_self)] at hx
      cases hx
    · exact ⟨v, rfl⟩
  · rintro front x back e rfl hfront hx
    rcases hr : ((execute A d root).run { store := s }).1 with e' | v
    · rw [hr] at hfares
      obtain ⟨front', x', back', own, heq, hfront', hx', hopen, hback⟩ := hfares
      obtain ⟨rfl, rfl, rfl⟩ := first_unique heq hfront hx hfront' hx'
      cases hx.symm.trans hx'
      refine ⟨rfl, ?_⟩
      rw [openAfter, hopen [], List.append_nil]
      exact hback
    · rw [hr] at hfares
      have := hfares.1 x (List.mem_append_right _ List.mem_cons_self)
      rw [hx] at this
      cases this

end Execute
end TreeQuery
