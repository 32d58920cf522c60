import TreeQuery.Explain
import TreeQuery.Proofs.Files.Places

/-!
# Collecting statements

The statements of a list of calls are collected in one pass that knows a prepared statement by its
text, and keeps the positions of the open ones.  What the pass comes to is said without positions by
`listing`: a prepared statement has the runs of its text up to the next call that prepares or
finalizes a statement with that text.  This holds of any calls whatever (`statements_eq_listing`).
-/

namespace TreeQuery.Explain

open List Store

/-- The runs of a text, until a statement with the text is prepared or finalized. -/
def runsUntil (sql : String) : List Call → List (List Value)
  | [] => []
  | c :: rest =>
    if c.sql = sql then
      match c.kind with
      | .all => runsUntil sql rest
      | .run => c.args :: runsUntil sql rest
      | .prepare => []
      | .finalize => []
    else runsUntil sql rest

/-- The statement that a call begins, if it does, by the calls that follow. -/
def begunBy (c : Call) (rest : List Call) : List Statement :=
  match c.kind with
  | .all => [⟨false, c.sql, [c.args]⟩]
  | .prepare => [⟨true, c.sql, runsUntil c.sql rest⟩]
  | .run => []
  | .finalize => []

/-- The statements of calls: those that each of them begins. -/
def listing : List Call → List Statement
  | [] => []
  | c :: rest => begunBy c rest ++ listing rest

theorem runsUntil_of_ne {sql : String} {c : Call} (h : c.sql ≠ sql) (rest : List Call) :
    runsUntil sql (c :: rest) = runsUntil sql rest := by
  rw [runsUntil, if_neg h]

namespace Collected

/-- A statement at a position, with the runs that the following calls add to it. -/
def complete (c : Collected) (calls : List Call) (i : Nat) (st : Statement) : Statement :=
  if c.positions.lookup st.sql = some i then
    { st with runs := st.runs ++ runsUntil st.sql calls }
  else st

/-- The statements so far, with the runs that the following calls add to them. -/
def completed (c : Collected) (calls : List Call) : List Statement :=
  c.statements.mapIdx (c.complete calls)

/-- Every position is that of a statement with the text. -/
def Valid (c : Collected) : Prop :=
  ∀ text i, c.positions.lookup text = some i → ∃ st, c.statements[i]? = some st ∧ st.sql = text

theorem Valid.lt {c : Collected} (h : c.Valid) {text : String} {i : Nat}
    (hi : c.positions.lookup text = some i) : i < c.statements.length := by
  obtain ⟨st, hst, -⟩ := h text i hi
  exact (List.getElem?_eq_some_iff.mp hst).1

theorem completed_nil (c : Collected) : c.completed [] = c.statements := by
  refine ext_getElem? fun i => ?_
  rw [completed, getElem?_mapIdx]
  cases c.statements[i]? with
  | none => rfl
  | some st => simp [complete, runsUntil]

theorem complete_congr {c c' : Collected} {calls calls' : List Call} {i : Nat} {st : Statement}
    (hpos : c.positions.lookup st.sql = some i ↔ c'.positions.lookup st.sql = some i)
    (hruns : c.positions.lookup st.sql = some i →
      runsUntil st.sql calls = runsUntil st.sql calls') :
    c.complete calls i st = c'.complete calls' i st := by
  unfold complete
  by_cases h : c.positions.lookup st.sql = some i
  · rw [if_pos h, if_pos (hpos.mp h), hruns h]
  · rw [if_neg h, if_neg fun h' => h (hpos.mpr h')]

/-- The statements that are there already, after a call that does not run any. -/
theorem mapIdx_complete_add (c : Collected) (call : Call) (hrun : call.kind ≠ .run)
    (rest : List Call) :
    c.statements.mapIdx ((c.add call).complete rest) = c.completed (call :: rest) := by
  refine mapIdx_eq_mapIdx_iff.mpr fun i hi => ?_
  generalize c.statements[i] = st
  obtain ⟨kind, sql, args⟩ := call
  by_cases hsql : sql = st.sql
  · subst hsql
    cases kind with
    | all => exact complete_congr Iff.rfl fun _ => by simp [runsUntil]
    | run => exact absurd rfl hrun
    | prepare =>
      -- the text belongs to the new statement, which stands behind those that are there
      have hnew : ¬ (c.add ⟨.prepare, st.sql, args⟩).positions.lookup st.sql = some i := by
        rw [show (c.add ⟨.prepare, st.sql, args⟩).positions =
          (st.sql, c.statements.length) :: _ from rfl, lookup_cons_self, Option.some.injEq]
        omega
      unfold complete
      rw [if_neg hnew]
      split <;> simp [runsUntil]
    | finalize =>
      have hnone : (c.add ⟨.finalize, st.sql, args⟩).positions.lookup st.sql = none :=
        lookup_filter_self st.sql c.positions
      unfold complete
      rw [hnone, if_neg (by simp)]
      split <;> simp [runsUntil]
  · have hpos : (c.add ⟨kind, sql, args⟩).positions.lookup st.sql = c.positions.lookup st.sql := by
      have hothers := lookup_filter_ne (Ne.symm hsql) c.positions
      cases kind with
      | all => rfl
      | run => exact absurd rfl hrun
      | prepare =>
        show ((sql, c.statements.length) :: _).lookup st.sql = _
        rw [lookup_cons, beq_eq_false_iff_ne.mpr (Ne.symm hsql)]
        exact hothers
      | finalize => exact hothers
    refine complete_congr (by rw [hpos]) fun _ => ?_
    exact (runsUntil_of_ne (c := ⟨kind, sql, args⟩) hsql rest).symm

section Run

variable {c : Collected} {sql : String} (args : List Value)

/-- A run of a text that no statement is known by is dropped. -/
theorem add_run_of_none (h : c.positions.lookup sql = none) : c.add ⟨.run, sql, args⟩ = c := by
  simp only [add, h]

theorem add_run_of_some {i : Nat} (h : c.positions.lookup sql = some i) :
    c.add ⟨.run, sql, args⟩ = { c with statements := addRun c.statements i args } := by
  simp only [add, h]

end Run

/-- **One call**: what it adds to the statements that are there, and the one that it begins. -/
theorem completed_add {c : Collected} (hc : c.Valid) (call : Call) (rest : List Call) :
    (c.add call).completed rest = c.completed (call :: rest) ++ begunBy call rest := by
  have hold := fun h => mapIdx_complete_add c call h rest
  obtain ⟨kind, sql, args⟩ := call
  cases kind with
  | all =>
    have hnew : ¬ c.positions.lookup sql = some c.statements.length := fun h =>
      absurd (hc.lt h) (Nat.lt_irrefl _)
    rw [← hold (by simp)]
    show (c.statements ++ [_]).mapIdx _ = _
    rw [mapIdx_concat]
    congr 2
    exact if_neg hnew
  | prepare =>
    rw [← hold (by simp)]
    show (c.statements ++ [_]).mapIdx _ = _
    rw [mapIdx_concat]
    congr 2
    exact if_pos lookup_cons_self
  | finalize =>
    rw [← hold (by simp)]
    exact (append_nil _).symm
  | run =>
    refine Eq.trans ?_ (append_nil _).symm
    refine ext_getElem? fun j => ?_
    cases hlook : c.positions.lookup sql with
    | none =>
      -- nobody waits for the run: no statement that is there has its text and position
      rw [add_run_of_none args hlook, completed, completed, getElem?_mapIdx, getElem?_mapIdx]
      refine congrArg (Option.map · _) (funext fun st => complete_congr Iff.rfl fun hst => ?_)
      refine (runsUntil_of_ne (c := ⟨.run, sql, args⟩) ?_ rest).symm
      rintro rfl
      rw [hlook] at hst
      cases hst
    | some i =>
      -- the run goes to the statement at `i`, the only one that still waits for runs of the text
      obtain ⟨known, hknown, hsql⟩ := hc sql i hlook
      rw [add_run_of_some args hlook, completed, completed, getElem?_mapIdx, getElem?_mapIdx,
        addRun, getElem?_modify]
      by_cases hij : i = j
      · subst hij
        simp [hknown, complete, hsql, hlook, runsUntil]
      cases hst : c.statements[j]? with
      | none => rfl
      | some st =>
        simp only [Option.map_eq_map, Option.map_some, if_neg hij]
        refine congrArg some (complete_congr Iff.rfl fun hpos => ?_)
        refine (runsUntil_of_ne (c := ⟨.run, sql, args⟩) ?_ rest).symm
        rintro rfl
        exact hij (Option.some.inj (hlook.symm.trans hpos))

theorem Valid.add {c : Collected} (hc : c.Valid) (call : Call) : (c.add call).Valid := by
  have hgrow : ∀ (new : Statement) {text i}, c.positions.lookup text = some i →
      ∃ st, (c.statements ++ [new])[i]? = some st ∧ st.sql = text := by
    intro new text i hi
    rw [getElem?_append_left (hc.lt hi)]
    exact hc text i hi
  obtain ⟨kind, sql, args⟩ := call
  intro text i hi
  cases kind with
  | all => exact hgrow _ hi
  | prepare =>
    by_cases htext : text = sql
    · subst htext
      obtain rfl : c.statements.length = i := Option.some.inj (lookup_cons_self.symm.trans hi)
      exact ⟨_, getElem?_concat_length, rfl⟩
    · refine hgrow _ ?_
      rw [← hi, ← lookup_filter_ne htext c.positions]
      show _ = ((sql, c.statements.length) :: _).lookup text
      rw [lookup_cons, beq_eq_false_iff_ne.mpr htext]
  | finalize =>
    by_cases htext : text = sql
    · subst htext
      have hnone : some i = none := hi.symm.trans (lookup_filter_self text c.positions)
      cases hnone
    · refine hc text i ?_
      rw [← hi]
      exact (lookup_filter_ne htext c.positions).symm
  | run =>
    cases hlook : c.positions.lookup sql with
    | none =>
      rw [add_run_of_none args hlook] at hi ⊢
      exact hc text i hi
    | some k =>
      rw [add_run_of_some args hlook] at hi ⊢
      obtain ⟨st, hst, hsql⟩ := hc text i hi
      refine ⟨_, by rw [addRun, getElem?_modify, hst]; rfl, ?_⟩
      dsimp only
      split <;> exact hsql

end Collected

/-- **The pass comes to the listing**, for any calls. -/
theorem statements_eq_listing (calls : List Call) : statements calls = listing calls := by
  -- by induction on the calls that are left; validity is what each call keeps
  have hfold : ∀ c : Collected, c.Valid →
      (calls.foldl Collected.add c).statements = c.completed calls ++ listing calls := by
    induction calls with
    | nil =>
      intro c _
      rw [c.completed_nil, listing, append_nil]
      rfl
    | cons call rest ih =>
      intro c hc
      rw [foldl_cons, ih (c.add call) (hc.add call), Collected.completed_add hc, listing,
        append_assoc]
  exact hfold ⟨[], []⟩ fun text i hi => by cases hi

end TreeQuery.Explain
