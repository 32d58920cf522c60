import TreeQuery.Proofs.Execute.NestedJoin
import TreeQuery.Proofs.Execute.Noninterference

/-!
# Mutations and the rows they return

Whether the store has executed a mutation is read off the exchanges: the mutation's statement, with
the clause that returns the changed rows, was answered without an error (`returned?`).  That may
happen in an execution that fails later, in a nested relation.  In one that succeeds it has
happened, and the result has as many rows as the store returned (`returned_of_execute`).
-/

namespace TreeQuery.Execute

open List Query Schema Store Work

variable {σ : Type}

/-! ## Resolving keeps the number of rows -/

variable {α : Type} {u t : Session (Logged σ)}

theorem Yields.of_statement {P : α → Prop} {A : Adapter σ} {sql : String}
    {body : Statement → Work σ α} (h : ∀ stmt, Yields (body stmt) P) :
    Yields (Work.withStatement A sql body) P := by
  intro s a t hrun
  obtain ⟨stmt, u, v, -, hbody, -⟩ := run_withStatement_eq_ok hrun
  exact h stmt u a v hbody

theorem Yields.of_bind {β : Type} {P : β → Prop} {w : Work σ α} {f : α → Work σ β}
    (h : ∀ a, Yields (f a) P) : Yields (w >>= f) P :=
  Yields.bind (fun _ _ _ _ => trivial : Yields w fun _ => True) fun a _ => h a

variable (A : Adapter σ) (d : Sql.Dialect)

/-- A join sets the type in each row. -/
theorem sets_join (table : String) (child : Relation) (parents : List Record) :
    Yields (join A d table child parents)
      (List.Forall₂ (fun p r => ∃ v, r = p.set child.type v) parents) := by
  rw [join_eq]
  refine Yields.of_bind fun target => Yields.of_bind fun cols => ?_
  split
  · exact Yields.throw _
  refine Yields.of_statement fun stmt => Yields.of_bind fun _ =>
    Yields.mapM (forall₂_same.mpr fun _ _ => rfl) fun p q (hpq : p = q) => ?_
  subst hpq
  exact Yields.of_bind fun v => Yields.pure ⟨v, rfl⟩

theorem aligned_lookInside (child : Relation) (parents : List Record) :
    Yields (lookInside child parents : Work σ _) fun rows => Aligned rows parents := by
  unfold lookInside
  refine Yields.of_bind fun _ => ?_
  split
  · rename_i rows hrows
    exact Yields.pure (aligned_filterParents hrows)
  · exact Yields.throw _

/-- **Attaching a relation** gives as many rows as there were, and adds its type to the keys of the
first. -/
theorem adds_attachOne (table : String) (child : Relation) (parents : List Record) :
    Yields (attachOne A d table child parents) fun rows => rows.length = parents.length ∧
      (parents ≠ [] → firstHas rows = fun key => firstHas parents key || key == child.type) := by
  unfold attachOne
  split
  · rename_i hinside
    intro s rows t hrun
    have haligned := aligned_lookInside child parents s rows t hrun
    refine ⟨(aligned_iff_forall₂.mp haligned).length_eq, fun _ => ?_⟩
    rw [Row.or_beq_self hinside]
    exact funext (firstHas_congr haligned)
  · intro s rows t hrun
    have hsets := sets_join A d table child parents s rows t hrun
    refine ⟨hsets.length_eq.symm, fun hne => ?_⟩
    cases hsets with
    | nil => exact absurd rfl hne
    | cons hfirst _ =>
      obtain ⟨v, rfl⟩ := hfirst
      exact Row.has_set _ child.type v

/-- **Resolving gives as many rows as there were.** -/
theorem length_resolve (table : String) (children : List Relation) (parents : List Record) :
    Yields (resolve A d table children parents) fun rows => rows.length = parents.length := by
  induction children generalizing parents with
  | nil =>
    rw [resolve_nil]
    exact Yields.pure rfl
  | cons child rest ih =>
    cases parents with
    | nil =>
      rw [resolve_empty]
      exact Yields.pure rfl
    | cons first parents =>
      rw [resolve_cons]
      refine Yields.bind (adds_attachOne A d table child (first :: parents)) fun rows hrows => ?_
      rw [← hrows.1]
      exact ih rows

/-! ## The statement among the exchanges -/

/-- **The rows that the store returned for a mutation**, if an exchange has its statement and was
answered without an error. -/
def returned? (root : Relation) : Exchange → Option (List Record)
  | .all sql _ (.ok rows) =>
    if (root.sql ++ " RETURNING ").toList.isPrefixOf sql.toList then some rows else none
  | _ => none

theorem returned?_statement (root : Relation) (columns : String) (args : List Value)
    (rows : List Record) :
    returned? root (.all (root.sql ++ " RETURNING " ++ columns) args (.ok rows)) = some rows := by
  rw [returned?, String.toList_append (s := root.sql ++ " RETURNING "), if_pos]
  exact List.isPrefixOf_iff_prefix.mpr (prefix_append _ _)

theorem not_mem_toList_append {c : Char} {s t : String} (hs : c ∉ s.toList) (ht : c ∉ t.toList) :
    c ∉ (s ++ t).toList := by
  rw [String.toList_append, mem_append]
  exact fun h => h.elim hs ht

theorem not_mem_toList_ofList {c : Char} {cs : List Char} (h : c ∉ cs) :
    c ∉ (String.ofList cs).toList := by
  rwa [String.toList_ofList]

/-- No catalog asks for columns with a letter that the returning clause has. -/
theorem not_mem_columns (d : Sql.Dialect) : 'G' ∉ (Catalog.ofDialect d).columns.toList := by
  unfold Catalog.ofDialect
  split
  · exact not_mem_toList_append (not_mem_toList_append (not_mem_toList_append
      (not_mem_toList_ofList (by decide)) (not_mem_toList_ofList (by decide)))
      (not_mem_toList_ofList (by decide))) (not_mem_toList_ofList (by decide))
  · split
    · exact not_mem_toList_append (not_mem_toList_append (not_mem_toList_append
        (not_mem_toList_ofList (by decide)) (not_mem_toList_ofList (by decide)))
        (not_mem_toList_ofList (by decide))) (not_mem_toList_ofList (by decide))
    · exact not_mem_toList_ofList (by decide)

theorem returned?_columns (root : Relation) (d : Sql.Dialect) (args : List Value)
    (r : Except StoreError (List Record)) :
    returned? root (.all (Catalog.ofDialect d).columns args r) = none := by
  cases r with
  | error e => rfl
  | ok rows =>
    rw [returned?, if_neg]
    intro h
    apply not_mem_columns d
    apply (List.isPrefixOf_iff_prefix.mp h).subset
    rw [String.toList_append]
    exact mem_append_right _ (by decide)

/-! ## Executions of mutations -/

variable {A d}

theorem seen_all {sql : String} {args : List Value} {rows : List Record}
    (h : (call (Session.all A.observed sql args)).run u = (.ok rows, t)) :
    t.seen = u.seen ++ [.all sql args (.ok rows)] := by
  obtain ⟨hok, rfl⟩ := Prod.ext_iff.mp (run_call_eq_ok h)
  rw [← show (A.all sql args u.store.1).1 = .ok rows from hok]
  rfl

/-- Asking for the columns of the changed table adds nothing that could be taken for the
mutation. -/
theorem seen_mutationColumns (root : Relation) {cols : List Column}
    (h : (mutationColumns A.observed d root.table).run u = (.ok cols, t)) :
    ∃ l, t.seen = u.seen ++ l ∧ l.findSome? (returned? root) = none := by
  unfold mutationColumns at h
  split at h
  · cases h
    exact ⟨[], (append_nil _).symm, rfl⟩
  obtain ⟨rows, v, hcall, hpure⟩ := run_bind_eq_ok h
  cases hpure
  refine ⟨_, seen_all hcall, ?_⟩
  rw [List.findSome?_singleton, returned?_columns]

theorem seen_resolve (table : String) (children : List Relation) (parents : List Record)
    (u : Session (Logged σ)) :
    ∃ l, ((resolve A.observed d table children parents).run u).2.seen = u.seen ++ l := by
  obtain ⟨l, hl, -⟩ := (callWise_replays A).compositional.resolve d children none table parents u
  exact ⟨l, hl⟩

/-- **A mutation that succeeds was executed**: its statement is among the exchanges, answered with
rows, and the result has one row for each of them. -/
theorem returned_of_execute {root : Relation} (hroot : root.isMutation) {v : Value}
    (h : (execute A.observed d root).run u = (.ok v, t)) :
    ∃ l rows, t.seen = u.seen ++ l ∧ l.findSome? (returned? root) = some rows ∧
      count v = rows.length := by
  rw [execute, if_pos hroot] at h
  obtain ⟨result, t', hmutate, hpure⟩ := run_bind_eq_ok h
  cases hpure
  rw [mutate] at hmutate
  split at hmutate
  · obtain ⟨cols, u₁, hcols, hover⟩ := run_bind_eq_ok hmutate
    obtain ⟨l₁, hseen₁, hnone⟩ := seen_mutationColumns root hcols
    unfold mutateOver at hover
    split at hover
    · cases hover
    rename_i proj _
    obtain ⟨⟨⟩, u₂, hnote, hover⟩ := run_bind_eq_ok hover
    obtain ⟨rows, u₃, hcall, hresolve⟩ := run_bind_eq_ok hover
    cases hnote
    -- the call of the statement is the first exchange after the question for the columns
    have hseen₃ := seen_all hcall
    obtain ⟨l₂, hseen₂⟩ := seen_resolve (A := A) (d := d) root.table root.relations
      (rows.map fun r => r.hide proj.hidden) u₃
    rw [hresolve] at hseen₂
    refine ⟨l₁ ++ .all (root.sql ++ " RETURNING " ++ proj.sql) root.bindings (.ok rows) :: l₂,
      rows, ?_, ?_, ?_⟩
    · rw [hseen₂, hseen₃]
      show u₁.seen ++ _ ++ _ = _
      rw [hseen₁]
      simp only [append_assoc, singleton_append]
    · rw [List.findSome?_append, hnone, Option.none_or, List.findSome?_cons,
        returned?_statement]
    · have hlength := length_resolve _ _ _ _ _ _ _ _ hresolve
      rw [length_map] at hlength
      exact hlength
  · cases hmutate

end TreeQuery.Execute
