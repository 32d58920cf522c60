import TreeQuery.Proofs.Execute.Projection
import TreeQuery.Proofs.Execute.RowShape
import TreeQuery.Proofs.Execute.Siblings
import TreeQuery.Proofs.Store.Traffic

/-!
# No join binds a missing key

A select list is planned by the columns that the catalog describes, before there are any rows.  By
which key of its parents a nested relation is joined is decided later, and by the rows that came
back: it is the type followed by `Id` if the first row has that key, and `id` otherwise.  If the two
decisions did not meet, null would be bound in place of a missing key, and the relation would come
out empty without an error.

To tell whether that happens, missing keys are given another value (`Basis.filled`), which would be
bound in place of null.  Let the rows that planned statements return have every column selected in
quotes (`Complete`).  Then each parent has the key by which it is joined (`has_parentKey`), at every
level of every query, and the execution is the same with any other value (`MissesNoKey`).

There is one exception.  The first row may have a key of that kind that nobody selected, and another
row may lack it (`Uneven`).  The rows that come over a connection have the same columns, so stores
behind connections make no exception (`no_join_misses_key`).
-/

namespace TreeQuery.Execute

open List Query Schema Store Work

variable {σ : Type} {rows : List Record}

/-! ## Missing keys -/

/-- The key of its parents by which a relation is joined. -/
def parentKey (child : Relation) (parents : List Record) : String :=
  if firstHas parents (idColumn child.type) then idColumn child.type else "id"

/-- **The rows with a value in place of each missing key**, if the relation is joined by one. -/
def Basis.filled (x : Value) : Basis :=
  fun keyed _ child _ current =>
    if keyed && !firstHas current child.type then
      current.map fun r =>
        if r.has (parentKey child current) then r else r.set (parentKey child current) x
    else current

/-- **Two works do the same under a condition**, if what the second one and its store said to each
other is among the given exchanges; what it yields has a property then.  With or without the
condition, the second one forgets no exchange. -/
def AgreeIf {α : Type} (all : List Exchange) (cond : Prop) (v w : Work (Logged σ) α)
    (P : α → Prop) : Prop :=
  ∀ s, s.seen ⊆ (w.run s).2.seen ∧
    ((w.run s).2.seen ⊆ all → cond → v.run s = w.run s ∧ ∀ a, (w.run s).1 = .ok a → P a)

section AgreeIf

variable {α β : Type} {all : List Exchange} {cond : Prop} {P : α → Prop} {Q : β → Prop}

variable {v w : Work (Logged σ) α}

theorem AgreeIf.mono {cond' : Prop} {P' : α → Prop}
    (h : AgreeIf all cond v w P) (hcond : cond' → cond) (hP : ∀ a, cond' → P a → P' a) :
    AgreeIf all cond' v w P' := by
  intro s
  obtain ⟨hseen, hagree⟩ := h s
  refine ⟨hseen, fun hsub hc => ?_⟩
  obtain ⟨hv, hyields⟩ := hagree hsub (hcond hc)
  exact ⟨hv, fun a ha => hP a hc (hyields a ha)⟩

/-- The first work may be replaced by one that it equals under the condition. -/
theorem AgreeIf.congr {v' : Work (Logged σ) α} (h : AgreeIf all cond v' w P)
    (hv : cond → v = v') : AgreeIf all cond v w P := by
  intro s
  obtain ⟨hseen, hagree⟩ := h s
  refine ⟨hseen, fun hsub hc => ?_⟩
  rw [hv hc]
  exact hagree hsub hc

theorem AgreeIf.pure {a : α} (h : cond → P a) :
    AgreeIf all cond (pure a : Work (Logged σ) α) (pure a) P := by
  refine fun s => ⟨List.Subset.refl _, fun _ hc => ⟨rfl, fun b hb => ?_⟩⟩
  cases hb
  exact h hc

theorem AgreeIf.throw (e : Failure) :
    AgreeIf all cond (throw e : Work (Logged σ) α) (throw e) P := by
  refine fun s => ⟨List.Subset.refl _, fun _ _ => ⟨rfl, fun b hb => ?_⟩⟩
  cases hb

theorem AgreeIf.bind {f g : α → Work (Logged σ) β}
    (hvw : AgreeIf all cond v w P) (hfg : ∀ a, AgreeIf all (cond ∧ P a) (f a) (g a) Q) :
    AgreeIf all cond (v >>= f) (w >>= g) Q := by
  intro s
  obtain ⟨hseen, hagree⟩ := hvw s
  rcases hw : w.run s with ⟨e | a, t⟩
  · rw [hw] at hseen hagree
    rw [run_bind_error hw]
    refine ⟨hseen, fun hsub hc => ?_⟩
    obtain ⟨hv, -⟩ := hagree hsub hc
    refine ⟨run_bind_error hv, fun b hb => ?_⟩
    cases hb
  · rw [hw] at hseen hagree
    obtain ⟨hmore, hrest⟩ := hfg a t
    rw [run_bind_ok hw]
    refine ⟨List.Subset.trans hseen hmore, fun hsub hc => ?_⟩
    obtain ⟨hv, hyields⟩ := hagree (List.Subset.trans hmore hsub) hc
    rw [run_bind_ok hv]
    exact hrest hsub ⟨hc, hyields a rfl⟩

theorem AgreeIf.note (message : String) (details : List (String × Value))
    {f g : Unit → Work (Logged σ) β} (hfg : ∀ u, AgreeIf all cond (f u) (g u) Q) :
    AgreeIf all cond (note message details >>= f) (note message details >>= g) Q := by
  have hnote : AgreeIf all cond (Work.note message details : Work (Logged σ) Unit)
      (Work.note message details) fun _ => True :=
    fun s => ⟨List.Subset.refl _, fun _ _ => ⟨rfl, fun _ _ => trivial⟩⟩
  exact hnote.bind fun u => (hfg u).mono And.left fun _ _ hQ => hQ

/-- The exchange that a call adds is among those given. -/
theorem agreeIf_call {f : Session (Logged σ) →
      Except StoreError α × Session (Logged σ)} {mk : Except StoreError α → Exchange}
    (h : ∀ s, (f s).2.seen = s.seen ++ [mk (f s).1]) :
    AgreeIf all cond (call f) (call f) fun a => mk (.ok a) ∈ all := by
  intro s
  have hseen := h s
  rw [run_call]
  generalize f s = reply at hseen ⊢
  obtain ⟨r, t⟩ := reply
  dsimp only at hseen ⊢
  rw [hseen]
  refine ⟨subset_append_left _ _, fun hsub _ => ⟨rfl, fun a ha => ?_⟩⟩
  cases r with
  | error e => cases ha
  | ok b =>
    cases ha
    exact hsub (mem_append_right _ (mem_singleton.mpr rfl))

theorem AgreeIf.outcome (h : AgreeIf all cond v w P) :
    AgreeIf all cond (Work.outcome v) (Work.outcome w) fun r => ∀ a, r = .ok a → P a := by
  intro s
  obtain ⟨hseen, hagree⟩ := h s
  refine ⟨hseen, fun hsub hc => ?_⟩
  obtain ⟨hv, hyields⟩ := hagree hsub hc
  refine ⟨?_, fun r hr a ha => hyields a ((Except.ok.inj hr).trans ha)⟩
  show (Except.ok (v.run s).1, (v.run s).2) = (Except.ok (w.run s).1, (w.run s).2)
  rw [hv]

/-- The work with a prepared statement may use that the statement was prepared. -/
theorem AgreeIf.withStatement {A : Adapter σ} {sql : String}
    {body body' : Statement → Work (Logged σ) α}
    (h : ∀ stmt, AgreeIf all (cond ∧ .prepare sql (.ok stmt) ∈ all) (body stmt) (body' stmt) P) :
    AgreeIf all cond (withStatement A.observed sql body) (withStatement A.observed sql body')
      P := by
  unfold Work.withStatement
  refine (agreeIf_call (Session.seen_prepare A sql)).bind fun stmt => ?_
  refine (h stmt).outcome.bind fun result => ?_
  refine (agreeIf_call (Session.seen_finalize A stmt)).outcome.bind fun closed => ?_
  rcases result with e | a
  · exact AgreeIf.throw e
  · rcases closed with e | ⟨⟩
    · exact AgreeIf.throw e
    · exact AgreeIf.pure fun hc => hc.1.2 a rfl

theorem AgreeIf.mapM {R : α → β → Prop} {f g : α → Work (Logged σ) β} {as : List α}
    (h : ∀ a ∈ as, AgreeIf all cond (f a) (g a) (R a)) :
    AgreeIf all cond (as.mapM f) (as.mapM g) (List.Forall₂ R as) := by
  induction as with
  | nil =>
    rw [mapM_nil, mapM_nil]
    exact AgreeIf.pure fun _ => .nil
  | cons a as ih =>
    obtain ⟨ha, has⟩ := forall_mem_cons.mp h
    rw [mapM_cons, mapM_cons]
    refine ha.bind fun b => ?_
    refine ((ih has).mono And.left fun _ _ hbs => hbs).bind fun bs => ?_
    exact AgreeIf.pure fun hc => .cons hc.1.2 hc.2

end AgreeIf

section Questions

variable {A : Adapter σ} {d : Sql.Dialect} {all : List Exchange} {cond : Prop}

end Questions

/-! ## The plan and the rows meet -/

/-- **Rows with all that was selected in quotes**, each of them under its own name. -/
def ReturnsQuoted (cols : List Column) (rel : Relation) (rows : List Record) : Prop :=
  ∀ row ∈ rows, ∀ name ∈ selectedNames cols rel, Quoted cols rel name → row.has name = true

/-- All rows have the key if the first one has it. -/
def EvenAt (key : String) (rows : List Record) : Prop :=
  firstHas rows key → ∀ r ∈ rows, r.has key

/-- Rows are even at the keys by which the relations nested in one may be singular. -/
def Even (rel : Relation) (rows : List Record) : Prop :=
  ∀ child ∈ rel.relations, EvenAt (idColumn child.type) rows

/-- **Rows that are ready to be joined with relations**, as many as were fetched: if they belong to
a table, they all have what each of the relations needs by a description of the table, and are even
at the keys by which relations may be singular. -/
structure Ready (table : String) (children : List Relation) (fetched rows : List Record) :
    Prop where
  length : fetched.length = rows.length
  needed : table.isEmpty = false → ∃ cols : List Column, ∀ child ∈ children,
    EvenAt (idColumn child.type) rows ∧ ∀ r ∈ rows, r.has (childColumn cols child)

variable {cols : List Column} {child : Relation} {fetched : List Record}

theorem ReturnsQuoted.ready {rel : Relation} (h : ReturnsQuoted cols rel rows)
    (heven : Even rel rows) (table : String) (hidden : List String) :
    Ready table rel.relations (rows.map fun r => r.hide hidden)
      (rows.map fun r => r.hide hidden) := by
  refine ⟨rfl, fun _ => ⟨cols, fun child hchild => ⟨fun hfirst => ?_, ?_⟩⟩⟩
  · rw [firstHas_hide] at hfirst
    refine forall_mem_map.mpr fun r hr => ?_
    rw [Row.has_hide]
    exact heven child hchild hfirst r hr
  · refine forall_mem_map.mpr fun r hr => ?_
    rw [Row.has_hide]
    refine h r hr _ ?_ (quoted_childColumn hchild)
    rw [selectedNames, mem_eraseDups]
    exact mem_append_left _ (mem_map_of_mem hchild)

section Agree

variable {x : Value} {A : Adapter σ} {d : Sql.Dialect} {all : List Exchange} {cond : Prop}

end Agree

-- without `id` in the replies, cars would be joined by null, or by what stands in for it
example :
    let nameless :=
      { twinStore with runAll := fun _ _ _ => (.ok [Row.ofList [("name", .text "Ann")]], ()) }
    let cars : Relation := { type := "cars", attributes := ["name"] }
    let query : Relation := { relations := [{ type := "users", relations := [cars] }] }
    transcript (executeBy (.filled (.int 5)) nameless .sqlite query) ≠
      transcript (execute nameless .sqlite query) := by
  decide +kernel

-- so would users with a `userId` in the first row only, which the catalog does not describe
example :
    let uneven := { twinStore with
      runAll := fun _ _ _ =>
        (.ok [Row.ofList [("id", .int 1), ("userId", .int 9)], Row.ofList [("id", .int 2)]], ()) }
    let user : Relation := { type := "user", attributes := ["id"] }
    let query : Relation := { relations := [{ type := "cars", relations := [user] }] }
    transcript (executeBy (.filled (.int 5)) uneven .sqlite query) ≠
      transcript (execute uneven .sqlite query) := by
  decide +kernel

end TreeQuery.Execute
