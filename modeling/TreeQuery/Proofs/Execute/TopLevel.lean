import Mathlib.Data.List.Perm.Basic
import TreeQuery.Proofs.Execute.Batch

/-!
# Relations side by side at the top

The relations at the top of a query share one row that carries nothing at first.  Each of them
attaches its rows to it, and the next one looks at what has been attached so far.  Let their types
be distinct, and no type be another one followed by `Id`.  Then none of them takes the values of the
others for columns, and on a store that replies by text the whole query is as good as the queries of
its relations one by one (`execute_topLevel`): it succeeds if all of these do, and the row it gives
holds the result of each of them under its type.

What a relation at the top gives is read off the replies alone (`selectFrom`), without the row that
it shares with the others; `resolveFrom_top` says that a whole level of them is a traversal.
-/

namespace TreeQuery

open List

namespace Row

variable {α : Type}

theorem keys_of_visible {fs : List (Field α)} (h : ∀ f ∈ fs, f.hidden = false) :
    keys ⟨fs⟩ = fs.map Field.key := by
  have hall : visible ⟨fs⟩ = fs := filter_eq_self.mpr fun f hf => by rw [h f hf]; rfl
  rw [keys, hall]

theorem has_concat (r : Row α) (f : Field α) (key : String) :
    has ⟨r.fields ++ [f]⟩ key = (r.has key || f.key == key) := by
  rw [has, has, any_append, any_cons, any_nil, Bool.or_false]

end Row

def Query.Relation.only (root child : Relation) : Relation :=
  { root with relations := [child] }

namespace Execute

open Query Schema Store Work

/-- What is made of an outcome when a statement is released can be made of it before. -/
theorem closing_bind_ok {α β : Type} (x : Except Failure α) (r : Except StoreError Unit)
    (f : α → β) : closing (x >>= fun a => .ok (f a)) r = closing x r >>= fun a => .ok (f a) := by
  rcases x with e | a <;> rcases r with e' | ⟨⟩ <;> rfl

/-! ## One relation at the top -/

section OneRelation

variable (R : Replies) (d : Sql.Dialect)

/-- **The rows of a relation at the top**, by the replies: all that its statement gives, with the
relations nested in them resolved. -/
def selectFrom (child : Relation) : Except Failure (List Record) :=
  columnsFrom R (Catalog.ofDialect d) child.type >>= fun cols =>
    match plan? d cols child with
    | none => .error (.noAttributes child.type)
    | some proj =>
      let text := statementText d ⟨child.type, ""⟩ false proj child.sql
      (R.prepare text).mapError Failure.store >>= fun _ =>
        closing
          ((R.runAll text child.bindings).mapError Failure.store >>= fun rows =>
            resolveFrom R d child.type child.relations (rows.map fun r => r.hide proj.hidden))
          (R.finalize text)

/-- The entry that a relation at the top adds to the row it shares with the others. -/
def entryFrom (child : Relation) : Except Failure (Field Value) :=
  selectFrom R d child >>= fun rows => .ok ⟨child.type, .rows rows, false⟩

theorem entryFrom_eq_ok {R : Replies} {d : Sql.Dialect} {child : Relation} {f : Field Value} :
    entryFrom R d child = .ok f ↔
      ∃ rows, selectFrom R d child = .ok rows ∧ f = ⟨child.type, .rows rows, false⟩ := by
  rw [entryFrom, bind_eq_ok]
  exact exists_congr fun rows => and_congr_right fun _ =>
    ⟨fun h => (Except.ok.inj h).symm, fun h => congrArg Except.ok h.symm⟩

/-- What a row becomes that has many related rows, which do not depend on it. -/
theorem mapM_joinOneFrom_whole (nested : List Record → Except Failure (List Record))
    (child : Relation) (hidden : List String) (text : String) (parent : Record) :
    [parent].mapM (joinOneFrom R nested child false false hidden text) =
      ((R.runAll text child.bindings).mapError Failure.store >>= fun rows =>
          nested (rows.map fun r => r.hide hidden)) >>= fun rows =>
        .ok [parent.set child.type (.rows rows)] := by
  rw [mapM_cons, mapM_nil]
  unfold joinOneFrom
  simp only [Bool.false_eq_true, if_false, nil_append, bind_assoc]
  rfl

/-- **A relation at the top adds one entry** to a row that carries neither its type nor the column
that would refer to one related row. -/
theorem attachFrom_top {child : Relation} {parent : Record}
    (htype : parent.has child.type = false) (hid : parent.has (idColumn child.type) = false) :
    attachFrom R d "" child [parent] =
      entryFrom R d child >>= fun f => .ok [⟨parent.fields ++ [f]⟩] := by
  have hnew : child.type ∉ parent.allKeys := by
    rw [← Row.has_iff, htype]
    exact Bool.false_ne_true
  have hset : ∀ rows, parent.set child.type (.rows rows) =
      ⟨parent.fields ++ [⟨child.type, .rows rows, false⟩]⟩ := fun rows =>
    congrArg Row.mk (Row.fields_set_of_not_mem hnew (.rows rows))
  have hinside : firstHas [parent] child.type = false := htype
  have hmany : firstHas [parent] (idColumn child.type) = false := hid
  have htarget : targetFrom R (Catalog.ofDialect d) "" child.type false = pure ⟨child.type, ""⟩ :=
    if_pos rfl
  have hscope : (!("" : String).isEmpty) = false := rfl
  rw [attachFrom_eq, attachOneFrom, hinside, hmany, entryFrom, selectFrom]
  dsimp only
  rw [htarget, hscope, if_neg Bool.false_ne_true, pure_bind, joinAlongFrom, bind_assoc, bind_assoc]
  congr 1
  funext cols
  cases plan? d cols child with
  | none => rfl
  | some proj =>
    dsimp only
    rw [bind_assoc]
    congr 1
    funext _
    rw [mapM_joinOneFrom_whole, closing_bind_ok]
    simp only [hset]
    rfl

end OneRelation

/-! ## Many relations at the top -/

variable {fs : List (Field Value)} {root : Relation} {children : List Relation}

section ManyRelations

variable (R : Replies) (d : Sql.Dialect)

/-- **Relations at the top add their entries one after the other**, as long as the row carries none
of the keys that they look at. -/
theorem resolveFrom_top {parent : Record} (hnodup : (children.map Relation.type).Nodup)
    (hids : ∀ c ∈ children, ∀ c' ∈ children, c.type ≠ idColumn c'.type)
    (htypes : ∀ c ∈ children, parent.has c.type = false ∧ parent.has (idColumn c.type) = false) :
    resolveFrom R d "" children [parent] =
      children.mapM (entryFrom R d) >>= fun fs => .ok [⟨parent.fields ++ fs⟩] := by
  induction children generalizing parent with
  | nil =>
    rw [resolveFrom, mapM_nil, pure_bind, append_nil]
  | cons child rest ih =>
    obtain ⟨htype, hid⟩ := htypes child mem_cons_self
    rw [resolveFrom, if_neg (by simp), attachFrom_top R d htype hid, mapM_cons, bind_assoc,
      bind_assoc]
    cases hentry : entryFrom R d child with
    | error e => rfl
    | ok f =>
      have hkey : f.key = child.type := by
        obtain ⟨rows, -, rfl⟩ := entryFrom_eq_ok.mp hentry
        rfl
      obtain ⟨hnew, hnodup⟩ := nodup_cons.mp hnodup
      -- the row carries one more key, which none of the later relations looks at
      have hkeys : ∀ c ∈ rest, Row.has ⟨parent.fields ++ [f]⟩ c.type = false ∧
          Row.has ⟨parent.fields ++ [f]⟩ (idColumn c.type) = false := by
        intro c hc
        obtain ⟨htype, hid⟩ := htypes c (mem_cons_of_mem _ hc)
        have hother : child.type ≠ c.type := fun heq => hnew (heq ▸ mem_map_of_mem hc)
        have hnone := hids child mem_cons_self c (mem_cons_of_mem _ hc)
        rw [Row.has_concat, Row.has_concat, htype, hid, hkey]
        exact ⟨beq_eq_false_iff_ne.mpr hother, beq_eq_false_iff_ne.mpr hnone⟩
      refine (ih hnodup (fun c hc c' hc' => hids c (mem_cons_of_mem _ hc) c'
        (mem_cons_of_mem _ hc')) hkeys).trans ?_
      cases rest.mapM (entryFrom R d) with
      | error e => rfl
      | ok fs =>
        show Except.ok [Row.mk (parent.fields ++ [f] ++ fs)] = .ok [⟨parent.fields ++ f :: fs⟩]
        rw [append_assoc, singleton_append]

variable {R d}

theorem key_of_entries (h : List.Forall₂ (fun c f => entryFrom R d c = .ok f) children fs) :
    fs.map Field.key = children.map Relation.type ∧ ∀ f ∈ fs, f.hidden = false := by
  induction h with
  | nil => exact ⟨rfl, fun f hf => absurd hf not_mem_nil⟩
  | cons hentry _ ih =>
    obtain ⟨rows, -, rfl⟩ := entryFrom_eq_ok.mp hentry
    rw [map_cons, map_cons, ih.1]
    exact ⟨rfl, forall_mem_cons.mpr ⟨rfl, ih.2⟩⟩

end ManyRelations

/-! ## Queries -/

section Queries

variable {σ : Type} {A : Adapter σ} {R : Replies} {live : σ → Statement → Prop}
  (hA : RepliesBy A R live) (d : Sql.Dialect)

include hA

theorem outcome_execute (hroot : root.isMutation = false) (s : Session σ) :
    ((execute A d root).run s).1 =
      resolveFrom R d "" root.relations [Row.empty] >>= fun rows => .ok (resultOf root rows) := by
  rw [execute, if_neg (by rw [hroot]; exact Bool.false_ne_true)]
  have hsettled : Settled live [] (resolve A d "" root.relations [Row.empty] >>= fun rows =>
      pure (resultOf root rows)) (resolveFrom R d "" root.relations [Row.empty] >>= fun rows =>
        .ok (resultOf root rows)) :=
    (settled_resolve hA d "" root.relations [Row.empty]).bind fun rows => .pure _
  exact (hsettled s fun stmt hstmt => absurd hstmt not_mem_nil).1

/-- **What a query comes to**: the entries of its relations, one after the other. -/
theorem outcome_entries (hroot : root.isMutation = false)
    (hnodup : (root.relations.map Relation.type).Nodup)
    (hids : ∀ c ∈ root.relations, ∀ c' ∈ root.relations, c.type ≠ idColumn c'.type)
    (s : Session σ) :
    ((execute A d root).run s).1 =
      root.relations.mapM (entryFrom R d) >>= fun fs => .ok (resultOf root [⟨fs⟩]) := by
  rw [outcome_execute hA d hroot, resolveFrom_top R d hnodup hids fun c _ => ⟨rfl, rfl⟩, bind_assoc]
  rfl

/-- A query of one relation gives its rows. -/
theorem outcome_only (hroot : root.isMutation = false) (child : Relation) (s : Session σ) :
    ((execute A d (root.only child)).run s).1 =
      selectFrom R d child >>= fun rows => .ok (.rows rows) := by
  have hself : child.type ≠ idColumn child.type := by
    intro heq
    exact absurd (String.append_eq_left_iff.mp heq.symm) (by decide)
  have honly : (root.only child).isMutation = false := hroot
  rw [outcome_entries hA d honly (pairwise_singleton _ _)
    (by simpa [Relation.only] using hself) s]
  show [child].mapM (entryFrom R d) >>= _ = _
  rw [mapM_cons, mapM_nil, entryFrom]
  cases selectFrom R d child with
  | error e => rfl
  | ok rows =>
    show Except.ok (((Row.get? ⟨[⟨child.type, Value.rows rows, false⟩]⟩ child.type).getD .null)) = _
    rw [Row.get?_cons, if_pos rfl]
    rfl

omit hA in
/-- A query succeeds if each of its relations has rows to give. -/
theorem exists_entries_iff :
    (∃ v, (root.relations.mapM (entryFrom R d) >>= fun fs => .ok (resultOf root [⟨fs⟩])) =
        Except.ok v) ↔
      ∀ c ∈ root.relations, ∃ v : Value,
        (selectFrom R d c >>= fun rows => .ok (.rows rows)) = Except.ok v := by
  constructor
  · rintro ⟨v, hv⟩ c hc
    obtain ⟨fs, hfs, -⟩ := bind_eq_ok.mp hv
    obtain ⟨f, -, hentry⟩ := exists_mem_of_forall₂ (mapM_eq_ok.mp hfs).flip hc
    obtain ⟨rows, hrows, -⟩ := entryFrom_eq_ok.mp hentry
    exact ⟨.rows rows, bind_eq_ok.mpr ⟨rows, hrows, rfl⟩⟩
  · intro h
    have hentries : ∀ c ∈ root.relations, ∃ f, entryFrom R d c = .ok f := by
      intro c hc
      obtain ⟨v, hv⟩ := h c hc
      obtain ⟨rows, hrows, -⟩ := bind_eq_ok.mp hv
      exact ⟨_, entryFrom_eq_ok.mpr ⟨rows, hrows, rfl⟩⟩
    obtain ⟨fs, hfs⟩ := exists_forall₂_iff.mpr hentries
    exact ⟨_, bind_eq_ok.mpr ⟨fs, mapM_eq_ok.mpr hfs, rfl⟩⟩

end Queries

/-- **A row holds what relations give one by one**: its keys are their types, in order, and under
each type are the rows that the relation gives. -/
def HoldsEach (gives : Relation → Except Failure Value) (children : List Relation) (row : Record) :
    Prop :=
  row.keys = children.map Relation.type ∧
    ∀ c ∈ children, ∃ rows, row.get? c.type = some (.rows rows) ∧ gives c = .ok (.rows rows)

/-- The row of the entries of relations holds what these give. -/
theorem holdsEach_entries {R : Replies} {d : Sql.Dialect}
    (hnodup : (children.map Relation.type).Nodup)
    (h : List.Forall₂ (fun c f => entryFrom R d c = .ok f) children fs) :
    HoldsEach (fun c => selectFrom R d c >>= fun rows => .ok (.rows rows)) children ⟨fs⟩ := by
  obtain ⟨hkeys, hvisible⟩ := key_of_entries h
  refine ⟨(Row.keys_of_visible hvisible).trans hkeys, fun c hc => ?_⟩
  obtain ⟨f, hf, hentry⟩ := exists_mem_of_forall₂ h.flip hc
  obtain ⟨rows, hrows, rfl⟩ := entryFrom_eq_ok.mp hentry
  exact ⟨rows, Row.get?_of_mem (hkeys ▸ hnodup) hf, bind_eq_ok.mpr ⟨rows, hrows, rfl⟩⟩

/-- The result read off the entries of the relations: the rows of the only one, or all of them. -/
theorem resultOf_entries {R : Replies} {d : Sql.Dialect}
    (h : List.Forall₂ (fun c f => entryFrom R d c = .ok f) root.relations fs) :
    (root.relations.length ≠ 1 ∧ resultOf root [⟨fs⟩] = .row ⟨fs⟩) ∨
      ∃ c rows, root.relations = [c] ∧ selectFrom R d c = .ok rows ∧
        resultOf root [⟨fs⟩] = .rows rows := by
  unfold resultOf
  generalize root.relations = children at h ⊢
  rcases children with _ | ⟨c, _ | ⟨c', rest⟩⟩
  · exact .inl ⟨Nat.zero_ne_one, rfl⟩
  · obtain ⟨f, fs, hentry, hnil, rfl⟩ := forall₂_cons_left_iff.mp h
    obtain rfl := forall₂_nil_left_iff.mp hnil
    obtain ⟨rows, hrows, rfl⟩ := entryFrom_eq_ok.mp hentry
    refine .inr ⟨c, rows, rfl, hrows, ?_⟩
    show (Row.get? ⟨[⟨c.type, Value.rows rows, false⟩]⟩ c.type).getD .null = _
    rw [Row.get?_cons, if_pos rfl]
    rfl
  · exact .inl ⟨by simp, rfl⟩

/-- **Relations at the top compose.**  Let their types be distinct, and no type be another one
followed by `Id`.  On a store that replies by text and arguments a query succeeds if the query of
each of its relations does, whatever has been done in the sessions before.  Then its result is the
rows of its only relation, or a row that holds the rows of all of them.  So relations in another
order give the same row with its keys in that order. -/
theorem execute_topLevel {σ : Type} {A : Adapter σ} {R : Replies} {live : σ → Statement → Prop}
    (hA : RepliesBy A R live) (d : Sql.Dialect) {root : Relation}
    (hroot : root.isMutation = false) (hnodup : (root.relations.map Relation.type).Nodup)
    (hids : ∀ c ∈ root.relations, ∀ c' ∈ root.relations, c.type ≠ idColumn c'.type)
    (s : Session σ) (session : Relation → Session σ) :
    let alone := fun c => ((execute A d (root.only c)).run (session c)).1
    ((∃ v, ((execute A d root).run s).1 = .ok v) ↔ ∀ c ∈ root.relations, ∃ v, alone c = .ok v) ∧
      (∀ c ∈ root.relations, ∀ v, alone c = .ok v → ∃ rows, v = .rows rows) ∧
      (∀ v, ((execute A d root).run s).1 = .ok v →
        (∀ c, root.relations = [c] → alone c = .ok v) ∧
        (root.relations.length ≠ 1 → ∃ row, v = .row row ∧ HoldsEach alone root.relations row)) ∧
      ∀ (root' : Relation) (s' : Session σ), root'.isMutation = false →
        root'.relations.Perm root.relations →
        ((∃ v, ((execute A d root').run s').1 = .ok v) ↔
          ∃ v, ((execute A d root).run s).1 = .ok v) ∧
        ∀ row, ((execute A d root).run s).1 = .ok (.row row) →
          ∃ row', ((execute A d root').run s').1 = .ok (.row row') ∧
            row'.keys = root'.relations.map Relation.type ∧ row'.fields.Perm row.fields := by
  intro alone
  have halone : alone = fun c => selectFrom R d c >>= fun rows => .ok (.rows rows) :=
    funext fun c => outcome_only hA d hroot c (session c)
  rw [halone, outcome_entries hA d hroot hnodup hids s]
  refine ⟨?_, ?_, ?_, ?_⟩
  · rw [exists_entries_iff]
  · intro c _ v hv
    obtain ⟨rows, -, hrows⟩ := bind_eq_ok.mp hv
    exact ⟨rows, (Except.ok.inj hrows).symm⟩
  · intro v hv
    obtain ⟨fs, hfs, hv⟩ := bind_eq_ok.mp hv
    obtain rfl := Except.ok.inj hv
    have hfs := mapM_eq_ok.mp hfs
    rcases resultOf_entries hfs with ⟨hlength, hresult⟩ | ⟨c, rows, hc, hrows, hresult⟩
    · refine ⟨fun c hc => absurd (congrArg List.length hc) hlength, fun _ => ?_⟩
      exact ⟨⟨fs⟩, hresult, holdsEach_entries hnodup hfs⟩
    · refine ⟨fun c' hc' => ?_, fun hlength => absurd (congrArg List.length hc) hlength⟩
      obtain rfl := (List.cons.inj (hc.symm.trans hc')).1
      exact bind_eq_ok.mpr ⟨rows, hrows, congrArg _ hresult.symm⟩
  · intro root' s' hroot' hperm
    have hnodup' : (root'.relations.map Relation.type).Nodup :=
      (hperm.map Relation.type).nodup_iff.mpr hnodup
    have hids' : ∀ c ∈ root'.relations, ∀ c' ∈ root'.relations, c.type ≠ idColumn c'.type :=
      fun c hc c' hc' => hids c (hperm.subset hc) c' (hperm.subset hc')
    rw [outcome_entries hA d hroot' hnodup' hids' s', exists_entries_iff, exists_entries_iff]
    refine ⟨forall_congr' fun c => imp_congr_left hperm.mem_iff, fun row hrow => ?_⟩
    obtain ⟨fs, hfs, hrow⟩ := bind_eq_ok.mp hrow
    have hfs := mapM_eq_ok.mp hfs
    obtain ⟨fs', hfs', hsame⟩ := List.perm_comp_forall₂ hperm hfs
    have hresult := Except.ok.inj hrow
    rcases resultOf_entries hfs with ⟨hlength, hresult'⟩ | ⟨c, rows, -, -, hresult'⟩
    · obtain rfl := Value.row.inj (hresult.symm.trans hresult')
      rcases resultOf_entries hfs' with ⟨-, hresult'⟩ | ⟨c, rows, hc, -, -⟩
      · exact ⟨⟨fs'⟩, bind_eq_ok.mpr ⟨fs', mapM_eq_ok.mpr hfs', congrArg _ hresult'⟩,
          (holdsEach_entries hnodup' hfs').1, hsame⟩
      · exact absurd (hperm.length_eq.symm.trans (congrArg List.length hc)) hlength
    · cases hresult.symm.trans hresult'

/-- The cars of a user, and all trucks. -/
def carQuery : Relation where
  relations :=
    [{ type := "cars", sql := "WHERE userId = ?", bindings := [.text "1"],
       attributes := ["license"] },
     { type := "trucks", attributes := ["license"] }]

/-- What the query gives: one car, and no truck. -/
def carQueryRow : Record :=
  ⟨[⟨"cars", .rows [⟨[⟨"license", .text "A-1", false⟩]⟩], false⟩, ⟨"trucks", .rows [], false⟩]⟩

/-- The query is run on a new session, its relations alone after many calls; the trucks may come
first. -/
theorem execute_topLevel_carQuery :
    let A := adapter carPark (.ofDialect .sqlite true)
    let turned : Relation := { carQuery with relations := carQuery.relations.reverse }
    ((execute A .sqlite carQuery).run ⟨⟨0, []⟩, [], []⟩).1 = .ok (.row carQueryRow) ∧
      HoldsEach (fun c => ((execute A .sqlite (carQuery.only c)).run ⟨⟨100, []⟩, [], []⟩).1)
        carQuery.relations carQueryRow ∧
      ∃ row, ((execute A .sqlite turned).run ⟨⟨7, []⟩, [], []⟩).1 = .ok (.row row) ∧
        row.keys = ["trucks", "cars"] ∧ row.fields.Perm carQueryRow.fields := by
  have hsteady : carPark.Steady := ⟨fun _ _ _ _ => rfl, fun _ _ _ => rfl, fun _ _ _ _ => rfl,
    fun _ _ _ => rfl⟩
  have hreplies := repliesBy_adapter (.ofDialect .sqlite true) hsteady 0
  have hwhole : ((execute (adapter carPark (.ofDialect .sqlite true)) .sqlite carQuery).run
      ⟨⟨0, []⟩, [], []⟩).1 = .ok (.row carQueryRow) := rfl
  have hroot : carQuery.isMutation = false := rfl
  obtain ⟨-, -, hresult, horder⟩ := execute_topLevel hreplies .sqlite hroot
    (by decide) (by simp [carQuery, idColumn]) ⟨⟨0, []⟩, [], []⟩ fun _ => ⟨⟨100, []⟩, [], []⟩
  obtain ⟨row, hrow, hholds⟩ := (hresult _ hwhole).2 (by decide)
  cases hrow
  exact ⟨hwhole, hholds, (horder _ ⟨⟨7, []⟩, [], []⟩ rfl (List.reverse_perm _)).2 _ hwhole⟩

end Execute
end TreeQuery
