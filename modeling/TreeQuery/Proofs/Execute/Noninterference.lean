import Mathlib.Data.List.Forall2
import TreeQuery.Proofs.Execute.Exchange
import TreeQuery.Proofs.Query.Shape
import TreeQuery.Proofs.Row

/-!
# Values never reach the text of a statement

Two templates with the same segments, and values of the same shapes, are executed on two stores
whose replies agree position by position: in the names of the columns and the number of rows, and
in the tables that they describe where the catalog answers (`RepliesAgree`).  The values of the
templates and the cells of the rows may differ in any way.  If both executions succeed, they have
sent the same texts to their stores, by calls of the same kinds and in the same order
(`same_statements`): values and cells only ever travel as bound arguments.

The two executions are compared on stores that replay the replies (`execute_replay`), step by step
(`Lockstep`).  What the executor looks at is the same on both sides all the way: the trees have one
skeleton, and the rows of each level have the same keys.
-/

namespace TreeQuery

open List

namespace Store

/-- What an outsider sees of a call: its kind and its text, not the arguments. -/
def Call.label (c : Call) : CallKind × String :=
  (c.kind, c.sql)

/-- Rows of two runs that have the same keys, one by one. -/
def Aligned (rows rows' : List Record) : Prop :=
  rows.map Row.allKeys = rows'.map Row.allKeys

instance (rows rows' : List Record) : Decidable (Aligned rows rows') :=
  inferInstanceAs (Decidable (rows.map Row.allKeys = rows'.map Row.allKeys))

/-- Two answers to a question describe the same columns or foreign keys, if the question is one of
the catalog. -/
def SameTable (c : Schema.Catalog) (sql : String) (rows rows' : List Record) : Prop :=
  (sql = c.columns → rows.map (Schema.columnOf c) = rows'.map (Schema.columnOf c)) ∧
    (sql = c.foreignKeys → rows.map Schema.foreignKeyOf = rows'.map Schema.foreignKeyOf)

instance (c : Schema.Catalog) (sql : String) (rows rows' : List Record) :
    Decidable (SameTable c sql rows rows') :=
  inferInstanceAs (Decidable (_ ∧ _))

/-- **Two replies agree** when they have the same column names and the same number of rows, and
describe the same table if both answer one question of the catalog.  Statements prepared from one
text bear one text. -/
def SameReply (c : Schema.Catalog) : Exchange → Exchange → Prop
  | .all sql _ (.ok rows), .all sql' _ (.ok rows') =>
    Aligned rows rows' ∧ (sql = sql' → SameTable c sql rows rows')
  | .prepare sql (.ok stmt), .prepare sql' (.ok stmt') => sql = sql' → stmt.sql = stmt'.sql
  | .runAll _ _ (.ok rows), .runAll _ _ (.ok rows') => Aligned rows rows'
  | .runOne _ _ (.ok row), .runOne _ _ (.ok row') => Aligned row.toList row'.toList
  | _, _ => True

instance (c : Schema.Catalog) (e e' : Exchange) : Decidable (SameReply c e e') := by
  unfold SameReply
  split <;> infer_instance

/-- **The replies of two runs agree** position by position, as far as both runs go. -/
def RepliesAgree (c : Schema.Catalog) : List Exchange → List Exchange → Prop
  | e :: l, e' :: l' => SameReply c e e' ∧ RepliesAgree c l l'
  | _, _ => True

instance decidableRepliesAgree (c : Schema.Catalog) :
    (l l' : List Exchange) → Decidable (RepliesAgree c l l')
  | e :: l, e' :: l' =>
    haveI := decidableRepliesAgree c l l'
    inferInstanceAs (Decidable (SameReply c e e' ∧ RepliesAgree c l l'))
  | [], _ => isTrue trivial
  | _ :: _, [] => isTrue trivial

/-! ## Rows with the same keys -/

theorem map_eq_map_iff_forall₂ {ι κ : Type} {f : ι → κ} {l l' : List ι} :
    l.map f = l'.map f ↔ List.Forall₂ (fun a b => f a = f b) l l' := by
  rw [← forall₂_eq_eq_eq, forall₂_map_left_iff, forall₂_map_right_iff]

variable {rows' : List Record} {args : List Value} {l rest : List Exchange} {stmt : Statement}
  {rows : List Record}

theorem aligned_iff_forall₂ :
    Aligned rows rows' ↔ List.Forall₂ (fun r r' => r.allKeys = r'.allKeys) rows rows' :=
  map_eq_map_iff_forall₂

theorem Aligned.symm (h : Aligned rows rows') : Aligned rows' rows :=
  Eq.symm h

theorem Aligned.trans {rows rows'' : List Record} (h : Aligned rows rows')
    (h' : Aligned rows' rows'') : Aligned rows rows'' :=
  Eq.trans h h'

theorem Aligned.cons {r r' : Record} (hr : r.allKeys = r'.allKeys)
    (h : Aligned rows rows') : Aligned (r :: rows) (r' :: rows') :=
  aligned_iff_forall₂.mpr (.cons hr (aligned_iff_forall₂.mp h))

theorem Aligned.hide (h : Aligned rows rows') (hidden : List String) :
    Aligned (rows.map fun r => r.hide hidden) (rows'.map fun r => r.hide hidden) := by
  have hkeys : (Row.allKeys ∘ fun r : Record => r.hide hidden) = Row.allKeys :=
    funext fun r => Row.allKeys_hide r hidden
  rw [Aligned, map_map, map_map, hkeys]
  exact h

/-! ## What a replaying store has answered -/

theorem replay_all_eq_ok {sql : String} (h : replay.all sql args l = (.ok rows, rest)) :
    ∃ args', l = .all sql args' (.ok rows) :: rest := by
  unfold replay at h
  dsimp only at h
  split at h
  · split at h
    · rename_i hsql
      obtain ⟨rfl, rfl⟩ := Prod.mk.inj h
      exact ⟨_, by rw [hsql]⟩
    · cases h
  · cases h

theorem replay_prepare_eq_ok {sql : String} (h : replay.prepare sql l = (.ok stmt, rest)) :
    l = .prepare sql (.ok stmt) :: rest := by
  unfold replay at h
  dsimp only at h
  split at h
  · split at h
    · rename_i hsql
      obtain ⟨rfl, rfl⟩ := Prod.mk.inj h
      rw [hsql]
    · cases h
  · cases h

theorem replay_runAll_eq_ok (h : replay.runAll stmt args l = (.ok rows, rest)) :
    ∃ stmt' args', l = .runAll stmt' args' (.ok rows) :: rest := by
  unfold replay at h
  dsimp only at h
  split at h
  · obtain ⟨rfl, rfl⟩ := Prod.mk.inj h
    exact ⟨_, _, rfl⟩
  · cases h

theorem replay_runOne_eq_ok {row : Option Record}
    (h : replay.runOne stmt args l = (.ok row, rest)) :
    ∃ stmt' args', l = .runOne stmt' args' (.ok row) :: rest := by
  unfold replay at h
  dsimp only at h
  split at h
  · obtain ⟨rfl, rfl⟩ := Prod.mk.inj h
    exact ⟨_, _, rfl⟩
  · cases h

theorem replay_finalize_eq_ok (h : replay.finalize stmt l = (.ok (), rest)) :
    ∃ stmt', l = .finalize stmt' (.ok ()) :: rest := by
  unfold replay at h
  dsimp only at h
  split at h
  · obtain ⟨rfl, rfl⟩ := Prod.mk.inj h
    exact ⟨_, rfl⟩
  · cases h

end Store

namespace Execute

open Query Schema Store Work

/-! ## Two works in lockstep -/

/-- Two sessions on replaying stores are in step: they have made the same calls up to arguments,
and the replies to come agree. -/
def InStep (c : Catalog) (u u' : Session (List Exchange)) : Prop :=
  u.calls.map Call.label = u'.calls.map Call.label ∧ RepliesAgree c u.store u'.store

/-- **Two works in lockstep**: from sessions in step, if both succeed, they end in step, with
results related by `R`. -/
def Lockstep (c : Catalog) {α β : Type} (w : Work (List Exchange) α) (w' : Work (List Exchange) β)
    (R : α → β → Prop) : Prop :=
  ∀ u u' a b t t', InStep c u u' → w.run u = (.ok a, t) → w'.run u' = (.ok b, t') →
    InStep c t t' ∧ R a b

variable {c : Catalog} {α β γ δ : Type} {R : α → β → Prop} {Q : γ → δ → Prop}
  {children : List Relation} {w' : Work (List Exchange) β} {w : Work (List Exchange) α}

theorem Lockstep.pure {a : α} {b : β} (h : R a b) :
    Lockstep c (pure a : Work (List Exchange) α) (pure b) R := by
  intro u u' x y t t' hu hw hw'
  cases hw
  cases hw'
  exact ⟨hu, h⟩

theorem Lockstep.throw_left (e : Failure) (w : Work (List Exchange) β) :
    Lockstep c (throw e : Work (List Exchange) α) w R := by
  intro u u' x y t t' hu hw hw'
  cases hw

theorem Lockstep.throw_right (w : Work (List Exchange) α) (e : Failure) :
    Lockstep c w (throw e : Work (List Exchange) β) R := by
  intro u u' x y t t' hu hw hw'
  cases hw'

theorem Lockstep.bind {f : α → Work (List Exchange) γ} {g : β → Work (List Exchange) δ}
    (h : Lockstep c w w' R) (hfg : ∀ a b, R a b → Lockstep c (f a) (g b) Q) :
    Lockstep c (w >>= f) (w' >>= g) Q := by
  intro u u' x y t t' hu hw hw'
  obtain ⟨a, v, ha, hf⟩ := run_bind_eq_ok hw
  obtain ⟨b, v', hb, hg⟩ := run_bind_eq_ok hw'
  obtain ⟨hv, hab⟩ := h u u' a b v v' hu ha hb
  exact hfg a b hab v v' x y t t' hv hf hg

theorem Lockstep.mono {R' : α → β → Prop} (h : Lockstep c w w' R) (hR : ∀ a b, R a b → R' a b) :
    Lockstep c w w' R' := by
  intro u u' a b t t' hu hw hw'
  obtain ⟨ht, hab⟩ := h u u' a b t t' hu hw hw'
  exact ⟨ht, hR a b hab⟩

theorem Lockstep.note (message message' : String) (details details' : List (String × Value)) :
    Lockstep c (note message details) (Work.note message' details') (fun _ _ => True) := by
  intro u u' x y t t' hu hw hw'
  cases hw
  cases hw'
  exact ⟨hu, trivial⟩

theorem Lockstep.mapM {ι κ : Type} {S : ι → κ → Prop} {f : ι → Work (List Exchange) α}
    {g : κ → Work (List Exchange) β} {is : List ι} {ks : List κ} (hS : List.Forall₂ S is ks)
    (hfg : ∀ i k, S i k → Lockstep c (f i) (g k) R) :
    Lockstep c (is.mapM f) (ks.mapM g) (List.Forall₂ R) := by
  induction hS with
  | nil => exact Lockstep.pure .nil
  | cons hik _ ih =>
    rw [mapM_cons, mapM_cons]
    exact Lockstep.bind (hfg _ _ hik) fun a b hab =>
      Lockstep.bind ih fun as bs habs => Lockstep.pure (.cons hab habs)

/-- A call on each side: the texts agree, and so do the replies at the front of the scripts. -/
theorem Lockstep.call {f : Session (List Exchange) → Except StoreError α × Session (List Exchange)}
    {g : Session (List Exchange) → Except StoreError β × Session (List Exchange)}
    (h : ∀ u u' a b, InStep c u u' → (f u).1 = .ok a → (g u').1 = .ok b →
      InStep c (f u).2 (g u').2 ∧ R a b) :
    Lockstep c (call f) (Work.call g) R := by
  intro u u' a b t t' hu hw hw'
  have hf := run_call_eq_ok hw
  have hg := run_call_eq_ok hw'
  have hstep := h u u' a b hu (congrArg Prod.fst hf) (congrArg Prod.fst hg)
  rwa [hf, hg] at hstep

/-! ### Calls of the store -/

/-- One call on each side, with the same label, takes one exchange off each script. -/
theorem InStep.advance {u u' : Session (List Exchange)} {e e' : Exchange}
    {rest rest' : List Exchange} (h : InStep c u u') (hu : u.store = e :: rest)
    (hu' : u'.store = e' :: rest') (k k' : Call) (hk : k.label = k'.label) :
    SameReply c e e' ∧
      InStep c { u.record k with store := rest } { u'.record k' with store := rest' } := by
  obtain ⟨hcalls, hreplies⟩ := h
  rw [hu, hu'] at hreplies
  refine ⟨hreplies.1, ?_, hreplies.2⟩
  show (u.calls ++ [k]).map Call.label = (u'.calls ++ [k']).map Call.label
  rw [map_append, map_append, hcalls, map_singleton, map_singleton, hk]

theorem label_congr (kind : CallKind) {sql sql' : String} (h : sql = sql')
    (args args' : List Value) :
    Call.label ⟨kind, sql, args⟩ = Call.label ⟨kind, sql', args'⟩ := by
  rw [Call.label, Call.label, h]

theorem Lockstep.all (sql : String) (args args' : List Value) :
    Lockstep c (Work.call (Session.all replay sql args)) (Work.call (Session.all replay sql args'))
      fun rows rows' => Aligned rows rows' ∧ SameTable c sql rows rows' := by
  refine Lockstep.call fun u u' rows rows' hu hr hr' => ?_
  obtain ⟨_, he⟩ := replay_all_eq_ok (Prod.ext hr rfl)
  obtain ⟨_, he'⟩ := replay_all_eq_ok (Prod.ext hr' rfl)
  obtain ⟨⟨hkeys, htable⟩, hstep⟩ := hu.advance he he' ⟨.all, sql, args⟩ ⟨.all, sql, args'⟩ rfl
  exact ⟨hstep, hkeys, htable rfl⟩

variable {stmt stmt' : Statement} {parents parents' : List Record} {rel rel' root root' : Relation}
  {children' : List Relation}

theorem Lockstep.runAll (hsql : stmt.sql = stmt'.sql) (args args' : List Value) :
    Lockstep c (Work.call (Session.runAll replay stmt args))
      (Work.call (Session.runAll replay stmt' args')) Aligned := by
  refine Lockstep.call fun u u' rows rows' hu hr hr' => ?_
  obtain ⟨_, _, he⟩ := replay_runAll_eq_ok (Prod.ext hr rfl)
  obtain ⟨_, _, he'⟩ := replay_runAll_eq_ok (Prod.ext hr' rfl)
  obtain ⟨hkeys, hstep⟩ := hu.advance he he' _ _ (label_congr .run hsql args args')
  exact ⟨hstep, hkeys⟩

theorem Lockstep.runOne (hsql : stmt.sql = stmt'.sql) (args args' : List Value) :
    Lockstep c (Work.call (Session.runOne replay stmt args))
      (Work.call (Session.runOne replay stmt' args'))
      fun row row' => Aligned row.toList row'.toList := by
  refine Lockstep.call fun u u' row row' hu hr hr' => ?_
  obtain ⟨_, _, he⟩ := replay_runOne_eq_ok (Prod.ext hr rfl)
  obtain ⟨_, _, he'⟩ := replay_runOne_eq_ok (Prod.ext hr' rfl)
  obtain ⟨hkeys, hstep⟩ := hu.advance he he' _ _ (label_congr .run hsql args args')
  exact ⟨hstep, hkeys⟩

theorem Lockstep.prepare (sql : String) :
    Lockstep c (Work.call (Session.prepare replay sql)) (Work.call (Session.prepare replay sql))
      fun stmt stmt' => stmt.sql = stmt'.sql := by
  refine Lockstep.call fun u u' stmt stmt' hu hr hr' => ?_
  have he := replay_prepare_eq_ok (Prod.ext hr rfl)
  have he' := replay_prepare_eq_ok (Prod.ext hr' rfl)
  obtain ⟨hsql, hstep⟩ := hu.advance he he' ⟨.prepare, sql, []⟩ ⟨.prepare, sql, []⟩ rfl
  exact ⟨hstep, hsql rfl⟩

theorem Lockstep.finalize (hsql : stmt.sql = stmt'.sql) :
    Lockstep c (Work.call (Session.finalize replay stmt))
      (Work.call (Session.finalize replay stmt')) fun _ _ => True := by
  refine Lockstep.call fun u u' _ _ hu hr hr' => ?_
  obtain ⟨_, he⟩ := replay_finalize_eq_ok (Prod.ext hr rfl)
  obtain ⟨_, he'⟩ := replay_finalize_eq_ok (Prod.ext hr' rfl)
  exact ⟨(hu.advance he he' _ _ (label_congr .finalize hsql [] [])).2, trivial⟩

theorem Lockstep.withStatement (sql : String) {body : Statement → Work (List Exchange) α}
    {body' : Statement → Work (List Exchange) β}
    (h : ∀ stmt stmt', stmt.sql = stmt'.sql → Lockstep c (body stmt) (body' stmt') R) :
    Lockstep c (Work.withStatement replay sql body) (Work.withStatement replay sql body') R := by
  intro u u' a b t t' hu hw hw'
  obtain ⟨stmt, v, w, hprep, hbody, hfin⟩ := run_withStatement_eq_ok hw
  obtain ⟨stmt', v', w', hprep', hbody', hfin'⟩ := run_withStatement_eq_ok hw'
  obtain ⟨hv, hsql⟩ := Lockstep.prepare sql u u' stmt stmt' v v' hu hprep hprep'
  obtain ⟨hw, hab⟩ := h stmt stmt' hsql v v' a b w w' hv hbody hbody'
  exact ⟨(Lockstep.finalize hsql w w' () () t t' hw hfin hfin').1, hab⟩

/-! ## What the executor looks at -/

theorem firstHas_congr (h : Aligned parents parents') (key : String) :
    firstHas parents key = firstHas parents' key := by
  cases aligned_iff_forall₂.mp h with
  | nil => rfl
  | cons hr _ => exact Row.has_congr hr key

/-- Hiding keys leaves the keys of the first row. -/
theorem firstHas_hide (rows : List Record) (hidden : List String) :
    firstHas (rows.map fun r => r.hide hidden) = firstHas rows := by
  cases rows with
  | nil => rfl
  | cons first _ => exact Row.has_hide first hidden

/-- Looking into documents leaves the keys of the rows: only a key that a row has is assigned. -/
theorem aligned_filterParents {child : Relation} {out : List Record}
    (h : filterParents child parents = .ok out) : Aligned out parents := by
  induction parents generalizing out with
  | nil =>
    cases h
    rfl
  | cons parent rest ih =>
    cases hrest : filterParents child rest with
    | error e =>
      rw [filterParents, hrest] at h
      split at h <;> cases h
    | ok more =>
      rw [filterParents, hrest] at h
      split at h
      · cases h
        exact Aligned.cons rfl (ih hrest)
      · rename_i v hv
        cases h
        -- a row that lacks the key holds null there, and null holds no document
        refine Aligned.cons (Row.allKeys_set_of_mem ?_ _) (ih hrest)
        rw [← Row.get?_isSome]
        cases hget : parent.get? child.type with
        | none =>
          rw [hget] at hv
          cases hv
        | some _ => rfl
      · cases h

theorem addChild_congr (d : Sql.Dialect) (cols : List Column) {child child' : Relation}
    (hattr : rel.attributes = rel'.attributes) (htype : child.type = child'.type) (s : Selection) :
    Selection.addChild d cols rel s child = Selection.addChild d cols rel' s child' := by
  unfold Selection.addChild looksInside joinColumn Relation.hasAttribute
  rw [hattr, htype]

theorem foldl_addChild_congr (d : Sql.Dialect) (cols : List Column)
    (hattr : rel.attributes = rel'.attributes)
    (h : List.Forall₂ (fun r r' => r.skeleton = r'.skeleton) children children') (s : Selection) :
    children.foldl (Selection.addChild d cols rel) s =
      children'.foldl (Selection.addChild d cols rel') s := by
  induction h generalizing s with
  | nil => rfl
  | cons hr _ ih =>
    have htype := (Relation.skeleton_eq_skeleton_iff.mp hr).1
    rw [foldl_cons, foldl_cons, addChild_congr d cols hattr htype, ih]

/-- A select list depends on the skeleton alone. -/
theorem plan?_congr (d : Sql.Dialect) (cols : List Column) (h : rel.skeleton = rel'.skeleton) :
    plan? d cols rel = plan? d cols rel' := by
  obtain ⟨-, -, -, hattr, hrel⟩ := Relation.skeleton_eq_skeleton_iff.mp h
  rw [plan?, plan?, foldl_addChild_congr d cols hattr (map_eq_map_iff_forall₂.mp hrel), hattr]

/-! ## Executions of trees with one skeleton -/

variable (d : Sql.Dialect)

theorem lockstep_columns (table : String) :
    Lockstep c (columns replay c table) (columns replay c table) Eq :=
  Lockstep.bind (Lockstep.all _ _ _) fun _ _ h => Lockstep.pure (h.2.1 rfl)

theorem lockstep_foreignKeys (table : String) :
    Lockstep c (foreignKeys replay c table) (foreignKeys replay c table) Eq :=
  Lockstep.bind (Lockstep.all _ _ _) fun _ _ h => Lockstep.pure (h.2.2 rfl)

theorem lockstep_orFail {α : Type} (r : Except RelationError α) :
    Lockstep c (orFail r) (orFail r) Eq := by
  cases r with
  | ok a => exact Lockstep.pure rfl
  | error e => exact Lockstep.throw_left _ _

theorem lockstep_joinFor (table type : String) (isSingular : Bool) :
    Lockstep c (joinFor replay c table type isSingular) (joinFor replay c table type isSingular)
      Eq := by
  unfold joinFor
  split
  · exact Lockstep.pure rfl
  split
  all_goals
    refine Lockstep.bind (lockstep_foreignKeys _) fun keys keys' hkeys => ?_
    rw [hkeys]
    exact lockstep_orFail _

theorem lockstep_lookInside {child child' : Relation} (h : Aligned parents parents') :
    Lockstep c (lookInside child parents) (lookInside child' parents') Aligned := by
  refine Lockstep.bind (Lockstep.note _ _ _ _) fun _ _ _ => ?_
  split
  · rename_i out hout
    split
    · rename_i out' hout'
      exact Lockstep.pure (((aligned_filterParents hout).trans h).trans
        (aligned_filterParents hout').symm)
    · exact Lockstep.throw_right _ _
  · exact Lockstep.throw_left _ _

/-- Two lists of relations are resolved in lockstep, for rows with the same keys. -/
def ResolvedInStep (c : Catalog) (children children' : List Relation) : Prop :=
  ∀ table parents parents', Aligned parents parents' →
    Lockstep c (resolve replay d table children parents) (resolve replay d table children' parents')
      Aligned

variable {d} {child child' : Relation}

theorem lockstep_joinOne (hskel : child.skeleton = child'.skeleton)
    (hres : ResolvedInStep d c child.relations child'.relations) (target : Join)
    (keyed isSingular : Bool) (hidden : List String) (hsql : stmt.sql = stmt'.sql)
    {parent parent' : Record} (h : parent.allKeys = parent'.allKeys) :
    Lockstep c (joinOne replay d child target keyed isSingular hidden stmt parent)
      (joinOne replay d child' target keyed isSingular hidden stmt' parent')
      fun r r' => r.allKeys = r'.allKeys := by
  have htype := (Relation.skeleton_eq_skeleton_iff.mp hskel).1
  have hset : ∀ v v', (parent.set child.type v).allKeys = (parent'.set child'.type v').allKeys := by
    intro v v'
    rw [← htype]
    rw [Row.allKeys_set, Row.allKeys_set, h]
  refine Lockstep.bind (R := fun _ _ => True) ?_ fun v v' _ => Lockstep.pure (hset v v')
  unfold relatedTo
  cases isSingular with
  | true =>
    refine Lockstep.bind (Lockstep.runOne hsql _ _) fun row row' hrow => ?_
    -- one side has a row exactly when the other one has
    rcases row with _ | row <;> rcases row' with _ | row'
    · exact Lockstep.pure trivial
    · cases hrow
    · cases hrow
    · exact Lockstep.bind (hres _ _ _ (hrow.hide hidden)) fun _ _ _ => Lockstep.pure trivial
  | false =>
    refine Lockstep.bind (Lockstep.runAll hsql _ _) fun rows rows' hrows => ?_
    exact Lockstep.bind (hres _ _ _ (hrows.hide hidden)) fun _ _ _ => Lockstep.pure trivial

theorem lockstep_joinAlong (hskel : child.skeleton = child'.skeleton)
    (hres : ResolvedInStep d (Catalog.ofDialect d) child.relations child'.relations)
    (keyed isSingular : Bool) (h : Aligned parents parents') (target : Join) :
    Lockstep (Catalog.ofDialect d) (joinAlong replay d child keyed isSingular parents target)
      (joinAlong replay d child' keyed isSingular parents' target) Aligned := by
  have hsql := (Relation.skeleton_eq_skeleton_iff.mp hskel).2.2.1
  refine Lockstep.bind (lockstep_columns _) fun cols cols' hcols => ?_
  -- one table and one skeleton give one select list, and so one text
  rw [← hcols, plan?_congr d cols hskel]
  split
  · exact Lockstep.throw_left _ _
  rename_i proj _
  dsimp only
  rw [hsql]
  refine Lockstep.withStatement _ fun stmt stmt' hstmt => ?_
  refine Lockstep.bind (Lockstep.note _ _ _ _) fun _ _ _ => ?_
  have hmap := Lockstep.mapM (aligned_iff_forall₂.mp h) fun _ _ hparent =>
    lockstep_joinOne hskel hres target keyed isSingular proj.hidden hstmt hparent
  exact hmap.mono fun _ _ => aligned_iff_forall₂.mpr

/-- A relation is joined in lockstep if those nested in it are resolved so. -/
theorem lockstep_join_step (hskel : child.skeleton = child'.skeleton)
    (hres : ResolvedInStep d (Catalog.ofDialect d) child.relations child'.relations)
    (table : String) (h : Aligned parents parents') :
    Lockstep (Catalog.ofDialect d) (join replay d table child parents)
      (join replay d table child' parents') Aligned := by
  have htype := (Relation.skeleton_eq_skeleton_iff.mp hskel).1
  rw [join_eq, join_eq, ← htype, ← firstHas_congr h]
  refine Lockstep.bind (lockstep_joinFor _ _ _) fun target target' htarget => ?_
  rw [← htarget]
  exact lockstep_joinAlong hskel hres _ _ h target

theorem resolvedInStep_of_join
    (hchildren : List.Forall₂ (fun r r' => r.skeleton = r'.skeleton) children children')
    (hjoin : ∀ child ∈ children, ∀ child', child.skeleton = child'.skeleton →
      ∀ table parents parents', Aligned parents parents' →
        Lockstep c (join replay d table child parents) (join replay d table child' parents')
          Aligned) : ResolvedInStep d c children children' := by
  induction hchildren with
  | nil =>
    intro table parents parents' h
    rw [resolve_nil, resolve_nil]
    exact Lockstep.pure h
  | @cons child child' rest rest' hskel _ ih =>
    intro table parents parents' h
    cases aligned_iff_forall₂.mp h with
    | nil =>
      rw [resolve_empty, resolve_empty]
      exact Lockstep.pure rfl
    | cons _ _ =>
      rw [resolve_cons, resolve_cons]
      refine Lockstep.bind ?_ (ih (fun r hr => hjoin r (mem_cons_of_mem _ hr)) table)
      unfold attachOne
      -- the first rows have the same keys, so both sides look inside or both join
      rw [← (Relation.skeleton_eq_skeleton_iff.mp hskel).1, ← firstHas_congr h]
      split
      · exact lockstep_lookInside h
      · exact hjoin child mem_cons_self child' hskel table _ _ h

theorem lockstep_join (hskel : child.skeleton = child'.skeleton) (table : String)
    (h : Aligned parents parents') :
    Lockstep (Catalog.ofDialect d) (join replay d table child parents)
      (join replay d table child' parents') Aligned := by
  induction child using Relation.nested_induction generalizing child' table parents parents' with
  | step child ih =>
    have hrel := (Relation.skeleton_eq_skeleton_iff.mp hskel).2.2.2.2
    refine lockstep_join_step hskel ?_ table h
    exact resolvedInStep_of_join (map_eq_map_iff_forall₂.mp hrel)
      fun r hr r' hrr' table _ _ h => ih r hr hrr' table h

theorem resolvedInStep (h : children.map Relation.skeleton = children'.map Relation.skeleton) :
    ResolvedInStep d (Catalog.ofDialect d) children children' :=
  resolvedInStep_of_join (map_eq_map_iff_forall₂.mp h)
    fun _ _ _ hskel table _ _ h => lockstep_join hskel table h

theorem lockstep_mutate (hskel : root.skeleton = root'.skeleton) :
    Lockstep (Catalog.ofDialect d) (mutate replay d root) (mutate replay d root')
      fun _ _ => True := by
  obtain ⟨-, htable, hsql, -, hrel⟩ := Relation.skeleton_eq_skeleton_iff.mp hskel
  rw [mutate, mutate]
  split
  · refine Lockstep.bind (R := Eq) ?_ fun cols cols' hcols => ?_
    · rw [htable]
      unfold mutationColumns
      split
      · exact Lockstep.pure rfl
      · exact lockstep_columns _
    · unfold mutateOver
      rw [← hcols, plan?_congr d cols hskel]
      split
      · exact Lockstep.throw_left _ _
      dsimp only
      rw [hsql, htable]
      refine Lockstep.bind (Lockstep.note _ _ _ _) fun _ _ _ => ?_
      refine Lockstep.bind (Lockstep.all _ _ _) fun rows rows' hrows => ?_
      exact (resolvedInStep hrel _ _ _ (hrows.1.hide _)).mono fun _ _ _ => trivial
  · exact Lockstep.throw_left _ _

/-- Executions of trees with one skeleton go in lockstep. -/
theorem lockstep_execute (hskel : root.skeleton = root'.skeleton) :
    Lockstep (Catalog.ofDialect d) (execute replay d root) (execute replay d root')
      fun _ _ => True := by
  obtain ⟨htype, -, hsql, -, hrel⟩ := Relation.skeleton_eq_skeleton_iff.mp hskel
  have hmutation : root.isMutation = root'.isMutation := by
    unfold Relation.isMutation Relation.isRoot
    rw [htype, hsql]
  rw [execute, execute, ← hmutation]
  split
  · exact Lockstep.bind (lockstep_mutate hskel) fun _ _ _ => Lockstep.pure trivial
  · exact Lockstep.bind (resolvedInStep hrel "" _ _ rfl) fun _ _ _ => Lockstep.pure trivial

/-- Two executions of trees with one skeleton that succeed, on stores whose replies agree, make the
same calls up to arguments. -/
theorem labels_eq_of_skeleton_eq {σ τ : Type} {A : Adapter σ} {B : Adapter τ}
    (hskel : root.skeleton = root'.skeleton) {s : σ} {t : τ} {v v' : Value} {u : Session σ}
    {u' : Session τ} (hrun : (execute A d root).run { store := s } = (.ok v, u))
    (hrun' : (execute B d root').run { store := t } = (.ok v', u'))
    (hreplies : RepliesAgree (Catalog.ofDialect d) (exchanges A d root s) (exchanges B d root' t)) :
    u.calls.map Call.label = u'.calls.map Call.label := by
  obtain ⟨hv, hu⟩ := execute_observed A d root s
  obtain ⟨hv', hu'⟩ := execute_observed B d root' t
  -- each execution goes the same way on the store that replays its own exchanges
  obtain ⟨w, hreplay, -, hw⟩ := execute_replay A d root s
  obtain ⟨w', hreplay', -, hw'⟩ := execute_replay B d root' t
  rw [hrun] at hv hu
  rw [hrun'] at hv' hu'
  rw [← hv] at hreplay
  rw [← hv'] at hreplay'
  have hstart : InStep (Catalog.ofDialect d) { store := exchanges A d root s }
      { store := exchanges B d root' t } := ⟨rfl, hreplies⟩
  obtain ⟨⟨hlabels, -⟩, -⟩ := lockstep_execute hskel _ _ v v' w w' hstart hreplay hreplay'
  rw [hw, hw', ← hu, ← hu'] at hlabels
  exact hlabels

/-- **No value reaches the text of a statement.**  Two templates with the same segments and values
of the same shapes fail alike or have trees of one skeleton.  If both trees are executed with
success, on stores whose replies agree but for the cells of their rows, then the two stores receive
the same texts by calls of the same kinds, in the same order. -/
theorem same_statements (segments : List String) {values values' : List Value}
    (hshape : values.map shape = values'.map shape) :
    (Template.parse ⟨segments, values⟩).map Relation.skeleton =
        (Template.parse ⟨segments, values'⟩).map Relation.skeleton ∧
      ∀ root root', Template.parse ⟨segments, values⟩ = .ok root →
        Template.parse ⟨segments, values'⟩ = .ok root' →
        ∀ (d : Sql.Dialect) (σ τ : Type) (A : Adapter σ) (B : Adapter τ) (s : σ) (t : τ) v v' u u',
          (execute A d root).run { store := s } = (.ok v, u) →
          (execute B d root').run { store := t } = (.ok v', u') →
          RepliesAgree (Catalog.ofDialect d) (exchanges A d root s) (exchanges B d root' t) →
          u.calls.map Call.label = u'.calls.map Call.label := by
  have hparse := skeleton_parse_eq segments hshape
  refine ⟨hparse, ?_⟩
  intro root root' hroot hroot' d σ τ A B s t v v' u u' hrun hrun' hreplies
  rw [hroot, hroot'] at hparse
  exact labels_eq_of_skeleton_eq (Except.ok.inj hparse) hrun hrun' hreplies

/-- The segments of the template used below: a clause with one value, and nested in it a clause with
a sequence of values. -/
def carSegments : List String :=
  ["users WHERE name = ", " \x7b\n id\n cars WHERE brand IN (", ") \x7b\n brand\n \x7d\n\x7d"]

def carTree (name : Value) (brands : List Value) : Relation where
  relations :=
    [{ type := "users", sql := "WHERE name = ?", bindings := [name], attributes := ["id"],
       relations := [{ type := "cars", sql := "WHERE brand IN (?,?)", bindings := brands,
                       attributes := ["brand"] }] }]

/-- The exchanges of its execution with a store that has two users, the first one with a car. -/
def carExchanges (name id id' brand : Value) (brands : List Value) : List Exchange :=
  let cols (names : List String) : List Record :=
    names.map fun n => Row.ofList [("name", .text n), ("type", .text "INTEGER")]
  let key : Record :=
    Row.ofList [("table", .text "users"), ("from", .text "userId"), ("to", .text "id")]
  let users : Statement :=
    ⟨"WITH temp AS (SELECT * FROM \"users\") SELECT \"id\" FROM temp WHERE name = ?", none⟩
  let cars : Statement :=
    ⟨"WITH temp AS (SELECT * FROM \"cars\" WHERE \"userId\" = ?) SELECT \"brand\" FROM temp " ++
      "WHERE brand IN (?,?)", none⟩
  [.all Catalog.sqlite.columns [.text "users"] (.ok (cols ["id", "name"])),
   .prepare users.sql (.ok users),
   .runAll users [name] (.ok [Row.ofList [("id", id)], Row.ofList [("id", id')]]),
   .all Catalog.sqlite.foreignKeys [.text "cars"] (.ok [key]),
   .all Catalog.sqlite.columns [.text "cars"] (.ok (cols ["brand", "userId"])),
   .prepare cars.sql (.ok cars),
   .runAll cars (id :: brands) (.ok [Row.ofList [("brand", brand)]]),
   .runAll cars (id' :: brands) (.ok []),
   .finalize cars (.ok ()),
   .finalize users (.ok ())]

theorem same_statements_cars :
    let name : Value := .text "' OR 1 = 1; --"
    let values : List Value := [.text "Ann", .list [.text "Saab", .null]]
    let values' : List Value := [name, .list [.int 1, .bool true]]
    let script := carExchanges (.text "Ann") (.int 1) (.int 2) (.text "Saab") [.text "Saab", .null]
    let script' := carExchanges name .null (.text "x") .null [.int 1, .bool true]
    values.map shape = values'.map shape ∧
      ∃ root root' v v' u u', Template.parse ⟨carSegments, values⟩ = .ok root ∧
        Template.parse ⟨carSegments, values'⟩ = .ok root' ∧
        (execute replay .sqlite root).run { store := script } = (.ok v, u) ∧
        (execute replay .sqlite root').run { store := script' } = (.ok v', u') ∧
        u.calls.map Call.label = u'.calls.map Call.label := by
  intro name values values' script script'
  have hshape : values.map shape = values'.map shape := rfl
  have hparse : Template.parse ⟨carSegments, values⟩ =
      .ok (carTree (.text "Ann") [.text "Saab", .null]) := rfl
  have hparse' : Template.parse ⟨carSegments, values'⟩ =
      .ok (carTree name [.int 1, .bool true]) := rfl
  obtain ⟨v, u, hrun⟩ := exists_run_eq_ok (w := execute replay .sqlite
    (carTree (.text "Ann") [.text "Saab", .null])) (s := { store := script }) (by decide +kernel)
  obtain ⟨v', u', hrun'⟩ := exists_run_eq_ok (w := execute replay .sqlite
    (carTree name [.int 1, .bool true])) (s := { store := script' }) (by decide +kernel)
  have hlabels := (same_statements carSegments hshape).2 _ _ hparse hparse' .sqlite _ _ replay
    replay script script' v v' u u' hrun hrun' (by decide +kernel)
  exact ⟨hshape, _, _, v, v', u, u', hparse, hparse', hrun, hrun', hlabels⟩

end Execute
end TreeQuery
