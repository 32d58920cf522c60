import TreeQuery.Proofs.Execute.Replies
import TreeQuery.Proofs.Outcome
import TreeQuery.Proofs.Row

/-!
# Batches of rows

Relations are resolved for all rows of a level at once: what a relation is, how it is joined and
what it selects is decided by the first of them, and all share one statement.  On a store that
replies by text, rows that carry the same keys do not notice: a batch is resolved if each of its
rows can be resolved alone, and each of its rows is then what it is alone (`resolve_batch`).

The proof follows the relations of a level.  Attaching one of them acts on each row for itself
(`Rowwise`), and rows that carry the same keys carry the same keys afterwards.  So relations can be
attached one after the other.
-/

namespace TreeQuery

open List

variable {α : Type} {as : List α}

namespace Execute

open Query Schema Store Work

/-! ## Lists -/

variable {β : Type} {p : Record}

/-- Relations between the elements of lists are composed element by element. -/
theorem forall₂_comp_iff {γ : Type} {S : α → β → Prop} {T : β → γ → Prop} {cs : List γ} :
    (∃ bs, List.Forall₂ S as bs ∧ List.Forall₂ T bs cs) ↔
      List.Forall₂ (fun a c => ∃ b, S a b ∧ T b c) as cs := by
  constructor
  · rintro ⟨bs, hS, hT⟩
    induction hS generalizing cs with
    | nil =>
      cases hT
      exact .nil
    | cons hab _ ih =>
      cases hT with
      | cons hbc hT => exact .cons ⟨_, hab, hbc⟩ (ih hT)
  · intro h
    induction h with
    | nil => exact ⟨[], .nil, .nil⟩
    | cons hac _ ih =>
      obtain ⟨b, hab, hbc⟩ := hac
      obtain ⟨bs, hS, hT⟩ := ih
      exact ⟨b :: bs, .cons hab hS, .cons hbc hT⟩

theorem exists_forall₂_iff {S : α → β → Prop} :
    (∃ bs, List.Forall₂ S as bs) ↔ ∀ a ∈ as, ∃ b, S a b := by
  induction as with
  | nil => exact ⟨fun _ a ha => absurd ha not_mem_nil, fun _ => ⟨[], .nil⟩⟩
  | cons a as ih =>
    rw [forall_mem_cons, ← ih]
    constructor
    · rintro ⟨bs, h⟩
      cases h with
      | cons hab h => exact ⟨⟨_, hab⟩, _, h⟩
    · rintro ⟨⟨b, hab⟩, bs, h⟩
      exact ⟨b :: bs, .cons hab h⟩

theorem exists_mem_of_forall₂ {S : α → β → Prop} {bs : List β}
    (h : List.Forall₂ S as bs) {b : β} (hb : b ∈ bs) : ∃ a ∈ as, S a b := by
  induction h with
  | nil => cases hb
  | cons hab _ ih =>
    rcases mem_cons.mp hb with rfl | hb
    · exact ⟨_, mem_cons_self, hab⟩
    · obtain ⟨a, ha, hab⟩ := ih hb
      exact ⟨a, mem_cons_of_mem _ ha, hab⟩

/-! ## Acting on each row for itself -/

/-- **An action on batches of rows is one on each row**: for rows that carry the given keys, it
gives rows exactly if each of these is what one of the former becomes for itself. -/
def Rowwise (keys : String → Bool) (y : List Record → Except Failure (List Record))
    (S : Record → Record → Prop) : Prop :=
  ∀ parents, parents ≠ [] → (∀ p ∈ parents, p.has = keys) →
    ∀ rows, y parents = .ok rows ↔ List.Forall₂ S parents rows

section Rowwise

variable {keys : String → Bool} {y z : List Record → Except Failure (List Record)}
  {S T : Record → Record → Prop}

theorem Rowwise.single (h : Rowwise keys y S) (hp : p.has = keys)
    (rows : List Record) : y [p] = .ok rows ↔ ∃ r, rows = [r] ∧ S p r := by
  rw [h [p] (cons_ne_nil _ _) (forall_mem_singleton.mpr hp), forall₂_cons_left_iff]
  constructor
  · rintro ⟨r, rest, hr, hrest, rfl⟩
    cases hrest
    exact ⟨r, rfl, hr⟩
  · rintro ⟨r, rfl, hr⟩
    exact ⟨r, [], hr, .nil, rfl⟩

/-- Actions one after the other, where the first one determines the keys. -/
theorem Rowwise.bind {keys' : String → Bool} (hy : Rowwise keys y S) (hz : Rowwise keys' z T)
    (hkeys : ∀ p r, p.has = keys → S p r → r.has = keys') :
    Rowwise keys (fun parents => y parents >>= z) fun p r => ∃ m, S p m ∧ T m r := by
  intro parents hne hparents rows
  rw [bind_eq_ok, ← forall₂_comp_iff]
  refine exists_congr fun mids => ?_
  rw [hy parents hne hparents]
  refine and_congr_right fun hmids => hz mids ?_ ?_ rows
  · rintro rfl
    exact hne (forall₂_nil_right_iff.mp hmids)
  · intro r hr
    obtain ⟨p, hp, hpr⟩ := exists_mem_of_forall₂ hmids hr
    exact hkeys p r (hparents p hp) hpr

end Rowwise

/-! ## Attaching one relation -/

/-- What a row becomes when a relation looks into the document it holds. -/
def lookInsideOne (child : Relation) (parent : Record) : Except Failure Record :=
  match held ((parent.get? child.type).getD .null) with
  | .nothing => .ok parent
  | .document v => .ok (parent.set child.type (filter child v))
  | .undecodable => .error (.undecodable child.type)

theorem filterParents_eq_mapM (child : Relation) (parents : List Record) :
    filterParents child parents = parents.mapM (lookInsideOne child) := by
  induction parents with
  | nil => rfl
  | cons parent parents ih =>
    rw [filterParents, mapM_cons, lookInsideOne, ← ih]
    cases held ((parent.get? child.type).getD .null) with
    | undecodable => rfl
    | nothing | document => cases filterParents child parents <;> rfl

section Attach

variable (R : Replies) (d : Sql.Dialect)
  (nested : String → List Record → Except Failure (List Record)) (child : Relation)

variable {r : Record} {parents : List Record}

/-- Looking into the document of a row adds no key. -/
theorem has_of_lookInsideOne {child : Relation} (h : lookInsideOne child p = .ok r) :
    r.has = p.has := by
  unfold lookInsideOne at h
  split at h
  · cases h
    rfl
  · rename_i v hheld
    cases h
    cases hget : p.get? child.type with
    | none =>
      rw [hget] at hheld
      cases hheld
    | some held =>
      have hmem : p.has child.type := Row.has_iff.mpr (Row.get?_isSome.mp (by rw [hget]; rfl))
      rw [Row.has_set, Row.or_beq_self hmem]
  · cases h

theorem has_of_joinOneFrom {R : Replies} {nested : List Record → Except Failure (List Record)}
    {child : Relation} {keyed isSingular : Bool} {hidden : List String} {text : String}
    (h : joinOneFrom R nested child keyed isSingular hidden text p = .ok r) :
    r.has = fun key => p.has key || key == child.type := by
  unfold joinOneFrom at h
  dsimp only at h
  split at h
  · obtain ⟨row, -, h⟩ := bind_eq_ok.mp h
    cases row with
    | none =>
      cases h
      exact Row.has_set p child.type _
    | some row =>
      obtain ⟨rows, -, h⟩ := bind_eq_ok.mp h
      cases h
      exact Row.has_set p child.type _
  · obtain ⟨rows, -, h⟩ := bind_eq_ok.mp h
    obtain ⟨rows, -, h⟩ := bind_eq_ok.mp h
    cases h
    exact Row.has_set p child.type _

theorem closing_eq_ok {x : Except Failure α} {r : Except StoreError Unit} {a : α} :
    closing x r = .ok a ↔ r = .ok () ∧ x = .ok a := by
  rcases x with e | b <;> rcases r with e' | ⟨⟩ <;> simp [closing]

/-- The statement of a relation that is joined to rows of a table. -/
def sharedText (table : String) (target : Join) (proj : Projection) : String :=
  statementText d target (!table.isEmpty) proj child.sql

/-- **What rows share when a relation is joined to them**: the table and key of the relation, what
it selects, and a statement that can be prepared and released. -/
structure Shared (table : String) (isSingular : Bool) (target : Join) (proj : Projection) :
    Prop where
  joined : targetFrom R (Catalog.ofDialect d) table child.type isSingular = .ok target
  selected : ∃ cols, columnsFrom R (Catalog.ofDialect d) target.table = .ok cols ∧
    plan? d cols child = some proj
  prepared : R.prepare (sharedText d child table target proj) = .ok ()
  released : R.finalize (sharedText d child table target proj) = .ok ()

/-- What a row becomes with the table and select list that it shares with others. -/
def joinRow (table : String) (isSingular : Bool) (target : Join) (proj : Projection) :
    Record → Except Failure Record :=
  joinOneFrom R (nested target.table) child (!table.isEmpty) isSingular proj.hidden
    (sharedText d child table target proj)

/-- **A row becomes another one** when a relation is joined to it. -/
def Joins (table : String) (isSingular : Bool) (p r : Record) : Prop :=
  ∃ target proj, Shared R d child table isSingular target proj ∧
    joinRow R d nested child table isSingular target proj p = .ok r

variable {R d nested child} {table : String} {isSingular : Bool}

theorem Shared.unique {target target' : Join} {proj proj' : Projection}
    (h : Shared R d child table isSingular target proj)
    (h' : Shared R d child table isSingular target' proj') : target = target' ∧ proj = proj' := by
  obtain rfl := Except.ok.inj (h.joined.symm.trans h'.joined)
  obtain ⟨cols, hcols, hproj⟩ := h.selected
  obtain ⟨cols', hcols', hproj'⟩ := h'.selected
  obtain rfl := Except.ok.inj (hcols.symm.trans hcols')
  exact ⟨rfl, Option.some.inj (hproj.symm.trans hproj')⟩

theorem has_of_joins (h : Joins R d nested child table isSingular p r) :
    r.has = fun key => p.has key || key == child.type := by
  obtain ⟨target, proj, -, hjoin⟩ := h
  exact has_of_joinOneFrom hjoin

theorem join_eq_ok {rows : List Record} :
    targetFrom R (Catalog.ofDialect d) table child.type isSingular >>=
        joinAlongFrom R d nested child (!table.isEmpty) isSingular parents = .ok rows ↔
      ∃ target proj, Shared R d child table isSingular target proj ∧
        List.Forall₂ (fun p r => joinRow R d nested child table isSingular target proj p = .ok r)
          parents rows := by
  constructor
  · intro h
    obtain ⟨target, hjoined, h⟩ := bind_eq_ok.mp h
    obtain ⟨cols, hcols, h⟩ := bind_eq_ok.mp h
    cases hplan : plan? d cols child with
    | none =>
      rw [hplan] at h
      cases h
    | some proj =>
      rw [hplan] at h
      obtain ⟨⟨⟩, hprepared, h⟩ := bind_eq_ok.mp h
      obtain ⟨hreleased, h⟩ := closing_eq_ok.mp h
      exact ⟨target, proj, ⟨hjoined, ⟨cols, hcols, hplan⟩, mapError_eq_ok.mp hprepared,
        hreleased⟩, mapM_eq_ok.mp h⟩
  · rintro ⟨target, proj, hshared, hrows⟩
    obtain ⟨cols, hcols, hplan⟩ := hshared.selected
    refine bind_eq_ok.mpr ⟨target, hshared.joined, bind_eq_ok.mpr ⟨cols, hcols, ?_⟩⟩
    rw [hplan]
    exact bind_eq_ok.mpr ⟨(), mapError_eq_ok.mpr hshared.prepared,
      closing_eq_ok.mpr ⟨hshared.released, mapM_eq_ok.mpr hrows⟩⟩

/-- Rows that share a statement are served one by one. -/
theorem join_eq_ok_iff_forall₂ (hne : parents ≠ []) (rows : List Record) :
    targetFrom R (Catalog.ofDialect d) table child.type isSingular >>=
        joinAlongFrom R d nested child (!table.isEmpty) isSingular parents = .ok rows ↔
      List.Forall₂ (Joins R d nested child table isSingular) parents rows := by
  rw [join_eq_ok]
  constructor
  · rintro ⟨target, proj, hshared, hrows⟩
    exact hrows.imp fun p r hpr => ⟨target, proj, hshared, hpr⟩
  intro h
  cases h with
  | nil => exact absurd rfl hne
  | cons hfirst hrest =>
    -- the first row settles what the others share with it
    obtain ⟨target, proj, hshared, hpr⟩ := hfirst
    refine ⟨target, proj, hshared, .cons hpr (hrest.imp fun p r hjoins => ?_)⟩
    obtain ⟨target', proj', hshared', hpr'⟩ := hjoins
    obtain ⟨rfl, rfl⟩ := hshared.unique hshared'
    exact hpr'

theorem firstHas_of_forall {keys : String → Bool} (hne : parents ≠ [])
    (h : ∀ p ∈ parents, p.has = keys) (key : String) : firstHas parents key = keys key := by
  cases parents with
  | nil => exact absurd rfl hne
  | cons first parents => exact congrFun (h first mem_cons_self) key

variable (R d nested table child) in
/-- **Attaching a relation acts on each row for itself**, and adds its type to the keys. -/
theorem exists_rowwise_attachOneFrom (keys : String → Bool) :
    ∃ S, Rowwise keys (attachOneFrom R d nested table child) S ∧
      ∀ p r, p.has = keys → S p r → r.has = fun key => keys key || key == child.type := by
  cases hinside : keys child.type with
  | true =>
    refine ⟨fun p r => lookInsideOne child p = .ok r, fun parents hne hparents rows => ?_, ?_⟩
    · rw [attachOneFrom, firstHas_of_forall hne hparents, if_pos hinside, filterParents_eq_mapM]
      exact mapM_eq_ok
    · rintro p r rfl h
      rw [has_of_lookInsideOne h, Row.or_beq_self hinside]
  | false =>
    refine ⟨Joins R d nested child table (keys (idColumn child.type)),
      fun parents hne hparents rows => ?_, ?_⟩
    · rw [attachOneFrom, firstHas_of_forall hne hparents, firstHas_of_forall hne hparents,
        if_neg (by rw [hinside]; exact Bool.false_ne_true)]
      exact join_eq_ok_iff_forall₂ hne rows
    · rintro p r rfl h
      exact has_of_joins h

end Attach

/-! ## Resolving -/

/-- **Resolving acts on each row for itself.** -/
theorem exists_rowwise_resolveFrom (R : Replies) (d : Sql.Dialect) (table : String)
    (children : List Relation) (keys : String → Bool) :
    ∃ S, Rowwise keys (resolveFrom R d table children) S := by
  induction children generalizing keys with
  | nil =>
    refine ⟨Eq, fun parents _ _ rows => ?_⟩
    rw [resolveFrom, forall₂_eq_eq_eq]
    exact ⟨Except.ok.inj, congrArg Except.ok⟩
  | cons child rest ih =>
    obtain ⟨S, hattach, hkeys⟩ := exists_rowwise_attachOneFrom R d
      (fun table => resolveFrom R d table child.relations) child table keys
    obtain ⟨T, hrest⟩ := ih fun key => keys key || key == child.type
    refine ⟨fun p r => ∃ m, S p m ∧ T m r, fun parents hne hparents rows => ?_⟩
    rw [resolveFrom, if_neg (by simpa using hne), attachFrom_eq]
    exact hattach.bind hrest hkeys parents hne hparents rows

/-- **A batch of rows is resolved as each of its rows alone**, on a store that replies by text and
arguments and for rows that carry the same keys. -/
theorem resolve_batch {σ : Type} {A : Adapter σ} {R : Replies} {live : σ → Statement → Prop}
    (hA : RepliesBy A R live) (d : Sql.Dialect) (table : String) (children : List Relation)
    {parents : List Record} (hkeys : ∀ p ∈ parents, ∀ q ∈ parents, ∀ key, p.has key = q.has key)
    (s : Session σ) (alone : Record → Session σ) :
    ((∃ rows, ((resolve A d table children parents).run s).1 = .ok rows) ↔
        ∀ p ∈ parents, ∃ rows,
          ((resolve A d table children [p]).run (alone p)).1 = .ok rows) ∧
      ∀ rows, ((resolve A d table children parents).run s).1 = .ok rows →
        List.Forall₂ (fun p r => ((resolve A d table children [p]).run (alone p)).1 = .ok [r])
          parents rows := by
  simp only [outcome_resolve hA]
  cases parents with
  | nil =>
    have hempty : resolveFrom R d table children [] = .ok [] := by
      cases children <;> rw [resolveFrom]
      rfl
    rw [hempty]
    refine ⟨⟨fun _ p hp => absurd hp List.not_mem_nil, fun _ => ⟨[], rfl⟩⟩, fun rows hrows => ?_⟩
    cases hrows
    exact .nil
  | cons first parents =>
    have hparents : ∀ p ∈ first :: parents, p.has = first.has :=
      fun p hp => funext fun key => hkeys p hp first List.mem_cons_self key
    obtain ⟨S, hS⟩ := exists_rowwise_resolveFrom R d table children first.has
    have hbatch := hS (first :: parents) (List.cons_ne_nil _ _) hparents
    constructor
    · simp only [hbatch, exists_forall₂_iff]
      refine forall₂_congr fun p hp => ?_
      simp only [hS.single (hparents p hp)]
      constructor
      · rintro ⟨r, hr⟩
        exact ⟨[r], r, rfl, hr⟩
      · rintro ⟨rows, r, -, hr⟩
        exact ⟨r, hr⟩
    · intro rows hrows
      have hboth := (List.forall₂_and_left _ _).mpr ⟨hparents, (hbatch rows).mp hrows⟩
      exact hboth.imp fun p r hpr => (hS.single hpr.1 [r]).mpr ⟨r, rfl, hpr.2⟩

/-- A connection that counts its calls, to a database where user `1` has a car. -/
def carPark : Connection Nat where
  connect n := (.ok (), n + 1)
  ping n := (.ok (), n + 1)
  exec _ n := (.ok (), n + 1)
  begin n := (.ok (), n + 1)
  rollback n := (.ok (), n + 1)
  query sql _ n :=
    let reply : Reply :=
      if sql = (Catalog.ofDialect .sqlite).columns then
        { columns := ["name", "type"], rows := [[.text "license", .text "TEXT"]] }
      else
        { columns := ["from", "table", "to"]
          rows := [[.text "userId", .text "users", .text "id"]] }
    (.ok reply, n + 1)
  prepare _ n := (.ok (), n + 1)
  run _ args n :=
    let cars : List (List Value) :=
      if args.any fun v => v.display == "1" then [[.text "A-1"]] else []
    (.ok { columns := ["license"], rows := cars }, n + 1)
  close _ n := (.ok (), n + 1)

/-- Two users with the same keys, of which one has no profile and the other has it hidden. -/
def carUsers : List Record :=
  [⟨[⟨"id", .text "1", true⟩, ⟨"profile", .row ⟨[⟨"color", .text "red", false⟩]⟩, true⟩]⟩,
    ⟨[⟨"profile", .null, false⟩, ⟨"id", .text "2", false⟩]⟩]

/-- Relations of users: one looks into the profile, the other joins the cars. -/
def carRelations : List Relation :=
  [{ type := "profile", attributes := ["size"] }, { type := "cars", attributes := ["license"] }]

/-- The users with what they are related to. -/
def carUsersResolved : List Record :=
  [⟨[⟨"id", .text "1", true⟩, ⟨"profile", .row ⟨[]⟩, true⟩,
      ⟨"cars", .rows [⟨[⟨"license", .text "A-1", false⟩]⟩], false⟩]⟩,
    ⟨[⟨"profile", .null, false⟩, ⟨"id", .text "2", false⟩, ⟨"cars", .rows [], false⟩]⟩]

/-- Both users are resolved together on a new session, and each of them alone on one where many
calls have been made. -/
theorem resolve_batch_carUsers :
    let A := adapter carPark (.ofDialect .sqlite true)
    ((resolve A .sqlite "users" carRelations carUsers).run ⟨⟨0, []⟩, [], []⟩).1 =
        .ok carUsersResolved ∧
      List.Forall₂ (fun p r => ((resolve A .sqlite "users" carRelations [p]).run
        ⟨⟨100, []⟩, [], []⟩).1 = .ok [r]) carUsers carUsersResolved := by
  have hsteady : carPark.Steady := ⟨fun _ _ _ _ => rfl, fun _ _ _ => rfl, fun _ _ _ _ => rfl,
    fun _ _ _ => rfl⟩
  have hkeys : ∀ p ∈ carUsers, ∀ q ∈ carUsers, ∀ key, p.has key = q.has key := by
    intro p hp q hq key
    rw [carUsers, List.mem_pair] at hp hq
    rcases hp with rfl | rfl <;> rcases hq with rfl | rfl <;> simp [Row.has, Bool.or_comm]
  have hreplies := repliesBy_adapter (.ofDialect .sqlite true) hsteady 0
  have hbatch := resolve_batch hreplies .sqlite "users" carRelations hkeys ⟨⟨0, []⟩, [], []⟩
    fun _ => ⟨⟨100, []⟩, [], []⟩
  exact ⟨rfl, hbatch.2 _ rfl⟩

end Execute
end TreeQuery
