import Mathlib.Data.List.Forall2
import TreeQuery.Json.Write
import TreeQuery.Proofs.Row

/-!
# Values inside values

Lists and objects hold values, so facts about values go by induction through their elements and
entries (`Value.nested_induction`).  What is shown or written of a list is what is shown or written
of its elements, and of a row that of its visible entries.
-/

namespace TreeQuery

open List

section Traverse

/-! A list is written if all its elements are. -/

variable {α β : Type} {f : α → Option β} {as : List α}

theorem isSome_mapM {γ : Type} {D : α → List γ} {p : γ → Bool}
    (h : ∀ a ∈ as, (f a).isSome = (D a).all p) : (as.mapM f).isSome = (as.flatMap D).all p := by
  induction as with
  | nil => rfl
  | cons a as ih =>
    obtain ⟨ha, has⟩ := forall_mem_cons.mp h
    rw [mapM_cons, flatMap_cons, all_append, ← ha, ← ih has]
    cases f a with
    | none => rfl
    | some b => cases as.mapM f <;> rfl

theorem exists_of_mem_mapM {bs : List β} (h : as.mapM f = some bs) :
    ∀ b ∈ bs, ∃ a ∈ as, f a = some b := by
  induction as generalizing bs with
  | nil =>
    cases h
    exact forall_mem_nil _
  | cons a as ih =>
    rw [mapM_cons] at h
    obtain ⟨b, hb, hrest⟩ := Option.bind_eq_some_iff.mp h
    obtain ⟨bs, hbs, hsome⟩ := Option.bind_eq_some_iff.mp hrest
    cases hsome
    refine forall_mem_cons.mpr ⟨⟨a, mem_cons_self, hb⟩, fun c hc => ?_⟩
    obtain ⟨a', ha', hc⟩ := ih hbs c hc
    exact ⟨a', mem_cons_of_mem a ha', hc⟩

theorem exists_forall₂_mapM {R : α → β → Prop} (h : ∀ a ∈ as, ∃ b, f a = some b ∧ R a b) :
    ∃ bs, as.mapM f = some bs ∧ Forall₂ R as bs := by
  induction as with
  | nil => exact ⟨[], rfl, .nil⟩
  | cons a as ih =>
    obtain ⟨⟨b, hb, hR⟩, has⟩ := forall_mem_cons.mp h
    obtain ⟨bs, hbs, hRs⟩ := ih has
    refine ⟨b :: bs, ?_, .cons hR hRs⟩
    rw [mapM_cons, hb, hbs]
    rfl

theorem exists_mapM {P : β → Prop} (h : ∀ a ∈ as, ∃ b, f a = some b ∧ P b) :
    ∃ bs, as.mapM f = some bs ∧ ∀ b ∈ bs, P b := by
  obtain ⟨bs, hbs, -⟩ := exists_forall₂_mapM h
  refine ⟨bs, hbs, fun b hb => ?_⟩
  obtain ⟨a, ha, hb⟩ := exists_of_mem_mapM hbs b hb
  obtain ⟨c, hc, hP⟩ := h a ha
  exact Option.some.inj (hc.symm.trans hb) ▸ hP

end Traverse

namespace Row

variable {α : Type}

/-- A row that hides none of its entries. -/
def ofEntries (es : List (String × α)) : Row α :=
  ⟨es.map fun e => ⟨e.1, e.2, false⟩⟩

theorem entries_ofEntries (es : List (String × α)) : (ofEntries es).entries = es := by
  induction es with
  | nil => rfl
  | cons e es ih => exact congrArg (e :: ·) ih

end Row

namespace Value

/-! ## Induction -/

/-- Whether a value has no values inside. -/
def isAtom : Value → Bool
  | .list _ | .map _ | .row _ | .rows _ => false
  | _ => true

theorem sizeOf_lt_of_mem_entries {fs : List (Field Value)} {e : String × Value}
    (h : e ∈ Row.entries ⟨fs⟩) : sizeOf e.2 < sizeOf fs := by
  obtain ⟨⟨key, value, hidden⟩, hf, rfl⟩ := mem_map.mp h
  have hlt : sizeOf (Field.mk key value hidden) < sizeOf fs := sizeOf_lt_of_mem (mem_filter.mp hf).1
  rw [Field.mk.sizeOf_spec] at hlt
  dsimp only
  omega

/-- **Induction over values**: through the elements of lists, the entries of objects and related
rows. -/
theorem nested_induction {P : Value → Prop} (atom : ∀ v, v.isAtom → P v)
    (list : ∀ es, (∀ e ∈ es, P e) → P (.list es))
    (map : ∀ es : List (String × Value), (∀ e ∈ es, P e.2) → P (.map es))
    (row : ∀ r : Record, (∀ e ∈ r.entries, P e.2) → P (.row r))
    (rows : ∀ rs, (∀ r ∈ rs, P (.row r)) → P (.rows rs)) : ∀ v, P v
  | .list es => list es fun e he =>
      have := sizeOf_lt_of_mem he
      nested_induction atom list map row rows e
  | .map es => map es fun e he =>
      have := sizeOf_lt_of_mem he
      nested_induction atom list map row rows e.2
  | .row ⟨fs⟩ => row ⟨fs⟩ fun e he =>
      have := sizeOf_lt_of_mem_entries he
      nested_induction atom list map row rows e.2
  | .rows rs => rows rs fun r hr =>
      have := sizeOf_lt_of_mem hr
      nested_induction atom list map row rows (.row r)
  | .null => atom .null rfl
  | .bool b => atom (.bool b) rfl
  | .int n => atom (.int n) rfl
  | .float x => atom (.float x) rfl
  | .text s => atom (.text s) rfl
  | .garbled bs => atom (.garbled bs) rfl
  | .bytes bs => atom (.bytes bs) rfl
  | .time t => atom (.time t) rfl
  | .absent => atom .absent rfl
termination_by v => sizeOf v
decreasing_by
  · simp only [Value.list.sizeOf_spec]
    omega
  · cases e
    simp_all only [Value.map.sizeOf_spec, Prod.mk.sizeOf_spec]
    omega
  · simp only [Value.row.sizeOf_spec, Row.mk.sizeOf_spec]
    omega
  · simp only [Value.row.sizeOf_spec, Value.rows.sizeOf_spec]
    omega

/-! ## What is shown -/

theorem shown_list (vs : List Value) : (list vs).shown = .list (vs.map shown) := by
  rw [shown]
  congr 1
  induction vs with
  | nil => rfl
  | cons v vs ih => rw [shownList, ih, map_cons]

theorem shown_row (r : Record) :
    (row r).shown = .map (r.entries.map fun e => (e.1, e.2.shown)) := by
  rw [shown, shownFields_eq_map]

theorem shown_rows (rs : List Record) : (rows rs).shown = .list ((rs.map row).map shown) := by
  rw [shown, shownRows_eq_map, map_map]
  rfl

end Value

namespace Json

/-! ## What is written -/

/-- The member of an object for an entry, if its value can be written. -/
def member? (e : String × Value) : Option (String × String) :=
  (encode e.2).map fun text => (e.1, text)

theorem encodeList_eq_mapM (vs : List Value) : encodeList vs = vs.mapM encode := by
  induction vs with
  | nil => rfl
  | cons v vs ih =>
    rw [encodeList, mapM_cons, ih]
    cases encode v with
    | none => rfl
    | some text => cases vs.mapM encode <;> rfl

theorem encode_rows (rs : List Record) : encode (.rows rs) = encode (.list (rs.map .row)) := by
  have hrows : encodeRows rs = encodeList (rs.map .row) := by
    induction rs with
    | nil => rfl
    | cons r rs ih =>
      rw [encodeRows, map_cons, encodeList, encode, ih]
      cases encodeFields r.fields <;> rfl
  rw [encode, encode, hrows]

theorem encodeEntries_eq_mapM (es : List (String × Value)) :
    encodeEntries es = es.mapM member? := by
  induction es with
  | nil => rfl
  | cons e es ih =>
    rw [encodeEntries, mapM_cons, ih, member?]
    cases encode e.2 with
    | none => rfl
    | some text => cases es.mapM member? <;> rfl

theorem encodeFields_eq_mapM (fs : List (Field Value)) :
    encodeFields fs = (Row.entries ⟨fs⟩).mapM member? := by
  rw [← encodeEntries_eq_mapM]
  induction fs with
  | nil => rfl
  | cons f fs ih =>
    obtain ⟨key, value, hidden⟩ := f
    rw [encodeFields, ih]
    cases hidden <;> rfl

end Json
end TreeQuery
