import TreeQuery.Json.Argument
import TreeQuery.Json.Relation
import TreeQuery.Proofs.Json.Grammar
import TreeQuery.Proofs.Query.Bindings
import TreeQuery.Proofs.Value

/-!
# The texts of values

Of all that a value holds only its numbers and moments decide whether it has a JSON text: all
numbers have to be finite, and all moments within the years and zones of the format
(`isSome_encode_eq`).  If it has one, the text keeps to the grammar, given that the numbers are of
double precision (`isText_of_encode`).

The numbers of an argument were rounded when it was read, and those that would overflow stay texts
(`isWritable_argument`).  Values that are bound to a query are taken from those given for it, so
they can be written too (`isWritable_of_parse`), and so can the tree of the query
(`exists_ofRelation`).
-/

namespace TreeQuery

open List

/-- What may have no JSON text. -/
inductive Quantity where
  | number (x : Double)
  | moment (t : Moment)
  deriving DecidableEq, Repr

namespace Quantity

/-- **The quantity has a text**: numbers that are finite and moments of the format do. -/
def isWritable : Quantity → Bool
  | number x => x.isFinite
  | moment t => t.text?.isSome

/-- Numbers have to be of double precision. -/
def isBinary : Quantity → Bool
  | number x => x.isBinary
  | moment _ => true

end Quantity

namespace Value

mutual

/-- **The quantities that are written of a value**: those in hidden entries of rows are not. -/
def quantities : Value → List Quantity
  | .float x => [.number x]
  | .time t => [.moment t]
  | .list elements => quantitiesOfList elements
  | .map entries => quantitiesOfEntries entries
  | .row r => quantitiesOfFields r.fields
  | .rows rs => quantitiesOfRows rs
  | _ => []

def quantitiesOfList : List Value → List Quantity
  | [] => []
  | v :: rest => quantities v ++ quantitiesOfList rest

/-- The quantities in the entries of a map. -/
def quantitiesOfEntries : List (String × Value) → List Quantity
  | [] => []
  | (_, v) :: rest => quantities v ++ quantitiesOfEntries rest

/-- The quantities in the visible entries of a row. -/
def quantitiesOfFields : List (Field Value) → List Quantity
  | [] => []
  | ⟨_, v, hidden⟩ :: rest =>
    if hidden then quantitiesOfFields rest else quantities v ++ quantitiesOfFields rest

def quantitiesOfRows : List (Row Value) → List Quantity
  | [] => []
  | ⟨fields⟩ :: rest => quantitiesOfFields fields ++ quantitiesOfRows rest

end

theorem quantities_list (vs : List Value) : (list vs).quantities = vs.flatMap quantities := by
  rw [quantities]
  induction vs with
  | nil => rfl
  | cons v vs ih => rw [quantitiesOfList, ih, flatMap_cons]

theorem quantities_map (es : List (String × Value)) :
    (map es).quantities = es.flatMap fun e => e.2.quantities := by
  rw [quantities]
  induction es with
  | nil => rfl
  | cons e es ih => rw [quantitiesOfEntries, ih, flatMap_cons]

theorem quantities_row (r : Record) :
    (row r).quantities = r.entries.flatMap fun e => e.2.quantities := by
  obtain ⟨fs⟩ := r
  rw [quantities]
  induction fs with
  | nil => rfl
  | cons f fs ih =>
    obtain ⟨key, value, hidden⟩ := f
    rw [quantitiesOfFields, ih]
    cases hidden <;> rfl

theorem quantities_rows (rs : List Record) :
    (rows rs).quantities = (list (rs.map row)).quantities := by
  rw [quantities_list, quantities]
  induction rs with
  | nil => rfl
  | cons r rs ih => rw [quantitiesOfRows, ih, map_cons, flatMap_cons, quantities]

/-- **All quantities of a value can be written.** -/
def IsWritable (v : Value) : Prop := ∀ x ∈ v.quantities, x.isWritable = true ∧ x.isBinary = true

end Value

namespace Json

open List Value

/-! ## Which values have a text -/

theorem isSome_member? (e : String × Value) : (member? e).isSome = (encode e.2).isSome :=
  Option.isSome_map

/-- **A value has a text if all its quantities have one**, and otherwise none. -/
theorem isSome_encode_eq (v : Value) :
    (encode v).isSome = v.quantities.all Quantity.isWritable := by
  induction v using nested_induction with
  | atom v h =>
    cases v with
    | float x =>
      rw [encode, quantities, all_cons, all_nil, Bool.and_true]
      cases hfinite : x.isFinite <;> simp [Quantity.isWritable, hfinite]
    | time t =>
      rw [encode, quantities, all_cons, all_nil, Bool.and_true, Option.isSome_map]
      rfl
    | _ => first | rfl | cases h
  | list es ih =>
    rw [encode, Option.isSome_map, encodeList_eq_mapM, quantities_list]
    exact isSome_mapM ih
  | map es ih =>
    rw [encode, Option.isSome_map, encodeEntries_eq_mapM, quantities_map]
    exact isSome_mapM fun e he => (isSome_member? e).trans (ih e he)
  | row r ih =>
    rw [encode, Option.isSome_map, encodeFields_eq_mapM, quantities_row]
    exact isSome_mapM fun e he => (isSome_member? e).trans (ih e he)
  | rows rs ih =>
    rw [encode_rows, encode, Option.isSome_map, encodeList_eq_mapM, quantities_rows,
      quantities_list]
    exact isSome_mapM (forall_mem_map.mpr ih)

/-! ## The texts keep to the grammar -/

theorem isText_of_encodeList {vs : List Value} {texts : List String}
    (ih : ∀ v ∈ vs, ∀ text, encode v = some text → (∀ x ∈ v.quantities, x.isBinary) → IsText text)
    (h : encodeList vs = some texts) (hbinary : ∀ x ∈ (list vs).quantities, x.isBinary) :
    ∀ text ∈ texts, IsText text := by
  intro text htext
  rw [encodeList_eq_mapM] at h
  obtain ⟨v, hv, hencode⟩ := exists_of_mem_mapM h text htext
  rw [quantities_list] at hbinary
  exact ih v hv text hencode fun x hx => hbinary x (mem_flatMap.mpr ⟨v, hv, hx⟩)

theorem isText_of_members {es : List (String × Value)} {members : List (String × String)}
    (ih : ∀ e ∈ es, ∀ text, encode e.2 = some text → (∀ x ∈ e.2.quantities, x.isBinary) →
      IsText text)
    (h : es.mapM member? = some members)
    (hbinary : ∀ x ∈ es.flatMap fun e => e.2.quantities, x.isBinary) :
    ∀ w ∈ members, IsText w.2 := by
  intro w hw
  obtain ⟨e, he, hmember⟩ := exists_of_mem_mapM h w hw
  obtain ⟨text, htext, rfl⟩ := Option.map_eq_some_iff.mp hmember
  exact ih e he text htext fun x hx => hbinary x (mem_flatMap.mpr ⟨e, he, hx⟩)

/-- **The text of a value keeps to the grammar**, if its numbers are of double precision. -/
theorem isText_of_encode (v : Value) {text : String} (h : encode v = some text)
    (hbinary : ∀ x ∈ v.quantities, x.isBinary) : IsText text := by
  induction v using nested_induction generalizing text with
  | atom v hatom =>
    cases v with
    | null | absent =>
      cases h
      exact ⟨_, .null⟩
    | bool b =>
      cases h
      exact isText_bool b
    | int n =>
      cases h
      exact isText_number (isNumber_int n)
    | float x =>
      rw [encode] at h
      split at h
      · rename_i hfinite
        cases h
        exact isText_number (isNumber_write hfinite (hbinary (.number x) mem_cons_self))
      · cases h
    | text s =>
      cases h
      exact isText_string s
    | garbled bs =>
      cases h
      exact isText_chars (chars_flatMap chars_garbledPiece (Text.readings bs))
    | bytes bs =>
      cases h
      exact isText_chars (chars_base64 bs)
    | time t =>
      obtain ⟨s, -, rfl⟩ := Option.map_eq_some_iff.mp h
      exact isText_string s
    | _ => cases hatom
  | list es ih =>
    obtain ⟨texts, htexts, rfl⟩ := Option.map_eq_some_iff.mp h
    exact isText_array (isText_of_encodeList ih htexts hbinary)
  | map es ih =>
    obtain ⟨members, hmembers, rfl⟩ := Option.map_eq_some_iff.mp h
    rw [encodeEntries_eq_mapM] at hmembers
    rw [quantities_map] at hbinary
    refine isText_object fun w hw => ?_
    exact isText_of_members ih hmembers hbinary w (mem_mergeSort.mp hw)
  | row r ih =>
    obtain ⟨members, hmembers, rfl⟩ := Option.map_eq_some_iff.mp h
    rw [encodeFields_eq_mapM] at hmembers
    rw [quantities_row] at hbinary
    exact isText_object (isText_of_members ih hmembers hbinary)
  | rows rs ih =>
    rw [encode_rows] at h
    rw [quantities_rows] at hbinary
    obtain ⟨texts, htexts, rfl⟩ := Option.map_eq_some_iff.mp h
    exact isText_array (isText_of_encodeList (forall_mem_map.mpr ih) htexts hbinary)

theorem exists_encode {v : Value} (h : v.IsWritable) :
    ∃ text, encode v = some text ∧ IsText text := by
  have hfinite : (encode v).isSome = true := by
    rw [isSome_encode_eq]
    exact all_eq_true.mpr fun x hx => (h x hx).1
  obtain ⟨text, htext⟩ := Option.isSome_iff_exists.mp hfinite
  exact ⟨text, htext, isText_of_encode v htext fun x hx => (h x hx).2⟩

theorem exists_encode_list {vs : List Value} (h : ∀ v ∈ vs, v.IsWritable) :
    ∃ texts, encodeList vs = some texts ∧ ∀ text ∈ texts, IsText text := by
  rw [encodeList_eq_mapM]
  exact exists_mapM fun v hv => exists_encode (h v hv)

/-! ## Arguments -/

theorem isWritable_argumentNumber (spelling : List Char) :
    (argumentNumber spelling).IsWritable := by
  unfold argumentNumber
  split
  · exact forall_mem_nil _
  split
  · rename_i negative m e hnumber
    obtain ⟨s, -, hs⟩ := Option.map_eq_some_iff.mp hnumber
    intro x hx
    obtain rfl := mem_singleton.mp hx
    refine ⟨rfl, ?_⟩
    rw [← hs]
    exact Double.isBinary_ofDecimal _ _ _
  · exact forall_mem_nil _

mutual

theorem isWritable_argumentValue : (t : Tree (List Char)) → (argumentValue t).IsWritable
  | .null => forall_mem_nil _
  | .bool _ => forall_mem_nil _
  | .number spelling => isWritable_argumentNumber spelling
  | .string _ => forall_mem_nil _
  | .array ts => by
    intro x hx
    rw [argumentValue, quantities_list] at hx
    obtain ⟨v, hv, hx⟩ := mem_flatMap.mp hx
    exact isWritable_argumentValues ts v hv x hx
  | .object ms => by
    intro x hx
    rw [argumentValue, quantities_map] at hx
    obtain ⟨e, he, hx⟩ := mem_flatMap.mp hx
    -- each entry is one of the members, at the place of the first with its name
    obtain ⟨f, hf, rfl⟩ := mem_map.mp he
    obtain ⟨m, hm, hvalue⟩ := Row.exists_of_mem_ofList hf
    rw [← hvalue] at hx
    exact isWritable_argumentMembers ms m hm x hx

theorem isWritable_argumentValues :
    (ts : List (Tree (List Char))) → ∀ v ∈ argumentValues ts, v.IsWritable
  | [], _, hv => absurd hv not_mem_nil
  | t :: ts, v, hv => by
    rw [argumentValues] at hv
    rcases mem_cons.mp hv with rfl | hv
    · exact isWritable_argumentValue t
    · exact isWritable_argumentValues ts v hv

theorem isWritable_argumentMembers :
    (ms : List (String × Tree (List Char))) → ∀ e ∈ argumentMembers ms, e.2.IsWritable
  | [], _, he => absurd he not_mem_nil
  | (name, t) :: ms, e, he => by
    rw [argumentMembers] at he
    rcases mem_cons.mp he with rfl | he
    · exact isWritable_argumentValue t
    · exact isWritable_argumentMembers ms e he

end

/-- **All quantities of an argument can be written.** -/
theorem isWritable_argument (s : String) : (argument s).IsWritable := by
  unfold argument
  split
  · exact isWritable_argumentValue _
  · exact forall_mem_nil _

/-! ## Trees of relations -/

/-- The quantities of what a value stands for in a query are quantities of the value. -/
theorem isWritable_valuesOf {v w : Value} (hv : v.IsWritable) (hw : w ∈ Query.valuesOf v) :
    w.IsWritable := by
  cases v with
  | list elements =>
    intro x hx
    refine hv x ?_
    rw [quantities_list]
    exact mem_flatMap.mpr ⟨w, hw, hx⟩
  | rows rs =>
    intro x hx
    refine hv x ?_
    rw [quantities_rows, quantities_list]
    exact mem_flatMap.mpr ⟨w, hw, hx⟩
  | _ =>
    rw [mem_singleton.mp hw]
    exact hv

/-- **The values bound to a query can be written** if the values given for it can. -/
theorem isWritable_of_parse {t : Query.Template} {root : Query.Relation} (h : t.parse = .ok root)
    (hvalues : ∀ v ∈ t.values, v.IsWritable) : ∀ w ∈ root.allBindings, w.IsWritable := by
  intro w hw
  rw [Query.allBindings_of_parse h] at hw
  obtain ⟨v, hv, hw⟩ := mem_flatMap.mp hw
  exact isWritable_valuesOf (hvalues v hv) hw

theorem isText_of_mem_textMember {name s : String} {w : String × String}
    (h : w ∈ textMember name s) : IsText w.2 := by
  unfold textMember at h
  split at h
  · exact absurd h not_mem_nil
  · rw [mem_singleton.mp h]
    exact isText_string s

theorem isText_of_mem_listMember {name : String} {texts : List String} {w : String × String}
    (hw : w ∈ listMember name texts) (h : ∀ text ∈ texts, IsText text) : IsText w.2 := by
  unfold listMember at hw
  split at hw
  · exact absurd hw not_mem_nil
  · rw [mem_singleton.mp hw]
    exact isText_array h

theorem isText_of_mem_strings {texts : List String} {text : String}
    (h : text ∈ texts.map string) : IsText text := by
  obtain ⟨s, -, rfl⟩ := mem_map.mp h
  exact isText_string s

/-- Trees that have a text each have one together. -/
theorem exists_ofRelations_of_each {rs : List Query.Relation}
    (h : ∀ r ∈ rs, ∃ text, ofRelation r = some text ∧ IsText text) :
    ∃ texts, ofRelations rs = some texts ∧ ∀ text ∈ texts, IsText text := by
  induction rs with
  | nil => exact ⟨[], rfl, forall_mem_nil _⟩
  | cons r rs ih =>
    obtain ⟨⟨text, htext, hisText⟩, hrs⟩ := forall_mem_cons.mp h
    obtain ⟨texts, htexts, hisTexts⟩ := ih hrs
    refine ⟨text :: texts, ?_, forall_mem_cons.mpr ⟨hisText, hisTexts⟩⟩
    rw [ofRelations, htext, htexts]
    rfl

/-- **A tree has a text if all its values can be written.** -/
theorem exists_ofRelation (r : Query.Relation) (h : ∀ v ∈ r.allBindings, v.IsWritable) :
    ∃ text, ofRelation r = some text ∧ IsText text := by
  induction r using Query.Relation.nested_induction with
  | step r ih =>
    rw [r.allBindings_eq] at h
    obtain ⟨hown, hnested⟩ := forall_mem_append.mp h
    obtain ⟨vs, hvs, htexts⟩ := exists_encode_list hown
    have hrelations := exists_ofRelations_of_each fun c hc => ih c hc fun v hv =>
      hnested v (Query.Relation.mem_bindingsOf.mpr ⟨c, hc, hv⟩)
    obtain ⟨rs, hrs, hrtexts⟩ := hrelations
    obtain ⟨type, table, sql, bindings, attributes, relations⟩ := r
    refine ⟨_, by rw [ofRelation, hvs, hrs], isText_object fun w hw => ?_⟩
    simp only [mem_append] at hw
    rcases hw with ((((hw | hw) | hw) | hw) | hw) | hw
    · exact isText_of_mem_textMember hw
    · exact isText_of_mem_textMember hw
    · exact isText_of_mem_textMember hw
    · exact isText_of_mem_listMember hw htexts
    · exact isText_of_mem_listMember hw fun _ => isText_of_mem_strings
    · exact isText_of_mem_listMember hw hrtexts

end Json
end TreeQuery
