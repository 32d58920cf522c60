import TreeQuery.Json.Document
import TreeQuery.Proofs.Json.Steps
import TreeQuery.Proofs.Value

/-!
# Writing and reading documents

A value without numbers is written as a document that reads back as its public part: the value
without the hidden keys of its rows, at any depth (`Value.bare`).  The keys that are left keep their
order, and related rows come back as a list.

The reader is followed through the syntax first.  `Tree.Spells` says of a text that it is read as a
tree whatever stands behind it; strings, lists and objects of such texts are such texts again
(`spells_string`, `Spells.array`, `Spells.object`).  A value is written as the text of its tree
(`written_of_isDocument`), for any reader of numbers, so it is passed over and read alike; and the
tree stands for the bare value (`documentValue_tree`).
-/

namespace TreeQuery

open List

namespace Value

/-! ## Values that are documents -/

/-- **A value that a document can hold**: null, booleans and texts, in lists and rows that nest at
most `n` deep.  Only what a row shows has to be of this kind. -/
inductive IsDocument : Nat → Value → Prop
  | null {n : Nat} : IsDocument n .null
  | bool {n : Nat} (b : Bool) : IsDocument n (.bool b)
  | text {n : Nat} (s : String) : IsDocument n (.text s)
  | list {n : Nat} {vs : List Value} (h : ∀ v ∈ vs, IsDocument n v) : IsDocument (n + 1) (.list vs)
  | row {n : Nat} {r : Record} (hkeys : r.keys.Nodup) (h : ∀ f ∈ r.visible, IsDocument n f.value) :
      IsDocument (n + 1) (.row r)
  | rows {n : Nat} {rs : List Record} (h : ∀ r ∈ rs, IsDocument n (.row r)) :
      IsDocument (n + 1) (.rows rs)

mutual

/-- **The value without hidden keys**: they are left out of every row in it, at any depth.  Related
rows are a list of rows. -/
def bare : Value → Value
  | .row ⟨fields⟩ => .row ⟨bareFields fields⟩
  | .rows rs => .list (bareRows rs)
  | .list elements => .list (bareList elements)
  | v => v

/-- The visible entries of a row, with bare values. -/
def bareFields : List (Field Value) → List (Field Value)
  | [] => []
  | ⟨key, value, hidden⟩ :: rest =>
    if hidden then bareFields rest else ⟨key, bare value, false⟩ :: bareFields rest

/-- The rows of a list without hidden keys. -/
def bareRows : List Record → List Value
  | [] => []
  | ⟨fields⟩ :: rest => .row ⟨bareFields fields⟩ :: bareRows rest

/-- The elements of a list without hidden keys. -/
def bareList : List Value → List Value
  | [] => []
  | v :: rest => bare v :: bareList rest

end

theorem bare_list (vs : List Value) : (list vs).bare = .list (vs.map bare) := by
  rw [bare]
  congr 1
  induction vs with
  | nil => rfl
  | cons v vs ih => rw [bareList, ih, map_cons]

theorem bare_rows (rs : List Record) : (rows rs).bare = (list (rs.map row)).bare := by
  rw [bare_list, bare]
  congr 1
  induction rs with
  | nil => rfl
  | cons r rs ih => rw [bareRows, ih, map_cons, map_cons, bare]

theorem bare_row (r : Record) :
    (row r).bare = .row (.ofEntries (r.entries.map fun e => (e.1, e.2.bare))) := by
  obtain ⟨fs⟩ := r
  rw [bare, Row.ofEntries]
  congr 2
  induction fs with
  | nil => rfl
  | cons f fs ih =>
    obtain ⟨key, value, hidden⟩ := f
    rw [bareFields, ih]
    cases hidden <;> rfl

/-- **Hidden keys are no part of what a value shows.** -/
theorem shown_bare (v : Value) : v.bare.shown = v.shown := by
  induction v using nested_induction with
  | atom v h => cases v <;> first | rfl | cases h
  | map es => rfl
  | list es ih =>
    rw [bare_list, shown_list, shown_list, map_map]
    exact congrArg list (map_congr_left ih)
  | row r ih =>
    rw [bare_row, shown_row, shown_row, Row.entries_ofEntries, map_map]
    refine congrArg map (map_congr_left fun e he => ?_)
    rw [Function.comp_apply, ih e he]
  | rows rs ih =>
    rw [bare_rows, bare_list, shown_list, shown_rows, map_map]
    exact congrArg list (map_congr_left (forall_mem_map.mpr ih))

end Value

variable {n : Nat} {vs : List Value} {written : List (String × String)}

namespace Json
namespace Tree

open List

/-! ## Strings -/

section Strings

variable {cs tail after : List Char}

theorem isSurrogate_toNat (c : Char) : isSurrogate c.toNat = false := by
  have hvalid : c.toNat < 0xD800 ∨ 0xDFFF < c.toNat ∧ c.toNat < 0x110000 := c.valid
  simp only [isSurrogate, Bool.and_eq_false_iff, decide_eq_false_iff_not]
  omega

theorem charOf_toNat (c : Char) : charOf c.toNat = c := by
  rw [charOf, isSurrogate_toNat, if_neg Bool.false_ne_true, Char.ofNat_toNat]

/-- The codes that are written out are written with four digits, which read back as the code. -/
theorem exists_hex_four (h : n < 32 ∨ n = 38 ∨ n = 60 ∨ n = 62 ∨ n = 0x2028 ∨ n = 0x2029) :
    ∃ a b c d, Text.hex 4 n = [a, b, c, d] ∧ fourHex? a b c d = some n := by
  have hcodes : ∀ n ∈ range 32 ++ [38, 60, 62, 0x2028, 0x2029],
      Text.hex 4 n = [Nat.digitChar (n / 4096), Nat.digitChar (n / 256 % 16),
          Nat.digitChar (n / 16 % 16), Nat.digitChar (n % 16)] ∧
        fourHex? (Nat.digitChar (n / 4096)) (Nat.digitChar (n / 256 % 16))
          (Nat.digitChar (n / 16 % 16)) (Nat.digitChar (n % 16)) = some n := by
    decide
  obtain ⟨hhex, hvalue⟩ := hcodes n (by simp; omega)
  exact ⟨_, _, _, _, hhex, hvalue⟩

variable {c : Char}

theorem stringBody_code {a b d x : Char} (hcode : fourHex? a b c d = some x.toNat)
    (h : ∀ escaped, stringBody escaped cs = some (tail, after)) (escaped : Bool) :
    stringBody escaped ('\\' :: 'u' :: a :: b :: c :: d :: cs) = some (x :: tail, after) := by
  -- two codes in a row are looked at together, since they may be a surrogate pair
  by_cases hnext : ∃ e f g k rest, cs = '\\' :: 'u' :: e :: f :: g :: k :: rest
  · obtain ⟨e, f, g, k, rest, rfl⟩ := hnext
    rw [stringBody, hcode]
    simp [isSurrogate_toNat, charOf_toNat, h]
  · rw [stringBody, hcode]
    · simp [charOf_toNat, h]
    · intro e f g k rest hcs
      exact hnext ⟨e, f, g, k, rest, hcs⟩

theorem stringBody_letter {x : Char} (hletter : escapeChar? c = some x)
    (h : ∀ escaped, stringBody escaped cs = some (tail, after)) (escaped : Bool) :
    stringBody escaped ('\\' :: c :: cs) = some (x :: tail, after) := by
  have hu : c ≠ 'u' := by
    rintro rfl
    cases hletter
  rw [stringBody]
  · simp [hletter, h]
  all_goals
    intros
    contradiction

theorem stringBody_plain (hquote : c ≠ '"') (hbackslash : c ≠ '\\')
    (hcontrol : ¬ c.toNat < 32) (h : ∀ escaped, stringBody escaped cs = some (tail, after))
    (escaped : Bool) : stringBody escaped (c :: cs) = some (c :: tail, after) := by
  rw [stringBody]
  · simp [h, hbackslash, hcontrol]
  · exact hquote
  all_goals
    intros
    contradiction

/-- A character is escaped by a letter or by its code, or it stands for itself. -/
theorem escaped_cases (c : Char) :
    (∃ letter, Json.escaped c = ['\\', letter] ∧ escapeChar? letter = some c) ∨
      (∃ w x y z, Json.escaped c = ['\\', 'u', w, x, y, z] ∧ fourHex? w x y z = some c.toNat) ∨
        (Json.escaped c = [c] ∧ c ≠ '"' ∧ c ≠ '\\' ∧ ¬ c.toNat < 32) := by
  by_cases hletter : c = '"' ∨ c = '\\' ∨ c = '\n' ∨ c = '\r' ∨ c = '\t'
  · rcases hletter with rfl | rfl | rfl | rfl | rfl <;> exact .inl ⟨_, rfl, rfl⟩
  simp only [not_or] at hletter
  obtain ⟨hquote, hbackslash, hnewline, hreturn, htab⟩ := hletter
  rw [Json.escaped, if_neg hquote, if_neg hbackslash, if_neg hnewline, if_neg hreturn,
    if_neg htab]
  dsimp only
  split
  · rename_i hcode
    have hfour := exists_hex_four (n := c.toNat) (by
      rcases hcode with hlt | rfl | rfl | rfl | hn | hn <;> simp_all)
    obtain ⟨w, x, y, z, hhex, hvalue⟩ := hfour
    exact .inr (.inl ⟨w, x, y, z, by rw [hhex], hvalue⟩)
  · rename_i hcode
    exact .inr (.inr ⟨rfl, hquote, hbackslash, fun hlt => hcode (.inl hlt)⟩)

/-- A character is read from its escaped form, before anything that can be read. -/
theorem stringBody_escaped (c : Char)
    (h : ∀ escaped, stringBody escaped cs = some (tail, after)) (escaped : Bool) :
    stringBody escaped (Json.escaped c ++ cs) = some (c :: tail, after) := by
  rcases escaped_cases c with ⟨letter, hc, hletter⟩ | ⟨w, x, y, z, hc, hcode⟩ |
    ⟨hc, hquote, hbackslash, hcontrol⟩
  · rw [hc]
    exact stringBody_letter hletter h escaped
  · rw [hc]
    exact stringBody_code hcode h escaped
  · rw [hc]
    exact stringBody_plain hquote hbackslash hcontrol h escaped

/-- **A string reads back as it was**, whatever stands behind it. -/
theorem stringBody_flatMap_escaped (s rest : List Char) (escaped : Bool) :
    stringBody escaped (s.flatMap Json.escaped ++ '"' :: rest) = some (s, rest) := by
  induction s generalizing escaped with
  | nil => rw [flatMap_nil, nil_append, stringBody]
  | cons c s ih =>
    rw [flatMap_cons, append_assoc]
    exact stringBody_escaped c ih escaped

end Strings

/-! ## Texts of trees -/

/-- **The text is read as the tree**, whatever stands behind it, where `depth` levels may be
opened. -/
structure Spells {ν : Type} (number : Reader ν) (depth : Nat) (text : List Char) (t : Tree ν) :
    Prop where
  start : ∃ c rest, text = c :: rest ∧ isSpace c = false ∧ c ≠ ']'
  reads : ∀ (fuel : Nat) (rest : List Char), text.length ≤ fuel →
    valueWith number fuel depth (text ++ rest) = some (t, rest)

section Spells

variable {ν : Type} {number : Reader ν} {depth : Nat} {ms : List (String × Tree ν)}

theorem Spells.ofStep {text : List Char} {t : Tree ν}
    (hstart : ∃ c rest, text = c :: rest ∧ isSpace c = false ∧ c ≠ ']')
    (hstep : ∀ (fuel : Nat) (rest : List Char), text.length ≤ fuel + 1 →
      valueWith number (fuel + 1) depth (text ++ rest) = some (t, rest)) :
    Spells number depth text t := by
  refine ⟨hstart, fun fuel rest hfuel => ?_⟩
  obtain ⟨c, cs, rfl, -, -⟩ := hstart
  cases fuel with
  | zero => cases hfuel
  | succ fuel => exact hstep fuel rest hfuel

theorem spells_null : Spells number depth "null".toList (.null : Tree ν) :=
  .ofStep ⟨'n', _, rfl, rfl, by decide⟩ fun _ _ _ => rfl

theorem spells_bool (b : Bool) :
    Spells number depth (if b then "true" else "false").toList (.bool b : Tree ν) := by
  cases b
  · exact .ofStep ⟨'f', _, rfl, rfl, by decide⟩ fun _ _ _ => rfl
  · exact .ofStep ⟨'t', _, rfl, rfl, by decide⟩ fun _ _ _ => rfl

theorem toList_string (s : String) :
    (Json.string s).toList = '"' :: (s.toList.flatMap escaped ++ ['"']) :=
  String.toList_ofList

theorem spells_string (s : String) :
    Spells number depth (Json.string s).toList (.string s : Tree ν) := by
  rw [toList_string]
  refine .ofStep ⟨'"', _, rfl, rfl, by decide⟩ fun fuel rest _ => ?_
  show (stringBody false (s.toList.flatMap escaped ++ ['"'] ++ rest)).map _ = _
  rw [append_assoc, singleton_append, stringBody_flatMap_escaped]
  simp

/-! ## Lists -/

theorem elementsWith_intercalate {texts : List (List Char)} {ts : List (Tree ν)}
    (h : List.Forall₂ (Spells number depth) texts ts) (hne : texts ≠ []) {fuel : Nat}
    (rest : List Char) (hfuel : ([','].intercalate texts).length + 1 ≤ fuel) :
    elementsWith number fuel depth ([','].intercalate texts ++ ']' :: rest) = some (ts, rest) := by
  induction h generalizing fuel with
  | nil => exact absurd rfl hne
  | @cons text t texts ts ht hts ih =>
    obtain ⟨fuel, rfl⟩ := Nat.exists_eq_add_of_le' (Nat.le_of_add_left_le hfuel)
    cases hts with
    | nil =>
      rw [intercalate_singleton] at hfuel ⊢
      exact elementsWith_close (ht.reads fuel _ (by omega)) rfl
    | @cons text' t' texts ts ht' hts =>
      rw [intercalate_cons_cons] at hfuel ⊢
      simp only [length_append, length_singleton] at hfuel
      simp only [append_assoc, singleton_append]
      exact elementsWith_more (ht.reads fuel _ (by omega)) rfl
        (ih (cons_ne_nil _ _) (by omega))

theorem toList_array (texts : List String) :
    (Json.array texts).toList = '[' :: ([','].intercalate (texts.map String.toList) ++ [']']) := by
  rw [Json.array, String.toList_append, String.toList_append, String.toList_intercalate]
  rfl

/-- A list of texts of trees is the text of a list. -/
theorem Spells.array {texts : List String} {ts : List (Tree ν)}
    (h : List.Forall₂ (Spells number depth) (texts.map String.toList) ts) :
    Spells number (depth + 1) (Json.array texts).toList (.array ts) := by
  rw [toList_array]
  refine .ofStep ⟨'[', _, rfl, rfl, by decide⟩ fun fuel rest hfuel => ?_
  generalize texts.map String.toList = texts at h hfuel ⊢
  cases h with
  | nil => rfl
  | @cons text t texts ts ht hts =>
    have hbody : ([','].intercalate (text :: texts)).length + 1 ≤ fuel := by simpa using hfuel
    have helements := elementsWith_intercalate (.cons ht hts) (cons_ne_nil _ _) rest hbody
    rw [cons_append, append_assoc, singleton_append]
    exact valueWith_elements helements

/-! ## Objects -/

def memberText (m : String × String) : List Char :=
  (Json.string m.1).toList ++ ':' :: m.2.toList

theorem memberName_string (first : Bool) (key : String) (rest : List Char) :
    memberName first ((Json.string key).toList ++ rest) = some (key, rest) := by
  rw [toList_string, cons_append, append_assoc, singleton_append]
  show (stringBody false (key.toList.flatMap escaped ++ '"' :: rest)).map _ = _
  rw [stringBody_flatMap_escaped, Option.map_some]
  dsimp only
  rw [String.ofList_toList]

/-- A written member and a member of a tree with the same name, of which the one is the text of the
other. -/
def SpellsMember (number : Reader ν) (depth : Nat) (written : String × String)
    (m : String × Tree ν) : Prop :=
  written.1 = m.1 ∧ Spells number depth written.2.toList m.2

theorem membersWith_intercalate
    (h : List.Forall₂ (SpellsMember number depth) written ms) (hne : written ≠ []) {fuel : Nat}
    (first : Bool) (rest : List Char)
    (hfuel : ([','].intercalate (written.map memberText)).length + 1 ≤ fuel) :
    membersWith number fuel depth first
      ([','].intercalate (written.map memberText) ++ '}' :: rest) = some (ms, rest) := by
  induction h generalizing fuel first with
  | nil => exact absurd rfl hne
  | @cons w m written ms hm hms ih =>
    obtain ⟨key, text⟩ := w
    obtain ⟨key', t⟩ := m
    obtain ⟨rfl, ht⟩ := hm
    obtain ⟨fuel, rfl⟩ := Nat.exists_eq_add_of_le' (Nat.le_of_add_left_le hfuel)
    cases hms with
    | nil =>
      rw [map_cons, map_nil, intercalate_singleton, memberText] at hfuel ⊢
      simp only [length_append, length_cons] at hfuel
      rw [append_assoc, cons_append]
      exact membersWith_close (memberName_string first key _) rfl
        (ht.reads fuel _ (by dsimp only; omega)) rfl
    | @cons w' m' written ms hm' hms =>
      rw [map_cons, map_cons, intercalate_cons_cons, memberText] at hfuel ⊢
      rw [map_cons] at ih
      simp only [length_append, length_cons, length_nil] at hfuel
      simp only [append_assoc, cons_append, nil_append]
      exact membersWith_more (memberName_string first key _) rfl
        (ht.reads fuel _ (by dsimp only; omega)) rfl (ih (cons_ne_nil _ _) false (by omega))

theorem toList_object (written : List (String × String)) :
    (Json.object written).toList =
      '{' :: ([','].intercalate (written.map memberText) ++ ['}']) := by
  rw [Json.object, String.toList_append, String.toList_append, String.toList_intercalate,
    map_map, map_congr_left (g := memberText)]
  · rfl
  · intro m _
    rw [Function.comp_apply, String.toList_append, String.toList_append, append_assoc]
    rfl

/-- A list of written members is the text of an object. -/
theorem Spells.object (h : List.Forall₂ (SpellsMember number depth) written ms) :
    Spells number (depth + 1) (Json.object written).toList (.object ms) := by
  rw [toList_object]
  refine .ofStep ⟨'{', _, rfl, rfl, by decide⟩ fun fuel rest hfuel => ?_
  cases h with
  | nil => rfl
  | @cons w m written ms hm hms =>
    have hbody : ([','].intercalate ((w :: written).map memberText)).length + 1 ≤ fuel := by
      simpa using hfuel
    have hmembers := membersWith_intercalate (.cons hm hms) (cons_ne_nil _ _) true rest hbody
    rw [cons_append, append_assoc, singleton_append]
    exact valueWith_members hmembers

end Spells

end Tree

/-! ## Values as trees -/

mutual

/-- **The tree of a value that a document can hold**: a row is the object of its visible keys. -/
def tree {ν : Type} : Value → Tree ν
  | .bool b => .bool b
  | .text s => .string s
  | .list elements => .array (treeList elements)
  | .row ⟨fields⟩ => .object (treeFields fields)
  | .rows rs => .array (treeRows rs)
  | _ => .null

def treeList {ν : Type} : List Value → List (Tree ν)
  | [] => []
  | v :: rest => tree v :: treeList rest

/-- The names and trees of the visible entries of a row. -/
def treeFields {ν : Type} : List (Field Value) → List (String × Tree ν)
  | [] => []
  | ⟨key, value, hidden⟩ :: rest =>
    if hidden then treeFields rest else (key, tree value) :: treeFields rest

def treeRows {ν : Type} : List Record → List (Tree ν)
  | [] => []
  | ⟨fields⟩ :: rest => .object (treeFields fields) :: treeRows rest

end

section Trees

variable {ν : Type}

theorem treeList_eq_map (vs : List Value) : treeList (ν := ν) vs = vs.map tree := by
  induction vs with
  | nil => rfl
  | cons v vs ih => rw [treeList, ih, map_cons]

theorem tree_rows (rs : List Record) : tree (ν := ν) (.rows rs) = tree (.list (rs.map .row)) := by
  rw [tree, tree, treeList_eq_map, map_map]
  congr 1
  induction rs with
  | nil => rfl
  | cons r rs ih =>
    obtain ⟨fields⟩ := r
    rw [treeRows, ih, map_cons, Function.comp_apply, tree]

theorem treeFields_eq_map (fs : List (Field Value)) :
    treeFields (ν := ν) fs = (Row.entries ⟨fs⟩).map fun e => (e.1, tree e.2) := by
  induction fs with
  | nil => rfl
  | cons f fs ih =>
    obtain ⟨key, value, hidden⟩ := f
    rw [treeFields, ih]
    cases hidden <;> rfl

end Trees

/-! ## The text of a value -/

/-- The value is written as the text of its tree, whatever numbers are read as. -/
def Written (n : Nat) (v : Value) : Prop :=
  ∃ text, encode v = some text ∧
    ∀ (ν : Type) (number : Reader ν), Tree.Spells number n text.toList (tree v)

theorem exists_encodeList (h : ∀ v ∈ vs, Written n v) :
    ∃ texts, encodeList vs = some texts ∧ ∀ (ν : Type) (number : Reader ν),
      List.Forall₂ (Tree.Spells number n) (texts.map String.toList) (treeList vs) := by
  obtain ⟨texts, htexts, hspells⟩ := exists_forall₂_mapM h
  refine ⟨texts, by rw [encodeList_eq_mapM, htexts], fun ν number => ?_⟩
  rw [treeList_eq_map, forall₂_map_left_iff, forall₂_map_right_iff]
  exact hspells.flip.imp fun _ _ h => h ν number

theorem exists_encodeFields {fs : List (Field Value)}
    (h : ∀ f ∈ Row.visible ⟨fs⟩, Written n f.value) :
    ∃ written, encodeFields fs = some written ∧ ∀ (ν : Type) (number : Reader ν),
      List.Forall₂ (Tree.SpellsMember number n) written (treeFields fs) := by
  have hentries : ∀ e ∈ Row.entries ⟨fs⟩, ∃ w, member? e = some w ∧ ∀ (ν : Type)
      (number : Reader ν), Tree.SpellsMember number n w (e.1, tree e.2) := by
    refine forall_mem_map.mpr fun f hf => ?_
    obtain ⟨text, hencode, hspells⟩ := h f hf
    exact ⟨(f.key, text), by rw [member?, hencode]; rfl, fun ν number => ⟨rfl, hspells ν number⟩⟩
  obtain ⟨written, hwritten, hspells⟩ := exists_forall₂_mapM hentries
  refine ⟨written, by rw [encodeFields_eq_mapM, hwritten], fun ν number => ?_⟩
  rw [treeFields_eq_map, forall₂_map_right_iff]
  exact hspells.flip.imp fun _ _ h => h ν number

theorem written_list (h : ∀ v ∈ vs, Written n v) :
    Written (n + 1) (.list vs) := by
  obtain ⟨texts, hencodes, hspells⟩ := exists_encodeList h
  refine ⟨array texts, ?_, fun ν number => ?_⟩
  · rw [encode, hencodes]
    rfl
  · rw [tree]
    exact .array (hspells ν number)

/-- **A document is written** as the text of its tree. -/
theorem written_of_isDocument {v : Value} (h : v.IsDocument n) : Written n v := by
  induction h with
  | null => exact ⟨"null", rfl, fun _ _ => Tree.spells_null⟩
  | bool b => exact ⟨_, rfl, fun _ _ => Tree.spells_bool b⟩
  | text s => exact ⟨_, rfl, fun _ _ => Tree.spells_string s⟩
  | list _ ih => exact written_list ih
  | @row n r _ _ ih =>
    obtain ⟨fields⟩ := r
    obtain ⟨written, hencodes, hspells⟩ := exists_encodeFields ih
    refine ⟨object written, ?_, fun ν number => ?_⟩
    · rw [encode, hencodes]
      rfl
    · rw [tree]
      exact .object (hspells ν number)
  | @rows n rs _ ih =>
    obtain ⟨text, hencode, hspells⟩ := written_list (forall_mem_map.mpr ih)
    refine ⟨text, ?_, fun ν number => ?_⟩
    · rw [encode_rows, hencode]
    · rw [tree_rows]
      exact hspells ν number

/-! ## The value of a tree -/

theorem documentValues_eq_map (ts : List (Tree Double)) :
    documentValues ts = ts.map documentValue := by
  induction ts with
  | nil => rfl
  | cons t ts ih => rw [documentValues, ih, map_cons]

theorem documentMembers_eq_foldl (r : Record) (ms : List (String × Tree Double)) :
    documentMembers r ms =
      (ms.map fun m => (m.1, documentValue m.2)).foldl (fun r e => r.set e.1 e.2) r := by
  induction ms generalizing r with
  | nil => rfl
  | cons m ms ih =>
    obtain ⟨key, t⟩ := m
    rw [documentMembers, ih, map_cons, foldl_cons]

theorem documentValue_tree_list (h : ∀ v ∈ vs, documentValue (tree v) = v.bare) :
    documentValue (tree (.list vs)) = (Value.list vs).bare := by
  rw [tree, documentValue, treeList_eq_map, documentValues_eq_map, Value.bare_list, map_map]
  congr 1
  exact map_congr_left h

/-- **The tree of a document stands for the bare value.** -/
theorem documentValue_tree {v : Value} (h : v.IsDocument n) :
    documentValue (tree v) = v.bare := by
  induction h with
  | null | bool | text => rfl
  | list _ ih => exact documentValue_tree_list ih
  | @row n r hkeys _ ih =>
    obtain ⟨fields⟩ := r
    have hmembers : (treeFields fields).map (fun m => (m.1, documentValue m.2)) =
        (Row.entries ⟨fields⟩).map fun e => (e.1, e.2.bare) := by
      rw [treeFields_eq_map, map_map]
      refine map_congr_left (forall_mem_map.mpr fun f hf => ?_)
      rw [Function.comp_apply, ih f hf]
    have hnodup : (((Row.entries ⟨fields⟩).map fun e => (e.1, e.2.bare)).map Prod.fst).Nodup := by
      rw [map_map]
      exact (Row.map_fst_entries _).symm ▸ hkeys
    have hrow := congrArg Row.mk (Row.fields_ofList hnodup)
    rw [Row.ofList_eq_foldl] at hrow
    rw [tree, documentValue, documentMembers_eq_foldl, hmembers, Value.bare_row]
    exact congrArg Value.row hrow
  | @rows n rs _ ih =>
    have hlist := documentValue_tree_list (forall_mem_map.mpr ih)
    rw [tree_rows, hlist, Value.bare_rows]

/-! ## The round trip -/

theorem value_of_spells {ν : Type} {number : Reader ν} {text : List Char} {t : Tree ν}
    (h : Tree.Spells number n text t) : Tree.value number n text = some (t, []) := by
  have hreads := h.reads (2 * text.length + 2) [] (by omega)
  rwa [append_nil] at hreads

/-- **A document reads back as it was written, without its hidden keys.** -/
theorem decodeDocument_encode {v : Value} (h : v.IsDocument Tree.maxDepth) :
    ∃ text, encode v = some text ∧ decodeDocument text.toList = some v.bare ∧
      v.bare.shown = v.shown := by
  obtain ⟨text, hencode, hspells⟩ := written_of_isDocument h
  refine ⟨text, hencode, ?_, v.shown_bare⟩
  have hskip : skip Tree.maxDepth text.toList = some [] := by
    rw [skip, value_of_spells (hspells _ skipNumber)]
    rfl
  have hread : Tree.read double text.toList = some (tree v) := by
    rw [Tree.read, value_of_spells (hspells _ double)]
    rfl
  rw [decodeDocument, hskip, hread, ← documentValue_tree h]
  rfl

/-- A value with hidden keys at three depths and texts that have to be escaped. -/
def sampleDocument : Value :=
  .rows [⟨[⟨"id", .int 7, true⟩, ⟨"na\"me", .text "<\u0001\n\\u2028\u2028>", false⟩,
      ⟨"tags", .list [.text "\x7d", .null, .bool true, .list []], false⟩,
      ⟨"owner", .row ⟨[⟨"", .null, false⟩, ⟨"userId", .text "1", true⟩]⟩, false⟩,
      ⟨"cars", .rows [⟨[⟨"userId", .text "1", true⟩]⟩, ⟨[]⟩], false⟩]⟩]

theorem decodeDocument_encode_sampleDocument :
    sampleDocument.IsDocument Tree.maxDepth ∧
      ∃ text, encode sampleDocument = some text ∧
        decodeDocument text.toList =
          some (.list [.row ⟨[⟨"na\"me", .text "<\u0001\n\\u2028\u2028>", false⟩,
            ⟨"tags", .list [.text "\x7d", .null, .bool true, .list []], false⟩,
            ⟨"owner", .row ⟨[⟨"", .null, false⟩]⟩, false⟩,
            ⟨"cars", .list [.row ⟨[]⟩, .row ⟨[]⟩], false⟩]⟩]) ∧
        sampleDocument.bare.shown = sampleDocument.shown := by
  have hnone {n : Nat} : ∀ v ∈ ([] : List Value), v.IsDocument n :=
    fun v hv => absurd hv List.not_mem_nil
  have hempty {n : Nat} {r : Record} (hr : r.visible = []) : (Value.row r).IsDocument (n + 1) :=
    .row (by rw [Row.keys, hr]; exact List.nodup_nil) fun f hf => by rw [hr] at hf; cases hf
  have howner : (Value.row ⟨[⟨"", .null, false⟩, ⟨"userId", .text "1", true⟩]⟩).IsDocument 9998 :=
    .row (by decide) (List.forall_mem_singleton.mpr .null)
  have htags : (Value.list [.text "\x7d", .null, .bool true, .list []]).IsDocument 9998 :=
    .list (by simp [Value.IsDocument.text, Value.IsDocument.null, Value.IsDocument.bool,
      Value.IsDocument.list hnone])
  have hdocument : sampleDocument.IsDocument Tree.maxDepth := by
    refine .rows (List.forall_mem_singleton.mpr (.row (by decide) ?_))
    refine List.forall_mem_cons.mpr ⟨.text _, List.forall_mem_cons.mpr ⟨htags,
      List.forall_mem_cons.mpr ⟨howner, List.forall_mem_singleton.mpr (.rows ?_)⟩⟩⟩
    exact List.forall_mem_cons.mpr ⟨hempty rfl, List.forall_mem_singleton.mpr (hempty rfl)⟩
  exact ⟨hdocument, decodeDocument_encode hdocument⟩

end Json
end TreeQuery
