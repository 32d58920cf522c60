/-!
# Names without repetitions

Lists of names that are made one name at a time: the attributes of a relation, the columns of a
select list, the keys of a row.
-/

namespace TreeQuery

open List

/-- A name added to a list, unless it stands there already. -/
def addNew (names : List String) (name : String) : List String :=
  if names.contains name then names else names ++ [name]

theorem mem_addNew {names : List String} {name other : String} :
    other ∈ addNew names name ↔ other ∈ names ∨ other = name := by
  unfold addNew
  split
  · rename_i hmem
    exact ⟨.inl, fun h => h.elim id fun heq => heq ▸ contains_iff_mem.mp hmem⟩
  · rw [mem_append, mem_singleton]

theorem eraseDups_concat (names : List String) (name : String) :
    (names ++ [name]).eraseDups = addNew names.eraseDups name := by
  rw [eraseDups_append, addNew, contains_eq_mem]
  by_cases h : name ∈ names
  · simp [List.removeAll, h]
  · simp [List.removeAll, h, eraseDups_cons]

theorem foldl_addNew (names more : List String) :
    more.foldl addNew names.eraseDups = (names ++ more).eraseDups := by
  induction more generalizing names with
  | nil => rw [foldl_nil, append_nil]
  | cons name more ih => rw [foldl_cons, ← eraseDups_concat, ih, append_assoc]; rfl

theorem nodup_addNew {names : List String} (h : names.Nodup) (name : String) :
    (addNew names name).Nodup := by
  unfold addNew
  split
  · exact h
  rename_i hnew
  rw [contains_iff_mem] at hnew
  rw [nodup_append]
  refine ⟨h, by simp, ?_⟩
  rintro a ha b hb rfl
  exact hnew (mem_singleton.mp hb ▸ ha)

theorem nodup_eraseDups (names : List String) : names.eraseDups.Nodup := by
  have hfold : ∀ seen : List String, seen.Nodup → (names.foldl addNew seen).Nodup := by
    induction names with
    | nil => exact fun seen h => h
    | cons name names ih => exact fun seen h => ih _ (nodup_addNew h name)
  have h := hfold [] nodup_nil
  rwa [← eraseDups_nil, foldl_addNew, nil_append] at h

end TreeQuery
