import TreeQuery.Proofs.Value

/-!
# What a row keeps of its changes

A row is made by assigning values to keys and by hiding keys, in any order.  Its three containers
stay in step: whatever the changes were, the listed keys are those that have been assigned to, each
once and in the order of the first time, the table holds the last value under each of them, and only
they are hidden.  Hiding takes keys away from what the row shows and nothing else; what has been
hidden stays hidden (`faithful_made`).
-/

namespace TreeQuery.Row

open List

section Hidden

variable {α : Type} {r : Row α}

theorem keys_eq_filter (h : r.allKeys.Nodup) :
    r.keys = r.allKeys.filter fun key => !r.isHidden key := by
  rw [keys, visible, allKeys, List.filter_map]
  refine congrArg (List.map Field.key) (filter_congr fun f hf => ?_)
  rw [Function.comp_apply, isHidden_of_mem h hf]

theorem allKeys_prefix_set (r : Row α) (key : String) (value : α) :
    r.allKeys <+: (r.set key value).allKeys := by
  by_cases hkey : key ∈ r.allKeys
  · exact ⟨[], by rw [append_nil, allKeys_set_of_mem hkey]⟩
  · exact ⟨[key], (allKeys_set_of_not_mem hkey value).symm⟩

theorem get?_of_mem_entries (h : r.allKeys.Nodup) {e : String × α} (he : e ∈ r.entries) :
    r.get? e.1 = some e.2 := by
  obtain ⟨f, hf, rfl⟩ := mem_map.mp he
  exact get?_of_mem h (mem_filter.mp hf).1

end Hidden

/-- **Containers keep the changes they were made by.**  The keys are listed in the order of their
first assignment, the table has just these keys and holds what was last assigned to them, and no
other key is hidden; a further assignment moves and reveals no key, and hiding changes no value.
The record in the containers is read as they are.  What it shows, and what is written of it, are the
visible keys with the values under them. -/
structure Faithful (changes : List (Change Value)) (c : Containers Value) : Prop where
  nodup : c.order.Nodup
  order : c.order = ((assignments changes).map Prod.fst).eraseDups
  domain : ∀ key, (c.values key).isSome ↔ key ∈ c.order
  last : ∀ key, c.get? key = (assignments changes).reverse.lookup key
  hidden : ∀ key, c.isHidden key → key ∈ c.order
  set : ∀ key value, c.order <+: (c.set key value).order ∧
    ∀ other, (c.set key value).isHidden other = c.isHidden other
  hide : ∀ names, (c.hide names).order = c.order ∧ ∀ key,
    (c.hide names).get? key = c.get? key ∧
      (c.hide names).isHidden key = (c.isHidden key || names.contains key && c.has key)
  record : c.row = made changes
  reads : ∀ key, c.row.get? key = c.get? key ∧ c.row.has key = c.has key ∧
    c.row.isHidden key = c.isHidden key
  keys : c.row.keys = c.keys ∧ c.keys = c.order.filter fun key => !c.isHidden key
  entries : c.row.entries.map Prod.fst = c.keys ∧ ∀ e ∈ c.row.entries, c.get? e.1 = some e.2
  shown : Value.shown (.row c.row) = .map (c.row.entries.map fun e => (e.1, e.2.shown))
  written : Json.encode (.row c.row) = (c.row.entries.mapM Json.member?).map Json.object

/-- The keys that a row shows are those of the containers that hold it. -/
theorem Containers.Holds.keys {α : Type} {c : Containers α} {r : Row α} (h : c.Holds r)
    (hkeys : r.allKeys.Nodup) : r.keys = c.keys := by
  rw [keys_eq_filter hkeys, Containers.keys, h.order]
  exact filter_congr fun key _ => by rw [h.hidden]

/-- **After any changes, containers keep them.** -/
theorem faithful_made (changes : List (Change Value)) :
    Faithful changes (Containers.made changes) := by
  have h := Containers.holds_made changes
  have hnodup := nodup_allKeys_made changes
  have hrow := h.row hnodup
  refine
    { nodup := h.order ▸ hnodup
      order := h.order.trans (allKeys_made changes)
      domain := fun key => by rw [h.values, h.order, get?_isSome]
      last := fun key => (h.values key).trans (get?_made changes key)
      hidden := fun key hkey => h.order ▸ mem_allKeys_of_isHidden (h.hidden key ▸ hkey)
      set := fun key value => ⟨?_, fun other => rfl⟩
      hide := fun names => ⟨?_, fun key => ⟨?_, ?_⟩⟩
      record := hrow
      reads := fun key => ?_
      keys := ⟨by rw [hrow, h.keys hnodup], rfl⟩
      entries := ?_
      shown := ?_
      written := ?_ }
  · rw [h.order, (h.set key value).order]
    exact allKeys_prefix_set _ key value
  · rw [h.order, (h.hide names).order, allKeys_hide]
  · exact ((h.hide names).values key).trans ((get?_hide _ names key).trans (h.values key).symm)
  · rw [Containers.isHidden, Containers.isHidden, (h.hide names).hidden, h.hidden, h.has]
    exact isHidden_hide _ names key
  · rw [hrow, h.has]
    exact ⟨(h.values key).symm, rfl, (h.hidden key).symm⟩
  · rw [hrow, map_fst_entries, h.keys hnodup]
    exact ⟨rfl, fun e he => (h.values e.1).trans (get?_of_mem_entries hnodup he)⟩
  · rw [Value.shown_row]
  · rw [Json.encode, Json.encodeFields_eq_mapM]

end TreeQuery.Row
