import TreeQuery.Config
import TreeQuery.Proofs.Slug

/-!
# Saved queries are kept by their normalised name

Stored names come from a file that anyone may write: several of them may normalise alike, and some
to nothing.  The stored queries are in no order, so a look-up may find any of those with the name
(`Finds`); which ones these are is said by `candidates`.

Saving replaces all candidates of a name by one, and removing takes them away; neither touches the
candidates of another name.  That the saved query is found again rests on `queryName_queryName`,
since it is stored under a name that was normalised once and is looked up by normalising twice.
-/

namespace TreeQuery.Config

open List TreeQuery.Slug

/-! ## Looking up -/

/-- The texts stored under a name. -/
def candidates (c : Config) (name : String) : List String :=
  if queryName name = "" then [] else (c.queries.filter (isNamed (queryName name))).map Prod.snd

/-- **A look-up finds a text, or nothing**, in some order of the stored queries. -/
def Finds (c : Config) (name : String) (found : Option String) : Prop :=
  ∃ queries, queries.Perm c.queries ∧ ({ c with queries := queries } : Config).saved? name = found

theorem saved?_eq (c : Config) (name : String) : c.saved? name = (c.candidates name).head? := by
  rw [saved?, candidates]
  by_cases hname : queryName name = ""
  · rw [if_pos hname, hname]
    rfl
  · rw [if_neg hname, if_neg (by simpa using hname), ← head?_filter, head?_map]

/-- Another order of the queries gives the candidates another order. -/
theorem candidates_perm (c : Config) (name : String) {queries : List (String × String)}
    (h : queries.Perm c.queries) :
    (({ c with queries := queries } : Config).candidates name).Perm (c.candidates name) := by
  unfold candidates
  split
  · exact List.Perm.nil
  · exact (h.filter _).map _

variable {c d : Config} {n : String} {name text : String}

/-- Any candidate comes first in some order. -/
theorem exists_perm_candidates (h : text ∈ c.candidates name) : ∃ queries, queries.Perm c.queries ∧
      (({ c with queries := queries } : Config).candidates name).head? = some text := by
  unfold candidates at h
  split at h
  · cases h
  rename_i hname
  obtain ⟨q, hq, rfl⟩ := mem_map.mp h
  obtain ⟨hmem, hnamed⟩ := mem_filter.mp hq
  refine ⟨q :: c.queries.erase q, (perm_cons_erase hmem).symm, ?_⟩
  rw [candidates, if_neg hname, filter_cons_of_pos hnamed]
  rfl

/-- What a look-up can find is one of the candidates, and nothing if there are none. -/
theorem finds_iff {name : String} {found : Option String} :
    c.Finds name found ↔
      (c.candidates name = [] ∧ found = none) ∨ ∃ text ∈ c.candidates name, found = some text := by
  constructor
  · rintro ⟨queries, hperm, rfl⟩
    have hcandidates := c.candidates_perm name hperm
    rw [saved?_eq]
    cases hfirst : ({ c with queries := queries } : Config).candidates name with
    | nil =>
      rw [hfirst] at hcandidates
      exact .inl ⟨hcandidates.nil_eq.symm, rfl⟩
    | cons text others =>
      refine .inr ⟨text, hcandidates.subset ?_, rfl⟩
      rw [hfirst]
      exact mem_cons_self
  · rintro (⟨hnone, rfl⟩ | ⟨text, htext, rfl⟩)
    · refine ⟨c.queries, .refl _, ?_⟩
      rw [saved?_eq, hnone]
      rfl
    · obtain ⟨queries, hperm, hfirst⟩ := exists_perm_candidates htext
      exact ⟨queries, hperm, by rw [saved?_eq, hfirst]⟩

/-- **Look-ups of a name give the same in both settings**, in the order at hand and in any other. -/
def Agree (c d : Config) (name : String) : Prop :=
  d.saved? name = c.saved? name ∧ ∀ found, d.Finds name found ↔ c.Finds name found

theorem agree_of_candidates {name : String}
    (h : d.candidates name = c.candidates name) : Agree c d name := by
  refine ⟨by rw [saved?_eq, saved?_eq, h], fun found => ?_⟩
  rw [finds_iff, finds_iff, h]

/-! ## Saving and removing -/

/-- The queries of another name are all kept. -/
theorem filter_isNamed_of_ne (queries : List (String × String)) {a b : String} (h : b ≠ a) :
    (queries.filter fun q => !isNamed a q).filter (isNamed b) = queries.filter (isNamed b) := by
  rw [filter_filter]
  refine filter_congr fun q _ => ?_
  cases hb : isNamed b q with
  | false => rfl
  | true =>
    have ha : isNamed a q = false := by
      rw [isNamed, beq_eq_false_iff_ne]
      rintro rfl
      exact h (eq_of_beq hb).symm
    rw [ha]
    rfl

/-- The queries of the name itself are not. -/
theorem filter_isNamed_self (queries : List (String × String)) (a : String) :
    (queries.filter fun q => !isNamed a q).filter (isNamed a) = [] := by
  rw [filter_filter, filter_eq_nil_iff]
  intro q _
  cases isNamed a q <;> decide

theorem isNamed_queryName (name text : String) :
    isNamed (queryName name) (queryName name, text) := by
  rw [isNamed, queryName_queryName]
  exact beq_self_eq_true _

theorem save?_eq_none_iff : c.save? name text = none ↔ queryName name = "" := by
  rw [save?]
  split <;> simp_all

theorem save?_eq_some (h : c.save? name text = some d) : queryName name ≠ "" ∧
      d = { c with queries :=
        c.queries.filter (fun q => !isNamed (queryName name) q) ++ [(queryName name, text)] } := by
  rw [save?] at h
  split at h
  · cases h
  · rename_i hname
    exact ⟨by simpa using hname, (Option.some.inj h).symm⟩

/-- **Saved under its name**: one stored query has the name, under the normalised form. -/
theorem filter_isNamed_save (h : c.save? name text = some d) :
    d.queries.filter (isNamed (queryName name)) = [(queryName name, text)] := by
  obtain ⟨-, rfl⟩ := save?_eq_some h
  rw [filter_append, filter_isNamed_self, nil_append,
    filter_cons_of_pos (isNamed_queryName name text), filter_nil]

theorem candidates_save_of_eq (h : c.save? name text = some d) (hn : queryName n = queryName name) :
    d.candidates n = [text] := by
  rw [candidates, hn, if_neg (save?_eq_some h).1, filter_isNamed_save h]
  rfl

theorem candidates_save_of_ne (h : c.save? name text = some d) (hn : queryName n ≠ queryName name) :
    d.candidates n = c.candidates n := by
  have hother : isNamed (queryName n) (queryName name, text) = false := by
    rw [isNamed, queryName_queryName, beq_eq_false_iff_ne]
    exact hn.symm
  obtain ⟨-, rfl⟩ := save?_eq_some h
  rw [candidates, candidates, filter_append, filter_isNamed_of_ne _ hn,
    filter_cons_of_neg (by rw [hother]; exact Bool.false_ne_true), filter_nil,
    append_nil]

/-- The settings after an attempt to save a query. -/
def afterSave (c : Config) (name text : String) : Config := (c.save? name text).getD c

/-- **A saved query is found under its name**, whatever names are stored: saving fails just when the
name normalises to nothing, and otherwise the name finds the text and nothing else, in any order of
the stored queries, with a single stored query of that name.  Other names find what they found. -/
theorem finds_afterSave (c : Config) (name text : String) :
    (c.save? name text = none ↔ queryName name = "") ∧
    (queryName name = "" → c.afterSave name text = c) ∧
    (queryName name ≠ "" →
      (∀ n, queryName n = queryName name →
        ∀ found, (c.afterSave name text).Finds n found ↔ found = some text) ∧
      (c.afterSave name text).queries.filter (isNamed (queryName name)) =
        [(queryName name, text)] ∧
      (∀ n, queryName n ≠ queryName name → Agree c (c.afterSave name text) n) ∧
      { c.afterSave name text with queries := c.queries } = c) := by
  refine ⟨save?_eq_none_iff, fun hname => ?_, fun hname => ?_⟩
  · rw [afterSave, save?_eq_none_iff.mpr hname, Option.getD_none]
  · obtain ⟨d, hd⟩ := Option.ne_none_iff_exists'.mp (mt save?_eq_none_iff.mp hname)
    have hafter : c.afterSave name text = d := by
      rw [afterSave, hd, Option.getD_some]
    rw [hafter]
    refine ⟨fun n hn found => ?_, filter_isNamed_save hd,
      fun n hn => agree_of_candidates (candidates_save_of_ne hd hn), ?_⟩
    · rw [finds_iff, candidates_save_of_eq hd hn]
      simp
    · obtain ⟨-, rfl⟩ := save?_eq_some hd
      rfl

/-- Settings with two names that normalise alike and one that normalises to nothing. -/
def handWritten : Config where
  queries := [("Active_Users", "users"), ("active users.sgq", "users(id)"), ("/", "orders")]

/-- Saving `ACTIVE users` replaces both stored queries with that name. -/
theorem finds_afterSave_handWritten :
    queryName "ACTIVE users" ≠ "" ∧ queryName "active-users" = queryName "ACTIVE users" ∧
      ∀ found, (handWritten.afterSave "ACTIVE users" "orders(id)").Finds "active-users" found ↔
        found = some "orders(id)" := by
  have hname : queryName "ACTIVE users" ≠ "" := by decide +kernel
  have hsame : queryName "active-users" = queryName "ACTIVE users" := by decide +kernel
  exact ⟨hname, hsame,
    ((finds_afterSave handWritten "ACTIVE users" "orders(id)").2.2 hname).1 _ hsame⟩

theorem candidates_remove_of_eq {name : String} (hn : queryName n = queryName name) :
    (c.remove name).2.candidates n = [] := by
  rw [candidates, hn, remove, filter_isNamed_self]
  exact ite_self _

theorem candidates_remove_of_ne {name : String} (hn : queryName n ≠ queryName name) :
    (c.remove name).2.candidates n = c.candidates n := by
  rw [candidates, candidates, remove, filter_isNamed_of_ne _ hn]

/-- A name that normalises to something has candidates just when a stored name normalises alike. -/
theorem isSome_saved?_iff {name : String} (hname : queryName name ≠ "") :
    (c.saved? name).isSome ↔ (c.remove name).1 := by
  rw [saved?, if_neg (by simpa using hname), Option.isSome_map, find?_isSome, remove,
    any_eq_true]

/-- **Removing takes away what a look-up finds.**  It reports a query just when the look-up finds
one, or when the name and a stored name both normalise to nothing: no look-up finds that one.
Afterwards the name finds nothing, in any order, and other names find what they found. -/
theorem finds_remove (c : Config) (name : String) :
    ((c.remove name).1 = true ↔
      (c.saved? name).isSome = true ∨
        queryName name = "" ∧ ∃ q ∈ c.queries, queryName q.1 = "") ∧
    (∀ n, queryName n = queryName name → ∀ found, (c.remove name).2.Finds n found ↔ found = none) ∧
    (∀ n, queryName n ≠ queryName name → Agree c (c.remove name).2 n) ∧
    { (c.remove name).2 with queries := c.queries } = c := by
  refine ⟨?_, fun n hn found => ?_, fun n hn => agree_of_candidates (candidates_remove_of_ne hn),
    rfl⟩
  · by_cases hname : queryName name = ""
    · have hmissed : c.saved? name = none := by
        rw [saved?_eq, candidates, if_pos hname]
        rfl
      rw [hmissed, remove, hname, List.any_eq_true]
      simp [isNamed]
    · rw [isSome_saved?_iff hname]
      simp [hname]
  · rw [finds_iff, candidates_remove_of_eq hn]
    simp

/-- Removing `Active Users` reports the two stored queries, and afterwards the name finds nothing.
-/
theorem finds_remove_handWritten :
    (handWritten.saved? "Active Users").isSome = true ∧
      (handWritten.remove "Active Users").1 = true ∧
      queryName "active-users" = queryName "Active Users" ∧
      ∀ found, (handWritten.remove "Active Users").2.Finds "active-users" found ↔ found = none := by
  have hfound : (handWritten.saved? "Active Users").isSome = true := by decide +kernel
  have hsame : queryName "active-users" = queryName "Active Users" := by decide +kernel
  obtain ⟨hreport, hafter, -⟩ := finds_remove handWritten "Active Users"
  exact ⟨hfound, hreport.mpr (.inl hfound), hsame, hafter _ hsame⟩

/-- Settings with a query under a name that normalises to nothing. -/
def unnamed : Config where
  queries := [("", "users")]

/-- **Removing reports a query that no look-up finds.** -/
theorem remove_reports_unfound :
    unnamed.saved? "" = none ∧ (unnamed.remove "").1 = true := by
  constructor <;> decide +kernel

end TreeQuery.Config
