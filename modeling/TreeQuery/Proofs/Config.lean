import TreeQuery.Config
import TreeQuery.Proofs.Files.ReadBack
import TreeQuery.Proofs.Query.Marks
import TreeQuery.Proofs.Query.Rendering
import TreeQuery.Proofs.Toml.RoundTrip

/-!
# Settings read back as they were saved

Settings that are saved and loaded again are the same but for blanks around the six values, and for
the order of the saved queries, which are stored by name (`tidied`).  Saving them again gives the
same text.

There is one exception: a replacement character is written as it is, but the reader takes it for
broken text.  Settings with such a character in a value, in the name of a saved query or in its text
can be saved, and not be loaded again (`ofText?_text`).
-/

namespace TreeQuery

open List

namespace Text

theorem trimmed_trimmed (s : String) : trimmed (trimmed s) = trimmed s := by
  rw [trimmed, trimmed, String.toList_ofList, trim_eq_self_iff.mpr (tight_trim _)]

/-- Only blanks are trimmed. -/
theorem mem_trimmed_iff {c : Char} (hc : isBlank c = false) (s : String) :
    c ∈ (trimmed s).toList ↔ c ∈ s.toList := by
  rw [trimmed, String.toList_ofList, ← count_pos_iff, (trim_spec s.toList).2 c hc,
    count_pos_iff]

end Text

namespace Config

/-! ## The order of saved queries -/

/-- Saved queries in the order of their names. -/
def sorted (qs : List (String × String)) : List (String × String) :=
  qs.mergeSort fun a b => a.1 < b.1 || a.1 == b.1

theorem sorted_perm (qs : List (String × String)) : (sorted qs).Perm qs :=
  mergeSort_perm qs _

theorem sorted_sorted (qs : List (String × String)) : sorted (sorted qs) = sorted qs := by
  refine mergeSort_of_pairwise (pairwise_mergeSort ?_ ?_ qs)
  · intro a b c hab hbc
    simp only [Bool.or_eq_true, decide_eq_true_eq, beq_iff_eq] at hab hbc ⊢
    rcases hab with hab | hab
    · rcases hbc with hbc | hbc
      · exact .inl (String.lt_trans hab hbc)
      · exact .inl (hbc ▸ hab)
    · rw [hab]
      exact hbc
  · intro a b
    simp only [Bool.or_eq_true, decide_eq_true_eq, beq_iff_eq]
    by_cases hlt : a.1 < b.1
    · exact .inl (.inl hlt)
    · by_cases hgt : b.1 < a.1
      · exact .inr (.inl hgt)
      · exact .inl (.inr (String.le_antisymm (String.not_lt.mp hgt) (String.not_lt.mp hlt)))

/-! ## Reading entries -/

variable (c : Config)

theorem withEntries_append (t u : Toml.Table) :
    c.withEntries (t ++ u) = (c.withEntries t).bind fun c => c.withEntries u := by
  induction t generalizing c with
  | nil => rfl
  | cons e t ih =>
    obtain ⟨k, i⟩ := e
    rw [cons_append, withEntries, withEntries]
    cases c.withEntry k i with
    | none => rfl
    | some c => exact ih c

theorem withColours_append (t u : Toml.Table) :
    c.withColours (t ++ u) = (c.withColours t).bind fun c => c.withColours u := by
  induction t generalizing c with
  | nil => rfl
  | cons e t ih =>
    obtain ⟨k, i⟩ := e
    rw [cons_append, withColours, withColours]
    split
    · cases textOf? i with
      | none => rfl
      | some s => exact ih _
    · cases textOf? i with
      | none => rfl
      | some s => exact ih _
    · exact ih c

/-- **A setting is read as its trimmed value**, by a reader that stores the text under its key; a
blank one is not written, and the value that was there stays. -/
theorem reads_setting (reader : Config → Toml.Table → Option Config)
    (store : Config → String → Config) {key : String} (hnil : ∀ c, reader c [] = some c)
    (hstore : ∀ c s, reader c [(key, .text s)] = some (store c s)) {c : Config}
    (hblank : store c "" = c) (value : String) :
    reader c ((setting key value).map Toml.Building.entryOf) =
      some (store c (Text.trimmed value)) := by
  unfold setting
  dsimp only
  split
  · rename_i hempty
    rw [String.isEmpty_iff.mp hempty, hblank]
    exact hnil c
  · exact hstore c _

theorem withQuery_of_not_mem {name : String} {qs : List (String × String)}
    (h : name ∉ qs.map Prod.fst) (text : String) :
    withQuery name text qs = qs ++ [(name, text)] := by
  induction qs with
  | nil => rfl
  | cons q qs ih =>
    rw [map_cons, mem_cons, not_or] at h
    have hne : (q.1 == name) = false := by simpa using fun heq => h.1 heq.symm
    rw [withQuery, hne, if_neg Bool.false_ne_true, ih h.2, cons_append]

/-- Saved queries with distinct names are read one after the other. -/
theorem withQueries_entries {c : Config} {qs : List (String × String)}
    (h : (c.queries.map Prod.fst ++ qs.map Prod.fst).Nodup) :
    c.withQueries (qs.map Toml.Building.entryOf) = some { c with queries := c.queries ++ qs } := by
  induction qs generalizing c with
  | nil =>
    rw [append_nil]
    rfl
  | cons q qs ih =>
    have hnew : q.1 ∉ c.queries.map Prod.fst := fun hmem =>
      (nodup_append.mp h).2.2 q.1 hmem q.1 mem_cons_self rfl
    have hrest := ih (c := { c with queries := c.queries ++ [(q.1, q.2)] }) (by simpa using h)
    show ({ c with queries := withQuery q.1 q.2 c.queries } : Config).withQueries _ = _
    rw [withQuery_of_not_mem hnew, hrest]
    simp

/-! ## What is read of what is written -/

/-- **The settings without blanks around values**, the saved queries in the order of their names. -/
def tidied (c : Config) : Config where
  driver := Text.trimmed c.driver
  dsn := Text.trimmed c.dsn
  logLevel := Text.trimmed c.logLevel
  auditLog := Text.trimmed c.auditLog
  accent := Text.trimmed c.accent
  codeTheme := Text.trimmed c.codeTheme
  queries := sorted c.queries

def topSettings (c : Config) : List (String × String) :=
  setting "driver" c.driver ++ setting "dsn" c.dsn ++ setting "log_level" c.logLevel ++
    setting "audit_log" c.auditLog

def colourSettings (c : Config) : List (String × String) :=
  setting "accent" c.accent ++ setting "code_theme" c.codeTheme

theorem text_eq :
    c.text = Toml.document c.topSettings
      [("queries", sorted c.queries), ("ui", c.colourSettings)] := rfl

theorem withEntries_topSettings :
    ({} : Config).withEntries (c.topSettings.map Toml.Building.entryOf) =
      some { driver := Text.trimmed c.driver, dsn := Text.trimmed c.dsn,
             logLevel := Text.trimmed c.logLevel, auditLog := Text.trimmed c.auditLog } := by
  simp only [topSettings, map_append, withEntries_append]
  rw [reads_setting withEntries (fun c s => { c with driver := s }) (fun _ => rfl)
      (fun _ _ => rfl) rfl c.driver, Option.bind_some,
    reads_setting withEntries (fun c s => { c with dsn := s }) (fun _ => rfl)
      (fun _ _ => rfl) rfl c.dsn, Option.bind_some,
    reads_setting withEntries (fun c s => { c with logLevel := s }) (fun _ => rfl)
      (fun _ _ => rfl) rfl c.logLevel, Option.bind_some,
    reads_setting withEntries (fun c s => { c with auditLog := s }) (fun _ => rfl)
      (fun _ _ => rfl) rfl c.auditLog]

theorem withColours_colourSettings {d : Config} (haccent : d.accent = "")
    (htheme : d.codeTheme = "") :
    d.withColours (c.colourSettings.map Toml.Building.entryOf) =
      some { d with accent := Text.trimmed c.accent, codeTheme := Text.trimmed c.codeTheme } := by
  obtain ⟨driver, dsn, logLevel, auditLog, accent, codeTheme, queries⟩ := d
  obtain rfl := haccent
  obtain rfl := htheme
  simp only [colourSettings, map_append, withColours_append]
  rw [reads_setting withColours (fun c s => { c with accent := s }) (fun _ => rfl)
      (fun _ _ => rfl) rfl c.accent, Option.bind_some,
    reads_setting withColours (fun c s => { c with codeTheme := s }) (fun _ => rfl)
      (fun _ _ => rfl) rfl c.codeTheme]

/-- A table is read by the reader of its entries, also if it is left out because it is empty. -/
theorem withEntries_table (reader : Config → Toml.Table → Option Config) {c : Config}
    {name : String} (hnil : reader c [] = some c)
    (htable : ∀ t, c.withEntry name (.table t) = reader c t) (es : List (String × String)) :
    c.withEntries (Toml.Building.entriesOf (name, es)) =
      reader c (es.map Toml.Building.entryOf) := by
  unfold Toml.Building.entriesOf
  split
  · rename_i hempty
    have hes : es = [] := isEmpty_iff.mp hempty
    rw [hes]
    exact hnil.symm
  · rw [withEntries, htable]
    exact Option.bind_fun_some _

/-- Whether no value, name or text has a replacement character in it. -/
def isLegible (c : Config) : Bool :=
  ([c.driver, c.dsn, c.logLevel, c.auditLog, c.accent, c.codeTheme] ++
    c.queries.flatMap fun q => [q.1, q.2]).all fun s => !s.toList.contains '�'

theorem any_setting (key : String) (hkey : key.toList.contains '�' = false) (value : String) :
    (setting key value).any Toml.isReplaced = value.toList.contains '�' := by
  have hmem := Text.mem_trimmed_iff (c := '�') (by decide) value
  unfold setting
  dsimp only
  split
  · rename_i hempty
    rw [String.isEmpty_iff.mp hempty] at hmem
    simpa using hmem
  · rw [any_cons, any_nil, Bool.or_false, Toml.isReplaced, hkey, Bool.false_or,
      Bool.eq_iff_iff, contains_iff_mem, contains_iff_mem]
    exact hmem

theorem any_isReplaced :
    (c.topSettings ++ [("queries", sorted c.queries), ("ui", c.colourSettings)].flatMap
      Prod.snd).any Toml.isReplaced = !c.isLegible := by
  have hqueries : (sorted c.queries).any Toml.isReplaced = c.queries.any Toml.isReplaced :=
    (sorted_perm c.queries).any_eq
  have hany : c.queries.any Toml.isReplaced =
      (c.queries.flatMap fun q => [q.1, q.2]).any fun s => s.toList.contains '�' := by
    rw [any_flatMap]
    refine congrArg c.queries.any (funext fun q => ?_)
    simp [Toml.isReplaced]
  have hlegible : (!c.isLegible) =
      ([c.driver, c.dsn, c.logLevel, c.auditLog, c.accent, c.codeTheme] ++
        c.queries.flatMap fun q => [q.1, q.2]).any fun s => s.toList.contains '�' := by
    rw [isLegible, not_all_eq_any_not]
    simp
  rw [hlegible, any_append, any_append, ← hany]
  simp only [topSettings, colourSettings, flatMap_cons, flatMap_nil, append_nil,
    any_append, hqueries, any_setting "driver" (by decide), any_setting "dsn" (by decide),
    any_setting "log_level" (by decide), any_setting "audit_log" (by decide),
    any_setting "accent" (by decide), any_setting "code_theme" (by decide), any_cons,
    any_nil, Bool.or_false]
  ac_rfl

theorem keys_setting (key value : String) : ((setting key value).map Prod.fst).Sublist [key] := by
  unfold setting
  dsimp only
  split
  · exact nil_sublist _
  · exact List.Sublist.refl _

/-- **Settings are read as they were written**, tidied up, if they are legible. -/
theorem ofText?_text {c : Config} (hkeys : (c.queries.map Prod.fst).Nodup) :
    ofText? c.text = if c.isLegible then some c.tidied else none := by
  have hsorted : ((sorted c.queries).map Prod.fst).Nodup :=
    ((sorted_perm c.queries).map Prod.fst).nodup_iff.mpr hkeys
  have hcolours : (c.colourSettings.map Prod.fst).Nodup := by
    have hsub : (c.colourSettings.map Prod.fst).Sublist ["accent", "code_theme"] := by
      rw [colourSettings, map_append]
      exact (keys_setting _ _).append (keys_setting _ _)
    exact hsub.nodup (by decide)
  have hnames : (c.topSettings.map Prod.fst ++ ["queries", "ui"]).Nodup := by
    have hsub : (c.topSettings.map Prod.fst ++ ["queries", "ui"]).Sublist
        (["driver"] ++ ["dsn"] ++ ["log_level"] ++ ["audit_log"] ++ ["queries", "ui"]) := by
      simp only [topSettings, map_append]
      exact ((((keys_setting _ _).append (keys_setting _ _)).append (keys_setting _ _)).append
        (keys_setting _ _)).append (List.Sublist.refl _)
    exact hsub.nodup (by decide)
  have hbare : ∀ t ∈ [("queries", sorted c.queries), ("ui", c.colourSettings)],
      Toml.isBareName t.1 = true := by
    simp only [forall_mem_cons]
    exact ⟨by decide, by decide, by simp⟩
  have hread := Toml.read_document hbare hnames (by simp [hsorted, hcolours])
  rw [any_isReplaced] at hread
  rw [ofText?, text_eq, hread]
  cases c.isLegible with
  | false => rfl
  | true =>
    rw [Bool.not_true, if_neg Bool.false_ne_true, if_pos rfl]
    dsimp only
    rw [withEntries_append, withEntries_topSettings, Option.bind_some, flatMap_cons,
      flatMap_singleton, withEntries_append, withEntries_table withQueries rfl (fun _ => rfl),
      withQueries_entries (by simpa using hsorted),
      Option.bind_some, withEntries_table withColours rfl (fun _ => rfl),
      withColours_colourSettings c rfl rfl]
    rfl

theorem text_tidied : c.tidied.text = c.text := by
  have hsetting : ∀ key value, setting key (Text.trimmed value) = setting key value := by
    intro key value
    rw [setting, Text.trimmed_trimmed, setting]
  simp only [text_eq, topSettings, colourSettings, tidied, hsetting, sorted_sorted]

/-! ## Files -/

/-- Whether settings can be saved at a path. -/
def isStorable (f : Files) (path mark : String) : Bool :=
  (saveTo f path {} mark).1.isOk

/-- Where some settings can be saved, any can. -/
theorem exists_saveTo_eq_ok {f : Files} {path mark : String} (h : isStorable f path mark)
    (c : Config) :
    ∃ g, saveTo f path c mark = (.ok (), g) ∧
      f.replace path c.text Files.newMode mark = (.ok (), g) := by
  unfold isStorable saveTo at h
  split at h
  · cases h
  rename_i hpath
  split at h
  · rename_i hreplace
    obtain ⟨g, hg⟩ := Files.exists_replace_eq_ok hreplace c.text
    refine ⟨g, ?_, hg⟩
    rw [saveTo, if_neg hpath, hg]
  · cases h

/-- **The same settings**, without blanks around values; the saved queries are the same, whatever
their order. -/
structure SameSettings (c loaded : Config) : Prop where
  driver : loaded.driver = Text.trimmed c.driver
  dsn : loaded.dsn = Text.trimmed c.dsn
  logLevel : loaded.logLevel = Text.trimmed c.logLevel
  auditLog : loaded.auditLog = Text.trimmed c.auditLog
  accent : loaded.accent = Text.trimmed c.accent
  codeTheme : loaded.codeTheme = Text.trimmed c.codeTheme
  queries : loaded.queries.Perm c.queries

theorem sameSettings_tidied : SameSettings c c.tidied :=
  ⟨rfl, rfl, rfl, rfl, rfl, rfl, sorted_perm c.queries⟩

theorem loadFrom_of_read {f : Files} {path : String} {c : Config}
    (hkeys : (c.queries.map Prod.fst).Nodup) (h : f.read path = .ok c.text) :
    loadFrom f path = if c.isLegible then .ok c.tidied else .error (.unreadable path) := by
  rw [loadFrom, h]
  dsimp only
  rw [ofText?_text hkeys]
  cases c.isLegible <;> rfl

/-- **Legible settings read back as they were saved, and no others do.**  At a path where settings
can be saved, all of them can.  Those without a replacement character are loaded as the same
settings, and saving these again gives the same file; those with one cannot be loaded. -/
theorem loadFrom_saveTo {f : Files} (hf : f.Rooted) {path mark : String}
    (hpath : isStorable f path mark = true) {c : Config}
    (hkeys : (c.queries.map Prod.fst).Nodup) :
    ∃ g, saveTo f path c mark = (.ok (), g) ∧
      (c.isLegible = true → ∃ loaded, loadFrom g path = .ok loaded ∧ SameSettings c loaded ∧
        ∀ again, isStorable g path again = true →
          ∃ h, saveTo g path loaded again = (.ok (), h) ∧ h.read path = g.read path) ∧
      (c.isLegible = false → loadFrom g path = .error (.unreadable path)) := by
  obtain ⟨g, hsave, hreplace⟩ := exists_saveTo_eq_ok hpath c
  have hread := hf.read_replace (by decide) (by decide) hreplace
  have hload := loadFrom_of_read hkeys hread
  refine ⟨g, hsave, fun hlegible => ?_, fun hlegible => ?_⟩
  · rw [hlegible, if_pos rfl] at hload
    refine ⟨c.tidied, hload, sameSettings_tidied c, fun again hagain => ?_⟩
    obtain ⟨h, hsave', hreplace'⟩ := exists_saveTo_eq_ok hagain c.tidied
    have hread' := (hf.replace hreplace).read_replace (by decide) (by decide) hreplace'
    rw [text_tidied] at hread'
    exact ⟨h, hsave', hread'.trans hread.symm⟩
  · rw [hlegible, if_neg Bool.false_ne_true] at hload
    exact hload

/-- Blanks around a value, a key that needs quotes, an empty one, and texts with line ends, quotes,
backslashes and controls. -/
def quotedConfig : Config where
  driver := " sqlite\t"
  dsn := "C:\\garage.db"
  accent := "  "
  codeTheme := "monokai\x7f"
  queries := [("users with cars", "users \x7b\n\t\"name\"\n\x7d\r\n"), ("", "\x00"), ("a-1", "")]

theorem loadFrom_saveTo_quotedConfig :
    quotedConfig.isLegible = true ∧
      ∃ g loaded h, saveTo .empty "config.toml" quotedConfig "1" = (.ok (), g) ∧
        loadFrom g "config.toml" = .ok loaded ∧ SameSettings quotedConfig loaded ∧
        saveTo g "config.toml" loaded "2" = (.ok (), h) ∧
        h.read "config.toml" = g.read "config.toml" := by
  have hlegible : quotedConfig.isLegible = true := by decide
  have hpath : isStorable .empty "config.toml" "1" = true := by decide +kernel
  have hkeys : (quotedConfig.queries.map Prod.fst).Nodup := by decide
  obtain ⟨g, hsave, hload, -⟩ := loadFrom_saveTo Files.rooted_empty hpath hkeys
  obtain ⟨loaded, hloaded, hsame, hagain⟩ := hload hlegible
  have hpath' : isStorable g "config.toml" "2" = true := by
    rw [← show (saveTo .empty "config.toml" quotedConfig "1").2 = g from congrArg Prod.snd hsave]
    decide +kernel
  obtain ⟨h, hsave', hsamefile⟩ := hagain "2" hpath'
  exact ⟨hlegible, g, loaded, h, hsave, hloaded, hsame, hsave', hsamefile⟩

/-- **Settings are saved and cannot be loaded again**: the data source has a replacement character
in it. -/
theorem saved_not_loaded :
    isStorable .empty "config.toml" "1" = true ∧
      ∃ g, saveTo .empty "config.toml" { dsn := "a�b" } "1" = (.ok (), g) ∧
        loadFrom g "config.toml" = .error (.unreadable "config.toml") :=
  ⟨by decide +kernel, (saveTo .empty "config.toml" { dsn := "a�b" } "1").2,
    Prod.ext (by decide +kernel) rfl, by decide +kernel⟩

end Config
end TreeQuery
