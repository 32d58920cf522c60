import TreeQuery.Command.Line
import TreeQuery.Proofs.Command.Auditing
import TreeQuery.Proofs.Files.Replacement
import TreeQuery.Proofs.LastQuery

/-!
# Running the last query again

A query command that gets as far as its results records the query; one that fails before that, in
loading settings, finding or reading the query, opening the database or running a block, changes no
file (`files_of_executed_error`).  What was recorded is found by whoever asks for the last query
with settings at the same path (`recalls_recorded`): the blocks are the same, and so are values and
marker, unless others are given in their place.

A command can ask for the last query only if its settings can be loaded.  Recording leaves the file
of the settings alone, unless it is the state file or the audit log itself (`reloads_recorded`).  If
it is the state file, the record takes the place of the settings, and the query cannot be run again
(`exists_not_replayed`).
-/

namespace TreeQuery

namespace Query

theorem deal_markerOrDefault (blocks : List String) (marker : String) (values : List Value) :
    deal blocks (Template.markerOrDefault marker) values = deal blocks marker values := by
  rw [deal, Template.markerOrDefault_of_ne (Template.toList_markerOrDefault marker), deal]

end Query

namespace Config

theorem loadFrom_congr {f g : Files} {path : String} (h : g.read path = f.read path) :
    loadFrom g path = loadFrom f path := by
  rw [loadFrom, h, loadFrom]

/-- A file in the default place is read. -/
theorem load_of_read {f : Files} {home : Option String} {text : String}
    (h : f.read (defaultPath home) = .ok text) : load f home = loadFrom f (defaultPath home) := by
  have hstat : ∃ n, f.stat (defaultPath home) = .ok n := by
    unfold Files.read at h
    split at h
    · cases h
    · rename_i n hstat
      exact ⟨n, hstat⟩
  obtain ⟨n, hstat⟩ := hstat
  rw [load, hstat]

theorem isName_config : Path.IsName "config.toml" := by
  constructor <;> decide

theorem exists_defaultPath (home : Option String) :
    ∃ path ps, defaultPath home = Path.clean path ∧ Path.parts path = ps ++ ["config.toml"] := by
  cases home with
  | none => exact ⟨"config.toml", [], by decide +kernel, by decide +kernel⟩
  | some h =>
    by_cases hempty : h = ""
    · exact ⟨".config/sgq/config.toml", [".config", "sgq"], by rw [hempty]; decide +kernel,
        by decide +kernel⟩
    · have hall : [h, ".config", "sgq", "config.toml"].filter (· != "") =
          [h, ".config", "sgq", "config.toml"] := by
        simp [hempty]
      exact ⟨h ++ "/" ++ ".config" ++ "/" ++ "sgq" ++ "/" ++ "config.toml", _,
        by rw [defaultPath, Path.join, hall]; rfl,
        by rw [Path.parts_append, Files.parts_name isName_config]⟩

/-- Where nothing stands, there are no settings to read. -/
theorem loadFrom_of_free {f : Files} {path : String} {c : Config}
    (hfree : f.node? (Files.placeOf path) = none) : loadFrom f path ≠ .ok c := by
  intro h
  unfold loadFrom at h
  split at h
  · cases h
  rename_i hread
  obtain ⟨n, -, hn, -⟩ := Files.locate_of_read hread
  cases hfree.symm.trans hn

theorem load_of_free {f : Files} {home : Option String} {c : Config}
    (hfree : f.node? (Files.placeOf (defaultPath home)) = none) (h : load f home = .ok c) :
    f.stat (defaultPath home) = .error .notFound ∧ c = {} := by
  unfold load at h
  dsimp only at h
  split at h
  · rename_i hmissing
    cases h
    exact ⟨hmissing, rfl⟩
  · exact absurd h (loadFrom_of_free hfree)

end Config

namespace Command

open Query Store Audit
open TreeQuery.Command.Action

variable {δ : Type} {given : Given}

/-! ## Loading settings -/

namespace Settings

/-- The file that a command has its settings from. -/
def file (home : Option String) (config : String) : String :=
  if (Text.trimmed config).isEmpty then Config.defaultPath home else config

theorem loaded_congr {f g : Files} {home : Option String} {config text : String}
    (hf : f.read (file home config) = .ok text) (hg : g.read (file home config) = .ok text) :
    loaded g home config = loaded f home config := by
  have hread : g.read (file home config) = f.read (file home config) := hg.trans hf.symm
  unfold loaded
  unfold file at hf hg hread
  split
  · rename_i hblank
    rw [if_pos hblank] at hf hg hread
    rw [Config.load_of_read hf, Config.load_of_read hg, Config.loadFrom_congr hread]
  · rename_i hgiven
    rw [if_neg hgiven] at hread
    exact Config.loadFrom_congr hread

/-- **What settings are made of**: the content of their file, and the level of remarks. -/
theorem of_load_eq_ok {s : Surroundings} {o : Options} {g : Settings} {st st' : State δ}
    (h : (load s o).run st = (.ok g, st')) :
    loaded st.files s.home o.config = .ok g.config ∧
      Threshold.lookup (Display.firstNonBlank [o.logLevel, g.config.logLevel, defaultLevel]) =
        some g.threshold ∧
      g.path = Config.resolvePath s.home o.config := by
  unfold load at h
  obtain ⟨f, st₁, hfiles, h⟩ := run_bind_eq_ok h
  cases hfiles
  obtain ⟨config, st₂, hconfig, h⟩ := run_bind_eq_ok h
  have hloaded := orFail_eq_ok hconfig
  dsimp only at h
  split at h
  · obtain ⟨stop, st₃, hfail⟩ := run_fail (α := Settings) o .invalidInput
      (Threshold.unknownMessage
        (Display.firstNonBlank [o.logLevel, config.logLevel, defaultLevel])) "" st₂
    cases hfail.symm.trans h
  · rename_i t hlevel
    obtain ⟨-, st₃, -, h⟩ := run_bind_eq_ok h
    generalize Config.resolvePath s.home o.config = path at h ⊢
    cases h
    exact ⟨hloaded, hlevel, rfl⟩

theorem exists_load_eq_ok {s : Surroundings} {o : Options} {g : Settings} {st : State δ}
    (hloaded : loaded st.files s.home o.config = .ok g.config)
    (hlevel : Threshold.lookup
      (Display.firstNonBlank [o.logLevel, g.config.logLevel, defaultLevel]) = some g.threshold)
    (hpath : g.path = Config.resolvePath s.home o.config) :
    ∃ st', (load s o).run st = (.ok g, st') := by
  obtain ⟨path, config, threshold⟩ := g
  unfold load
  rw [run_bind_ok (run_files st)]
  dsimp only at hloaded hlevel hpath ⊢
  rw [hloaded, run_bind_ok (run_orFail_ok o config _ _ _ st), hlevel, ← hpath]
  exact ⟨_, rfl⟩

end Settings

/-! ## Up to the results -/

/-- **What a query command does up to its results**: it loads the settings, finds and reads the
query, opens the database and runs the blocks. -/
def executed (C : Connection δ) (s : Surroundings) (o : Options) (args : List String) :
    Action δ (Settings × Given × List Relation × List Value) :=
  Settings.load s o >>= fun g => opened C s o g args >>= fun (given, roots, d) =>
    runAll C (.ofDialect d false) d g roots >>= fun (r, _) =>
      resultsOrFail o roots r >>= fun results => pure (g, given, roots, results)

section Executed

variable (C : Connection δ) (s : Surroundings) {o : Options} (args : List String)

theorem act_query (hlist : o.list = false) :
    Verb.act C s .query o args = executed C s o args >>= fun (g, given, roots, results) =>
      concluded s o g given roots results := by
  unfold executed
  show Settings.load s o >>=
    (fun g => if o.list then listQueries o g else runQuery C s o g args) = _
  simp only [hlist, runQuery, bind_assoc, pure_bind, Bool.false_eq_true, if_false]

theorem touchesNothing_executed : TouchesNothing (executed C s o args) := by
  unfold executed
  refine (TouchesNothing.of_idle (idle_load s o)).bind fun g =>
    (touchesNothing_opened C s o g args).bind fun found => TouchesNothing.bind ?_ fun r =>
      (TouchesNothing.orFail o _ _ _ _).bind fun _ => .pure _
  exact (TouchesNothing.onDatabase _).bind fun _ => (TouchesNothing.remark _ _ _).bind fun _ =>
    .pure _

/-- Results have a query, which was found and read with settings that were loaded. -/
theorem of_executed_eq_ok {st st' : State δ} {g : Settings}
    {roots : List Relation} {results : List Value}
    (h : (executed C s o args).run st = (.ok (g, given, roots, results), st')) :
    (∃ st₁, (Settings.load s o).run st = (.ok g, st₁)) ∧
      (∃ st₁ st₂, (Given.find s o g args : Action δ Given).run st₁ = (.ok given, st₂)) ∧
      ∃ st₁ st₂, (given.queries o : Action δ _).run st₁ = (.ok roots, st₂) := by
  unfold executed at h
  obtain ⟨g', st₁, hload, h⟩ := run_bind_eq_ok h
  obtain ⟨⟨given', roots', d⟩, st₂, hopened, h⟩ := run_bind_eq_ok h
  obtain ⟨⟨r, calls⟩, st₃, -, h⟩ := run_bind_eq_ok h
  obtain ⟨results', st₄, -, h⟩ := run_bind_eq_ok h
  cases h
  unfold opened at hopened
  obtain ⟨given', st₅, hfind, hopened⟩ := run_bind_eq_ok hopened
  obtain ⟨roots', st₆, hqueries, hopened⟩ := run_bind_eq_ok hopened
  obtain ⟨d', st₇, -, hopened⟩ := run_bind_eq_ok hopened
  cases hopened
  exact ⟨⟨st₁, hload⟩, ⟨st₁, st₅, hfind⟩, ⟨st₅, st₆, hqueries⟩⟩

/-- **A command that does not get to its results changes no file.** -/
theorem files_of_executed_error (hlist : o.list = false) {st st' : State δ} {e : Stop}
    (h : (executed C s o args).run st = (.error e, st')) :
    (Verb.act C s .query o args).run st = (.error e, st') ∧ st'.files = st.files := by
  have hfiles := touchesNothing_executed C s (o := o) args st
  rw [h] at hfiles
  rw [act_query C s args hlist, run_bind_error h]
  exact ⟨rfl, hfiles.symm⟩

end Executed

/-! ## Templates -/

variable {st st' : State δ} {roots : List Relation} {g : Settings} {results : List Value}
  {f : Files}

theorem Given.templates_of_queries {o : Options} (h : (given.queries o).run st = (.ok roots, st')) :
    ∃ templates, given.templates = .ok templates ∧ parseAll 1 templates = .ok roots := by
  unfold Given.queries at h
  obtain ⟨templates, st₁, hdeal, hparse⟩ := run_bind_eq_ok h
  exact ⟨templates, orFail_eq_ok hdeal, orFail_eq_ok hparse⟩

theorem Given.queries_of_templates {templates : List Template} (o : Options)
    (ht : given.templates = .ok templates) (hroots : parseAll 1 templates = .ok roots)
    (st : State δ) : (given.queries o).run st = (.ok roots, st) := by
  unfold Given.queries
  rw [ht, run_bind_ok (run_orFail_ok o templates _ _ _ st), hroots]
  rfl

/-! ## Recording -/

/-- The files once the mutations among queries have been noted. -/
def afterNotes (s : Surroundings) (g : Settings) (ps : List (Relation × Value)) (f : Files) :
    Files :=
  ps.foldl (fun f p => ((auditLog g).addMutation f s.now p.1 (Execute.count p.2)).2) f

/-- **How a query is recorded** that has got to its results: the notes come first. -/
def recorded (s : Surroundings) (g : Settings) (given : Given) (roots : List Relation)
    (results : List Value) (f : Files) : Except Files.ReplaceError Unit × Files :=
  given.record.store (afterNotes s g (roots.zip results) f) g.stateDirectory s.now s.mark

theorem run_noteMutations_files (s : Surroundings) (g : Settings) (ps : List (Relation × Value))
    (st : State δ) :
    ∃ st', (noteMutations s g ps).run st = (.ok (), st') ∧
      st'.files = afterNotes s g ps st.files := by
  induction ps generalizing st with
  | nil => exact ⟨st, rfl, rfl⟩
  | cons p ps ih =>
    obtain ⟨root, v⟩ := p
    have hnoted : afterNotes s g ((root, v) :: ps) st.files = afterNotes s g ps
        ((auditLog g).addMutation st.files s.now root (Execute.count v)).2 := rfl
    have hadd := run_onFiles (fun f => (auditLog g).addMutation f s.now root (Execute.count v)) st
    rw [noteMutations, hnoted]
    generalize (auditLog g).addMutation st.files s.now root (Execute.count v) = noted at hadd ⊢
    obtain ⟨e | ⟨⟩, f⟩ := noted
    · -- the failure is remarked on, and the notes go on
      obtain ⟨st₁, hremark, hfiles⟩ := run_remark g.threshold .warn
        [⟨"failed to write audit log", [("err", .text e.message)]⟩] { st with files := f }
      obtain ⟨st₂, hrun, hrest⟩ := ih st₁
      refine ⟨st₂, (run_bind_ok hadd).trans ((run_bind_ok hremark).trans hrun), ?_⟩
      rw [hrest, hfiles]
    · obtain ⟨st₂, hrun, hrest⟩ := ih { st with files := f }
      exact ⟨st₂, (run_bind_ok hadd).trans hrun, hrest⟩

theorem run_remember (s : Surroundings) (g : Settings) (given : Given) (st : State δ) :
    ∃ st', (remember s g given).run st = (.ok (), st') ∧
      st'.files = (given.record.store st.files g.stateDirectory s.now s.mark).2 := by
  have hstore := run_onFiles (fun f => given.record.store f g.stateDirectory s.now s.mark) st
  unfold remember
  generalize given.record.store st.files g.stateDirectory s.now s.mark = stored at hstore ⊢
  obtain ⟨e | ⟨⟩, f⟩ := stored
  · exact ⟨_, run_bind_ok hstore, rfl⟩
  · exact ⟨_, run_bind_ok hstore, rfl⟩

theorem files_concluded (s : Surroundings) (o : Options) (g : Settings) (given : Given)
    (roots : List Relation) (results : List Value) (st : State δ) :
    ((concluded s o g given roots results).run st).2.files =
      (recorded s g given roots results st.files).2 := by
  unfold concluded recorded
  obtain ⟨st₁, hremark, hfiles₁⟩ := run_remark g.threshold .info [⟨"query finished",
    [("blocks", .int roots.length), ("duration", .text (toString s.milliseconds ++ "ms"))]⟩] st
  obtain ⟨st₂, hnotes, hfiles₂⟩ := run_noteMutations_files s g (roots.zip results) st₁
  obtain ⟨st₃, hremember, hfiles₃⟩ := run_remember s g given st₂
  rw [run_bind_ok hremark, run_bind_ok hnotes, run_bind_ok hremember,
    ← touchesNothing_printed s o results st₃, hfiles₃, hfiles₂, hfiles₁]

/-- **A command that gets to its results records its query.** -/
theorem files_of_executed_ok (C : Connection δ) (s : Surroundings) {o : Options}
    (args : List String) (hlist : o.list = false)
    (h : (executed C s o args).run st = (.ok (g, given, roots, results), st')) :
    ((Verb.act C s .query o args).run st).2.files =
      (recorded s g given roots results st.files).2 := by
  have hfiles := touchesNothing_executed C s (o := o) args st
  rw [h] at hfiles
  rw [act_query C s args hlist, run_bind_ok h]
  dsimp only at hfiles ⊢
  rw [files_concluded, ← hfiles]

/-! ## Recalling -/

/-- A query that was found has a block. -/
theorem blocks_of_resolve {c : Config} {input : Except String String} {file : String}
    {args : List String} {source : Source} (h : Source.resolve f c input file args = .ok source) :
    source.blocks ≠ [] := by
  have hfile : ∀ path, Source.ofFile f path = .ok source → source.blocks ≠ [] := by
    intro path h
    unfold Source.ofFile at h
    split at h
    · cases h
    split at h
    · split at h
      · cases h
      · rename_i hblocks
        cases h
        exact hblocks
    · cases h
      exact List.cons_ne_nil _ _
  unfold Source.resolve at h
  split at h
  · exact hfile _ h
  split at h
  · cases h
  unfold Source.ofArgument at h
  split at h
  · split at h
    · cases h
      exact List.cons_ne_nil _ _
    · cases h
  split at h
  · cases h
    exact List.cons_ne_nil _ _
  split at h
  · exact hfile _ h
  split at h
  · cases h
    exact List.cons_ne_nil _ _
  · cases h

theorem blocks_of_findLast {dir : String} {q : LastQuery} (h : LastQuery.find f dir = .ok q) :
    q.blocks.getD [] ≠ [] := by
  unfold LastQuery.find at h
  split at h
  · cases h
  split at h
  · cases h
  split at h
  · cases h
  · rename_i hblocks
    cases h
    exact fun hnil => hblocks (List.isEmpty_iff.mpr hnil)

variable {s : Surroundings}

theorem blocks_of_find {o : Options} {args : List String}
    (h : (Given.find s o g args).run st = (.ok given, st')) : given.source.blocks ≠ [] := by
  unfold Given.find at h
  obtain ⟨f, st₁, -, h⟩ := run_bind_eq_ok h
  split at h
  · split at h
    · obtain ⟨stop, st₂, hfail⟩ := run_fail (α := Given) o .invalidInput
        "--last cannot be combined with a query" "" st₁
      cases hfail.symm.trans h
    · obtain ⟨q, st₂, hfound, h⟩ := run_bind_eq_ok h
      cases h
      exact blocks_of_findLast (orFail_eq_ok hfound)
  · obtain ⟨source, st₂, hsource, h⟩ := run_bind_eq_ok h
    cases h
    exact blocks_of_resolve (orFail_eq_ok hsource)

/-- Asking for the last query gives it, with what the options put in place of its values and
marker. -/
theorem run_find_last {o : Options} {q : LastQuery} (hlast : o.last) (hfile : o.file = "")
    (h : LastQuery.find st.files g.stateDirectory = .ok q) :
    (Given.find s o g []).run st = (.ok (Given.ofLast o q), st) := by
  have halone : (!([] : List String).isEmpty || !o.file.isEmpty) = false := by
    rw [hfile]
    rfl
  unfold Given.find
  rw [run_bind_ok (run_files st), if_pos hlast, halone, if_neg Bool.false_ne_true, h]
  rfl

/-- The marker of the last query is the one that was recorded; an empty one and the default one
are the same. -/
theorem templates_ofLast (o : Options) (given : Given) (time : Timestamp) :
    (Given.ofLast o { given.record with time := time }).templates =
      Given.templates { given with args := o.args.getD given.args
                                   marker := o.marker.getD given.marker } := by
  cases hmarker : o.marker with
  | none =>
    unfold Given.templates Given.ofLast
    rw [hmarker]
    exact deal_markerOrDefault given.source.blocks given.marker _
  | some marker =>
    unfold Given.templates Given.ofLast
    rw [hmarker]
    rfl

/-- **The files hold a query for settings at a path.**  A command that asks for the last query finds
its text.  The templates are those of the query with the values and the marker of the options in
place of its own, if they are given; if they are not, its trees are the same. -/
def Recalls (files : Files) (path : String) (given : Given) (roots : List Relation) : Prop :=
  ∀ {δ : Type} (s : Surroundings) (o : Options) (g : Settings) (st st₁ : State δ),
    st.files = files → (Settings.load s o).run st = (.ok g, st₁) → g.path = path →
    o.last = true → o.file = "" →
    ∃ again, (Given.find s o g []).run st₁ = (.ok again, st₁) ∧ again.source = given.source ∧
      again.templates = Given.templates { given with args := o.args.getD given.args
                                                     marker := o.marker.getD given.marker } ∧
      (o.args = none → o.marker = none → (again.queries o).run st₁ = (.ok roots, st₁))

/-- **A query that was recorded is found** by the commands that follow. -/
theorem recalls_recorded {templates : List Template} {before after : Files} (hnow : s.now.IsMoment)
    (hblocks : given.source.blocks ≠ []) (ht : given.templates = .ok templates)
    (hroots : parseAll 1 templates = .ok roots)
    (h : recorded s g given roots results before = (.ok (), after)) :
    Recalls after g.path given roots := by
  intro δ s' o g' st st₁ hst hload hpath hlast hfile
  have hzero : Timestamp.zero.orElse s.now = s.now := if_pos (by decide)
  have htime : given.record.time.orElse s.now = s.now := hzero
  have hfound : LastQuery.find after g.stateDirectory =
      .ok { given.record with time := s.now } := by
    have hstored := LastQuery.find_store (q := given.record) rfl hblocks (by rwa [htime]) h
    rwa [htime] at hstored
  have hfiles : st₁.files = after := by
    have hidle := (idle_load s' o st).1
    rw [hload] at hidle
    exact hidle.trans hst
  have hdir : g'.stateDirectory = g.stateDirectory := by
    rw [Settings.stateDirectory, hpath, Settings.stateDirectory]
  have hagain := templates_ofLast o given s.now
  rw [← hfiles, ← hdir] at hfound
  refine ⟨_, run_find_last hlast hfile hfound, rfl, hagain, fun hargs hmarker => ?_⟩
  rw [hargs, hmarker] at hagain
  exact Given.queries_of_templates o (hagain.trans ht) hroots st₁

/-! ## Settings that stay -/

theorem keepsBut_addMutation (l : Log) (f : Files) (now : Timestamp) (root : Relation)
    (rows : Int) : f.KeepsBut (Files.placeOf l.path) (l.addMutation f now root rows).2 := by
  unfold Log.addMutation Log.add
  split
  · split
    · exact .refl _ f
    split
    · exact .refl _ f
    have hmade := Files.keepsBut_makeEach (Files.placeOf l.path) f
      (Path.ancestors (Path.directory l.path))
    unfold Files.makeDirectories
    split
    · rename_i heq
      rw [heq] at hmade
      exact hmade
    rename_i heq
    rw [heq] at hmade
    split
    · rename_i happend
      exact hmade.trans (Files.keepsBut_append happend)
    · exact hmade
  · exact .refl _ f

/-- Without a log nothing is noted. -/
theorem afterNotes_of_disabled (h : (auditLog g).isEnabled = false) (ps : List (Relation × Value)) :
    afterNotes s g ps f = f := by
  induction ps with
  | nil => rfl
  | cons p ps ih =>
    have hsame : ((auditLog g).addMutation f s.now p.1 (Execute.count p.2)).2 = f := by
      unfold Log.addMutation Log.add
      rw [h]
      split <;> rfl
    rw [afterNotes, List.foldl_cons, hsame]
    exact ih

/-- Notes change no file but the log, and if there is no log then none at all. -/
theorem read_afterNotes {path text : String}
    (hlog : (auditLog g).isEnabled → Files.placeOf path ≠ Files.placeOf (auditLog g).path)
    (ps : List (Relation × Value)) (h : f.read path = .ok text) :
    (afterNotes s g ps f).read path = .ok text := by
  by_cases henabled : (auditLog g).isEnabled
  · induction ps generalizing f with
    | nil => exact h
    | cons p ps ih =>
      have hkeeps := keepsBut_addMutation (auditLog g) f s.now p.1 (Execute.count p.2)
      exact ih (hkeeps.keeps.read (hkeeps.texts _ (hlog henabled)) h)
  · rwa [afterNotes_of_disabled (Bool.not_eq_true _ ▸ henabled)]

/-- **Settings are loaded as before**, if they come from a file that is neither the state file nor
the audit log, or if there is none. -/
def Reloads (home : Option String) (config logLevel : String) (g : Settings)
    (before after : Files) : Prop :=
  ((∃ text, before.read (Settings.file home config) = .ok text ∧
      Files.placeOf (Settings.file home config) ≠
        Files.placeOf (LastQuery.path g.stateDirectory) ∧
      ((auditLog g).isEnabled = true →
        Files.placeOf (Settings.file home config) ≠ Files.placeOf (auditLog g).path)) ∨
    before.node? (Files.placeOf (Settings.file home config)) = none) →
  ∀ {δ : Type} (s : Surroundings) (o : Options) (st : State δ), st.files = after →
    s.home = home → o.config = config → o.logLevel = logLevel →
    ∃ st', (Settings.load s o).run st = (.ok g, st')

/-- **There are no settings to load when a query has been recorded**, if there were none before. -/
theorem loaded_of_free {o : Options} {after : Files}
    (hload : (Settings.load s o).run st = (.ok g, st'))
    (hfree : st.files.node? (Files.placeOf (Settings.file s.home o.config)) = none)
    (h : recorded s g given roots results st.files = (.ok (), after)) :
    Settings.loaded after s.home o.config = .ok g.config := by
  obtain ⟨hloaded, -, hpath⟩ := Settings.of_load_eq_ok hload
  unfold Settings.loaded at hloaded ⊢
  unfold Settings.file at hfree
  by_cases hblank : (Text.trimmed o.config).isEmpty
  · rw [if_pos hblank] at hloaded hfree ⊢
    obtain ⟨hmissing, hconfig⟩ := Config.load_of_free hfree hloaded
    have hlog : (auditLog g).isEnabled = false := by
      have hnone : auditPath g = "" := by
        rw [auditPath, hconfig]
        rfl
      rw [auditLog, hnone]
      rfl
    rw [recorded, afterNotes_of_disabled hlog, LastQuery.store, LastQuery.path] at h
    obtain ⟨path, ps, hdefault, hparts⟩ := Config.exists_defaultPath s.home
    have hplace := Files.placeOf_of_name hparts Config.isName_config
    obtain ⟨state, hjoin, hstate⟩ := Files.exists_join LastQuery.isName_fileName g.stateDirectory
    rw [Settings.stateDirectory, hpath, Config.resolvePath, if_pos hblank, hdefault,
      Files.placeOf_directory_clean hplace Config.isName_config] at hstate
    rw [hjoin] at h
    rw [hdefault] at hmissing
    rw [hdefault, Files.placeOf_clean] at hfree
    have hafter := Files.stat_replace_beside LastQuery.isName_fileName Config.isName_config
      (by decide) (by decide) hplace hstate hmissing hfree h
    rw [Config.load, hdefault, hafter, hconfig]
  · rw [if_neg hblank] at hloaded hfree
    exact absurd hloaded (Config.loadFrom_of_free hfree)

/-- **Recording a query leaves the settings alone.** -/
theorem reloads_recorded {o : Options} {after : Files}
    (hload : (Settings.load s o).run st = (.ok g, st'))
    (h : recorded s g given roots results st.files = (.ok (), after)) :
    Reloads s.home o.config o.logLevel g st.files after := by
  intro hfile δ' s' o' st₁ hst hhome hconfig hlevel
  obtain ⟨hloaded, hthreshold, hpath⟩ := Settings.of_load_eq_ok hload
  have hagain : Settings.loaded after s.home o.config = .ok g.config := by
    rcases hfile with ⟨text, hread, hstate, hlog⟩ | hfree
    · have hafter : after.read (Settings.file s.home o.config) = .ok text :=
        LastQuery.read_store_of_ne hstate (read_afterNotes hlog _ hread) h
      rw [Settings.loaded_congr hread hafter, hloaded]
    · exact loaded_of_free hload hfree h
  rw [← hst, ← hhome, ← hconfig] at hagain
  rw [← hlevel] at hthreshold
  rw [← hhome, ← hconfig] at hpath
  exact Settings.exists_load_eq_ok hagain hthreshold hpath

/-- **Replay is faithful.**  A query command that fails before it gets to its results changes no
file.  One that gets there records its query; if that succeeds, whoever asks for the last query with
settings at the same path gets its text, its templates and its trees, but for the values and the
marker given instead.  The settings can be loaded as before, if they come from a file that is
neither the state file nor the audit log, and also if there is no settings file. -/
theorem replay_faithful (C : Connection δ) (s : Surroundings) (o : Options) (args : List String)
    (hlist : o.list = false) (hnow : s.now.IsMoment) (st : State δ) :
    (∀ e st', (executed C s o args).run st = (.error e, st') →
      (Verb.act C s .query o args).run st = (.error e, st') ∧ st'.files = st.files) ∧
    ∀ g given roots results st',
      (executed C s o args).run st = (.ok (g, given, roots, results), st') →
      ((Verb.act C s .query o args).run st).2.files =
        (recorded s g given roots results st.files).2 ∧
      ∃ templates, given.templates = .ok templates ∧ parseAll 1 templates = .ok roots ∧
        ∀ after, recorded s g given roots results st.files = (.ok (), after) →
          Recalls after g.path given roots ∧
            Reloads s.home o.config o.logLevel g st.files after := by
  refine ⟨fun e st' herror => files_of_executed_error C s args hlist herror, ?_⟩
  intro g given roots results st' hok
  obtain ⟨⟨st₁, hload⟩, ⟨st₂, st₃, hfind⟩, st₄, st₅, hqueries⟩ := of_executed_eq_ok C s args hok
  obtain ⟨templates, ht, hroots⟩ := Given.templates_of_queries hqueries
  refine ⟨files_of_executed_ok C s args hlist hok, templates, ht, hroots, fun after hrecorded => ?_⟩
  exact ⟨recalls_recorded hnow (blocks_of_find hfind) ht hroots hrecorded,
    reloads_recorded hload hrecorded⟩

/-! ## Examples -/

/-- Whether a command gets to its results and records its query, beside settings that stay. -/
def isReplayable (C : Connection δ) (s : Surroundings) (o : Options) (args : List String)
    (st : State δ) : Bool :=
  match (executed C s o args).run st with
  | (.error _, _) => false
  | (.ok (g, given, roots, results), _) =>
    (recorded s g given roots results st.files).1.isOk &&
      Files.placeOf (Settings.file s.home o.config) !=
        Files.placeOf (LastQuery.path g.stateDirectory) &&
      Files.placeOf (Settings.file s.home o.config) != Files.placeOf (auditLog g).path

theorem of_isReplayable {C : Connection δ} {o : Options} {args : List String}
    (h : isReplayable C s o args st) : ∃ g given roots results st' after,
      (executed C s o args).run st = (.ok (g, given, roots, results), st') ∧
        recorded s g given roots results st.files = (.ok (), after) ∧
        Files.placeOf (Settings.file s.home o.config) ≠
          Files.placeOf (LastQuery.path g.stateDirectory) ∧
        Files.placeOf (Settings.file s.home o.config) ≠ Files.placeOf (auditLog g).path := by
  unfold isReplayable at h
  split at h
  · cases h
  rename_i g given roots results st' hrun
  simp only [Bool.and_eq_true, bne_iff_ne, ne_eq] at h
  obtain ⟨⟨hrecorded, hstate⟩, hlog⟩ := h
  rcases hstored : recorded s g given roots results st.files with ⟨e | ⟨⟩, after⟩
  · rw [hstored] at hrecorded
    cases hrecorded
  · exact ⟨g, given, roots, results, st', after, hrun, hstored, hstate, hlog⟩

/-- A tree with a settings file that asks for an audit log. -/
def auditedState : State Unit where
  files := Files.empty.put ["config.toml"] (.file Files.newMode "audit_log = \"audit.log\"\n")
  database := ()

/-- A command that is run at a moment of 2023. -/
def replayTime : Surroundings where
  now := .ofClock 1700000000 5
  mark := "1"

/-- The options of an update with one value, and a marker of its own. -/
def replayOptions : Options where
  config := "config.toml"
  dsn := "x"
  args := some ["5"]
  marker := some "?"

/-- The options for the same query again. -/
def againOptions : Options where
  config := "config.toml"
  dsn := "x"
  last := true

/-- An update is run, noted and recorded; then it is found again with the same trees. -/
theorem replay_faithful_update :
    ∃ g roots results given st' st₁ again,
      (executed (sampleDatabase true) replayTime replayOptions
          ["UPDATE users SET a = ? \x7b\n id\n\x7d"]).run auditedState =
        (.ok (g, given, roots, results), st') ∧
      (Settings.load replayTime againOptions).run
          { files := ((Verb.act (sampleDatabase true) replayTime .query replayOptions
              ["UPDATE users SET a = ? \x7b\n id\n\x7d"]).run auditedState).2.files
            database := () } = (.ok g, st₁) ∧
      (Given.find replayTime againOptions g []).run st₁ = (.ok again, st₁) ∧
      (again.queries againOptions : Action Unit _).run st₁ = (.ok roots, st₁) := by
  have hnow : replayTime.now.IsMoment := Timestamp.isMoment_ofClock (by decide) (by decide)
  have hready : isReplayable (sampleDatabase true) replayTime replayOptions
      ["UPDATE users SET a = ? \x7b\n id\n\x7d"] auditedState = true := by
    decide +kernel
  have hread : auditedState.files.read "config.toml" = .ok "audit_log = \"audit.log\"\n" := by
    decide +kernel
  obtain ⟨g, given, roots, results, st', after, hrun, hrecorded, hstate, hlog⟩ :=
    of_isReplayable hready
  obtain ⟨hfiles, templates, -, -, hreplay⟩ := (replay_faithful (sampleDatabase true) replayTime
    replayOptions _ rfl hnow auditedState).2 g given roots results st' hrun
  obtain ⟨hrecalls, hreloads⟩ := hreplay after hrecorded
  rw [hrecorded] at hfiles
  obtain ⟨st₁, hload⟩ := hreloads (.inl ⟨_, hread, hstate, fun _ => hlog⟩) replayTime againOptions
    { files := after, database := () } rfl rfl rfl rfl
  obtain ⟨again, hfind, -, -, hqueries⟩ := hrecalls replayTime againOptions g _ st₁ rfl hload rfl
    rfl rfl
  rw [hfiles]
  exact ⟨g, roots, results, given, st', st₁, again, hrun, hload, hfind, hqueries rfl rfl⟩

/-- A tree with an empty settings file by the name of the state file. -/
def namesakeFiles : Files :=
  Files.empty.put ["last-query.json"] (.file Files.newMode "")

/-- A query is run with these settings. -/
def namesakeRun : Outcome Unit :=
  run (sampleDatabase true) {} namesakeFiles ()
    ["--config", "last-query.json", "--dsn", "x", "query", "users \x7b\n\tid\n\x7d"]

/-- **The record of a query takes the place of its settings**: the query succeeds and is recorded,
but it cannot be run again. -/
theorem exists_not_replayed :
    namesakeRun.ok = true ∧ (LastQuery.find namesakeRun.files ".").isOk = true ∧
      (run (sampleDatabase true) {} namesakeRun.files ()
        ["--config", "last-query.json", "--dsn", "x", "query", "--last"]).ok = false := by
  decide +kernel

end Command
end TreeQuery
