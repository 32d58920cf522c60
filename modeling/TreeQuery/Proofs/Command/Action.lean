import TreeQuery.Command.Query
import TreeQuery.Proofs.Files.Places

/-!
# What actions do to files

An action is a function on states, and a sequence of actions runs them one after the other until
one breaks off (`Action.run_bind`).  Many actions leave files and database alone (`Idle`): loading
settings, finding a query and reading it, and printing.  Of others all that matters is that they
touch no file (`TouchesNothing`).  Keeping a query as the last one changes one file only
(`leavesText_remember`).  Queries that are run one after the other stop at the first that fails
(`executeAll_cons_error`).
-/

namespace TreeQuery.Command

variable {δ α β ε : Type} {place : List String}

namespace Action

theorem run_bind (x : Action δ α) (f : α → Action δ β) (st : State δ) :
    (x >>= f).run st =
      match x.run st with
      | (.ok a, st') => (f a).run st'
      | (.error e, st') => (.error e, st') := by
  show (ExceptT.bindCont f (x.run st).1) (x.run st).2 = _
  rcases x.run st with ⟨_ | a, st'⟩ <;> rfl

variable {x : Action δ α} {f : α → Action δ β} {st st' : State δ}

theorem run_bind_ok {a : α} (h : x.run st = (.ok a, st')) : (x >>= f).run st = (f a).run st' := by
  rw [run_bind, h]

theorem run_bind_error {e : Stop}
    (h : x.run st = (.error e, st')) : (x >>= f).run st = (.error e, st') := by
  rw [run_bind, h]

/-- A sequence succeeds when both of its parts do. -/
theorem run_bind_eq_ok {b : β} (h : (x >>= f).run st = (.ok b, st')) :
    ∃ a st₁, x.run st = (.ok a, st₁) ∧ (f a).run st₁ = (.ok b, st') := by
  rcases hx : x.run st with ⟨e | a, st₁⟩
  · rw [run_bind_error hx] at h
    cases h
  · rw [run_bind_ok hx] at h
    exact ⟨a, st₁, rfl, h⟩

/-- What each step does to the state, a sequence does, if one may come after the other. -/
theorem run_bind_trans {S : State δ → State δ → Prop} (htrans : ∀ {a b c}, S a b → S b c → S a c)
    (hx : ∀ st, S st (x.run st).2) (hf : ∀ a st, S st ((f a).run st).2) (st : State δ) :
    S st ((x >>= f).run st).2 := by
  have hfirst := hx st
  rcases h : x.run st with ⟨e | a, st'⟩
  · rw [h] at hfirst
    rw [run_bind_error h]
    exact hfirst
  · rw [h] at hfirst
    rw [run_bind_ok h]
    exact htrans hfirst (hf a st')

theorem run_onFiles (f : Files → Except ε α × Files) (st : State δ) :
    (onFiles f).run st = (.ok (f st.files).1, { st with files := (f st.files).2 }) :=
  rfl

theorem run_onDatabase (f : δ → α × δ) (st : State δ) :
    (onDatabase f).run st = (.ok (f st.database).1, { st with database := (f st.database).2 }) :=
  rfl

theorem run_files (st : State δ) : (files : Action δ Files).run st = (.ok st.files, st) :=
  rfl

theorem run_orFail_ok (o : Options) (a : α) (code : ε → ErrorCode) (message : ε → String)
    (suggestion : ε → String) (st : State δ) :
    (orFail o (.ok a) code message suggestion : Action δ α).run st = (.ok a, st) :=
  rfl

theorem run_remark (t : Threshold) (level : Level) (notes : List Store.Note) (st : State δ) :
    ∃ st', (remark t level notes).run st = (.ok (), st') ∧ st'.files = st.files :=
  ⟨_, rfl, rfl⟩

theorem run_fail (o : Options) (code : ErrorCode) (message suggestion : String) (st : State δ) :
    ∃ e st', (fail o code message suggestion : Action δ α).run st = (.error e, st') := by
  unfold fail
  split
  · exact ⟨_, _, rfl⟩
  · exact ⟨_, _, rfl⟩

/-- A step that does not fail has the result it stands for. -/
theorem orFail_eq_ok {o : Options} {r : Except ε α} {code : ε → ErrorCode} {message : ε → String}
    {suggestion : ε → String} {a : α}
    (h : (orFail o r code message suggestion : Action δ α).run st = (.ok a, st')) : r = .ok a := by
  cases r with
  | ok b =>
    cases h
    rfl
  | error e =>
    obtain ⟨stop, st₁, hfail⟩ := run_fail (α := α) o (code e) (message e) (suggestion e) st
    cases hfail.symm.trans h

/-- **The action leaves files and database alone**: all it may do is to print and to remark. -/
def Idle (x : Action δ α) : Prop :=
  ∀ st, (x.run st).2.files = st.files ∧ (x.run st).2.database = st.database

namespace Idle

theorem pure (a : α) : Idle (pure a : Action δ α) :=
  fun _ => ⟨rfl, rfl⟩

theorem throw (e : Stop) : Idle (throw e : Action δ α) :=
  fun _ => ⟨rfl, rfl⟩

theorem bind (hx : Idle x) (hf : ∀ a, Idle (f a)) : Idle (x >>= f) :=
  run_bind_trans (S := fun st st' => st'.files = st.files ∧ st'.database = st.database)
    (fun h h' => ⟨h'.1.trans h.1, h'.2.trans h.2⟩) hx hf

theorem print (text : String) : Idle (print text : Action δ Unit) :=
  fun _ => ⟨rfl, rfl⟩

theorem remark (t : Threshold) (level : Level) (notes : List Store.Note) :
    Idle (remark t level notes : Action δ Unit) :=
  fun _ => ⟨rfl, rfl⟩

theorem files : Idle (files : Action δ Files) :=
  fun _ => ⟨rfl, rfl⟩

theorem fail (o : Options) (code : ErrorCode) (message suggestion : String) :
    Idle (fail o code message suggestion : Action δ α) := by
  unfold Action.fail
  split
  · exact (print _).bind fun _ => throw _
  · exact throw _

theorem orFail (o : Options) (r : Except ε α) (code : ε → ErrorCode) (message : ε → String)
    (suggestion : ε → String) : Idle (orFail o r code message suggestion : Action δ α) := by
  cases r with
  | ok a => exact pure a
  | error e => exact fail o _ _ _

end Idle

/-- **How the action changes the files**, whether it succeeds or breaks off. -/
def Within (R : Files → Files → Prop) (x : Action δ α) : Prop :=
  ∀ st, R st.files (x.run st).2.files

theorem Within.bind {R : Files → Files → Prop} (htrans : ∀ {f g h}, R f g → R g h → R f h)
    (hx : Within R x) (hf : ∀ a, Within R (f a)) : Within R (x >>= f) :=
  run_bind_trans (S := fun st st' => R st.files st'.files) htrans hx hf

abbrev TouchesNothing (x : Action δ α) : Prop := Within Eq x

abbrev LeavesText (place : List String) (x : Action δ α) : Prop :=
  Within (fun f g => g.textAt place = f.textAt place) x

theorem LeavesText.bind
    (hx : LeavesText place x) (hf : ∀ a, LeavesText place (f a)) : LeavesText place (x >>= f) :=
  Within.bind (fun hfg hgh => hgh.trans hfg) hx hf

namespace TouchesNothing

theorem leavesText (h : TouchesNothing x) (place : List String) :
    LeavesText place x :=
  fun st => congrArg (Files.textAt · place) (h st).symm

theorem of_idle (h : Idle x) : TouchesNothing x :=
  fun st => (h st).1.symm

theorem pure (a : α) : TouchesNothing (pure a : Action δ α) :=
  fun _ => rfl

theorem throw (e : Stop) : TouchesNothing (throw e : Action δ α) :=
  fun _ => rfl

theorem bind (hx : TouchesNothing x) (hf : ∀ a, TouchesNothing (f a)) : TouchesNothing (x >>= f) :=
  Within.bind (fun hfg hgh => hfg.trans hgh) hx hf

theorem print (text : String) : TouchesNothing (print text : Action δ Unit) :=
  fun _ => rfl

theorem remark (t : Threshold) (level : Level) (notes : List Store.Note) :
    TouchesNothing (remark t level notes : Action δ Unit) :=
  fun _ => rfl

theorem onDatabase (f : δ → α × δ) : TouchesNothing (onDatabase f) :=
  fun _ => rfl

theorem fail (o : Options) (code : ErrorCode) (message suggestion : String) :
    TouchesNothing (fail o code message suggestion : Action δ α) :=
  of_idle (Idle.fail o code message suggestion)

theorem orFail (o : Options) (r : Except ε α) (code : ε → ErrorCode) (message : ε → String)
    (suggestion : ε → String) :
    TouchesNothing (orFail o r code message suggestion : Action δ α) :=
  of_idle (Idle.orFail o r code message suggestion)

end TouchesNothing
end Action

open TreeQuery.Command.Action

theorem idle_load (s : Surroundings) (o : Options) :
    Idle (Settings.load s o : Action δ Settings) := by
  unfold Settings.load
  refine Idle.files.bind fun files => (Idle.orFail o _ _ _ _).bind fun config => ?_
  dsimp only
  split
  · exact .fail o _ _ _
  · exact (Idle.remark _ _ _).bind fun _ => .pure _

theorem idle_find (s : Surroundings) (o : Options) (g : Settings) (args : List String) :
    Idle (Given.find s o g args : Action δ Given) := by
  unfold Given.find
  refine Idle.files.bind fun files => ?_
  split
  · split
    · exact .fail o _ _ _
    · exact (Idle.orFail o _ _ _ _).bind fun q => .pure _
  · exact (Idle.orFail o _ _ _ _).bind fun source => .pure _

theorem idle_queries (o : Options) (given : Given) :
    Idle (given.queries o : Action δ (List Query.Relation)) :=
  (Idle.orFail o _ _ _ _).bind fun _ => .orFail o _ _ _ _

theorem touchesNothing_openDatabase (C : Store.Connection δ) (o : Options) (g : Settings) :
    TouchesNothing (openDatabase C o g) :=
  (TouchesNothing.onDatabase _).bind fun _ => (TouchesNothing.orFail o _ _ _ _).bind fun _ =>
    (TouchesNothing.remark _ _ _).bind fun _ => .pure _

theorem touchesNothing_printDocument (n : Option Yaml.Node) :
    TouchesNothing (printDocument n : Action δ Unit) := by
  cases n with
  | some n => exact .print _
  | none => exact .throw _

theorem textAt_store (q : LastQuery) (f : Files) {dir : String}
    (h : place ≠ Files.placeOf (LastQuery.path dir)) (now : Timestamp) (mark : String) :
    (q.store f dir now mark).2.textAt place = f.textAt place := by
  unfold LastQuery.store
  exact f.textAt_replace_of_ne h _ _ mark

/-- **Keeping a query as the last one** changes no text but that of the state file. -/
theorem leavesText_remember (s : Surroundings) (g : Settings) (given : Given)
    (h : place ≠ Files.placeOf (LastQuery.path g.stateDirectory)) :
    LeavesText place (remember s g given : Action δ Unit) := by
  intro st
  have hkeep := textAt_store given.record st.files h s.now s.mark
  unfold remember
  rw [run_bind_ok (run_onFiles _ st)]
  generalize LastQuery.store _ st.files g.stateDirectory s.now s.mark = stored at hkeep ⊢
  obtain ⟨e | ⟨⟩, f⟩ := stored
  · exact hkeep
  · exact hkeep

/-! ## Running queries one after the other -/

section ExecuteAll

variable {σ : Type} {A : Store.Adapter σ} {d : Sql.Dialect} {index : Nat} {root : Query.Relation}
  {rest : List Query.Relation} {s t : Store.Session σ}

theorem executeAll_cons_ok {v : Value} (h : (Execute.execute A d root).run s = (.ok v, t)) :
    executeAll A d index (root :: rest) s =
      ((executeAll A d (index + 1) rest t).1.map (v :: ·),
        (executeAll A d (index + 1) rest t).2) := by
  rw [executeAll, show (Execute.execute A d root).run.run s = (.ok v, t) from h]
  dsimp only
  rcases executeAll A d (index + 1) rest t with ⟨e | vs, u⟩ <;> rfl

/-- A query that fails ends the run, and gives its number. -/
theorem executeAll_cons_error {e : Failure} (h : (Execute.execute A d root).run s = (.error e, t)) :
    executeAll A d index (root :: rest) s = (.error (index, e), t) := by
  rw [executeAll, show (Execute.execute A d root).run.run s = (.error e, t) from h]

end ExecuteAll

end TreeQuery.Command
