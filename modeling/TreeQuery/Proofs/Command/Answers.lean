import TreeQuery.Command.Line
import TreeQuery.Proofs.Command.Envelope
import TreeQuery.Proofs.Command.Replay
import TreeQuery.Proofs.Command.Transaction

/-!
# Commands answer scripts

A command that is asked for JSON prints one envelope, which tells whether the command went well.
The steps of a command print nothing while they succeed; the first that fails prints the envelope of
its failure and breaks off (`Quiet`).  So a command answers if its last step does (`Answers`).

The exceptions are quantities without a text, numbers that are not finite and moments outside the
format: the results of a query and the values that the statements of an explained query were run
with may hold some (`Verb.reported`).  Then the command succeeds all the same, and what it prints is
no envelope.  Arguments hold none, so parsing a query answers in any case (`answers_runParse`).
-/

namespace TreeQuery

open List

namespace Command

open TreeQuery.Command.Action TreeQuery.Json TreeQuery.Store TreeQuery.Query

variable {δ α β ε : Type}

/-! ## What actions print -/

variable {x : Action δ α} {st : State δ} {args : List String}

namespace Action

/-- **What the action prints**: a text that goes with its result, or the envelope of a failure if it
breaks off. -/
structure Prints (P : α → String → Prop) (x : Action δ α) : Prop where
  ok : ∀ {st st' : State δ} {a : α}, x.run st = (.ok a, st') →
    ∃ text, st'.output = st.output ++ text ∧ P a text
  error : ∀ {st st' : State δ} {e : Stop}, x.run st = (.error e, st') →
    ∃ text, st'.output = st.output ++ text ∧ IsEnvelope false text

/-- **The action prints nothing**, unless it breaks off, and its result is as told. -/
abbrev Quiet (Q : α → Prop) (x : Action δ α) : Prop := Prints (fun a text => text = "" ∧ Q a) x

/-- The action prints nothing, unless it breaks off. -/
abbrev Silent (x : Action δ α) : Prop := Quiet (fun _ => True) x

/-- **The action prints an envelope**, of a success unless it breaks off. -/
abbrev Answers (x : Action δ α) : Prop := Prints (fun _ text => IsEnvelope true text) x

theorem prints_of_ok {P : α → String → Prop}
    (h : ∀ st, ∃ a st' text, x.run st = (.ok a, st') ∧ st'.output = st.output ++ text ∧ P a text) :
    Prints P x := by
  constructor
  · intro st st' a hrun
    obtain ⟨_, _, text, hok, houtput, htext⟩ := h st
    cases hrun.symm.trans hok
    exact ⟨text, houtput, htext⟩
  · intro st st' e hrun
    obtain ⟨_, _, _, hok, -⟩ := h st
    cases hrun.symm.trans hok

variable {Q : α → Prop} {P : β → String → Prop}

theorem Quiet.output (h : Quiet Q x) {st' : State δ} {a : α}
    (hrun : x.run st = (.ok a, st')) : st'.output = st.output ∧ Q a := by
  obtain ⟨_, houtput, rfl, ha⟩ := h.ok hrun
  rw [String.append_empty] at houtput
  exact ⟨houtput, ha⟩

theorem Quiet.bind {f : α → Action δ β}
    (hx : Quiet Q x) (hf : ∀ a, Q a → Prints P (f a)) : Prints P (x >>= f) := by
  constructor
  · intro st st' b hrun
    obtain ⟨a, st₁, hfirst, hnext⟩ := run_bind_eq_ok hrun
    obtain ⟨houtput, ha⟩ := hx.output hfirst
    rw [← houtput]
    exact (hf a ha).ok hnext
  · intro st st' e hrun
    rcases hfirst : x.run st with ⟨e₁ | a, st₁⟩
    · cases (run_bind_error hfirst).symm.trans hrun
      exact hx.error hfirst
    obtain ⟨houtput, ha⟩ := hx.output hfirst
    rw [run_bind_ok hfirst] at hrun
    rw [← houtput]
    exact (hf a ha).error hrun

theorem Silent.quiet (hx : Silent x)
    (hQ : ∀ {st st' : State δ} {a : α}, x.run st = (.ok a, st') → Q a) : Quiet Q x := by
  refine ⟨fun hrun => ?_, hx.error⟩
  obtain ⟨text, houtput, htext, -⟩ := hx.ok hrun
  exact ⟨text, houtput, htext, hQ hrun⟩

theorem Silent.bind {f : α → Action δ β} (hx : Silent x)
    (hf : ∀ a, Prints P (f a)) : Prints P (x >>= f) :=
  Quiet.bind hx fun a _ => hf a

theorem quiet_pure {a : α} (h : Q a) : Quiet Q (pure a : Action δ α) :=
  prints_of_ok fun st => ⟨a, st, "", rfl, (String.append_empty).symm, rfl, h⟩

theorem silent_files : Silent (files : Action δ Files) :=
  prints_of_ok fun st => ⟨_, st, "", rfl, (String.append_empty).symm, rfl, trivial⟩

theorem silent_onFiles (f : Files → Except ε α × Files) :
    Silent (onFiles f : Action δ (Except ε α)) :=
  prints_of_ok fun st => ⟨_, _, "", run_onFiles f st, (String.append_empty).symm, rfl, trivial⟩

theorem silent_onDatabase (f : δ → α × δ) : Silent (onDatabase f) :=
  prints_of_ok fun st => ⟨_, _, "", run_onDatabase f st, (String.append_empty).symm, rfl, trivial⟩

theorem silent_remark (t : Threshold) (level : Level) (notes : List Note) :
    Silent (remark t level notes : Action δ Unit) :=
  prints_of_ok fun _ => ⟨(), _, "", rfl, (String.append_empty).symm, rfl, trivial⟩

theorem answers_answer {data : String} (h : IsText data) (details : Option Meta) :
    Answers (answer data details : Action δ Unit) :=
  prints_of_ok fun _ => ⟨(), _, _, rfl, rfl,
    Envelope.isEnvelope_success (by simpa using h) details⟩

section Json

variable {o : Options} (hjson : o.json = true)

include hjson

theorem prints_fail (P : α → String → Prop) (code : ErrorCode) (message suggestion : String) :
    Prints P (fail o code message suggestion : Action δ α) := by
  have hfail : ∀ st, (fail o code message suggestion : Action δ α).run st = (.error .reported,
      { st with output :=
          st.output ++ Envelope.written (Envelope.failure code message suggestion) }) := by
    intro st
    unfold fail
    rw [if_pos hjson]
    rfl
  constructor
  · intro st st' a hrun
    cases (hfail st).symm.trans hrun
  · intro st st' e hrun
    cases (hfail st).symm.trans hrun
    exact ⟨_, rfl, Envelope.isEnvelope_failure code message suggestion⟩

/-- A check before a step. -/
theorem prints_guarded {x : Action δ β} (h : Prints P x) {c : Prop}
    [Decidable c] {code : ErrorCode} {message suggestion : String} :
    Prints P (if c then (fail o code message suggestion : Action δ α) >>= fun _ => x else x) := by
  split
  · exact Silent.bind (prints_fail hjson _ code message suggestion) fun _ => h
  · exact h

theorem quiet_orFail {r : Except ε α} (h : ∀ a, r = .ok a → Q a)
    (code : ε → ErrorCode) (message suggestion : ε → String) :
    Quiet Q (orFail o r code message suggestion : Action δ α) := by
  cases r with
  | ok a => exact quiet_pure (h a rfl)
  | error e => exact prints_fail hjson _ (code e) (message e) (suggestion e)

theorem silent_orFail (r : Except ε α) (code : ε → ErrorCode) (message suggestion : ε → String) :
    Silent (orFail o r code message suggestion : Action δ α) :=
  quiet_orFail hjson (fun _ _ => trivial) code message suggestion

end Json

end Action

/-! ## Steps of commands -/

section Steps

variable {o : Options} (hjson : o.json = true) (C : Connection δ) (s : Surroundings) (g : Settings)
  (args : List String)

include hjson

theorem silent_load : Silent (Settings.load s o : Action δ Settings) := by
  unfold Settings.load
  refine silent_files.bind fun files => (silent_orFail hjson _ _ _ _).bind fun config => ?_
  dsimp only
  split
  · exact prints_fail hjson _ _ _ _
  · exact (silent_remark _ _ _).bind fun _ => quiet_pure trivial

theorem silent_find : Silent (Given.find s o g args : Action δ Given) := by
  unfold Given.find
  refine silent_files.bind fun files => ?_
  split
  · split
    · exact prints_fail hjson _ _ _ _
    · exact (silent_orFail hjson _ _ _ _).bind fun q => quiet_pure trivial
  · exact (silent_orFail hjson _ _ _ _).bind fun source => quiet_pure trivial

theorem silent_queries (given : Given) :
    Silent (given.queries o : Action δ (List Relation)) := by
  unfold Given.queries
  exact (silent_orFail hjson _ _ _ _).bind fun ts => silent_orFail hjson _ _ _ _

theorem silent_openDatabase : Silent (openDatabase C o g) := by
  unfold openDatabase
  exact (silent_onDatabase _).bind fun r => (silent_orFail hjson _ _ _ _).bind fun d =>
    (silent_remark _ _ _).bind fun _ => quiet_pure trivial

theorem silent_opened : Silent (opened C s o g args) := by
  unfold opened
  refine (silent_find hjson s g args).bind fun given => ?_
  refine (silent_queries hjson given).bind fun roots => ?_
  exact (silent_openDatabase hjson C g).bind fun d => quiet_pure trivial

theorem silent_askCatalog (d : Sql.Dialect)
    (ask : Adapter (Client δ) → Schema.Catalog → Work (Client δ) α) :
    Silent (askCatalog C d o ask) := by
  unfold askCatalog
  exact (silent_onDatabase _).bind fun r => silent_orFail hjson r _ _ _

end Steps

theorem silent_runAll (C : Connection δ) (a : Access) (d : Sql.Dialect) (g : Settings)
    (roots : List Relation) : Silent (runAll C a d g roots) := by
  unfold runAll
  exact (silent_onDatabase _).bind fun r => (silent_remark _ _ _).bind fun _ => quiet_pure trivial

theorem silent_runUndone {o : Options} (hjson : o.json) (C : Connection δ) (d : Sql.Dialect)
    (g : Settings) (roots : List Relation) : Silent (runUndone C d o g roots) := by
  unfold runUndone
  refine (silent_onDatabase _).bind fun begun => (silent_orFail hjson begun _ _ _).bind fun _ => ?_
  refine (silent_runAll C _ d g roots).bind fun r => ?_
  exact (silent_onDatabase _).bind fun _ => quiet_pure trivial

theorem silent_noteMutations (s : Surroundings) (g : Settings) (ps : List (Relation × Value)) :
    Silent (noteMutations s g ps : Action δ Unit) := by
  induction ps with
  | nil => exact quiet_pure trivial
  | cons p ps ih =>
    obtain ⟨root, v⟩ := p
    unfold noteMutations
    refine (silent_onFiles _).bind fun r => ?_
    cases r with
    | ok a => exact ih
    | error e => exact (silent_remark _ _ _).bind fun _ => ih

theorem silent_remember (s : Surroundings) (g : Settings) (given : Given) :
    Silent (remember s g given : Action δ Unit) := by
  unfold remember
  refine (silent_onFiles _).bind fun r => ?_
  cases r with
  | ok a => exact quiet_pure trivial
  | error e => exact silent_remark _ _ _

/-! ## Commands without results -/

theorem isText_tableJson (table : String) (columns : List Schema.Column)
    (keys : List Schema.ForeignKey) : IsText (tableJson table columns keys) := by
  refine isText_object ?_
  simp only [forall_mem_cons]
  refine ⟨isText_array fun text htext => ?_, isText_array fun text htext => ?_, isText_string _,
    forall_mem_nil _⟩
  · obtain ⟨c, -, rfl⟩ := mem_map.mp htext
    refine isText_object ?_
    simp only [forall_mem_cons]
    exact ⟨isText_string _, isText_string _, isText_bool _, forall_mem_nil _⟩
  · obtain ⟨k, -, rfl⟩ := mem_map.mp htext
    refine isText_object ?_
    simp only [forall_mem_cons]
    exact ⟨isText_string _, isText_string _, forall_mem_nil _⟩

theorem isText_topicJson (t : Docs.Topic) : IsText (topicJson t) := by
  refine isText_object ?_
  simp only [forall_mem_cons]
  exact ⟨isText_string _, isText_string _, isText_string _, forall_mem_nil _⟩

theorem isText_versionJson (v : Version) : IsText (versionJson v) := by
  refine isText_object ?_
  simp only [forall_mem_append, forall_mem_cons]
  exact ⟨⟨⟨⟨isText_string _, isText_string _, forall_mem_nil _⟩,
    fun _ => isText_of_mem_textMember⟩, fun _ => isText_of_mem_textMember⟩,
    isText_bool _, isText_string _, isText_string _, forall_mem_nil _⟩

section Commands

variable {o : Options} (hjson : o.json = true) (C : Connection δ) (s : Surroundings) (g : Settings)
  (args : List String)

include hjson

theorem answers_listQueries : Answers (listQueries o g : Action δ Unit) := by
  unfold listQueries
  dsimp only
  rw [if_pos hjson]
  refine answers_answer (isText_object (forall_mem_singleton.mpr ?_)) _
  exact isText_array fun _ => isText_of_mem_strings

theorem answers_runParse :
    Answers (runParse s o g args : Action δ Unit) := by
  unfold runParse
  refine (silent_find hjson s g args).bind fun given => ?_
  refine ((silent_queries hjson given).quiet isWritable_of_queries).bind fun roots hroots => ?_
  rw [hjson]
  split
  · obtain ⟨text, htext, hisText⟩ := exists_ofRelation _ (hroots _ mem_cons_self)
    rw [htext]
    exact answers_answer hisText _
  · obtain ⟨texts, htexts, hisTexts⟩ :=
      exists_ofRelations_of_each fun r hr => exists_ofRelation r (hroots r hr)
    rw [htexts]
    exact answers_answer (isText_array hisTexts) _
  · contradiction
  · contradiction

theorem answers_runSchema : Answers (runSchema C o g args) := by
  unfold runSchema
  simp only [if_pos hjson]
  refine (silent_openDatabase hjson C g).bind fun d => ?_
  refine (silent_askCatalog hjson C d _).bind fun columns => ?_
  refine prints_guarded hjson ?_
  exact (silent_askCatalog hjson C d _).bind fun keys => answers_answer (isText_tableJson _ _ _) _

theorem answers_runInit : Answers (runInit s o : Action δ Unit) := by
  unfold runInit
  dsimp only
  refine (silent_onFiles _).bind fun r => (silent_orFail hjson r _ _ _).bind fun created => ?_
  rw [if_pos hjson]
  refine answers_answer (isText_object ?_) _
  simp only [forall_mem_cons]
  exact ⟨isText_string _, isText_bool created, forall_mem_nil _⟩

theorem answers_runPath : Answers (runPath s o : Action δ Unit) := by
  unfold runPath
  dsimp only
  rw [if_pos hjson]
  refine answers_answer (isText_object ?_) _
  simp only [forall_mem_cons]
  exact ⟨isText_string _, forall_mem_nil _⟩

theorem answers_storeQueries (c : Config) (done name : String) :
    Answers (storeQueries s o g c done name : Action δ Unit) := by
  unfold storeQueries
  refine (silent_onFiles _).bind fun r => (silent_orFail hjson r _ _ _).bind fun _ => ?_
  rw [if_pos hjson]
  refine answers_answer (isText_object ?_) _
  simp only [forall_mem_cons]
  exact ⟨isText_string _, isText_string _, forall_mem_nil _⟩

theorem answers_runSave : Answers (runSave s o g args : Action δ Unit) := by
  unfold runSave
  dsimp only
  refine prints_guarded hjson ?_
  refine silent_files.bind fun files => (silent_orFail hjson _ _ _ _).bind fun source => ?_
  split
  · refine (silent_orFail hjson _ _ _ _).bind fun _ => ?_
    unfold saveUnder
    split
    · exact prints_fail hjson _ _ _ _
    · exact answers_storeQueries hjson s g _ _ _
  · exact prints_fail hjson _ _ _ _

theorem answers_runRemove : Answers (runRemove s o g args : Action δ Unit) := by
  unfold runRemove
  dsimp only
  split
  · exact prints_fail hjson _ _ _ _
  · exact answers_storeQueries hjson s g _ _ _

theorem answers_runDocs :
    Answers (runDocs s o g args : Action δ Unit) := by
  unfold runDocs
  refine (silent_orFail hjson _ _ _ _).bind fun topics => ?_
  split
  · unfold listTopics
    rw [if_pos hjson]
    refine answers_answer (isText_object (forall_mem_singleton.mpr ?_)) _
    refine isText_array fun text htext => ?_
    obtain ⟨t, -, rfl⟩ := mem_map.mp htext
    exact isText_topicJson t
  · split
    · exact prints_fail hjson _ _ _ _
    rw [if_pos hjson]
    refine answers_answer (isText_object ?_) _
    simp only [forall_mem_cons]
    exact ⟨isText_string _, isText_string _, isText_string _, forall_mem_nil _⟩

theorem answers_runVersion : Answers (runVersion s o : Action δ Unit) := by
  unfold runVersion
  dsimp only
  rw [if_pos hjson]
  exact answers_answer (isText_versionJson _) _

end Commands

/-! ## Commands with results -/

/-- The quantities among the values that a statement was run with. -/
def statementQuantities (t : Explain.Statement) : List Quantity :=
  t.runs.flatMap fun args => args.flatMap Value.quantities

theorem quantities_dataOf (results : List Value) :
    (dataOf results).quantities = results.flatMap Value.quantities := by
  unfold dataOf
  split
  · rw [flatMap_singleton]
  · exact Value.quantities_list _

theorem isSome_runJson (args : List Value) :
    (runJson args).isSome = (args.flatMap Value.quantities).all Quantity.isWritable := by
  unfold runJson
  split
  · rename_i hempty
    rw [isEmpty_iff.mp hempty]
    rfl
  · rw [isSome_encode_eq, Value.quantities_list]

theorem isText_of_runJson (args : List Value) (text : String) (h : runJson args = some text)
    (hbinary : ∀ x ∈ args.flatMap Value.quantities, x.isBinary) : IsText text := by
  unfold runJson at h
  split at h
  · cases h
    exact ⟨_, .null⟩
  · rw [← Value.quantities_list] at hbinary
    exact isText_of_encode _ h hbinary

theorem runsJson_eq_mapM (runs : List (List Value)) : runsJson runs = runs.mapM runJson := by
  induction runs with
  | nil => rfl
  | cons args runs ih =>
    rw [runsJson, mapM_cons, ih]
    cases runJson args with
    | none => rfl
    | some text => cases runs.mapM runJson <;> rfl

theorem statementsJson_eq_mapM (ts : List Explain.Statement) :
    statementsJson ts = ts.mapM statementJson := by
  induction ts with
  | nil => rfl
  | cons t ts ih =>
    rw [statementsJson, mapM_cons, ih]
    cases statementJson t with
    | none => rfl
    | some text => cases ts.mapM statementJson <;> rfl

theorem isSome_statementJson (t : Explain.Statement) :
    (statementJson t).isSome = (statementQuantities t).all Quantity.isWritable := by
  rw [statementJson, Option.isSome_map, runsJson_eq_mapM]
  exact isSome_mapM fun args _ => isSome_runJson args

theorem isText_of_statementJson (t : Explain.Statement) (text : String)
    (h : statementJson t = some text) (hbinary : ∀ x ∈ statementQuantities t, x.isBinary) :
    IsText text := by
  obtain ⟨runs, hruns, rfl⟩ := Option.map_eq_some_iff.mp h
  rw [runsJson_eq_mapM] at hruns
  have hisTexts : ∀ text ∈ runs, IsText text := fun text htext => by
    obtain ⟨args, hargs, hrun⟩ := exists_of_mem_mapM hruns text htext
    exact isText_of_runJson args text hrun fun x hx => hbinary x (mem_flatMap.mpr ⟨args, hargs, hx⟩)
  refine isText_object ?_
  simp only [forall_mem_append, forall_mem_cons]
  exact ⟨⟨isText_string _, isText_string _, isText_number (isNumber_nat _), forall_mem_nil _⟩,
    fun w hw => isText_of_mem_listMember hw hisTexts⟩

/-! ## Answers at a state -/

/-- **The action answers unless a quantity has no text**: it prints an envelope that tells whether
it broke off; or else it succeeds, and prints something else. -/
def AnswersUnless (quantities : List Quantity) (x : Action δ Unit) (st : State δ) : Prop :=
  ∃ result st' text, x.run st = (result, st') ∧ st'.output = st.output ++ text ∧
    (quantities.all Quantity.isWritable = true → IsEnvelope result.isOk text) ∧
    (quantities.all Quantity.isWritable = false → result.isOk = true ∧ ∀ ok, ¬ IsEnvelope ok text)

theorem Action.Answers.unless {x : Action δ Unit} (h : Answers x) (st : State δ) :
    AnswersUnless [] x st := by
  rcases hrun : x.run st with ⟨e | ⟨⟩, st'⟩
  · obtain ⟨text, houtput, htext⟩ := h.error hrun
    exact ⟨_, _, text, hrun, houtput, fun _ => htext, fun hwritable => by cases hwritable⟩
  · obtain ⟨text, houtput, htext⟩ := h.ok hrun
    exact ⟨_, _, text, hrun, houtput, fun _ => htext, fun hwritable => by cases hwritable⟩

/-- The quantities in the result of an action; there are none if it breaks off. -/
def resultQuantities (x : Action δ α) (D : α → List Quantity) (st : State δ) : List Quantity :=
  match x.run st with
  | (.ok a, _) => D a
  | (.error _, _) => []

/-- Steps that print nothing, and then the printing of their result. -/
theorem answersUnless_bind {f : α → Action δ Unit} {D : α → List Quantity}
    {T : α → String} (hx : Silent x)
    (hf : ∀ a st, ∃ st', (f a).run st = (.ok (), st') ∧ st'.output = st.output ++ T a)
    (henvelope : ∀ a, (∀ x ∈ D a, x.isBinary) → (D a).all Quantity.isWritable →
      IsEnvelope true (T a))
    (hnone : ∀ a, (∀ x ∈ D a, x.isBinary) → (D a).all Quantity.isWritable = false →
      ∀ ok, ¬ IsEnvelope ok (T a)) (hbinary : ∀ y ∈ resultQuantities x D st, y.isBinary) :
    AnswersUnless (resultQuantities x D st) (x >>= f) st := by
  unfold resultQuantities at hbinary ⊢
  rcases hrun : x.run st with ⟨e | a, st₁⟩
  · obtain ⟨text, houtput, htext⟩ := hx.error hrun
    exact ⟨_, _, text, run_bind_error hrun, houtput, fun _ => htext,
      fun hwritable => by cases hwritable⟩
  rw [hrun] at hbinary
  obtain ⟨houtput, -⟩ := hx.output hrun
  obtain ⟨st', hlast, hprinted⟩ := hf a st₁
  rw [houtput] at hprinted
  exact ⟨_, _, T a, (run_bind_ok hrun).trans hlast, hprinted, henvelope a hbinary,
    fun hwritable => ⟨rfl, hnone a hbinary hwritable⟩⟩

/-! ## Queries -/

/-- What is printed of the results of a query. -/
def resultText (s : Surroundings) (results : List Value) : String :=
  Envelope.ofResult (dataOf results)
    { count := Execute.count (dataOf results), milliseconds := s.milliseconds }

/-- The quantities in the results of a query. -/
def queryQuantities (C : Connection δ) (s : Surroundings) (o : Options) (args : List String) :
    State δ → List Quantity :=
  resultQuantities (executed C s o args) fun r => r.2.2.2.flatMap Value.quantities

section Query

variable {o : Options} (hjson : o.json = true) (C : Connection δ) (s : Surroundings) (g : Settings)
  (args : List String)

include hjson

theorem silent_executed : Silent (executed C s o args) := by
  unfold executed
  refine (silent_load hjson s).bind fun g => (silent_opened hjson C s g args).bind fun found => ?_
  refine (silent_runAll C _ _ g _).bind fun r => ?_
  exact (silent_orFail hjson _ _ _ _).bind fun results => quiet_pure trivial

theorem run_concluded (given : Given) (roots : List Relation) (results : List Value) :
    ∃ st', (concluded s o g given roots results).run st = (.ok (), st') ∧
      st'.output = st.output ++ resultText s results := by
  obtain ⟨st₁, hremark, houtput₁⟩ : ∃ st₁, (remark g.threshold .info [⟨"query finished",
      [("blocks", .int roots.length), ("duration", .text (toString s.milliseconds ++ "ms"))]⟩]).run
        st = (.ok (), st₁) ∧ st₁.output = st.output := ⟨_, rfl, rfl⟩
  obtain ⟨st₂, hnote, -⟩ := run_noteMutations_files s g (roots.zip results) st₁
  obtain ⟨st₃, hremember, -⟩ := run_remember s g given st₂
  have houtput₂ := ((silent_noteMutations s g _).output hnote).1
  have houtput₃ := ((silent_remember s g given).output hremember).1
  have hprinted : (printed s o results).run st₃ =
      (.ok (), { st₃ with output := st₃.output ++ resultText s results }) := by
    unfold printed
    rw [if_pos hjson]
    rfl
  have hrun : (concluded s o g given roots results).run st = (printed s o results).run st₃ := by
    unfold concluded
    rw [run_bind_ok hremark, run_bind_ok hnote, run_bind_ok hremember]
  exact ⟨_, hrun.trans hprinted, by rw [houtput₃, houtput₂, houtput₁]⟩

theorem answersUnless_query (hlist : o.list = false)
    (hbinary : ∀ x ∈ queryQuantities C s o args st, x.isBinary = true) :
    AnswersUnless (queryQuantities C s o args st) (Verb.act C s .query o args) st := by
  rw [act_query C s args hlist]
  refine answersUnless_bind (T := fun r => resultText s r.2.2.2) (silent_executed hjson C s args)
    ?_ ?_ ?_ hbinary
  · rintro ⟨g, given, roots, results⟩ st
    exact run_concluded hjson s g given roots results
  · intro r hbinary hwritable
    refine Envelope.isEnvelope_ofResult ?_ _
    intro x hx
    rw [quantities_dataOf] at hx
    exact ⟨all_eq_true.mp hwritable x hx, hbinary x hx⟩
  · intro r hbinary hwritable
    rw [← quantities_dataOf] at hbinary hwritable
    exact Envelope.not_isEnvelope_ofResult hbinary hwritable _

end Query

/-! ## Explained queries -/

/-- What is printed of the calls of an explained query: nothing, if their values cannot be
written. -/
def statementsText (calls : List Call) : String :=
  match statementsJson (Explain.statements calls) with
  | none => ""
  | some ts => Envelope.written (Envelope.success
      (some (Json.object [("statements", if ts.isEmpty then "null" else Json.array ts)]))
      (some { statements := ts.length }))

/-- **What explaining a query does up to its calls**: it loads the settings, finds and reads the
query, opens the database and runs the blocks inside a transaction. -/
def traced (C : Connection δ) (s : Surroundings) (o : Options) (args : List String) :
    Action δ (Settings × List Call) :=
  Settings.load s o >>= fun g => opened C s o g args >>= fun (_, roots, d) =>
    runUndone C d o g roots >>= fun (r, calls) =>
      resultsOrFail o roots r >>= fun _ => pure (g, calls)

theorem act_traced (C : Connection δ) (s : Surroundings) (o : Options) (args : List String) :
    Verb.act C s .explain o args =
      traced C s o args >>= fun (g, calls) => explained s o g calls := by
  unfold traced
  show Settings.load s o >>= (fun g => runExplain C s o g args) = _
  simp only [runExplain, bind_assoc, pure_bind]

/-- The quantities among the values that the statements of an explained query were run with. -/
def tracedQuantities (C : Connection δ) (s : Surroundings) (o : Options) (args : List String) :
    State δ → List Quantity :=
  resultQuantities (traced C s o args) fun r => (Explain.statements r.2).flatMap statementQuantities

section Explain

variable {o : Options} (hjson : o.json = true) (C : Connection δ) (s : Surroundings) (g : Settings)
  (args : List String)

include hjson

theorem silent_traced : Silent (traced C s o args) := by
  unfold traced
  refine (silent_load hjson s).bind fun g => (silent_opened hjson C s g args).bind fun found => ?_
  refine (silent_runUndone hjson C _ g _).bind fun r => ?_
  exact (silent_orFail hjson _ _ _ _).bind fun _ => quiet_pure trivial

theorem run_explained (calls : List Call) :
    ∃ st', (explained s o g calls).run st = (.ok (), st') ∧
      st'.output = st.output ++ statementsText calls := by
  unfold explained statementsText
  dsimp only
  rw [if_pos hjson]
  cases statementsJson (Explain.statements calls) with
  | none => exact ⟨st, rfl, String.append_empty.symm⟩
  | some ts => exact ⟨_, rfl, rfl⟩

theorem answersUnless_explain (hbinary : ∀ x ∈ tracedQuantities C s o args st, x.isBinary = true) :
    AnswersUnless (tracedQuantities C s o args st) (Verb.act C s .explain o args) st := by
  have hsome : ∀ calls, (statementsJson (Explain.statements calls)).isSome =
      ((Explain.statements calls).flatMap statementQuantities).all Quantity.isWritable :=
    fun calls => by
      rw [statementsJson_eq_mapM]
      exact isSome_mapM fun t _ => isSome_statementJson t
  rw [act_traced]
  refine answersUnless_bind (T := fun r => statementsText r.2) (silent_traced hjson C s args)
    ?_ ?_ ?_ hbinary
  · rintro ⟨g, calls⟩ st
    exact run_explained hjson s g calls
  · rintro ⟨g, calls⟩ hbinary hwritable
    rw [← hsome] at hwritable
    obtain ⟨ts, hts⟩ := Option.isSome_iff_exists.mp hwritable
    have hisTexts : ∀ text ∈ ts, IsText text := fun text htext => by
      rw [statementsJson_eq_mapM] at hts
      obtain ⟨t, ht, hstatement⟩ := exists_of_mem_mapM hts text htext
      exact isText_of_statementJson t text hstatement fun x hx =>
        hbinary x (mem_flatMap.mpr ⟨t, ht, hx⟩)
    unfold statementsText
    rw [hts]
    refine Envelope.isEnvelope_success ?_ _
    simp only [Option.mem_some_iff, forall_eq']
    refine isText_object (forall_mem_singleton.mpr ?_)
    dsimp only
    split
    · exact ⟨_, .null⟩
    · exact isText_array hisTexts
  · rintro ⟨g, calls⟩ hbinary hwritable ok
    have hnone : statementsJson (Explain.statements calls) = none := by
      rw [← hsome] at hwritable
      simpa using hwritable
    unfold statementsText
    rw [hnone]
    exact not_isEnvelope_empty ok

end Explain

/-! ## Command lines -/

/-- The commands that answer scripts. -/
def Verb.answers : Verb → Bool
  | .query => true
  | .parse => true
  | .explain => true
  | .schema => true
  | .configInit => true
  | .configPath => true
  | .configSave => true
  | .configRemove => true
  | .docs => true
  | .version => true
  | _ => false

/-- **The command line asks the command for JSON**: it leads to the command, its options are read,
the one for JSON among them, and its arguments have the right number. -/
structure AsksForJson (args : List String) (v : Verb) (o : Options) (words : List String) :
    Prop where
  read : ∃ rest, Verb.find args = .ok (v, rest) ∧
    Options.read (v.options ++ [.help]) rest = .ok (o, words)
  arity : v.checkArity words = .ok ()
  json : o.json = true
  noHelp : o.help = false
  answers : v.answers = true

/-- **The quantities that a command reports from the database**: those in the results of a query,
and those among the values that the statements of an explained query were run with. -/
def Verb.reported (C : Connection δ) (s : Surroundings) (v : Verb) (o : Options)
    (words : List String) (st : State δ) : List Quantity :=
  match v with
  | .query => if o.list then [] else queryQuantities C s o words st
  | .explain => tracedQuantities C s o words st
  | _ => []

theorem act_of_asksForJson (C : Connection δ) (s : Surroundings) {words : List String}
    {v : Verb} {o : Options} (h : AsksForJson args v o words) :
    act C s args = v.act C s o words := by
  obtain ⟨⟨rest, hfind, hread⟩, harity, -, hhelp, hanswers⟩ := h
  have hrunnable : v.isRunnable = true := by
    cases v <;> first | rfl | cases hanswers
  unfold act
  simp only [hfind, hread, harity, hhelp, hrunnable, bind, Except.bind]
  rfl

theorem answersUnless_act (C : Connection δ) (s : Surroundings) {words : List String}
    {v : Verb} {o : Options} (h : AsksForJson args v o words)
    (hbinary : ∀ x ∈ v.reported C s o words st, x.isBinary) :
    AnswersUnless (v.reported C s o words st) (v.act C s o words) st := by
  have hjson := h.json
  have hanswers := h.answers
  have hload : Silent (Settings.load s o : Action δ Settings) := silent_load hjson s
  cases v with
  | query =>
    cases hlist : o.list with
    | true =>
      have hnone : Verb.reported C s .query o words st = [] := if_pos hlist
      rw [hnone]
      refine Answers.unless (hload.bind fun g => ?_) st
      dsimp only
      rw [if_pos hlist]
      exact answers_listQueries hjson g
    | false =>
      have hreported : Verb.reported C s .query o words st = queryQuantities C s o words st :=
        if_neg (by simp [hlist])
      rw [hreported] at hbinary ⊢
      exact answersUnless_query hjson C s words hlist hbinary
  | parse => exact Answers.unless (hload.bind fun g => answers_runParse hjson s g words) st
  | explain => exact answersUnless_explain hjson C s words hbinary
  | schema => exact Answers.unless (hload.bind fun g => answers_runSchema hjson C g words) st
  | configInit => exact Answers.unless (answers_runInit hjson s) st
  | configPath => exact Answers.unless (answers_runPath hjson s) st
  | configSave => exact Answers.unless (hload.bind fun g => answers_runSave hjson s g words) st
  | configRemove => exact Answers.unless (hload.bind fun g => answers_runRemove hjson s g words) st
  | docs => exact Answers.unless (hload.bind fun g => answers_runDocs hjson s g words) st
  | version => exact Answers.unless (answers_runVersion hjson s) st
  | _ => cases hanswers

/-- What a command line comes to, from what its command does. -/
theorem run_spec (C : Connection δ) (s : Surroundings) {files : Files} {db : δ}
    {result : Except Stop Unit} {st' : State δ}
    (h : (act C s args).run { files := files, database := db } = (result, st')) :
    (run C s files db args).ok = result.isOk ∧ (run C s files db args).output = st'.output := by
  have hrun : (act C s args).run.run { files := files, database := db } = (result, st') := h
  unfold run
  rw [hrun]
  rcases result with e | ⟨⟩ <;> exact ⟨rfl, rfl⟩

/-- **Commands answer scripts.**  A command line that asks a command for JSON prints one envelope,
whatever the files hold and the database does, and the envelope says that all went well just if
the command did not fail.  That is so as long as all quantities that the command reports from the
database have a text: its numbers are finite, and its moments within the format.  With another among
them, the command does not fail, and what it prints is no envelope at all. -/
theorem answers_unless_unwritable (C : Connection δ) (s : Surroundings) (files : Files) (db : δ)
    {args words : List String} {v : Verb} {o : Options} (h : AsksForJson args v o words)
    (hbinary : ∀ x ∈ v.reported C s o words { files := files, database := db },
      x.isBinary = true) :
    let outcome := run C s files db args
    let writable :=
      (v.reported C s o words { files := files, database := db }).all Quantity.isWritable
    (writable = true → ∀ ok, IsEnvelope ok outcome.output ↔ ok = outcome.ok) ∧
      (writable = false → outcome.ok = true ∧ ∀ ok, ¬ IsEnvelope ok outcome.output) := by
  intro outcome writable
  obtain ⟨result, st', text, hrun, houtput, hwritable, hother⟩ := answersUnless_act C s h hbinary
  rw [← act_of_asksForJson C s h] at hrun
  obtain ⟨hok, hprinted⟩ := run_spec C s hrun
  have htext : outcome.output = text := by
    rw [hprinted, houtput]
    exact String.empty_append
  rw [htext, show outcome.ok = result.isOk from hok]
  refine ⟨fun hall ok => ⟨fun henvelope => ?_, ?_⟩, hother⟩
  · exact (hwritable hall).unique henvelope
  · rintro rfl
    exact hwritable hall

/-! ## Readings of a meter -/

/-- A database that answers every statement with two rows, a reading in the second. -/
def meter (v : Value) : Connection Unit :=
  .answering
    { columns := ["id", "name", "type"]
      rows := [[.int 7, .text "id", .text "integer"], [v, .text "level", .text "real"]] }

def meterQuery : String := "readings \x7b\n id\n\x7d"

def meterRequest : List String := ["--dsn", "x", "--json", "query", meterQuery]

def meterOptions : Options where
  dsn := "x"
  json := true

theorem asksForJson_meterRequest :
    AsksForJson meterRequest .query meterOptions [meterQuery] where
  read := ⟨["--dsn", "x", "--json", meterQuery], by decide +kernel, by decide +kernel⟩
  arity := by decide
  json := rfl
  noHelp := rfl
  answers := rfl

/-- A level of one and a half is reported in an envelope. -/
theorem answers_meterRequest :
    AsksForJson meterRequest .query meterOptions [meterQuery] ∧
      ∀ ok, IsEnvelope ok (run (meter (.float (.finite false 6755399441055744 (-52)))) {} .empty ()
        meterRequest).output ↔ ok = true := by
  refine ⟨asksForJson_meterRequest, fun ok => ?_⟩
  have hok : (run (meter (.float (.finite false 6755399441055744 (-52)))) {} .empty ()
      meterRequest).ok = true := by
    decide +kernel
  have hanswers := (answers_unless_unwritable
    (meter (.float (.finite false 6755399441055744 (-52)))) {} .empty () asksForJson_meterRequest
    (by decide +kernel)).1 (by decide +kernel) ok
  rwa [hok] at hanswers

/-- The first moment after the years of the format. -/
def lateReading : Value :=
  .time { year := 10000, month := 1, day := 1, hour := 0, minute := 0, second := 0
          nanosecond := 0, offset := 0, zone := "UTC" }

/-- **A command succeeds and prints no envelope**: the reading is no number or comes too late, and
the answer breaks off after the first row. -/
theorem succeeds_without_envelope :
    AsksForJson meterRequest .query meterOptions [meterQuery] ∧
      ∀ v ∈ [Value.float .nan, lateReading], (run (meter v) {} .empty () meterRequest).ok = true ∧
        ∀ ok, ¬ IsEnvelope ok (run (meter v) {} .empty () meterRequest).output := by
  refine ⟨asksForJson_meterRequest, fun v hv => ?_⟩
  have hopen : ∀ v ∈ [Value.float .nan, lateReading],
      (run (meter v) {} .empty () meterRequest).ok = true ∧
        (run (meter v) {} .empty () meterRequest).output.toList.foldl scan (.outside, 0) =
          (.outside, 2) := by
    decide +kernel
  refine ⟨(hopen v hv).1, ?_⟩
  rintro ok ⟨members, hdenotes, -⟩
  cases (hdenotes.foldl_scan 0).symm.trans (hopen v hv).2

end Command
end TreeQuery
