import TreeQuery.Proofs.Command.Action
import TreeQuery.Proofs.Execute.Mutation
import TreeQuery.Proofs.Json.Written
import TreeQuery.Proofs.Query.Batch
import TreeQuery.Proofs.Store.Traffic

/-!
# What the audit log gains

A query command runs its blocks one after the other; the first one that fails ends the run.  Each
block that was run is looked at from the outside (`Block`): what became of it, and what it and the
store said to each other.  The mutations that the store has executed are read off these exchanges,
and so are the entries that they deserve (`Block.due?`).

If all blocks succeed, the log gains just these entries, in the order of execution (`Audited`).  If
one fails, no file changes at all: there is no entry for the mutations of the blocks before it, nor
for its own, all of which the store may have executed (`audited_unless_block_fails`).  So there are
runs that change the database and leave no trace in the log (`executed_without_trace`).
-/

namespace TreeQuery

open List

namespace Audit

/-! ## Adding to a log -/

/-- A line is not empty: it ends with a newline. -/
theorem Entry.line_ne_empty {e : Entry} {line : String} (h : e.line? = some line) : line ≠ "" := by
  unfold Entry.line? at h
  obtain ⟨time, -, h⟩ := Option.bind_eq_some_iff.mp h
  obtain ⟨args, -, h⟩ := Option.bind_eq_some_iff.mp h
  rw [← Option.some.inj h]
  intro hempty
  exact absurd (String.append_eq_empty_iff.mp hempty).2 (by decide)

namespace Log

/-- **The log can be added to**: it is turned on, its directory is there or can be made, and so is
its file. -/
def isWritable (l : Log) (f : Files) : Bool :=
  match f.makeDirectories (Path.directory l.path) with
  | (.ok (), g) => l.isEnabled && g.isAppendable l.path
  | (.error _, _) => false

def text (l : Log) (f : Files) : String :=
  f.textAt (Files.placeOf l.path)

/-- The entry of a mutation that returned a number of rows at a moment. -/
def entryAt (now : Timestamp) (root : Query.Relation) (rows : Nat) : Entry :=
  { entryOf root rows with time := now }

/-- The entry of a mutation has no moment of its own: it is given the present one. -/
theorem entryOf_orElse (now : Timestamp) (root : Query.Relation) (rows : Nat) :
    ({ entryOf root rows with time := (entryOf root rows).time.orElse now } : Entry) =
      entryAt now root rows := by
  have hzero : Timestamp.zero.orElse now = now := if_pos (by decide)
  show ({ entryOf root rows with time := Timestamp.zero.orElse now } : Entry) = _
  rw [hzero, entryAt]

variable {now : Timestamp}

/-- **One entry is one more line**, and the next one can be added after it. -/
theorem exists_add_eq_ok {l : Log} {f : Files} (h : l.isWritable f) {e : Entry}
    {line : String} (hline : ({ e with time := e.time.orElse now } : Entry).line? = some line) :
    ∃ g, l.add f now e = (.ok (), g) ∧ l.isWritable g ∧ l.text g = l.text f ++ line := by
  have htext := f.textAt_makeDirectories (Path.directory l.path) (Files.placeOf l.path)
  unfold isWritable at h
  split at h
  · rename_i made hmade
    rw [hmade] at htext
    obtain ⟨henabled, happend⟩ := Bool.and_eq_true_iff.mp h
    obtain ⟨g, hg, hkeeps, hagain, hadded⟩ := Files.append_of_isAppendable happend line
    refine ⟨g, ?_, ?_, ?_⟩
    · simp only [add, henabled, hline, hmade, hg, Bool.not_true, Bool.false_eq_true, if_false]
    · unfold isWritable
      rw [Files.makeDirectories_again hmade hkeeps]
      exact Bool.and_eq_true_iff.mpr ⟨henabled, hagain⟩
    · exact hadded.trans (congrArg (· ++ line) htext)
  · cases h

theorem add_of_isWritable {l : Log} {f : Files} (h : l.isWritable f) {root : Query.Relation}
    {rows : Nat} {line : String} (hline : (entryAt now root rows).line? = some line) :
    ∃ g, l.add f now (entryOf root rows) = (.ok (), g) ∧ l.isWritable g ∧
      l.text g = l.text f ++ line := by
  rw [← entryOf_orElse] at hline
  exact exists_add_eq_ok h hline

theorem isSome_line? {root : Query.Relation} (rows : Nat) (hnow : now.text?.isSome)
    (hargs : (Json.encodeList root.bindings).isSome) :
    ∃ line, (entryAt now root rows).line? = some line := by
  obtain ⟨time, htime⟩ := Option.isSome_iff_exists.mp hnow
  obtain ⟨args, hargs⟩ := Option.isSome_iff_exists.mp hargs
  simp only [Entry.line?, entryAt, entryOf, htime, hargs, Option.bind_eq_bind, Option.bind_some]
  exact ⟨_, rfl⟩

end Log
end Audit

namespace Command

open Query Store Execute Audit
open TreeQuery.Command.Action

variable {δ σ : Type} {given : Given}

/-! ## Blocks -/

/-- **A block that was run**: its query, what became of it, and what it and the store said to each
other. -/
structure Block where
  root : Relation
  outcome : Except Failure Value
  seen : List Exchange

namespace Block

/-- Whether the block has a result. -/
def succeeded (b : Block) : Bool := b.outcome.isOk

/-- The rows that the store returned for the mutation at the root, if it executed one. -/
def returned? (b : Block) : Option (List Record) :=
  if b.root.isMutation then b.seen.findSome? (Execute.returned? b.root) else none

/-- **The entry that the block deserves**: the one of its mutation, if the store executed it. -/
def due? (now : Timestamp) (b : Block) : Option Entry :=
  b.returned?.map fun rows => Log.entryAt now b.root rows.length

end Block

/-- **The blocks that are run**, one after the other up to the first that fails. -/
def blocksFrom (A : Adapter σ) (d : Sql.Dialect) :
    List Relation → Session (Logged σ) → List Block
  | [], _ => []
  | root :: rest, u =>
    let r := (execute A.observed d root).run u
    ⟨root, r.1, r.2.seen.drop u.seen.length⟩ ::
      match r.1 with
      | .error _ => []
      | .ok _ => blocksFrom A d rest r.2

/-- The entry that is made of a query and its result. -/
def noted? (now : Timestamp) (p : Relation × Value) : Option Entry :=
  if p.1.isMutation then some (Log.entryAt now p.1 (Execute.count p.2)) else none

variable {A : Adapter σ} {d : Sql.Dialect} {u : Session (Logged σ)} {roots : List Relation}
  {index : Nat}

/-- A block that succeeded deserves the entry that is made of its result. -/
theorem due?_of_execute (now : Timestamp) {root : Relation} {t : Session (Logged σ)}
    {v : Value} (h : (execute A.observed d root).run u = (.ok v, t)) :
    Block.due? now ⟨root, .ok v, t.seen.drop u.seen.length⟩ = noted? now (root, v) := by
  unfold Block.due? Block.returned? noted?
  cases hroot : root.isMutation with
  | false => rfl
  | true =>
    obtain ⟨l, rows, hseen, hrows, hcount⟩ := returned_of_execute hroot h
    rw [if_pos rfl, if_pos rfl, hseen, drop_left, hrows, hcount]
    rfl

/-- **One block of a run**: the block under observation, and how the run goes on after it. -/
theorem executeAll_cons (root : Relation) (rest : List Relation) (index : Nat) {s : Session σ}
    (hw : Watches s u) : ∃ t t', Watches t t' ∧
      ((∃ e, executeAll A d index (root :: rest) s = (.error (index, e), t) ∧
          blocksFrom A d (root :: rest) u = [⟨root, .error e, t'.seen.drop u.seen.length⟩]) ∨
        ∃ v, (execute A.observed d root).run u = (.ok v, t') ∧
          blocksFrom A d (root :: rest) u =
            ⟨root, .ok v, t'.seen.drop u.seen.length⟩ :: blocksFrom A d rest t' ∧
          executeAll A d index (root :: rest) s =
            match executeAll A d (index + 1) rest t with
            | (.error e, s) => (.error e, s)
            | (.ok vs, s) => (.ok (v :: vs), s)) := by
  obtain ⟨hr, hw'⟩ := (callWise_watched A).compositional.execute d root s u hw
  rw [executeAll, blocksFrom]
  rcases hrun : (execute A d root).run s with ⟨r, t⟩
  rcases hrun' : (execute A.observed d root).run u with ⟨r', t'⟩
  rw [hrun, hrun'] at hr hw'
  obtain rfl : r = r' := hr
  refine ⟨t, t', hw', ?_⟩
  rw [show (execute A d root).run.run s = (r, t) from hrun]
  cases r with
  | error e => exact .inl ⟨e, rfl, rfl⟩
  | ok v => exact .inr ⟨v, rfl, rfl, rfl⟩

theorem blocksFrom_of_executeAll_ok (now : Timestamp) {s s' : Session σ} {vs : List Value}
    (hw : Watches s u) (h : executeAll A d index roots s = (.ok vs, s')) :
    (∀ b ∈ blocksFrom A d roots u, b.succeeded) ∧
      (blocksFrom A d roots u).filterMap (Block.due? now) =
        (roots.zip vs).filterMap (noted? now) := by
  induction roots generalizing index s u vs with
  | nil => exact ⟨fun b hb => absurd hb not_mem_nil, rfl⟩
  | cons root rest ih =>
    obtain ⟨t, t', hw', ⟨e, hall, -⟩ | ⟨v, hrun, hblocks, hall⟩⟩ :=
      executeAll_cons root rest index hw
    · rw [hall] at h
      cases h
    rw [hall] at h
    split at h
    · cases h
    rename_i hrest
    cases h
    obtain ⟨hsucceeded, hentries⟩ := ih hw' hrest
    rw [hblocks, zip_cons_cons, filterMap_cons, filterMap_cons,
      due?_of_execute now hrun, hentries]
    exact ⟨forall_mem_cons.mpr ⟨rfl, hsucceeded⟩, rfl⟩

theorem blocksFrom_of_executeAll_error {s s' : Session σ} {e : Nat × Failure} (hw : Watches s u)
    (h : executeAll A d index roots s = (.error e, s')) :
    ∃ b ∈ blocksFrom A d roots u, b.succeeded = false := by
  induction roots generalizing index s u with
  | nil => cases h
  | cons root rest ih =>
    obtain ⟨t, t', hw', ⟨e', -, hblocks⟩ | ⟨v, -, hblocks, hall⟩⟩ :=
      executeAll_cons root rest index hw
    · rw [hblocks]
      exact ⟨_, mem_cons_self, rfl⟩
    rw [hall] at h
    split at h
    · rename_i hrest
      cases h
      obtain ⟨b, hb, hfailed⟩ := ih hw' hrest
      rw [hblocks]
      exact ⟨b, mem_cons_of_mem _ hb, hfailed⟩
    · cases h

/-! ## Noting mutations -/

/-- What is noted of a query and its result is one line, or nothing. -/
theorem addMutation_of_isWritable {l : Log} {f : Files} (h : l.isWritable f)
    {now : Timestamp} (hnow : now.text?.isSome) {root : Relation}
    (hargs : (Json.encodeList root.bindings).isSome) (v : Value) :
    ∃ f' lines, l.addMutation f now root (Execute.count v) = (.ok (), f') ∧
      l.isWritable f' ∧ l.text f' = l.text f ++ String.join lines ∧
      ([(root, v)].filterMap (noted? now)).map Entry.line? = lines.map some := by
  unfold Log.addMutation
  split
  · rename_i hroot
    have hentry : noted? now (root, v) = some (Log.entryAt now root (Execute.count v)) :=
      if_pos hroot
    obtain ⟨line, hline⟩ := Log.isSome_line? (Execute.count v) hnow hargs
    obtain ⟨f', hadd, hwritable, htext⟩ := Log.add_of_isWritable h hline
    refine ⟨f', [line], hadd, hwritable, ?_, ?_⟩
    · rw [htext, String.join_cons, String.join_nil, String.append_empty]
    · rw [filterMap_cons_some hentry, filterMap_nil, map_singleton, hline,
        map_singleton]
  · rename_i hroot
    have hentry : noted? now (root, v) = none := if_neg hroot
    refine ⟨f, [], rfl, h, ?_, ?_⟩
    · rw [String.join_nil, String.append_empty]
    · rw [filterMap_cons_none hentry, filterMap_nil]
      rfl

/-- **The log gains the entries of queries and their results**, in order. -/
theorem run_noteMutations {s : Surroundings} {g : Settings} (hnow : s.now.text?.isSome)
    (ps : List (Relation × Value))
    (hargs : ∀ p ∈ ps, (Json.encodeList p.1.bindings).isSome) (st : State δ)
    (hlog : (auditLog g).isWritable st.files) :
    ∃ st' lines, (noteMutations s g ps).run st = (.ok (), st') ∧
      (auditLog g).text st'.files = (auditLog g).text st.files ++ String.join lines ∧
      (ps.filterMap (noted? s.now)).map Entry.line? = lines.map some := by
  induction ps generalizing st with
  | nil => exact ⟨st, [], rfl, by rw [String.join_nil, String.append_empty], rfl⟩
  | cons p ps ih =>
    obtain ⟨root, v⟩ := p
    obtain ⟨hfirst, hrest⟩ := forall_mem_cons.mp hargs
    obtain ⟨f, lines, hadd, hwritable, htext, hlines⟩ :=
      addMutation_of_isWritable hlog hnow hfirst v
    obtain ⟨st', more, hrun, htext', hmore⟩ := ih hrest { st with files := f } hwritable
    refine ⟨st', lines ++ more, ?_, ?_, ?_⟩
    · have hstep :
          (onFiles fun f => (auditLog g).addMutation f s.now root (Execute.count v)).run st =
            (.ok (.ok ()), { st with files := f }) := by
        rw [run_onFiles, hadd]
      rw [noteMutations]
      exact (run_bind_ok hstep).trans hrun
    · rw [htext', htext, String.join_append, String.append_assoc]
    · rw [← singleton_append, filterMap_append, map_append, hlines, hmore,
        map_append]

/-! ## The queries of a command -/

/-- The values of each template are among those that were dealt out. -/
theorem values_of_deal {blocks : List String} {marker : String} {values : List Value}
    {ts : List Template} (h : deal blocks marker values = .ok ts) :
    ∀ t ∈ ts, ∀ v ∈ t.values, v ∈ values := by
  rcases deal_cases blocks marker values with
    ⟨-, ts', hok, hvalues, -⟩ | ⟨-, e, herror, -⟩
  · cases hok.symm.trans h
    intro t ht v hv
    rw [← hvalues]
    exact mem_flatMap.mpr ⟨t, ht, hv⟩
  · cases herror.symm.trans h

theorem parse_of_parseAll {ts : List Template} (h : parseAll index ts = .ok roots) :
    ∀ root ∈ roots, ∃ t ∈ ts, t.parse = .ok root := by
  induction ts generalizing index roots with
  | nil =>
    cases h
    exact fun root hroot => absurd hroot not_mem_nil
  | cons t ts ih =>
    unfold parseAll at h
    split at h
    · cases h
    rename_i first hparse
    split at h
    · cases h
    rename_i hrest
    cases h
    refine forall_mem_cons.mpr ⟨⟨t, mem_cons_self, hparse⟩, fun root hroot => ?_⟩
    obtain ⟨t', ht', hparse'⟩ := ih hrest root hroot
    exact ⟨t', mem_cons_of_mem t ht', hparse'⟩

/-- **The values bound to the queries of a command can be written**: they are arguments. -/
theorem isWritable_of_queries {o : Options} {st st' : State δ}
    (h : (given.queries o).run st = (.ok roots, st')) :
    ∀ root ∈ roots, ∀ v ∈ root.allBindings, v.IsWritable := by
  unfold Given.queries at h
  obtain ⟨ts, st₁, hdeal, hparse⟩ := run_bind_eq_ok h
  have hts := values_of_deal (orFail_eq_ok hdeal)
  intro root hroot
  obtain ⟨t, ht, hparse⟩ := parse_of_parseAll (orFail_eq_ok hparse) root hroot
  refine Json.isWritable_of_parse hparse fun v hv => ?_
  obtain ⟨text, -, rfl⟩ := mem_map.mp (hts t ht v hv)
  exact Json.isWritable_argument text

theorem isSome_encode_of_queries {o : Options} {st st' : State δ}
    (h : (given.queries o).run st = (.ok roots, st')) :
    ∀ root ∈ roots, (Json.encodeList root.bindings).isSome := by
  intro root hroot
  have hwritable := isWritable_of_queries h root hroot
  rw [root.allBindings_eq] at hwritable
  obtain ⟨texts, htexts, -⟩ := Json.exists_encode_list (forall_mem_append.mp hwritable).1
  rw [htexts]
  rfl

/-! ## The command -/

/-- **The blocks that a query command runs.**  There are none if the query is not found or cannot be
read, or if the database cannot be opened. -/
def blocksRun (C : Connection δ) (s : Surroundings) (o : Options) (g : Settings)
    (args : List String) (st : State δ) : List Block :=
  match (opened C s o g args).run st with
  | (.error _, _) => []
  | (.ok (_, roots, d), st') =>
    blocksFrom (Store.adapter C (.ofDialect d false)) d roots
      { store := ({ database := st'.database }, []) }

section Run

variable (C : Connection δ) (s : Surroundings) (o : Options) (g : Settings) (args : List String)

theorem touchesNothing_opened : TouchesNothing (opened C s o g args) :=
  (TouchesNothing.of_idle (idle_find s o g args)).bind fun given =>
    (TouchesNothing.of_idle (idle_queries o given)).bind fun _ =>
      (touchesNothing_openDatabase C o g).bind fun _ => .pure _

variable {st : State δ}

theorem isSome_encode_of_opened {st' : State δ} {roots : List Relation}
    {d : Sql.Dialect} (h : (opened C s o g args).run st = (.ok (given, roots, d), st')) :
    ∀ root ∈ roots, (Json.encodeList root.bindings).isSome := by
  obtain ⟨given', st₁, -, h⟩ := run_bind_eq_ok h
  obtain ⟨roots', st₂, hqueries, h⟩ := run_bind_eq_ok h
  obtain ⟨d', st₃, -, h⟩ := run_bind_eq_ok h
  cases h
  exact isSome_encode_of_queries hqueries

theorem touchesNothing_printed (results : List Value) :
    TouchesNothing (printed s o results : Action δ Unit) := by
  unfold printed
  split
  · exact .print _
  · exact touchesNothing_printDocument _

/-- The blocks are run on the database as it is, and no file is touched. -/
theorem run_runAll (a : Access) (d : Sql.Dialect) (roots : List Relation) (st : State δ) :
    ∃ calls st', (runAll C a d g roots).run st =
        (.ok ((executeAll (Store.adapter C a) d 1 roots
          { store := { database := st.database } }).1, calls), st') ∧
      st'.files = st.files :=
  ⟨_, _, rfl, rfl⟩

/-- The failure of a block is reported; files are left alone. -/
theorem run_resultsOrFail_error (roots : List Relation) (e : Nat × Failure) (st : State δ) :
    ∃ stop st', (resultsOrFail o roots (.error e)).run st = (.error stop, st') ∧
      st'.files = st.files := by
  obtain ⟨stop, st', hstop⟩ := run_fail (α := List Value) o (.ofFailure e.2)
    (blockMessage roots.length e.1 e.2.message) (ErrorCode.ofFailure e.2).suggestion st
  have hfiles := TouchesNothing.fail (α := List Value) o (.ofFailure e.2)
    (blockMessage roots.length e.1 e.2.message) (ErrorCode.ofFailure e.2).suggestion st
  rw [hstop] at hfiles
  exact ⟨stop, st', hstop, hfiles.symm⟩

/-- **What a successful run leaves in the log**: the notes of its mutations, and nothing else. -/
theorem text_concluded {roots : List Relation} {results : List Value} (hnow : s.now.text?.isSome)
    (hargs : ∀ root ∈ roots, (Json.encodeList root.bindings).isSome)
    (hapart : Files.placeOf (auditLog g).path ≠ Files.placeOf (LastQuery.path g.stateDirectory))
    (hlog : (auditLog g).isWritable st.files) :
    ∃ lines, ((roots.zip results).filterMap (noted? s.now)).map Entry.line? = lines.map some ∧
      (auditLog g).text ((concluded s o g given roots results).run st).2.files =
        (auditLog g).text st.files ++ String.join lines := by
  have hzip : ∀ p ∈ roots.zip results, (Json.encodeList p.1.bindings).isSome = true :=
    fun p hp => hargs p.1 (of_mem_zip hp).1
  have hrest : LeavesText (Files.placeOf (auditLog g).path)
      (remember s g given >>= fun _ => printed s o results : Action δ Unit) :=
    (leavesText_remember s g given hapart).bind fun _ =>
      (touchesNothing_printed s o results).leavesText _
  unfold concluded
  obtain ⟨st₁, hremark, hfiles⟩ := run_remark g.threshold .info [⟨"query finished",
    [("blocks", .int roots.length), ("duration", .text (toString s.milliseconds ++ "ms"))]⟩] st
  rw [← hfiles] at hlog ⊢
  obtain ⟨st₂, lines, hnoted, htext, hlines⟩ := run_noteMutations hnow _ hzip st₁ hlog
  rw [run_bind_ok hremark, run_bind_ok hnoted]
  exact ⟨lines, hlines, (hrest st₂).trans htext⟩

/-- **What a run can do.**  It fails before or in a block, and then no file has changed; or all
blocks succeed, and the run is concluded with their results. -/
theorem runQuery_cases (st : State δ) :
    (((runQuery C s o g args).run st).2.files = st.files ∧
        (blocksRun C s o g args st = [] ∨
          ∃ b ∈ blocksRun C s o g args st, b.succeeded = false)) ∨
      ∃ given roots results st', st'.files = st.files ∧
        (runQuery C s o g args).run st = (concluded s o g given roots results).run st' ∧
        (∀ root ∈ roots, (Json.encodeList root.bindings).isSome) ∧
        (∀ b ∈ blocksRun C s o g args st, b.succeeded) ∧
        (blocksRun C s o g args st).filterMap (Block.due? s.now) =
          (roots.zip results).filterMap (noted? s.now) := by
  have hfiles := touchesNothing_opened C s o g args st
  rw [runQuery]
  unfold blocksRun
  rcases hopened : (opened C s o g args).run st with ⟨e | ⟨given, roots, d⟩, st₁⟩
  · rw [hopened] at hfiles
    rw [run_bind_error hopened]
    exact .inl ⟨hfiles.symm, .inl rfl⟩
  rw [hopened] at hfiles
  rw [run_bind_ok hopened]
  dsimp only at hfiles ⊢
  obtain ⟨calls, st₂, hrun, hfiles₂⟩ := run_runAll C g (.ofDialect d false) d roots st₁
  rw [run_bind_ok hrun]
  dsimp only
  have hwatch : Watches ({ store := { database := st₁.database } } : Session (Client δ))
      { store := ({ database := st₁.database }, []) } := ⟨rfl, rfl, rfl⟩
  rcases hall : executeAll (Store.adapter C (.ofDialect d false)) d 1 roots
    { store := { database := st₁.database } } with ⟨e | vs, t⟩
  · obtain ⟨stop, st₃, hstop, hfiles₃⟩ := run_resultsOrFail_error o roots e st₂
    rw [run_bind_error hstop, hfiles₃, hfiles₂, ← hfiles]
    exact .inl ⟨rfl, .inr (blocksFrom_of_executeAll_error hwatch hall)⟩
  · have hresults : (resultsOrFail o roots (.ok vs)).run st₂ = (.ok vs, st₂) := rfl
    rw [run_bind_ok hresults]
    exact .inr ⟨given, roots, vs, st₂, hfiles₂.trans hfiles.symm, rfl,
      isSome_encode_of_opened C s o g args hopened,
      blocksFrom_of_executeAll_ok s.now hwatch hall⟩

/-- **Every executed mutation is audited**: the log gains one line for each, in the order of
execution, and nothing else. -/
def Audited (st : State δ) : Prop :=
  ∃ lines, ((blocksRun C s o g args st).filterMap (Block.due? s.now)).map Entry.line? =
      lines.map some ∧
    (auditLog g).text ((runQuery C s o g args).run st).2.files =
      (auditLog g).text st.files ++ String.join lines

/-- A log that stays as it is has all entries only if there are none to be made. -/
theorem audited_iff_of_text
    (h : (auditLog g).text ((runQuery C s o g args).run st).2.files = (auditLog g).text st.files) :
    Audited C s o g args st ↔
      (blocksRun C s o g args st).filterMap (Block.due? s.now) = [] := by
  unfold Audited
  rw [h]
  constructor
  · rintro ⟨lines, hlines, htext⟩
    have hjoin : String.join lines = "" := String.append_eq_left_iff.mp htext.symm
    cases hdue : (blocksRun C s o g args st).filterMap (Block.due? s.now) with
    | nil => rfl
    | cons e es =>
      -- the line of the first entry ends with a newline
      rw [hdue] at hlines
      cases lines with
      | nil => cases hlines
      | cons line lines =>
        obtain ⟨hline, -⟩ := List.cons.inj hlines
        rw [String.join_cons] at hjoin
        exact absurd (String.append_eq_empty_iff.mp hjoin).1 (Entry.line_ne_empty hline)
  · intro hdue
    refine ⟨[], ?_, ?_⟩
    · rw [hdue]
      rfl
    · rw [String.join_nil, String.append_empty]

/-- **Mutations are audited in runs that succeed, and in no others.**  Let the log be writable, and
not be the file of the last query.  If all blocks succeed, every mutation that the store executed is
audited.  If a block fails, no file changes; so the log has all entries only if the store executed
no mutation, neither in the blocks before nor at the root of the failed one. -/
theorem audited_unless_block_fails (st : State δ) (hnow : s.now.text?.isSome = true)
    (hlog : (auditLog g).isWritable st.files = true)
    (hapart : Files.placeOf (auditLog g).path ≠ Files.placeOf (LastQuery.path g.stateDirectory)) :
    ((∀ b ∈ blocksRun C s o g args st, b.succeeded = true) → Audited C s o g args st) ∧
      ((∃ b ∈ blocksRun C s o g args st, b.succeeded = false) →
        ((runQuery C s o g args).run st).2.files = st.files ∧
          (Audited C s o g args st ↔
            (blocksRun C s o g args st).filterMap (Block.due? s.now) = [])) := by
  rcases runQuery_cases C s o g args st with
    ⟨hfiles, hblocks⟩ | ⟨given, roots, results, st', hfiles, hrun, hargs, hsucceeded, hdue⟩
  · have hiff := audited_iff_of_text C s o g args (congrArg (auditLog g).text hfiles)
    refine ⟨fun hall => hiff.mpr ?_, fun _ => ⟨hfiles, hiff⟩⟩
    rcases hblocks with hnone | ⟨b, hb, hfailed⟩
    · rw [hnone]
      rfl
    · exact absurd (hall b hb) (by simp [hfailed])
  · constructor
    · intro _
      unfold Audited
      rw [hdue, hrun, ← hfiles]
      rw [← hfiles] at hlog
      exact text_concluded s o g hnow hargs hapart hlog
    · rintro ⟨b, hb, hfailed⟩
      exact absurd (hsucceeded b hb) (by simp [hfailed])

end Run

/-! ## Examples -/

/-- A database that answers every statement with one row, and may refuse to prepare any. -/
def sampleDatabase (prepares : Bool) : Connection Unit :=
  { oneRow with
    prepare := fun _ _ => (if prepares then .ok () else .error "database is locked", ()) }

def sampleSettings : Settings where
  path := "config.toml"
  config := { dsn := "x", auditLog := "audit.log" }
  threshold := ⟨2⟩

/-- An update with a relation of the changed rows, which needs a prepared statement. -/
def sampleQuery : String := "UPDATE users SET a = 1 \x7b\n id\n cars \x7b\n id\n \x7d\n\x7d"

def sampleState : State Unit where
  files := .empty
  database := ()

/-- The blocks that are run for the update. -/
def sampleBlocks (prepares : Bool) : List Block :=
  blocksRun (sampleDatabase prepares) {} {} sampleSettings [sampleQuery] sampleState

/-- The update succeeds, and the log gains its entry. -/
theorem audited_sampleQuery :
    ((sampleBlocks true).filterMap (Block.due? .zero)).length = 1 ∧
      Audited (sampleDatabase true) {} {} sampleSettings [sampleQuery] sampleState :=
  ⟨by decide +kernel,
    (audited_unless_block_fails (sampleDatabase true) {} {} sampleSettings [sampleQuery] sampleState
      (by decide) (by decide +kernel) (by decide +kernel)).1 (by decide +kernel)⟩

/-- **A mutation is executed and leaves no trace**: the store returns the changed row, then fails to
prepare the statement of the nested relation, and the log stays empty. -/
theorem executed_without_trace :
    (auditLog sampleSettings).isWritable sampleState.files = true ∧
      Files.placeOf (auditLog sampleSettings).path ≠
        Files.placeOf (LastQuery.path sampleSettings.stateDirectory) ∧
      ((sampleBlocks false).filterMap (Block.due? .zero)).length = 1 ∧
      ¬ Audited (sampleDatabase false) {} {} sampleSettings [sampleQuery] sampleState := by
  have hexecuted : ((sampleBlocks false).filterMap (Block.due? .zero)).length = 1 := by
    decide +kernel
  have htext : (auditLog sampleSettings).text
      ((runQuery (sampleDatabase false) {} {} sampleSettings [sampleQuery]).run
        sampleState).2.files = (auditLog sampleSettings).text sampleState.files := by
    decide +kernel
  refine ⟨by decide +kernel, by decide +kernel, hexecuted, fun haudited => ?_⟩
  have hnone : (sampleBlocks false).filterMap (Block.due? .zero) = [] :=
    (audited_iff_of_text (sampleDatabase false) {} {} sampleSettings [sampleQuery] htext).mp
      haudited
  rw [hnone] at hexecuted
  cases hexecuted

end Command
end TreeQuery
