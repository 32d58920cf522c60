import TreeQuery.Files.Replace

/-!
# Places and the texts that stand there

There are no shortcuts in a tree of files: the place that a path leads to can be read off the path
(`placeOf`), and following it only tells what stands there, or why there is no way
(`locate_eq_ok`).  So the text of a file is looked up by its place (`textAt`), and for each
operation there is a lemma that says at which places texts change, and how.

Writing must not bar the way for later writing.  `Keeps f g` says that nothing of `f` is gone or of
another kind in `g`; then all ways of `f` are ways of `g` (`Keeps.locate`).  Making directories and
adding to a file keep everything, replacing a file does not.
-/

namespace TreeQuery

open List

section Lookup

variable {α β : Type} [BEq α] [LawfulBEq α]

theorem lookup_filter_ne {p q : α} (h : q ≠ p) (entries : List (α × β)) :
    (entries.filter fun e => e.1 != p).lookup q = entries.lookup q := by
  induction entries with
  | nil => rfl
  | cons e entries ih =>
    obtain ⟨place, n⟩ := e
    by_cases hp : place = p
    · subst hp
      rw [filter_cons_of_neg (by simp), ih, lookup_cons, beq_eq_false_iff_ne.mpr h]
    · rw [filter_cons_of_pos (by simpa using hp), lookup_cons, lookup_cons, ih]

theorem lookup_filter_self (p : α) (entries : List (α × β)) :
    (entries.filter fun e => e.1 != p).lookup p = none := by
  rw [lookup_eq_none_iff]
  intro e he
  have := (mem_filter.mp he).2
  simp only [bne_iff_ne, ne_eq] at this
  simpa using fun h => this h.symm

end Lookup

/-- A node without what it holds: its kind and its permission bits. -/
def FileNode.bare : FileNode → FileNode
  | .file mode _ => .file mode ""
  | n => n

theorem FileNode.allows_bare (n : FileNode) (bit : Nat) : n.bare.allows bit = n.allows bit := by
  cases n <;> rfl

theorem FileNode.bare_eq_directory {n : FileNode} {mode : Nat} :
    n.bare = .directory mode ↔ n = .directory mode := by
  cases n <;> simp [bare]

namespace Files

/-! ## Looking up places -/

@[simp]
theorem node?_put_self (f : Files) (p : List String) (n : FileNode) :
    (f.put p n).node? p = some n := by
  simp [node?, put]

variable {f g : Files} {path : String} {p q ps place : List String} {n : Option FileNode}
  {mode : Nat} {content : String}

theorem node?_put_of_ne (f : Files) (h : q ≠ p) (n : FileNode) :
    (f.put p n).node? q = f.node? q := by
  simp [node?, put, lookup_cons, beq_eq_false_iff_ne.mpr h, lookup_filter_ne h]

theorem node?_erase_of_ne (f : Files) (h : q ≠ p) : (f.erase p).node? q = f.node? q := by
  simp [node?, erase, lookup_filter_ne h]

/-- What was put at a free place and is taken away again has not been there. -/
theorem node?_erase_of_free (h : f.node? p = none) (hfg : ∀ q, q ≠ p → g.node? q = f.node? q)
    (q : List String) : (g.erase p).node? q = f.node? q := by
  by_cases hq : q = p
  · subst hq
    unfold node? at h ⊢
    split at h
    · cases h
    · rw [erase, lookup_filter_self]
  · rw [node?_erase_of_ne _ hq, hfg q hq]

/-! ## Where paths lead -/

/-- Where one component of a path leads to. -/
def stepTo (here : List String) (c : String) : List String :=
  if c == "." then here else if c == ".." then above here else here ++ [c]

def placeOf (path : String) : List String :=
  (steps path).foldl stepTo (if Path.isAbsolute path then ["/"] else [])

theorem walk_eq_ok {here : List String} (h : f.walk here ps = .ok (q, n)) :
    q = ps.foldl stepTo here ∧ n = f.node? q := by
  induction ps generalizing here with
  | nil =>
    cases h
    exact ⟨rfl, rfl⟩
  | cons c rest ih =>
    unfold walk at h
    rw [foldl_cons, stepTo]
    split at h
    · cases h
    split at h
    · rename_i hc
      rw [if_pos hc]
      exact ih h
    rename_i hdot
    rw [if_neg hdot]
    split at h
    · rename_i hc
      rw [if_pos hc]
      exact ih h
    rename_i hup
    rw [if_neg hup]
    split at h
    · cases h
    split at h
    · exact ih h
    all_goals
      rename_i hnode
      split at h
      · rename_i hrest
        cases h
        rw [isEmpty_iff.mp hrest, hnode]
        exact ⟨rfl, rfl⟩
      · cases h

theorem walk_of_locate (h : f.locate path = .ok (q, n)) :
    f.walk (if Path.isAbsolute path then ["/"] else []) (steps path) = .ok (q, n) := by
  unfold locate at h
  split at h
  · cases h
  split at h
  · cases h
  split at h
  · cases h
  · exact h

/-- **A path leads to the place that it names**, if it leads anywhere. -/
theorem locate_eq_ok (h : f.locate path = .ok (q, n)) :
    q = placeOf path ∧ n = f.node? q :=
  walk_eq_ok (walk_of_locate h)

/-! ## Texts by their places -/

/-- **The text of the file at a place**, empty where there is no file. -/
def textAt (f : Files) (place : List String) : String :=
  match f.node? place with
  | some (.file _ content) => content
  | _ => ""

theorem textAt_congr (h : g.node? place = f.node? place) :
    g.textAt place = f.textAt place := by
  rw [textAt, h, textAt]

theorem textAt_put_self (f : Files) (p : List String) (mode : Nat) (content : String) :
    (f.put p (.file mode content)).textAt p = content := by
  rw [textAt, node?_put_self]

theorem textAt_put_of_ne (f : Files) (h : q ≠ p) (n : FileNode) :
    (f.put p n).textAt q = f.textAt q :=
  textAt_congr (f.node?_put_of_ne h n)

theorem textAt_of_free (h : f.node? p = none) : f.textAt p = "" := by
  rw [textAt, h]

/-! ## Ways through two trees -/

/-- **Whoever gets through the first tree gets through the second**, by way of places of a kind:
they can be searched in the second tree if they can in the first, and the directories below them
are the same and of this kind. -/
structure Passable (f g : Files) (on : List String → Prop) : Prop where
  isOpen : ∀ here, on here → f.isOpen here = true → g.isOpen here = true
  above : ∀ here, on here → on (above here)
  directory : ∀ here c mode, on here → f.node? (here ++ [c]) = some (.directory mode) →
    g.node? (here ++ [c]) = some (.directory mode) ∧ on (here ++ [c])

namespace Passable

variable {on : List String → Prop}

theorem walk (hfg : Passable f g on) {here : List String}
    (hon : on here) (hw : f.walk here ps = .ok (q, n)) :
    g.walk here ps = .ok (q, g.node? q) := by
  induction ps generalizing here with
  | nil =>
    cases hw
    rfl
  | cons c rest ih =>
    unfold Files.walk at hw ⊢
    split at hw
    · cases hw
    rename_i hopen
    rw [Bool.not_eq_true', Bool.not_eq_false] at hopen
    rw [if_neg (by rw [hfg.isOpen here hon hopen]; simp)]
    split at hw
    · rename_i hc
      rw [if_pos hc]
      exact ih hon hw
    rename_i hdot
    rw [if_neg hdot]
    split at hw
    · rename_i hc
      rw [if_pos hc]
      exact ih (hfg.above here hon) hw
    rename_i hup
    rw [if_neg hup]
    split at hw
    · cases hw
    rename_i hlong
    rw [if_neg hlong]
    split at hw
    · rename_i mode hdir
      obtain ⟨hdir', hon'⟩ := hfg.directory here c mode hon hdir
      rw [hdir']
      exact ih hon' hw
    -- what stood at the end of the way, or nothing: in `g` there may be anything by now
    all_goals
      split at hw
      · rename_i hrest
        cases hw
        rw [isEmpty_iff.mp hrest]
        cases hg : g.node? (here ++ [c]) with
        | none => rfl
        | some n =>
          cases n with
          | file mode content => rfl
          | device full => rfl
          | directory mode => simp only [Files.walk, hg]
      · cases hw

theorem locate (hfg : Passable f g on) (hon : on (if Path.isAbsolute path then ["/"] else []))
    (hl : f.locate path = .ok (q, n)) : g.locate path = .ok (q, g.node? q) := by
  unfold Files.locate at hl ⊢
  split at hl
  · cases hl
  rename_i hzero
  rw [if_neg hzero]
  split at hl
  · cases hl
  rename_i hempty
  rw [if_neg hempty]
  split at hl
  · cases hl
  · rename_i hlong
    rw [if_neg hlong]
    exact hfg.walk hon hl

end Passable

/-! ## What operations keep -/

/-- **All of a tree is still there**, of the same kind and with the same permission bits. -/
def Keeps (f g : Files) : Prop :=
  ∀ place n, f.node? place = some n → (g.node? place).map FileNode.bare = some n.bare

namespace Keeps

variable {h : Files}

theorem refl (f : Files) : Keeps f f :=
  fun _ _ hn => by rw [hn]; rfl

theorem trans (hfg : Keeps f g) (hgh : Keeps g h) : Keeps f h := by
  intro place n hn
  obtain ⟨n', hn', hbare⟩ := Option.map_eq_some_iff.mp (hfg place n hn)
  rw [hgh place n' hn', hbare]

/-- A directory is still the same directory. -/
theorem directory (hfg : Keeps f g) {mode : Nat}
    (hdir : f.node? place = some (.directory mode)) : g.node? place = some (.directory mode) := by
  obtain ⟨n, hn, hbare⟩ := Option.map_eq_some_iff.mp (hfg place _ hdir)
  rw [hn, FileNode.bare_eq_directory.mp hbare]

theorem isOpen (hfg : Keeps f g) (hopen : f.isOpen place) :
    g.isOpen place := by
  unfold Files.isOpen at hopen ⊢
  cases hn : f.node? place with
  | none => rw [hn] at hopen; cases hopen
  | some n =>
    obtain ⟨n', hn', hbare⟩ := Option.map_eq_some_iff.mp (hfg place n hn)
    rw [hn] at hopen
    rw [hn', Option.map_some, ← n'.allows_bare, hbare, n.allows_bare]
    exact hopen

theorem passable (hfg : Keeps f g) : Passable f g fun _ => True where
  isOpen _ _ := hfg.isOpen
  above _ _ := trivial
  directory _ _ _ _ hdir := ⟨hfg.directory hdir, trivial⟩

/-- **A way through a tree** is a way through every tree that keeps it. -/
theorem locate (hfg : Keeps f g)
    (hl : f.locate path = .ok (q, n)) : g.locate path = .ok (q, g.node? q) :=
  hfg.passable.locate trivial hl

end Keeps

theorem keeps_put_of_free (h : f.node? p = none) (n : FileNode) :
    Keeps f (f.put p n) := by
  intro place n' hn'
  have hne : place ≠ p := by
    rintro rfl
    rw [h] at hn'
    cases hn'
  rw [f.node?_put_of_ne hne, hn']
  rfl

theorem keeps_put_of_file (h : f.node? p = some (.file mode content))
    (content' : String) : Keeps f (f.put p (.file mode content')) := by
  intro place n' hn'
  by_cases hne : place = p
  · subst hne
    rw [h] at hn'
    cases hn'
    rw [node?_put_self]
    rfl
  · rw [f.node?_put_of_ne hne, hn']
    rfl

/-! ## Making directories -/

def LeadsToDirectory (f : Files) (path : String) : Prop :=
  ∃ place mode, f.locate path = .ok (place, some (.directory mode))

theorem LeadsToDirectory.of_keeps (h : f.LeadsToDirectory path)
    (hfg : Keeps f g) : g.LeadsToDirectory path := by
  obtain ⟨place, mode, hl⟩ := h
  have hdir := hfg.directory (locate_eq_ok hl).2.symm
  exact ⟨place, mode, by rw [hfg.locate hl, hdir]⟩

theorem makeDirectory_of_leadsTo (h : f.LeadsToDirectory path) :
    f.makeDirectory path = .ok f := by
  obtain ⟨place, mode, hl⟩ := h
  rw [makeDirectory, hl]

/-- **New directories at the places of some paths**, where nothing stood, and all else as before. -/
def Made (paths : List String) (f g : Files) : Prop :=
  ∀ q, g.node? q = f.node? q ∨ f.node? q = none ∧
    g.node? q = some (.directory newDirectoryMode) ∧ ∃ p ∈ paths, q = placeOf p

namespace Made

theorem keeps (h : Made ps f g) : Keeps f g := by
  intro place n hn
  rcases h place with hsame | ⟨hfree, -⟩
  · rw [hsame, hn]
    rfl
  · rw [hn] at hfree
    cases hfree

theorem textAt (h : Made ps f g) (place : List String) : g.textAt place = f.textAt place := by
  rcases h place with hsame | ⟨hfree, hnew, -⟩
  · exact textAt_congr hsame
  · rw [textAt_of_free hfree, Files.textAt, hnew]

end Made

/-- A directory that was made is there, and all else is as before. -/
theorem makeDirectory_eq_ok (h : f.makeDirectory path = .ok g) :
    Made [path] f g ∧ g.LeadsToDirectory path := by
  unfold makeDirectory at h
  split at h
  · cases h
  · rename_i hl
    cases h
    exact ⟨fun _ => .inl rfl, ⟨_, _, hl⟩⟩
  · cases h
  rename_i place hl
  split at h
  · cases h
    obtain ⟨rfl, hfree⟩ := locate_eq_ok hl
    refine ⟨fun q => ?_, ⟨placeOf path, newDirectoryMode, ?_⟩⟩
    · by_cases hq : q = placeOf path
      · rw [hq]
        exact .inr ⟨hfree.symm, node?_put_self _ _ _, path, mem_singleton_self _, rfl⟩
      · exact .inl (f.node?_put_of_ne hq _)
    · rw [(keeps_put_of_free hfree.symm _).locate hl, node?_put_self]
  · cases h

theorem makeEach_of_leadsTo (h : ∀ p ∈ ps, f.LeadsToDirectory p) :
    f.makeEach ps = (.ok (), f) := by
  induction ps with
  | nil => rfl
  | cons p ps ih =>
    rw [makeEach, makeDirectory_of_leadsTo (h p mem_cons_self)]
    exact ih fun q hq => h q (mem_cons_of_mem p hq)

theorem made_makeEach (f : Files) (ps : List String) : Made ps f (f.makeEach ps).2 := by
  induction ps generalizing f with
  | nil => exact fun _ => .inl rfl
  | cons p ps ih =>
    rw [makeEach]
    split
    · exact fun _ => .inl rfl
    rename_i g hmade
    intro q
    -- made by the first path, or by the others
    rcases (makeDirectory_eq_ok hmade).1 q with hsame | ⟨hfree, hnew, p', hp', rfl⟩
    · rw [← hsame]
      rcases ih g q with hsame | ⟨hfree, hnew, p', hp', hq⟩
      · exact .inl hsame
      · exact .inr ⟨hfree, hnew, p', mem_cons_of_mem p hp', hq⟩
    · obtain rfl := mem_singleton.mp hp'
      rcases ih g (placeOf p') with hsame | ⟨hnone, -⟩
      · exact .inr ⟨hfree, hsame.trans hnew, p', mem_cons_self, rfl⟩
      · rw [hnew] at hnone
        cases hnone

theorem makeEach_eq_ok (h : f.makeEach ps = (.ok (), g)) :
    Keeps f g ∧ ∀ p ∈ ps, g.LeadsToDirectory p := by
  have hmade := f.made_makeEach ps
  rw [h] at hmade
  refine ⟨hmade.keeps, ?_⟩
  clear hmade
  induction ps generalizing f with
  | nil => exact fun p hp => absurd hp not_mem_nil
  | cons p ps ih =>
    rw [makeEach] at h
    split at h
    · cases h
    rename_i f' hmade
    refine forall_mem_cons.mpr ⟨(makeDirectory_eq_ok hmade).2.of_keeps ?_, ih h⟩
    have hkeeps := (f'.made_makeEach ps).keeps
    rwa [h] at hkeeps

theorem textAt_makeDirectories (f : Files) (path : String) (place : List String) :
    (f.makeDirectories path).2.textAt place = f.textAt place :=
  (f.made_makeEach _).textAt place

/-- **Directories need to be made only once**: a tree that keeps what was made has nothing to
add. -/
theorem makeDirectories_again {h : Files}
    (hmade : f.makeDirectories path = (.ok (), g)) (hgh : Keeps g h) :
    h.makeDirectories path = (.ok (), h) :=
  makeEach_of_leadsTo fun p hp => ((makeEach_eq_ok hmade).2 p hp).of_keeps hgh

/-! ## Adding to a file and replacing it -/

/-- The path leads to a file that may be written, or to a place where one may be made. -/
def isAppendable (f : Files) (path : String) : Bool :=
  match f.openForWriting path with
  | .ok (_, some (.file _ _)) => true
  | .ok (_, none) => true
  | _ => false

theorem openForWriting_eq_ok (h : f.openForWriting path = .ok (place, n)) :
    f.locate path = .ok (place, n) ∧ ∀ m ∈ n, m.allows 2 := by
  unfold openForWriting at h
  split at h
  · cases h
  · cases h
  · rename_i hl
    split at h
    · rename_i hallows
      cases h
      exact ⟨hl, fun m hm => by cases hm; exact hallows⟩
    · cases h
  · rename_i hl
    split at h
    · cases h
      exact ⟨hl, fun m hm => by cases hm⟩
    · cases h

theorem isAppendable_of_file (hl : f.locate path = .ok (place, some (.file mode content)))
    (hmode : (FileNode.file mode "").allows 2) : f.isAppendable path := by
  have hallows : (FileNode.file mode content).allows 2 = true := hmode
  rw [isAppendable, openForWriting, hl]
  simp only [hallows, if_true]

/-- **Adding to a file** changes its text and nothing else, and more can be added after that. -/
theorem append_of_isAppendable (h : f.isAppendable path) (line : String) :
    ∃ g, f.append path line = .ok g ∧ Keeps f g ∧ g.isAppendable path ∧
      g.textAt (placeOf path) = f.textAt (placeOf path) ++ line := by
  unfold isAppendable at h
  split at h
  · rename_i place mode old hopen
    obtain ⟨hl, hallows⟩ := openForWriting_eq_ok hopen
    obtain ⟨rfl, hnode⟩ := locate_eq_ok hl
    have hkeeps := keeps_put_of_file hnode.symm (old ++ line)
    refine ⟨f.put (placeOf path) (.file mode (old ++ line)), ?_, hkeeps, ?_, ?_⟩
    · rw [append, hopen]
    · exact isAppendable_of_file (by rw [hkeeps.locate hl, node?_put_self])
        (hallows (.file mode old) rfl)
    · rw [textAt_put_self, textAt, ← hnode]
  · rename_i place hopen
    obtain ⟨hl, -⟩ := openForWriting_eq_ok hopen
    obtain ⟨rfl, hfree⟩ := locate_eq_ok hl
    have hkeeps := keeps_put_of_free hfree.symm (.file newMode line)
    refine ⟨f.put (placeOf path) (.file newMode line), ?_, hkeeps, ?_, ?_⟩
    · rw [append, hopen]
    · exact isAppendable_of_file (by rw [hkeeps.locate hl, node?_put_self]) rfl
    · rw [textAt_put_self, textAt_of_free hfree.symm, String.empty_append]
  · cases h

theorem create_eq_ok (h : f.create path = .ok (place, g)) :
    f.node? place = none ∧ g = f.put place (.file stagingMode "") := by
  unfold create at h
  split at h
  · cases h
  · cases h
  rename_i hl
  split at h
  · cases h
    exact ⟨(locate_eq_ok hl).2.symm, rfl⟩
  · cases h

theorem moveTarget_eq_ok (h : f.moveTarget path = .ok place) : place = placeOf path := by
  unfold moveTarget at h
  split at h
  · cases h
  · cases h
  rename_i hl
  split at h
  · cases h
    exact (locate_eq_ok hl).1
  · cases h

section Staging

variable {disk : Disk} {ss : List Staging} {mark : String}

/-- Steps with a staging file change nothing else. -/
theorem node?_stage_of_ne (f : Files) (h : q ≠ p) (disk : Disk) (ss : List Staging) :
    (f.stage p disk ss).2.node? q = f.node? q := by
  induction ss generalizing f with
  | nil => rfl
  | cons s ss ih =>
    rw [stage]
    split
    · exact f.node?_put_of_ne h _
    · rw [ih, f.node?_put_of_ne h]

/-- If no step fails, the staging file is what the last one makes of it. -/
theorem node?_stage_self {s : Staging} (hs : ss.getLast? = some s)
    (h : (f.stage p disk ss).1 = none) : (f.stage p disk ss).2.node? p = some s.done := by
  induction ss generalizing f with
  | nil => cases hs
  | cons first ss ih =>
    rw [stage] at h ⊢
    split at h
    · cases h
    cases ss with
    | nil =>
      cases hs
      exact node?_put_self _ _ _
    | cons second ss => exact ih (by rwa [getLast?_cons_cons] at hs) h

/-- A staging file that went through all the steps has the content, and nothing else changed. -/
theorem of_stage_eq_none {n : FileNode}
    (h : (f.put p n).stage p disk (stagings mode content disk) = (none, g)) :
    g.node? p = some (.file mode content) ∧ ∀ q, q ≠ p → g.node? q = f.node? q := by
  have hself := node?_stage_self (s := ⟨.close, _, _⟩) rfl (congrArg Prod.fst h)
  rw [h] at hself
  refine ⟨hself, fun q hq => ?_⟩
  have hothers := node?_stage_of_ne (f.put p n) hq disk (stagings mode content disk)
  rwa [h, node?_put_of_ne _ hq] at hothers

/-- **What replacing a file can do.**  If it fails, nothing is left of it but directories.  If it
does not, a staging file with the content has been made at a free place and moved. -/
theorem replace_cases {r : Except ReplaceError Unit}
    (h : f.replace path content mode mark disk = (r, g)) :
    (r.isOk = false ∧
      ∀ q, g.node? q = (f.makeDirectories (Path.directory path)).2.node? q) ∨
    ∃ (made staging : Files) (staged : List String) (node : FileNode), r = .ok () ∧
      node = .file ((if mode = 0 then f.modeOf path else mode) % 512) content ∧
      f.makeDirectories (Path.directory path) = (.ok (), made) ∧ made.node? staged = none ∧
      staging.node? staged = some node ∧ (∀ q, q ≠ staged → staging.node? q = made.node? q) ∧
      staging.moveTarget path = .ok (placeOf path) ∧
      g = (staging.erase staged).put (placeOf path) node := by
  unfold replace at h
  dsimp only at h
  split at h <;> rename_i made hmade <;> rw [hmade]
  · cases h
    exact .inl ⟨rfl, fun _ => rfl⟩
  split at h
  · cases h
    exact .inl ⟨rfl, fun _ => rfl⟩
  rename_i staged created hcreate
  obtain ⟨hfree, rfl⟩ := create_eq_ok hcreate
  split at h <;> rename_i staging hstage
  · cases h
    refine .inl ⟨rfl, node?_erase_of_free hfree fun q hq => ?_⟩
    have hothers := node?_stage_of_ne (made.put staged (.file stagingMode "")) hq disk
      (stagings ((if mode = 0 then f.modeOf path else mode) % 512) content disk)
    rwa [hstage, node?_put_of_ne _ hq] at hothers
  obtain ⟨hnode, hothers⟩ := of_stage_eq_none hstage
  split at h
  · cases h
    exact .inl ⟨rfl, node?_erase_of_free hfree hothers⟩
  rename_i place htarget
  cases h
  obtain rfl := moveTarget_eq_ok htarget
  exact .inr ⟨made, staging, staged, _, rfl, rfl, rfl, hfree, hnode, hothers, htarget, rfl⟩

/-- **Replacing a file** changes no text but its own: the staging file comes and goes. -/
theorem textAt_replace_of_ne (f : Files)
    (h : place ≠ placeOf path) (content : String) (mode : Nat) (mark : String) :
    (f.replace path content mode mark disk).2.textAt place = f.textAt place := by
  rw [← f.textAt_makeDirectories (Path.directory path) place]
  cases hr : f.replace path content mode mark disk with | mk r g
  rcases replace_cases hr with ⟨-, hsame⟩ | ⟨made, staging, staged, node, -, -, hmade, hfree, -,
    hothers, -, rfl⟩
  · exact textAt_congr (hsame place)
  · rw [textAt_put_of_ne _ h, hmade]
    exact textAt_congr (node?_erase_of_free hfree hothers place)

end Staging

end Files
end TreeQuery
