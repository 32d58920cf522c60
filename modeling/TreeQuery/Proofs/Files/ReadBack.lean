import TreeQuery.Proofs.Files.Paths

/-!
# Reading what was written

A file that has been replaced reads back as the new content (`read_replace`), if its owner may read
it and its place is inside of a directory; other files are read as before (`read_replace_of_ne`).
On the way two places of the tree change: the staging file comes and goes, and the new file comes.
Neither is a directory, so neither lies on the way to a file, and paths lead where they led before
(`DifferAt.locate`).

That a place is inside of a directory can be seen from a path that was joined from a directory and a
proper name (`not_prefix_join`).  For any other path it follows from the replacement itself, in a
tree whose two topmost directories are directories (`Rooted.not_prefix`).  Whether a file can be
replaced does not depend on what it gets (`exists_replace_eq_ok`).

A file that is only added to holds all that was added, in order: a new file holds what is added
first (`IsVacant.append`), and each addition goes to its end (`Holds.append`).
-/

namespace TreeQuery

open List

namespace Files

theorem above_isPrefix (place : List String) : above place <+: place := by
  unfold above
  split
  · exact prefix_refl place
  · exact List.dropLast_prefix place

/-! ## One place of a tree -/

/-- **The trees differ at most at one place**, and there is no directory in the first tree. -/
structure DifferAt (p : List String) (f g : Files) : Prop where
  elsewhere : ∀ q, q ≠ p → g.node? q = f.node? q
  noDirectory : ∀ mode, f.node? p ≠ some (.directory mode)

namespace DifferAt

variable {p : List String} {f g : Files}

/-- Places that are not below `p` are passed in both trees. -/
theorem passable (hfg : DifferAt p f g) : Passable f g fun here => ¬ p <+: here where
  isOpen here hhere hopen := by
    have hself : g.node? here = f.node? here :=
      hfg.elsewhere here fun h => hhere (h ▸ prefix_refl here)
    unfold Files.isOpen at hopen ⊢
    rw [hself]
    exact hopen
  above here hhere hp := hhere (hp.trans (above_isPrefix here))
  directory here c mode hhere hdir := by
    have hne : here ++ [c] ≠ p := by
      rintro rfl
      exact hfg.noDirectory mode hdir
    refine ⟨(hfg.elsewhere _ hne).trans hdir, fun hp => ?_⟩
    rcases prefix_concat_iff.mp hp with h | h
    · exact hne h.symm
    · exact hhere h

theorem locate (hfg : DifferAt p f g) (hp : ¬ p <+: ["/"]) {path : String} {q : List String}
    {n : Option FileNode} (hl : f.locate path = .ok (q, n)) :
    g.locate path = .ok (q, g.node? q) := by
  refine hfg.passable.locate ?_ hl
  split
  · exact hp
  · exact fun h => hp (h.trans (List.nil_prefix))

end DifferAt

/-- The two directories that always exist are not free. -/
theorem not_prefix_of_free {f : Files} {p : List String} (h : f.node? p = none) :
    ¬ p <+: ["/"] := by
  intro hp
  unfold node? at h
  split at h
  · cases h
  rcases prefix_concat_iff.mp (show p <+: [] ++ ["/"] from hp) with rfl | hp
  · simp at h
  · obtain rfl := prefix_nil.mp hp
    simp at h

theorem moveTarget_spec {f : Files} {path : String} {place : List String}
    (h : f.moveTarget path = .ok place) :
    f.locate path = .ok (place, f.node? place) ∧
      ∀ mode, f.node? place ≠ some (.directory mode) := by
  unfold moveTarget at h
  split at h
  · cases h
  · cases h
  rename_i q n hnot hl
  split at h
  · cases h
    have hn := (locate_eq_ok hl).2
    refine ⟨by rw [← hn, hl], fun mode hdir => ?_⟩
    exact hnot mode (hn.trans hdir)
  · cases h

variable {f g : Files} {path content mark : String} {place : List String} {mode : Nat} {disk : Disk}

/-- **What replacing a file does**: directories are made if they are missing, and in the tree with
these the file is put at its place, where no directory was.  Of the staging file nothing is left. -/
theorem replace_eq_ok (h : f.replace path content mode mark disk = (.ok (), g)) :
    ∃ made n, f.makeDirectories (Path.directory path) = (.ok (), made) ∧
      made.locate path = .ok (placeOf path, n) ∧ DifferAt (placeOf path) made g ∧
      g.node? (placeOf path) =
        some (.file ((if mode = 0 then f.modeOf path else mode) % 512) content) := by
  rcases replace_cases h with ⟨hok, -⟩ | ⟨made, staging, staged, node, -, rfl, hmade, hfree, hnode,
    hothers, htarget, rfl⟩
  · cases hok
  obtain ⟨hl, hnot⟩ := moveTarget_spec htarget
  -- the path leads there without the staging file as well
  have hgone : DifferAt staged staging made :=
    ⟨fun q hq => (hothers q hq).symm, fun _ => by simp [hnode]⟩
  have hdir : ∀ mode', made.node? (placeOf path) ≠ some (.directory mode') := by
    intro mode' hdir
    refine hnot mode' ?_
    rwa [hothers]
    intro heq
    rw [heq, hfree] at hdir
    cases hdir
  refine ⟨made, _, hmade, hgone.locate (not_prefix_of_free hfree) hl, ⟨?_, hdir⟩,
    node?_put_self _ _ _⟩
  intro q hq
  rw [node?_put_of_ne _ hq, node?_erase_of_free hfree hothers]

/-! ## Reading -/

theorem read_of_locate (hl : f.locate path = .ok (place, some (.file mode content)))
    (hmode : (FileNode.file mode "").allows 4) : f.read path = .ok content := by
  have hallows : (FileNode.file mode content).allows 4 = true := hmode
  have hstat : f.stat path = .ok (.file mode content) := by rw [stat, hl]
  rw [read, hstat]
  dsimp only
  rw [hallows, Bool.not_true, if_neg Bool.false_ne_true]

/-- Of what a path leads to only the node counts for reading. -/
theorem read_congr {n : Option FileNode}
    (hf : f.locate path = .ok (place, n)) (hg : g.locate path = .ok (place, n)) :
    g.read path = f.read path := by
  rw [read, read, stat, stat, hf, hg]

theorem locate_of_read (h : f.read path = .ok content) :
    ∃ n, f.locate path = .ok (placeOf path, some n) ∧ f.node? (placeOf path) = some n ∧
      ∀ mode, n ≠ .directory mode := by
  unfold read stat at h
  split at h
  · cases h
  rename_i n hstat
  split at hstat
  · cases hstat
  · cases hstat
  rename_i place n' hl
  cases hstat
  obtain ⟨rfl, hn⟩ := locate_eq_ok hl
  refine ⟨n, hl, hn.symm, ?_⟩
  rintro mode rfl
  split at h
  · cases h
  · cases h

/-- **All of a tree is still there**, and the texts of all files but one are as before. -/
structure KeepsBut (place : List String) (f g : Files) : Prop where
  keeps : Keeps f g
  texts : ∀ q, q ≠ place → g.textAt q = f.textAt q

namespace KeepsBut

variable {place : List String} {f g h : Files}

theorem refl (place : List String) (f : Files) : KeepsBut place f f :=
  ⟨.refl f, fun _ _ => rfl⟩

theorem trans (hfg : KeepsBut place f g) (hgh : KeepsBut place g h) : KeepsBut place f h :=
  ⟨hfg.keeps.trans hgh.keeps, fun q hq => (hgh.texts q hq).trans (hfg.texts q hq)⟩

end KeepsBut

theorem keepsBut_makeEach (place : List String) (f : Files) (ps : List String) :
    KeepsBut place f (f.makeEach ps).2 :=
  ⟨(f.made_makeEach ps).keeps, fun q _ => (f.made_makeEach ps).textAt q⟩

theorem keepsBut_append {line : String} (h : f.append path line = .ok g) :
    KeepsBut (placeOf path) f g := by
  unfold append at h
  split at h
  · cases h
  · rename_i place mode old hopen
    cases h
    obtain ⟨rfl, hnode⟩ := locate_eq_ok (openForWriting_eq_ok hopen).1
    exact ⟨keeps_put_of_file hnode.symm _, fun q hq => f.textAt_put_of_ne hq _⟩
  · rename_i place hopen
    cases h
    obtain ⟨rfl, hfree⟩ := locate_eq_ok (openForWriting_eq_ok hopen).1
    exact ⟨keeps_put_of_free hfree.symm _, fun q hq => f.textAt_put_of_ne hq _⟩
  · cases h
  · cases h
    exact .refl _ f

theorem Keeps.node?_eq (hfg : Keeps f g) {n : FileNode}
    (htext : g.textAt place = f.textAt place) (hn : f.node? place = some n) :
    g.node? place = some n := by
  obtain ⟨n', hn', hbare⟩ := Option.map_eq_some_iff.mp (hfg place n hn)
  unfold textAt at htext
  rw [hn, hn'] at htext
  cases n <;> cases n' <;> simp_all [FileNode.bare]

/-- **What was read can be read again**, if nothing is gone and the text is the same. -/
theorem Keeps.read (hfg : Keeps f g) (htext : g.textAt (placeOf path) = f.textAt (placeOf path))
    (h : f.read path = .ok content) : g.read path = .ok content := by
  obtain ⟨n, hl, hn, -⟩ := locate_of_read h
  rw [← h]
  refine read_congr hl ?_
  rw [hfg.locate hl, hfg.node?_eq htext hn]

/-- **A file that was replaced is there**, if its place is inside of a directory. -/
theorem locate_replace (hinside : ¬ placeOf path <+: ["/"])
    (h : f.replace path content mode mark disk = (.ok (), g)) :
    g.locate path = .ok (placeOf path,
      some (.file ((if mode = 0 then f.modeOf path else mode) % 512) content)) := by
  obtain ⟨made, n, -, hl, hdiffer, hnode⟩ := replace_eq_ok h
  rw [hdiffer.locate hinside hl, hnode]

/-- **A file that was replaced reads back as the new content.** -/
theorem read_replace (hinside : ¬ placeOf path <+: ["/"]) (hmode : mode ≠ 0)
    (hreadable : (FileNode.file (mode % 512) "").allows 4)
    (h : f.replace path content mode mark disk = (.ok (), g)) : g.read path = .ok content := by
  have hlocate := locate_replace hinside h
  rw [if_neg hmode] at hlocate
  exact read_of_locate hlocate hreadable

/-- **Other files are read as before.** -/
theorem read_replace_of_ne {other text : String} (hinside : ¬ placeOf path <+: ["/"])
    (hother : placeOf other ≠ placeOf path) (hread : f.read other = .ok text)
    (h : f.replace path content mode mark disk = (.ok (), g)) : g.read other = .ok text := by
  obtain ⟨made, -, hmade, -, hdiffer, -⟩ := replace_eq_ok h
  have htext : made.textAt (placeOf other) = f.textAt (placeOf other) := by
    have hmadeText := f.textAt_makeDirectories (Path.directory path) (placeOf other)
    rwa [hmade] at hmadeText
  have hbefore := (makeEach_eq_ok hmade).1.read htext hread
  obtain ⟨n, hl, hn, -⟩ := locate_of_read hbefore
  rw [← hbefore]
  refine read_congr hl ?_
  rw [hdiffer.locate hinside hl, hdiffer.elsewhere _ hother, hn]

/-! ## Paths that can be written -/

/-- **The two directories that always exist are directories.** -/
def Rooted (f : Files) : Prop :=
  ∀ place, place <+: ["/"] → ∃ mode, f.node? place = some (.directory mode)

theorem Rooted.of_keeps (h : f.Rooted) (hfg : Keeps f g) : g.Rooted := by
  intro place hplace
  obtain ⟨mode, hdir⟩ := h place hplace
  exact ⟨mode, hfg.directory hdir⟩

theorem rooted_empty : empty.Rooted := by
  intro place hplace
  rcases prefix_concat_iff.mp (show place <+: [] ++ ["/"] from hplace) with rfl | hnil
  · exact ⟨newDirectoryMode, rfl⟩
  · obtain rfl := prefix_nil.mp hnil
    exact ⟨newDirectoryMode, rfl⟩

/-- A file that can be replaced is inside of a directory, whatever the path looks like. -/
theorem Rooted.not_prefix (hf : f.Rooted)
    (h : f.replace path content mode mark disk = (.ok (), g)) : ¬ placeOf path <+: ["/"] := by
  obtain ⟨made, n, hmade, -, hdiffer, -⟩ := replace_eq_ok h
  intro hplace
  obtain ⟨mode', hdir⟩ := hf.of_keeps (makeEach_eq_ok hmade).1 _ hplace
  exact hdiffer.noDirectory mode' hdir

theorem Rooted.read_replace (hf : f.Rooted) (hmode : mode ≠ 0)
    (hreadable : (FileNode.file (mode % 512) "").allows 4)
    (h : f.replace path content mode mark disk = (.ok (), g)) : g.read path = .ok content :=
  Files.read_replace (hf.not_prefix h) hmode hreadable h

theorem Rooted.replace (hf : f.Rooted)
    (h : f.replace path content mode mark disk = (.ok (), g)) : g.Rooted := by
  obtain ⟨made, n, hmade, -, hdiffer, -⟩ := replace_eq_ok h
  intro place hplace
  obtain ⟨mode', hdir⟩ := hf.of_keeps (makeEach_eq_ok hmade).1 place hplace
  have hne : place ≠ placeOf path := by
    rintro rfl
    exact hdiffer.noDirectory mode' hdir
  exact ⟨mode', (hdiffer.elsewhere place hne).trans hdir⟩

theorem Keeps.isWritable (hfg : Keeps f g)
    (h : f.isWritable place) : g.isWritable place := by
  unfold Files.isWritable at h ⊢
  cases hn : f.node? place with
  | none => rw [hn] at h; cases h
  | some n =>
    obtain ⟨n', hn', hbare⟩ := Option.map_eq_some_iff.mp (hfg place n hn)
    rw [hn] at h
    rw [hn', Option.map_some, ← n'.allows_bare, ← n'.allows_bare, hbare, n.allows_bare,
      n.allows_bare]
    exact h

theorem isWritable_of_moveTarget
    (h : f.moveTarget path = .ok place) : f.isWritable (above place) := by
  unfold moveTarget at h
  split at h
  · cases h
  · cases h
  split at h
  · rename_i hwritable
    cases h
    exact hwritable
  · cases h

theorem moveTarget_of_locate (hl : f.locate path = .ok (place, f.node? place))
    (hnot : ∀ mode, f.node? place ≠ some (.directory mode))
    (hwritable : f.isWritable (above place)) : f.moveTarget path = .ok place := by
  rw [moveTarget, hl]
  cases hn : f.node? place with
  | none => simp [hwritable]
  | some n =>
    cases n with
    | directory mode => exact absurd hn (hnot mode)
    | file mode content => simp [hwritable]
    | device full => simp [hwritable]

/-- What a file holds does not matter for the ways through a tree. -/
theorem keeps_of_file {p : List String} {content' : String}
    (hfg : ∀ q, q ≠ p → g.node? q = f.node? q) (hf : f.node? p = some (.file mode content))
    (hg : g.node? p = some (.file mode content')) : Keeps f g := by
  intro place n hn
  by_cases hp : place = p
  · subst hp
    rw [hf] at hn
    cases hn
    rw [hg]
    rfl
  · rw [hfg place hp, hn]
    rfl

theorem stage_eq_none_iff {p : List String} {ss : List Staging} :
    (f.stage p disk ss).1 = none ↔ ∀ step ∈ ss.map Staging.step, disk.fault? step = none := by
  induction ss generalizing f with
  | nil => simp [stage]
  | cons s ss ih =>
    rw [stage, map_cons, forall_mem_cons]
    split
    · rename_i hfault
      simp [hfault]
    · rename_i hfault
      rw [ih, and_iff_right hfault]

/-- **Whether a file can be replaced does not depend on the new content.** -/
theorem exists_replace_eq_ok
    (h : f.replace path content mode mark disk = (.ok (), g)) (content' : String) :
    ∃ g', f.replace path content' mode mark disk = (.ok (), g') := by
  unfold replace at h ⊢
  dsimp only at h ⊢
  split at h
  · cases h
  rename_i made hmade
  split at h
  · cases h
  rename_i staged created hcreate
  obtain ⟨hfree, rfl⟩ := create_eq_ok hcreate
  generalize (if mode = 0 then f.modeOf path else mode) % 512 = bits at h ⊢
  split at h
  · cases h
  rename_i staging hstage
  split at h
  · cases h
  rename_i place htarget
  -- the steps with the other staging file fail as little as those with this one
  obtain ⟨staging', hstage'⟩ : ∃ staging', (made.put staged (.file stagingMode "")).stage staged
      disk (stagings bits content' disk) = (none, staging') := by
    have hnone := stage_eq_none_iff.mp (congrArg Prod.fst hstage)
    exact ⟨_, Prod.ext (stage_eq_none_iff.mpr hnone) rfl⟩
  obtain ⟨hnode, hothers⟩ := of_stage_eq_none hstage
  obtain ⟨hnode', hothers'⟩ := of_stage_eq_none hstage'
  have hkeeps : Keeps staging staging' :=
    keeps_of_file (fun q hq => (hothers' q hq).trans (hothers q hq).symm) hnode hnode'
  have hback : Keeps staging' staging :=
    keeps_of_file (fun q hq => (hothers q hq).trans (hothers' q hq).symm) hnode' hnode
  obtain ⟨hl, hnot⟩ := moveTarget_spec htarget
  have htarget' := moveTarget_of_locate (hkeeps.locate hl)
    (fun mode' hdir => hnot mode' (hback.directory hdir))
    (hkeeps.isWritable (isWritable_of_moveTarget htarget))
  rw [hstage']
  dsimp only
  rw [htarget']
  exact ⟨_, rfl⟩

/-! ## A file that grows -/

/-- The path leads to a file of ours with this text. -/
def Holds (f : Files) (path text : String) : Prop :=
  f.locate path = .ok (placeOf path, some (.file newMode text))

section Growing

variable {dir text line : String}

theorem Holds.read (h : f.Holds path text) : f.read path = .ok text :=
  read_of_locate h rfl

theorem Holds.makeDirectories (h : f.Holds path text)
    (hmade : f.makeDirectories dir = (.ok (), g)) : g.Holds path text := by
  have hkeeps := (makeEach_eq_ok hmade).1
  have htext := f.textAt_makeDirectories dir (placeOf path)
  rw [hmade] at htext
  rw [Holds, hkeeps.locate h, hkeeps.node?_eq htext (locate_eq_ok h).2.symm]

theorem Holds.append (h : f.Holds path text) (hg : f.append path line = .ok g) :
    g.Holds path (text ++ line) := by
  have hopen : f.openForWriting path = .ok (placeOf path, some (.file newMode text)) := by
    rw [openForWriting, h]
    rfl
  rw [Files.append, hopen] at hg
  cases hg
  rw [Holds, (keeps_put_of_file (locate_eq_ok h).2.symm _).locate h, node?_put_self]

/-- Nothing stands at the place, unless it is a directory. -/
def IsVacant (f : Files) (place : List String) : Prop :=
  ∀ n, f.node? place = some n → ∃ mode, n = .directory mode

theorem IsVacant.makeDirectories (h : f.IsVacant place)
    (hmade : f.makeDirectories dir = (.ok (), g)) : g.IsVacant place := by
  have hnew := f.made_makeEach (Path.ancestors dir) place
  rw [← Files.makeDirectories, hmade] at hnew
  intro n hn
  rcases hnew with hsame | ⟨-, hnew, -⟩
  · exact h n (hsame.symm.trans hn)
  · exact ⟨_, Option.some.inj (hn.symm.trans hnew)⟩

/-- What is added where nothing stands makes a new file. -/
theorem IsVacant.append (h : f.IsVacant (placeOf path)) (hg : f.append path line = .ok g) :
    g.Holds path line := by
  -- a node that can be written is no directory
  have hnone : ∀ place n, f.openForWriting path = .ok (place, some n) → False := by
    intro place n hopen
    obtain ⟨rfl, hnode⟩ := locate_eq_ok (openForWriting_eq_ok hopen).1
    obtain ⟨mode, rfl⟩ := h n hnode.symm
    rw [openForWriting, (openForWriting_eq_ok hopen).1] at hopen
    cases hopen
  unfold Files.append at hg
  split at hg
  · cases hg
  · rename_i hopen
    exact (hnone _ _ hopen).elim
  · rename_i place hopen
    cases hg
    obtain ⟨hl, -⟩ := openForWriting_eq_ok hopen
    obtain ⟨rfl, hfree⟩ := locate_eq_ok hl
    rw [Holds, (keeps_put_of_free hfree.symm _).locate hl, node?_put_self]
  · rename_i hopen
    exact (hnone _ _ hopen).elim
  · rename_i hopen
    exact (hnone _ _ hopen).elim

end Growing

end Files

end TreeQuery
