import TreeQuery.Proofs.Files.ReadBack

/-!
# A file is replaced as a whole or not at all

Replacing a file makes directories, stages the content beside the file and moves it to its place;
each of these steps may fail, and so may the disk at each step with the staging file.  Whatever
happens, all other places are as before, but for missing directories on the way (`AsBefore`); if it
fails, so is the place of the file (`replace_all_or_nothing`).

The permission bits that are kept are those that the path led to before the directories were made.
They are those of the file that is replaced: in a tree (`IsTree`) a file has all the directories
above it, so none was made.  The files of the commands form a tree at first (`isTree_empty`), and
replacing one keeps it (`IsTree.replace`).
-/

namespace TreeQuery.Files

open List

variable {f g made : Files} {path content mark : String} {mode : Nat} {p q : List String}
  {n : FileNode} {disk : Disk}

/-! ## Trees -/

def IsDirectory (f : Files) (place : List String) : Prop :=
  ∃ mode, f.node? place = some (.directory mode)

/-- **The files form a tree**: each stands in a directory and has the nine permission bits. -/
structure IsTree (f : Files) : Prop where
  rooted : f.Rooted
  inside : ∀ place name n, f.node? (place ++ [name]) = some n → f.IsDirectory place
  bits : ∀ place mode content, f.node? place = some (.file mode content) → mode < 512

/-- Nothing is missing above what is there. -/
theorem IsTree.node?_ne_none (hf : f.IsTree) (hn : f.node? p = some n) (hq : q <+: p) :
    f.node? q ≠ none := by
  obtain ⟨rest, rfl⟩ := hq
  induction rest generalizing q with
  | nil =>
    rw [append_nil] at hn
    simp [hn]
  | cons name rest ih =>
    have hnext := @ih (q ++ [name]) (by rwa [append_assoc, singleton_append])
    obtain ⟨n', hn'⟩ := Option.ne_none_iff_exists'.mp hnext
    obtain ⟨mode, hdir⟩ := hf.inside q name n' hn'
    simp [hdir]

theorem mem_of_node?_empty (h : empty.node? p = some n) :
    (p, n) ∈ ([], .directory newDirectoryMode) :: (["/"], .directory newDirectoryMode) ::
      empty.entries := by
  unfold node? at h
  split at h
  · rename_i hlookup
    cases h
    obtain ⟨before, after, heq, -⟩ := lookup_eq_some_iff.mp hlookup
    simp [heq]
  split at h
  · rename_i htop
    cases h
    rcases Bool.or_eq_true_iff.mp htop with hp | hp <;> simp [beq_iff_eq.mp hp]
  · cases h

theorem isTree_empty : empty.IsTree where
  rooted := rooted_empty
  inside place name n h := by
    have hmem := mem_map_of_mem (f := fun e => e.1.dropLast) (mem_of_node?_empty h)
    rw [dropLast_concat] at hmem
    simp only [empty, map_cons, map_nil, mem_cons, not_mem_nil, or_false] at hmem
    rcases hmem with rfl | rfl | rfl | rfl | rfl <;> exact ⟨newDirectoryMode, rfl⟩
  bits place mode content h := by
    simpa [empty] using mem_of_node?_empty h

theorem IsTree.above (hf : f.IsTree) (h : f.IsDirectory p) : f.IsDirectory (above p) := by
  rw [Files.above]
  split
  · exact h
  rcases eq_nil_or_concat p with rfl | ⟨place, name, rfl⟩
  · exact h
  · obtain ⟨mode, hdir⟩ := h
    rw [concat_eq_append] at hdir ⊢
    rw [dropLast_concat]
    exact hf.inside place name _ hdir

/-- A way through a tree ends inside of a directory. -/
theorem IsTree.walk (hf : f.IsTree) {here ps place : List String} {name : String}
    {n : Option FileNode} (hhere : f.IsDirectory here)
    (h : f.walk here ps = .ok (place ++ [name], n)) : f.IsDirectory place := by
  fun_induction Files.walk f here ps with
  | case1 here =>
    cases h
    obtain ⟨mode, hdir⟩ := hhere
    exact hf.inside place name _ hdir
  | case3 here c rest _ _ ih => exact ih hhere h
  | case4 here c rest _ _ _ ih => exact ih (hf.above hhere) h
  | case6 here c rest _ _ _ _ mode hdir ih => exact ih ⟨mode, hdir⟩ h
  | case7 | case9 =>
    obtain ⟨rfl, -⟩ := append_inj' (congrArg Prod.fst (Except.ok.inj h)) rfl
    exact hhere
  | case2 | case5 | case8 | case10 => cases h

theorem IsTree.locate (hf : f.IsTree) {place : List String} {name : String}
    {n : Option FileNode} (h : f.locate path = .ok (place ++ [name], n)) : f.IsDirectory place := by
  refine hf.walk (hf.rooted _ ?_) (walk_of_locate h)
  split
  · exact prefix_refl _
  · exact nil_prefix

/-- **A node at the end of a way** makes a tree of a tree, if no directory is lost. -/
theorem IsTree.of_differAt (hf : f.IsTree) (hfg : DifferAt p f g) {n : Option FileNode}
    (hl : f.locate path = .ok (p, n))
    (hbits : ∀ mode content, g.node? p = some (.file mode content) → mode < 512) : g.IsTree := by
  have hkept {place : List String} (h : f.IsDirectory place) : g.IsDirectory place := by
    obtain ⟨mode, hdir⟩ := h
    exact ⟨mode, (hfg.elsewhere place fun hp => hfg.noDirectory mode (hp ▸ hdir)).trans hdir⟩
  refine ⟨fun place hp => hkept (hf.rooted place hp), fun place name n hn => hkept ?_,
    fun place mode content hn => ?_⟩
  · by_cases hp : place ++ [name] = p
    · exact hf.locate (hp ▸ hl)
    · exact hf.inside place name n ((hfg.elsewhere _ hp).symm.trans hn)
  · by_cases hp : place = p
    · exact hbits mode content (hp ▸ hn)
    · exact hf.bits place mode content ((hfg.elsewhere _ hp).symm.trans hn)

theorem IsTree.makeDirectory (hf : f.IsTree) (h : f.makeDirectory path = .ok g) : g.IsTree := by
  unfold Files.makeDirectory at h
  split at h
  · cases h
  · cases h
    exact hf
  · cases h
  rename_i place hl
  split at h
  · cases h
    refine hf.of_differAt ⟨fun q hq => f.node?_put_of_ne hq _, ?_⟩ hl (by simp)
    simp [← (locate_eq_ok hl).2]
  · cases h

theorem IsTree.makeEach (hf : f.IsTree) (ps : List String) : (f.makeEach ps).2.IsTree := by
  induction ps generalizing f with
  | nil => exact hf
  | cons p ps ih =>
    rw [Files.makeEach]
    split
    · exact hf
    · rename_i hmade
      exact ih (hf.makeDirectory hmade)

/-! ## What is as before -/

/-- **What stands at a place is as before**, or it is a new directory on the way to the path. -/
def AsBefore (f g : Files) (path : String) (q : List String) : Prop :=
  g.node? q = f.node? q ∨ f.node? q = none ∧
    g.node? q = some (.directory newDirectoryMode) ∧ q <+: placeOf (Path.directory path)

theorem asBefore_makeDirectories (f : Files) (path : String) (q : List String) :
    AsBefore f (f.makeDirectories (Path.directory path)).2 path q := by
  refine (f.made_makeEach _ q).imp_right fun hnew => ⟨hnew.1, hnew.2.1, ?_⟩
  obtain ⟨p, hp, rfl⟩ := hnew.2.2
  obtain ⟨front, hfront, -⟩ := exists_front path
  rw [hfront] at hp ⊢
  rw [placeOf_clean]
  exact prefix_of_mem_ancestors hp

/-- Of a failed replacement only the new directories are left. -/
theorem node?_of_error {e : ReplaceError}
    (h : f.replace path content mode mark disk = (.error e, g)) (q : List String) :
    g.node? q = (f.makeDirectories (Path.directory path)).2.node? q := by
  rcases replace_cases h with ⟨-, hsame⟩ | ⟨_, _, _, _, hok, -⟩
  · exact hsame q
  · cases hok

theorem asBefore_of_error {e : ReplaceError}
    (h : f.replace path content mode mark disk = (.error e, g)) (q : List String) :
    AsBefore f g path q := by
  rw [AsBefore, node?_of_error h]
  exact f.asBefore_makeDirectories path q

theorem asBefore_of_ok (h : f.replace path content mode mark disk = (.ok (), g))
    (hq : q ≠ placeOf path) : AsBefore f g path q := by
  obtain ⟨made, -, hmade, -, hdiffer, -⟩ := replace_eq_ok h
  have hbefore := f.asBefore_makeDirectories path q
  rw [hmade] at hbefore
  rw [AsBefore, hdiffer.elsewhere q hq]
  exact hbefore

/-- **A tree stays a tree**, whether the file is replaced or not. -/
theorem IsTree.replace (hf : f.IsTree) (path content : String) (mode : Nat) (mark : String)
    (disk : Disk) : (f.replace path content mode mark disk).2.IsTree := by
  have hmade := hf.makeEach (Path.ancestors (Path.directory path))
  rw [← makeDirectories] at hmade
  cases hr : f.replace path content mode mark disk with | mk result g
  cases result with
  | ok =>
    obtain ⟨made, n, hdirs, hl, hdiffer, hnode⟩ := replace_eq_ok hr
    rw [hdirs] at hmade
    refine hmade.of_differAt hdiffer hl ?_
    rintro bits text hbits
    cases hnode.symm.trans hbits
    exact Nat.mod_lt _ (by decide)
  | error e =>
    have hsame := node?_of_error hr
    exact ⟨by simpa only [Rooted, hsame] using hmade.rooted,
      by simpa only [IsDirectory, hsame] using hmade.inside, by simpa only [hsame] using hmade.bits⟩

/-! ## A file that is missing -/

theorem isOpen_of_walk {here ps : List String} {r : List String × Option FileNode}
    (hne : ps ≠ []) (h : f.walk here ps = .ok r) : f.isOpen here := by
  obtain ⟨c, rest, rfl⟩ := exists_cons_of_ne_nil hne
  unfold Files.walk at h
  split at h
  · cases h
  · rename_i hopen
    simpa using hopen

/-- Steps up from where paths start lead nowhere else. -/
theorem walk_ups {here ups ps : List String} (hopen : f.isOpen here) (hhere : above here = here)
    (h : ∀ c ∈ ups, c = ".." ∨ c = ".") : f.walk here (ups ++ ps) = f.walk here ps := by
  induction ups with
  | nil => rfl
  | cons c ups ih =>
    obtain ⟨hc, hups⟩ := forall_mem_cons.mp h
    rw [cons_append, Files.walk, hopen]
    rcases hc with rfl | rfl
    · simpa [hhere] using ih hups
    · simpa using ih hups

/-- Where there is a way to one name there is a way to another. -/
theorem exists_walk_name {here ps : List String} {c d : String}
    {r : List String × Option FileNode} (hd : Path.IsName d)
    (hshort : Text.bytes d.toList ≤ maxName) (h : f.walk here (ps ++ [c]) = .ok r) :
    ∃ r, f.walk here (ps ++ [d]) = .ok r := by
  induction ps generalizing here with
  | nil =>
    rw [nil_append, Files.walk, isOpen_of_walk (by simp) h]
    simp only [Bool.not_true, Bool.false_eq_true, if_false, beq_iff_eq, hd.notHere, hd.notAbove,
      Nat.not_lt.mpr hshort, isEmpty_nil, if_true]
    split <;> exact ⟨_, rfl⟩
  | cons p ps ih =>
    rw [cons_append, Files.walk] at h ⊢
    split at h
    · cases h
    rename_i hopen
    rw [if_neg hopen]
    split at h
    · rename_i hdot
      rw [if_pos hdot]
      exact ih h
    rename_i hdot
    rw [if_neg hdot]
    split at h
    · rename_i hup
      rw [if_pos hup]
      exact ih h
    rename_i hup
    rw [if_neg hup]
    split at h
    · cases h
    rename_i hlong
    rw [if_neg hlong]
    split at h
    · exact ih h
    all_goals
      rw [if_neg (by simp)] at h
      cases h

/-- What can be followed is found, if the path is not refused for its spelling. -/
theorem locate_of_walk {r : List String × Option FileNode}
    (hmissing : f.stat path = .error .notFound) (hne : path ≠ "")
    (h : g.walk (start (Path.isAbsolute path)) (steps path) = .ok r) : g.locate path = .ok r := by
  have hempty : ¬ path.isEmpty := by simpa using hne
  by_cases hzero : path.toList.contains '\x00'
  · rw [stat, Files.locate, if_pos hzero] at hmissing
    cases hmissing
  by_cases hlong : Text.bytes path.toList > maxPath
  · rw [stat, Files.locate, if_neg hzero, if_neg hempty, if_pos hlong] at hmissing
    cases hmissing
  · rw [Files.locate, if_neg hzero, if_neg hempty, if_neg hlong]
    exact h

/-- **Beside a file that was replaced nothing new is found.** -/
theorem stat_replace_beside {state name other : String} {place : List String}
    (hname : Path.IsName name) (hother : Path.IsName other)
    (hshort : Text.bytes other.toList ≤ maxName) (hne : other ≠ name)
    (hpath : placeOf path = place ++ [other]) (hstate : placeOf state = place ++ [name])
    (hmissing : f.stat (Path.clean path) = .error .notFound) (hfree : f.node? (placeOf path) = none)
    (h : f.replace (Path.clean state) content mode mark disk = (.ok (), g)) :
    g.stat (Path.clean path) = .error .notFound := by
  have hnone : g.node? (placeOf path) = none := by
    have hdiff : placeOf path ≠ placeOf (Path.clean state) := by
      rw [hpath, placeOf_clean, hstate]
      exact fun heq => hne (singleton_inj.mp (append_inj' heq rfl).2)
    rcases asBefore_of_ok h hdiff with hsame | ⟨-, -, hprefix⟩
    · rw [hsame, hfree]
    · rw [placeOf_directory_clean hstate hname, hpath] at hprefix
      have hle := hprefix.length_le
      rw [length_append, length_singleton] at hle
      omega
  have hfound := locate_replace (by rw [placeOf_clean, hstate]; exact not_prefix_of_name hname) h
  obtain ⟨a, ups, names, _, hups, hnames, hplace, -, hstart, hsteps⟩ :=
    exists_clean_name hpath hother
  obtain ⟨b, ups', names', _, hups', hnames', hplace', -, hstart', hsteps'⟩ :=
    exists_clean_name hstate hname
  obtain ⟨rfl, rfl⟩ := start_append_inj hnames hnames' (hplace.symm.trans hplace')
  -- the two ways part at the last step
  have hwalk := walk_of_locate hfound
  rw [← start, hstart', hsteps'] at hwalk
  have hopen := isOpen_of_walk (by simp) hwalk
  rw [walk_ups hopen (above_start a) hups'] at hwalk
  obtain ⟨r, hr⟩ := exists_walk_name hother hshort hwalk
  rw [← walk_ups hopen (above_start a) hups, ← hsteps, ← hstart] at hr
  have hclean : Path.clean path ≠ "" := by
    intro hempty
    rw [hempty, show steps "" = [] by decide +kernel] at hsteps
    simp at hsteps
  obtain ⟨q, n⟩ := r
  have hl := locate_of_walk hmissing hclean hr
  obtain ⟨rfl, rfl⟩ := locate_eq_ok hl
  rw [stat, hl, placeOf_clean, hnone]

/-! ## The permission bits -/

/-- Where a file stood no directory was missing. -/
theorem node?_made (hf : f.IsTree)
    (hmade : f.makeDirectories (Path.directory path) = (.ok (), made))
    (hplace : f.node? (placeOf path) ≠ none)
    (hnot : ∀ mode, made.node? (placeOf path) ≠ some (.directory mode)) (q : List String) :
    made.node? q = f.node? q := by
  obtain ⟨n, hn⟩ := Option.ne_none_iff_exists'.mp hplace
  have hbefore := f.asBefore_makeDirectories path q
  rw [hmade] at hbefore
  refine hbefore.resolve_right ?_
  rintro ⟨hfree, -, hq⟩
  obtain ⟨front, hfront, hend⟩ := exists_front path
  rw [hfront, placeOf_clean] at hq
  rcases hend with hend | hend | ⟨name, hend⟩
  · exact hf.node?_ne_none hn (hend ▸ hq) hfree
  · -- a path that goes up at its end leads to a directory
    obtain ⟨hkeeps, hleads⟩ := makeEach_eq_ok hmade
    rw [hend] at hnot
    rcases exists_mem_ancestors (above_isPrefix (placeOf front)) with htop | ⟨p, hp, hpq⟩
    · obtain ⟨mode, hdir⟩ := hf.rooted.of_keeps hkeeps _ htop
      exact hnot mode hdir
    · obtain ⟨place, mode, hl⟩ := hleads p (hfront ▸ hp)
      obtain ⟨rfl, hdir⟩ := locate_eq_ok hl
      exact hnot mode (hpq ▸ hdir.symm)
  · exact hf.node?_ne_none hn (hend ▸ hq.trans (prefix_append _ _)) hfree

theorem modeOf_of_file (hf : f.IsTree) (h : f.replace path content mode mark disk = (.ok (), g))
    {old : Nat} {text : String} (hold : f.node? (placeOf path) = some (.file old text)) :
    f.modeOf path = old := by
  obtain ⟨made, n, hmade, hl, hdiffer, -⟩ := replace_eq_ok h
  have hsame := node?_made hf hmade (by simp [hold]) hdiffer.noDirectory
  have hkeeps : Keeps made f := fun place n hn => by
    rw [← hsame, hn]
    rfl
  rw [modeOf, stat, hkeeps.locate hl, hold]

theorem modeOf_of_free (h : f.node? (placeOf path) = none) : f.modeOf path = newMode := by
  rw [modeOf, stat]
  cases hl : f.locate path with
  | error e => rfl
  | ok found =>
    obtain ⟨place, found⟩ := found
    obtain ⟨rfl, rfl⟩ := locate_eq_ok hl
    rw [h]

/-- **A file is replaced as a whole or not at all.**  If it cannot be replaced, at whichever step
the tree or the disk fails, all is as before and no staging file is left; if it can, the path leads
to a file with the content and the permission bits that were asked for, or those of the file that
was replaced, or those of a new file, and all else is as before. -/
theorem replace_all_or_nothing (hf : f.IsTree) (path content : String) (mode : Nat)
    (mark : String) (disk : Disk) :
    (∀ e g, f.replace path content mode mark disk = (.error e, g) → ∀ q, AsBefore f g path q) ∧
      ∀ g, f.replace path content mode mark disk = (.ok (), g) →
        (∃ bits, g.stat path = .ok (.file bits content) ∧ (mode ≠ 0 → bits = mode % 512) ∧
          (mode = 0 →
            (∀ old text, f.node? (placeOf path) = some (.file old text) → bits = old) ∧
              (f.node? (placeOf path) = none → bits = 0o644))) ∧
          ∀ q, q ≠ placeOf path → AsBefore f g path q := by
  refine ⟨fun e g h => asBefore_of_error h, fun g h => ⟨?_, fun q => asBefore_of_ok h⟩⟩
  have hlocate := locate_replace (hf.rooted.not_prefix h) h
  refine ⟨_, by rw [stat, hlocate], fun hmode => by rw [if_neg hmode], fun hmode => ⟨?_, ?_⟩⟩
  · intro old text hold
    rw [if_pos hmode, modeOf_of_file hf h hold, Nat.mod_eq_of_lt (hf.bits _ _ _ hold)]
  · intro hfree
    rw [if_pos hmode, modeOf_of_free hfree]
    rfl

/-- A disk that is full when half of the content has been written. -/
def fullDisk : Disk where
  fault? step := if step = .write then some .noSpace else none
  written := "c"

example : (match (empty.replace "a/b" "cd" 0 "1" fullDisk).1 with
    | .error e => e.message
    | .ok () => "") = "write temp file: write a/.b.1: no space left on device" := by
  decide +kernel

/-- A new file with its directory, and the same on a disk that is full. -/
theorem replace_all_or_nothing_new :
    (∃ g, empty.replace "a/b" "cd" 0 "1" = (.ok (), g) ∧
      g.stat "a/b" = .ok (.file 0o644 "cd")) ∧
    ∃ e g, empty.replace "a/b" "cd" 0 "1" fullDisk = (.error e, g) ∧
      AsBefore empty g "a/b" ["a", ".b.1"] := by
  have hok : (empty.replace "a/b" "cd" 0 "1").1.isOk = true := by decide +kernel
  have hfull : (empty.replace "a/b" "cd" 0 "1" fullDisk).1.isOk = false := by decide +kernel
  constructor
  · cases h : empty.replace "a/b" "cd" 0 "1" with | mk r g
    obtain ⟨⟩ | ⟨⟩ := r
    · rw [h] at hok
      cases hok
    obtain ⟨⟨bits, hstat, -, hzero⟩, -⟩ :=
      (replace_all_or_nothing isTree_empty "a/b" "cd" 0 "1" {}).2 g h
    obtain rfl := (hzero rfl).2 (by decide +kernel)
    exact ⟨g, rfl, hstat⟩
  · cases h : empty.replace "a/b" "cd" 0 "1" fullDisk with | mk r g
    obtain e | ⟨⟩ := r
    · exact ⟨e, g, rfl, (replace_all_or_nothing isTree_empty "a/b" "cd" 0 "1" fullDisk).1 e g h _⟩
    · rw [h] at hfull
      cases hfull

end TreeQuery.Files
