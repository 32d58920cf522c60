import TreeQuery.Proofs.Files.Places
import TreeQuery.Proofs.Text.Pieces

/-!
# Paths and the directories on their way

Two spellings of a path lead to the same place if they only differ in what cleaning takes away: a
clean path goes up first and down by names after that (`IsClean`), and it leads where the path led
(`placeOf_clean`).  So the directories on the way to it can be read off the place: they are those
above it (`prefix_of_mem_ancestors`), and all of them (`exists_mem_ancestors`).  A path leads into
the directory that is named by all but its last component, if that component is a name
(`exists_front`).
-/

namespace TreeQuery

open List

namespace Path

/-- A name of a file: a component of a path that does not stand for a directory nearby. -/
structure IsName (name : String) : Prop where
  noSlash : '/' ∉ name.toList
  nonempty : name ≠ ""
  notHere : name ≠ "."
  notAbove : name ≠ ".."

/-- The components of a path that lead anywhere. -/
def components (path : String) : List String :=
  (parts path).filter (· != "")

variable {path : String} {cs : List String}

theorem not_mem_of_mem_parts {c : String} (h : c ∈ parts path) : '/' ∉ c.toList := by
  intro hc
  obtain ⟨as, bs, hcs⟩ := append_of_mem hc
  refine Text.not_infix_of_mem_pieces (by decide) h ⟨as, bs, ?_⟩
  rw [hcs, append_assoc]
  rfl

theorem parts_intercalate (hne : cs ≠ []) (h : ∀ c ∈ cs, '/' ∉ c.toList) :
    parts ("/".intercalate cs) = cs := by
  rw [parts, Text.pieces, String.toList_intercalate]
  show (Text.splitOn ['/'] (['/'].intercalate (cs.map String.toList))).map String.ofList = cs
  rw [Text.splitOn_intercalate (by simpa using hne) (by simpa using h), map_map]
  simp [Function.comp_def]

theorem parts_append (front back : String) :
    parts (front ++ "/" ++ back) = parts front ++ parts back := by
  show (Text.splitOnCons '/' [] (front ++ "/" ++ back).toList).map String.ofList = _
  rw [String.toList_append, String.toList_append, append_assoc]
  exact (congrArg _ (Text.splitOnCons_append '/' _ _)).trans map_append

theorem parts_ne_nil (path : String) : parts path ≠ [] := by
  show (Text.splitOnCons '/' [] path.toList).map String.ofList ≠ []
  simpa using Text.splitOnCons_ne_nil '/' [] path.toList

/-- A path is absolute if its first component is empty and not the only one. -/
theorem isAbsolute_eq {first : String} {rest : List String} (h : parts path = first :: rest) :
    isAbsolute path = (first == "" && !rest.isEmpty) := by
  have hparts : (Text.splitOnCons '/' [] path.toList).map String.ofList = first :: rest := h
  rw [isAbsolute]
  cases hcs : path.toList with
  | nil =>
    rw [hcs, Text.splitOnCons] at hparts
    cases hparts
    rfl
  | cons c cs =>
    obtain ⟨p, ps, hps⟩ := exists_cons_of_ne_nil (Text.splitOnCons_ne_nil '/' [] cs)
    rw [hcs, Text.splitOnCons] at hparts
    by_cases hc : c = '/'
    · rw [if_pos (by simp [hc]), length_nil, drop_zero, hps] at hparts
      cases hparts
      simp [hc]
    · rw [if_neg (by simpa using Ne.symm hc), hps] at hparts
      obtain ⟨rfl, -⟩ := cons.inj hparts
      have hfirst : String.ofList (c :: p) ≠ "" := by
        simp [← String.toList_inj]
      rw [beq_eq_false_iff_ne.mpr hfirst, Bool.false_and]
      simpa using hc

/-- The path with these components, from the top or from the working directory. -/
def spelled (absolute : Bool) (cs : List String) : String :=
  if absolute then "/" ++ "/".intercalate cs else "/".intercalate cs

theorem parts_spelled (absolute : Bool) (hne : cs ≠ []) (h : ∀ c ∈ cs, '/' ∉ c.toList) :
    parts (spelled absolute cs) = (if absolute then [""] else []) ++ cs := by
  cases absolute with
  | false => exact parts_intercalate hne h
  | true =>
    have hall := parts_intercalate (cons_ne_nil "" cs) (forall_mem_cons.mpr ⟨by decide, h⟩)
    obtain ⟨c, cs, rfl⟩ := exists_cons_of_ne_nil hne
    rwa [String.intercalate_cons_cons, String.empty_append] at hall

/-- The components can be read off the path again. -/
theorem components_spelled {absolute : Bool} (h : ∀ c ∈ cs, '/' ∉ c.toList ∧ c ≠ "")
    (hne : cs = [] → absolute) :
    components (spelled absolute cs) = cs ∧ isAbsolute (spelled absolute cs) = absolute := by
  have hfilter : cs.filter (· != "") = cs :=
    filter_eq_self.mpr fun c hc => by simpa using (h c hc).2
  have hslash : ∀ c ∈ cs, '/' ∉ c.toList := fun c hc => (h c hc).1
  cases cs with
  | nil =>
    obtain rfl := hne rfl
    decide +kernel
  | cons c cs =>
    have hparts := parts_spelled absolute (cons_ne_nil c cs) hslash
    cases absolute with
    | false =>
      rw [components, isAbsolute_eq hparts, hparts]
      exact ⟨hfilter, by simp [(h c mem_cons_self).2]⟩
    | true =>
      rw [components, isAbsolute_eq hparts, hparts]
      exact ⟨hfilter, rfl⟩

theorem ancestors_eq (path : String) :
    ancestors path = (range (components path).length).map fun n =>
      spelled (isAbsolute path) ((components path).take (n + 1)) := by
  unfold ancestors spelled
  dsimp only
  split
  · rw [map_map]
    rfl
  · rfl

/-- All but the last component of a path, as a path. -/
theorem components_front {ps : List String} {front last : String} (h : parts path = ps ++ [last])
    (hfront : front = if ps == [""] then "/" else "/".intercalate ps) :
    components front = ps.filter (· != "") ∧ isAbsolute front = isAbsolute path := by
  cases ps with
  | nil =>
    rw [isAbsolute_eq h, isEmpty_nil, Bool.not_true, Bool.and_false, hfront]
    decide +kernel
  | cons c ps =>
    rw [isAbsolute_eq h]
    by_cases htop : c :: ps = [""]
    · obtain ⟨rfl, rfl⟩ := cons.inj htop
      rw [hfront]
      exact ⟨by decide +kernel, show isAbsolute _ = true by decide +kernel⟩
    · have hparts : parts front = c :: ps := by
        rw [hfront, if_neg (by simpa using htop)]
        exact parts_intercalate (cons_ne_nil c ps) fun d hd =>
          not_mem_of_mem_parts (h ▸ mem_append_left _ hd)
      rw [components, isAbsolute_eq hparts, hparts]
      refine ⟨rfl, ?_⟩
      cases ps with
      | nil => simpa using htop
      | cons d ps => rfl

end Path

namespace Files

open TreeQuery.Path (IsName parts components cleanParts clean isAbsolute spelled)

variable {here names ups ps : List String} {path c : String} {absolute : Bool}

/-! ## Going up and down -/

theorem stepTo_name (h : IsName c) : stepTo here c = here ++ [c] := by
  simp [stepTo, h.notHere, h.notAbove]

/-- A name does not lead to the two directories that always exist. -/
theorem not_prefix_of_name (h : IsName c) : ¬ here ++ [c] <+: ["/"] := by
  intro hp
  have hmem : c ∈ ["/"] := hp.subset (mem_append_right here mem_cons_self)
  exact h.noSlash (mem_singleton.mp hmem ▸ by decide)

theorem above_append_name (h : IsName c) : above (here ++ [c]) = here := by
  have hne : here ++ [c] ≠ ["/"] := fun heq => not_prefix_of_name h ⟨[], by rw [append_nil, heq]⟩
  rw [above, if_neg (by simpa using hne), dropLast_concat]

theorem foldl_names (h : ∀ c ∈ names, IsName c) : names.foldl stepTo here = here ++ names := by
  induction names generalizing here with
  | nil => exact (append_nil here).symm
  | cons c names ih =>
    obtain ⟨hc, hnames⟩ := forall_mem_cons.mp h
    rw [foldl_cons, stepTo_name hc, ih hnames, append_assoc, singleton_append]

theorem foldl_ups (hhere : above here = here) (h : ∀ c ∈ ups, c = ".." ∨ c = ".") :
    ups.foldl stepTo here = here := by
  induction ups with
  | nil => rfl
  | cons c ups ih =>
    obtain ⟨hc, hups⟩ := forall_mem_cons.mp h
    have hstep : stepTo here c = here := by
      rcases hc with rfl | rfl
      · exact hhere
      · rfl
    rw [foldl_cons, hstep, ih hups]

/-- Cleaning keeps names behind steps up, last one first, and the place that they lead to. -/
theorem cleanParts_spec (hhere : above here = here) (absolute : Bool)
    (hnames : ∀ c ∈ names, IsName c) (hups : ∀ c ∈ ups, c = "..")
    (hps : ∀ c ∈ ps, '/' ∉ c.toList) :
    ∃ names' ups', cleanParts absolute (names ++ ups) ps = names' ++ ups' ∧
      (∀ c ∈ names', IsName c) ∧ (∀ c ∈ ups', c = "..") ∧
      (ps.filter (· != "")).foldl stepTo (here ++ names.reverse) = here ++ names'.reverse := by
  induction ps generalizing names ups with
  | nil => exact ⟨names, ups, rfl, hnames, hups, rfl⟩
  | cons p ps ih =>
    obtain ⟨hp, hps⟩ := forall_mem_cons.mp hps
    unfold cleanParts
    by_cases hempty : p = ""
    · simpa [hempty] using ih hnames hups hps
    by_cases hdot : p = "."
    · simpa [hdot, stepTo] using ih hnames hups hps
    rw [if_neg (by simp [hempty, hdot]), filter_cons_of_pos (by simpa using hempty), foldl_cons]
    by_cases hup : p = ".."
    · rw [if_pos (by simpa using hup), hup]
      cases names with
      | nil =>
        -- there is no name to take away, and above the start is the start
        have hstep : stepTo (here ++ [].reverse) ".." = here ++ [].reverse := by
          rw [reverse_nil, append_nil]
          exact hhere
        rw [hstep]
        cases ups with
        | nil =>
          refine @ih [] (if absolute then [] else [".."]) hnames ?_ hps
          cases absolute <;> simp
        | cons u ups =>
          obtain ⟨rfl, -⟩ := forall_mem_cons.mp hups
          exact @ih [] (".." :: ".." :: ups) hnames (forall_mem_cons.mpr ⟨rfl, hups⟩) hps
      | cons s names =>
        obtain ⟨hs, hnames⟩ := forall_mem_cons.mp hnames
        have hstep : stepTo (here ++ (s :: names).reverse) ".." = here ++ names.reverse := by
          rw [reverse_cons, ← append_assoc]
          exact above_append_name hs
        rw [hstep, cons_append]
        dsimp only
        rw [if_neg (by simpa using hs.notAbove)]
        exact ih hnames hups hps
    · have hname : IsName p := ⟨hp, hempty, hdot, hup⟩
      rw [if_neg (by simpa using hup), stepTo_name hname, append_assoc, ← reverse_cons]
      exact @ih (p :: names) ups (forall_mem_cons.mpr ⟨hname, hnames⟩) hups hps

/-! ## Clean paths -/

/-- Where paths start. -/
def start (absolute : Bool) : List String :=
  if absolute then ["/"] else []

theorem above_start (absolute : Bool) : above (start absolute) = start absolute := by
  cases absolute <;> rfl

theorem placeOf_eq (path : String) :
    placeOf path = (components path).foldl stepTo (start (isAbsolute path)) := by
  show foldl stepTo (start (isAbsolute path)) (_ ++ if path.endsWith "/" then ["."] else []) = _
  rw [foldl_append]
  -- a slash at the end does not lead anywhere else
  split <;> rfl

/-- **The components of a clean path**: some that go up, and names behind them. -/
structure IsClean (absolute : Bool) (ups names : List String) : Prop where
  upward : ∀ c ∈ ups, c = ".." ∨ c = "."
  downward : ∀ c ∈ names, IsName c
  nonempty : ups ++ names = [] → absolute = true

namespace IsClean

theorem components (h : IsClean absolute ups names) :
    components (spelled absolute (ups ++ names)) = ups ++ names ∧
      isAbsolute (spelled absolute (ups ++ names)) = absolute := by
  refine Path.components_spelled (fun c hc => ?_) h.nonempty
  rcases mem_append.mp hc with hc | hc
  · rcases h.upward c hc with rfl | rfl <;> decide
  · exact ⟨(h.downward c hc).noSlash, (h.downward c hc).nonempty⟩

theorem placeOf_spelled (h : IsClean absolute ups names) :
    placeOf (spelled absolute (ups ++ names)) = start absolute ++ names := by
  rw [placeOf_eq, h.components.1, h.components.2, foldl_append, foldl_ups (above_start _) h.upward,
    foldl_names h.downward]

theorem take (h : IsClean absolute ups names) (n : Nat) :
    IsClean absolute (ups.take (n + 1)) (names.take (n + 1 - ups.length)) := by
  refine ⟨fun c hc => h.upward c (mem_of_mem_take hc),
    fun c hc => h.downward c (mem_of_mem_take hc), fun hnil => h.nonempty ?_⟩
  rw [← take_append, take_eq_nil_iff] at hnil
  exact hnil.resolve_left (Nat.succ_ne_zero n)

end IsClean

theorem exists_isClean (path : String) :
    ∃ names ups, IsClean (isAbsolute path) ups names ∧
      clean path = spelled (isAbsolute path) (ups ++ names) ∧
      placeOf path = start (isAbsolute path) ++ names := by
  obtain ⟨names, ups, hclean, hnames, hups, hplace⟩ :=
    @cleanParts_spec _ [] [] (parts path) (above_start (isAbsolute path)) (isAbsolute path)
      (by simp) (by simp) fun c => Path.not_mem_of_mem_parts
  have hups' : ∀ c ∈ ups.reverse, c = ".." ∨ c = "." :=
    fun c hc => .inl (hups c (mem_reverse.mp hc))
  have hnames' : ∀ c ∈ names.reverse, IsName c := fun c hc => hnames c (mem_reverse.mp hc)
  rw [nil_append] at hclean
  rw [reverse_nil, append_nil, ← components, ← placeOf_eq] at hplace
  unfold clean
  dsimp only
  rw [hclean, reverse_append]
  cases h : isAbsolute path with
  | true => exact ⟨names.reverse, ups.reverse, ⟨hups', hnames', fun _ => rfl⟩, rfl, h ▸ hplace⟩
  | false =>
    rw [if_neg Bool.false_ne_true]
    by_cases hnil : ups.reverse ++ names.reverse = []
    · -- the working directory
      refine ⟨[], ["."], ⟨by simp, by simp, by simp⟩, ?_, ?_⟩
      · rw [hnil]
        rfl
      · rw [hplace, h, (append_eq_nil_iff.mp hnil).2]
    · have hisClean : IsClean false ups.reverse names.reverse :=
        ⟨hups', hnames', fun heq => absurd heq hnil⟩
      refine ⟨names.reverse, ups.reverse, hisClean, if_neg fun hempty => hnil ?_, h ▸ hplace⟩
      rw [← hisClean.components.1, show spelled false _ = "/".intercalate _ from rfl,
        String.isEmpty_iff.mp hempty]
      decide +kernel

/-- **A clean path leads where the path led.** -/
theorem placeOf_clean (path : String) : placeOf (clean path) = placeOf path := by
  obtain ⟨names, ups, hclean, hpath, hplace⟩ := exists_isClean path
  rw [hpath, hclean.placeOf_spelled, hplace]

/-- **The last component of a path** leads on from its directory. -/
theorem placeOf_of_parts {last : String} (h : parts path = ps ++ [last]) :
    placeOf path =
      ([last].filter (· != "")).foldl stepTo (placeOf (Path.directory path)) := by
  obtain ⟨hfront, habsolute⟩ := Path.components_front h rfl
  rw [Path.directory, h, dropLast_concat, placeOf_clean, placeOf_eq path, placeOf_eq, hfront,
    habsolute, components, h, filter_append, foldl_append]

theorem foldl_last (h : IsName c) : ([c].filter (· != "")).foldl stepTo here = here ++ [c] := by
  rw [filter_cons_of_pos (by simpa using h.nonempty)]
  exact stepTo_name h

theorem placeOf_of_name (h : parts path = ps ++ [c]) (hc : IsName c) :
    placeOf path = placeOf (Path.directory path) ++ [c] := by
  rw [placeOf_of_parts h, foldl_last hc]

theorem parts_name (h : IsName c) : parts c = [c] :=
  Path.parts_intercalate (cons_ne_nil c []) (by simpa using h.noSlash)

/-- A path joined from a directory and a name leads to this name in the directory. -/
theorem exists_join (h : IsName c) (dir : String) :
    ∃ path, Path.join [dir, c] = clean path ∧ placeOf path = placeOf dir ++ [c] := by
  by_cases hdir : dir = ""
  · have habsolute : isAbsolute c = false := by
      rw [Path.isAbsolute_eq (parts_name h)]
      simp
    refine ⟨c, by simp [Path.join, hdir, h.nonempty], ?_⟩
    rw [placeOf_eq, components, parts_name h, habsolute, foldl_last h, hdir,
      show placeOf "" = start false by decide +kernel]
  · have hboth : [dir, c].filter (· != "") = [dir, c] := by simp [hdir, h.nonempty]
    have habsolute : isAbsolute (dir ++ "/" ++ c) = isAbsolute dir := by
      obtain ⟨d, ds, hds⟩ := exists_cons_of_ne_nil (show dir.toList ≠ [] by simpa using hdir)
      simp [isAbsolute, hds]
    refine ⟨dir ++ "/" ++ c, by rw [Path.join, hboth]; rfl, ?_⟩
    rw [placeOf_eq, components, Path.parts_append, parts_name h, habsolute, filter_append,
      foldl_append, foldl_last h, ← components, ← placeOf_eq]

theorem steps_of_name (h : parts path = ps ++ [c]) (hc : IsName c) :
    steps path = components path := by
  have hslash : ¬ path.endsWith "/" := by
    intro hends
    rw [String.endsWith_eq_endsWith_toSlice] at hends
    obtain ⟨front, hfront⟩ := String.Slice.endsWith_string_iff.mp hends
    rw [String.copy_toSlice] at hfront
    have hparts := Path.parts_append (String.ofList front) ""
    rw [show String.ofList front ++ "/" ++ "" = path by simp [← String.toList_inj, ← hfront], h,
      show parts "" = [""] by decide +kernel] at hparts
    exact hc.nonempty (singleton_inj.mp (append_inj' hparts rfl).2)
  rw [steps, if_neg hslash, append_nil]
  rfl

/-- **A clean path to a name**: it goes up, down to the directory, and to the name. -/
theorem exists_clean_name {place : List String} (h : placeOf path = place ++ [c]) (hc : IsName c) :
    ∃ absolute ups names ps, (∀ d ∈ ups, d = ".." ∨ d = ".") ∧ (∀ d ∈ names, IsName d) ∧
      place = start absolute ++ names ∧ parts (clean path) = ps ++ [c] ∧
      start (isAbsolute (clean path)) = start absolute ∧
      steps (clean path) = ups ++ (names ++ [c]) := by
  obtain ⟨all, ups, hclean, hpath, hplace⟩ := exists_isClean path
  rw [hplace] at h
  obtain ⟨names, rfl⟩ : ∃ names, all = names ++ [c] := by
    rcases eq_nil_or_concat all with rfl | ⟨names, last, rfl⟩
    · refine absurd (?_ : place ++ [c] <+: ["/"]) (not_prefix_of_name hc)
      rw [← h, append_nil]
      cases isAbsolute path <;> simp [start]
    · rw [concat_eq_append, ← append_assoc] at h
      exact ⟨names, by rw [concat_eq_append, (append_inj' h rfl).2]⟩
  rw [← append_assoc] at h
  have hne : ups ++ (names ++ [c]) ≠ [] := by simp
  have hparts := Path.parts_spelled (isAbsolute path) hne fun d hd => ?_
  · rw [← hpath, ← append_assoc, ← append_assoc] at hparts
    refine ⟨_, ups, names, _, hclean.upward, fun d hd => hclean.downward d (mem_append_left _ hd),
      (append_inj' h rfl).1.symm, hparts, ?_, ?_⟩
    · rw [hpath, hclean.components.2]
    · rw [steps_of_name hparts hc, hpath, hclean.components.1]
  · rcases mem_append.mp hd with hd | hd
    · rcases hclean.upward d hd with rfl | rfl <;> decide
    · exact (hclean.downward d hd).noSlash

/-- The directory of a clean path stands where the name is that the path leads to. -/
theorem placeOf_directory_clean {place : List String} (h : placeOf path = place ++ [c])
    (hc : IsName c) : placeOf (Path.directory (clean path)) = place := by
  obtain ⟨_, _, _, _, -, -, -, hparts, -⟩ := exists_clean_name h hc
  have hsame := placeOf_of_name hparts hc
  rw [placeOf_clean, h] at hsame
  exact (append_inj' hsame rfl).1.symm

theorem start_append_inj {a b : Bool} {as bs : List String} (has : ∀ d ∈ as, IsName d)
    (hbs : ∀ d ∈ bs, IsName d) (h : start a ++ as = start b ++ bs) : a = b ∧ as = bs := by
  have hslash : ¬ IsName "/" := fun hname => hname.noSlash (by decide)
  cases a <;> cases b
  · exact ⟨rfl, h⟩
  · exact absurd (has "/" ((show as = "/" :: bs from h) ▸ mem_cons_self)) hslash
  · exact absurd (hbs "/" ((show "/" :: as = bs from h) ▸ mem_cons_self)) hslash
  · exact ⟨rfl, (cons.inj h).2⟩

/-- A path joined from a directory and a name leads to a place inside of a directory. -/
theorem not_prefix_join {name : String} (h : IsName name) (dir : String) :
    ¬ placeOf (Path.join [dir, name]) <+: ["/"] := by
  obtain ⟨path, hjoin, hplace⟩ := exists_join h dir
  rw [hjoin, placeOf_clean, hplace]
  exact not_prefix_of_name h

/-! ## The directories on the way -/

/-- **The directories on the way to a place are above it.** -/
theorem prefix_of_mem_ancestors {p : String} (hp : p ∈ Path.ancestors (clean path)) :
    placeOf p <+: placeOf path := by
  obtain ⟨names, ups, hclean, hpath, hplace⟩ := exists_isClean path
  rw [Path.ancestors_eq, hpath, hclean.components.1, hclean.components.2, mem_map] at hp
  obtain ⟨n, -, rfl⟩ := hp
  rw [take_append, (hclean.take n).placeOf_spelled, hplace]
  exact (prefix_append_right_inj _).mpr <| List.take_prefix _ _

/-- Every place above is on the way, but for the directories that always exist. -/
theorem exists_mem_ancestors {q : List String} (hq : q <+: placeOf path) :
    q <+: ["/"] ∨ ∃ p ∈ Path.ancestors (clean path), placeOf p = q := by
  obtain ⟨names, ups, hclean, hpath, hplace⟩ := exists_isClean path
  have hstart : start (isAbsolute path) <+: ["/"] := by
    cases isAbsolute path
    · exact List.nil_prefix
    · exact prefix_refl _
  rw [hplace] at hq
  rcases Nat.lt_or_ge (start (isAbsolute path)).length q.length with hlt | hle
  · right
    obtain ⟨k, hk⟩ := Nat.exists_eq_add_of_lt hlt
    have hqlen := hq.length_le
    rw [length_append] at hqlen
    refine ⟨spelled (isAbsolute path) ((ups ++ names).take (ups.length + k + 1)), ?_, ?_⟩
    · rw [Path.ancestors_eq, hpath, hclean.components.1, hclean.components.2]
      refine mem_map_of_mem (mem_range.mpr ?_)
      rw [length_append]
      omega
    · rw [take_append, (hclean.take _).placeOf_spelled, prefix_iff_eq_take.mp hq, take_append,
        take_of_length_le (Nat.le_of_lt hlt)]
      congr 2
      omega
  · exact .inl ((prefix_of_prefix_length_le hq (prefix_append _ _) hle).trans hstart)

/-- The last component of a path leads into the directory of the path, if it is a name. -/
theorem exists_front (path : String) :
    ∃ front, Path.directory path = clean front ∧
      (placeOf path = placeOf front ∨ placeOf path = above (placeOf front) ∨
        ∃ name, placeOf path = placeOf front ++ [name]) := by
  obtain ⟨ps, last, hparts⟩ : ∃ ps last, parts path = ps ++ [last] :=
    ⟨_, _, (dropLast_concat_getLast (Path.parts_ne_nil path)).symm⟩
  have hplace := placeOf_of_parts hparts
  rw [Path.directory] at hplace ⊢
  rw [placeOf_clean] at hplace
  refine ⟨_, rfl, ?_⟩
  rw [hplace]
  by_cases hlast : last = ""
  · exact .inl (by rw [hlast]; rfl)
  rw [filter_cons_of_pos (by simpa using hlast), filter_nil, foldl_cons, foldl_nil, stepTo]
  split
  · exact .inl rfl
  split
  · exact .inr (.inl rfl)
  · exact .inr (.inr ⟨last, rfl⟩)

end Files
end TreeQuery
