import TreeQuery.LastQuery
import TreeQuery.Proofs.Files.ReadBack
import TreeQuery.Proofs.Json.Record
import TreeQuery.Proofs.Timestamp

/-!
# The last query is found as it was recorded

A query that was recorded is found again, with all of its blocks and values and its marker, whatever
characters they hold (`find_store`).  There are two parts to it.  The state file is read back as the
query it was written for (`readRecord_text`): members that are left out, the empty list of values
and the empty marker, are those that a record has before any member is taken.  And the file that
was replaced is the one that is read (`Files.read_replace`).
-/

namespace TreeQuery

open List

namespace Json

open TreeQuery.Json.Tree

/-! ## Moments -/

theorem escaped_of_isPart {c : Char} (h : Timestamp.isPart c) : escaped c = [c] := by
  simp only [Timestamp.isPart, Bool.or_eq_true, contains_iff_mem, mem_cons,
    not_mem_nil, or_false] at h
  rcases h with h | rfl | rfl | rfl | rfl | rfl | rfl
  · have hcode : 48 ≤ c.toNat ∧ c.toNat ≤ 57 := by
      simpa [Char.isDigit, UInt32.le_iff_toNat_le] using h
    have hne : ∀ d : Char, d.toNat < 48 ∨ 57 < d.toNat → c ≠ d := by
      rintro d hd rfl
      omega
    have hcodes : ¬ (c.toNat < 32 ∨ c = '<' ∨ c = '>' ∨ c = '&' ∨ c.toNat = 0x2028 ∨
        c.toNat = 0x2029) := by
      simp only [hne '<' (by decide), hne '>' (by decide), hne '&' (by decide), false_or]
      omega
    rw [escaped, if_neg (hne '"' (by decide)), if_neg (hne '\\' (by decide)),
      if_neg (hne '\n' (by decide)), if_neg (hne '\r' (by decide)), if_neg (hne '\t' (by decide))]
    exact if_neg hcodes
  all_goals rfl

theorem flatMap_escaped_text (t : Timestamp) :
    t.text.toList.flatMap escaped = t.text.toList := by
  have hall : ∀ c ∈ t.text.toList, Timestamp.isPart c = true := fun _ => t.isPart_of_mem_text
  generalize t.text.toList = cs at hall ⊢
  induction cs with
  | nil => rfl
  | cons c cs ih =>
    rw [forall_mem_cons] at hall
    rw [flatMap_cons, escaped_of_isPart hall.1, ih hall.2]
    rfl

/-- **A moment is read back**, since nothing in its text is escaped. -/
theorem takes_moment {space : List Char} (h : Blank space) {t : Timestamp} (ht : t.IsMoment) :
    Takes moment (space ++ (string t.text).toList) (some t) := by
  intro rest
  have hbody : stringBody false (t.text.toList ++ '"' :: rest) = some (t.text.toList, rest) := by
    have hread := stringBody_flatMap_escaped t.text.toList rest false
    rwa [flatMap_escaped_text] at hread
  have hraw : (t.text.toList ++ '"' :: rest).take
      ((t.text.toList ++ '"' :: rest).length - rest.length - 1) = t.text.toList := by
    have hlength : (t.text.toList ++ '"' :: rest).length - rest.length - 1 =
        t.text.toList.length := by
      rw [length_append, length_cons]
      omega
    rw [hlength, take_left]
  have hquote : '"' :: (t.text.toList ++ ['"']) ++ rest =
      '"' :: (t.text.toList ++ '"' :: rest) := by
    simp
  rw [toList_string, flatMap_escaped_text, append_assoc, hquote, moment, skipSpace_append h,
    skipSpace_cons rfl]
  show (stringBody false (t.text.toList ++ '"' :: rest)).bind _ = _
  rw [hbody, Option.bind_some]
  dsimp only
  rw [hraw, Timestamp.read_text ht]
  rfl

end Json

namespace LastQuery

open Json

/-! ## Writing and reading the state file -/

theorem blank_space : Blank [' '] := by
  simp [Blank, Tree.isSpace]

theorem toList_listText {ss : List String} (hne : ss ≠ []) :
    (listText ss).toList = '[' ::
      ([','].intercalate (ss.map fun s => ['\n', ' ', ' ', ' ', ' '] ++ (Json.string s).toList) ++
        ['\n', ' ', ' ', ']']) := by
  have hlines := cons_intercalate ['\n']
    (ss.map fun s => [' ', ' ', ' ', ' '] ++ (Json.string s).toList) (by simpa using hne)
  have hindent : (ss.map fun s => "    " ++ Json.string s).map String.toList =
      ss.map fun s => [' ', ' ', ' ', ' '] ++ (Json.string s).toList := by
    rw [map_map]
    exact map_congr_left fun s _ => String.toList_append
  rw [map_map] at hlines
  rw [listText, if_neg (by simpa using hne), String.toList_append, String.toList_append,
    String.toList_intercalate, hindent]
  exact congrArg (fun cs => '[' :: (cs ++ ['\n', ' ', ' ', ']'])) hlines

theorem takes_listText (ss : List String) :
    Takes (Json.listOf Json.text) (' ' :: (listText ss).toList) ss := by
  by_cases hne : ss = []
  · subst hne
    exact fun rest => rfl
  · rw [toList_listText hne]
    exact takes_listOf_text blank_space (by simp [Blank, Tree.isSpace]) hne
      (closes_append ['\n', ' ', ' '] blank_line rfl)

theorem toList_text (q : LastQuery) :
    q.text.toList = '{' :: ([','].intercalate (q.members.map memberLine) ++ ['\n', '}']) := by
  have hlines := cons_intercalate ['\n'] (q.members.map fun m =>
    [' ', ' '] ++ ((Json.string m.1).toList ++ [':']) ++ ' ' :: m.2.toList) (by simp [members])
  have hindent : (q.members.map fun m => "  " ++ Json.string m.1 ++ ": " ++ m.2).map
      String.toList = q.members.map fun m =>
        [' ', ' '] ++ ((Json.string m.1).toList ++ [':']) ++ ' ' :: m.2.toList := by
    rw [map_map]
    refine map_congr_left fun m _ => ?_
    simp
  have htext : q.text = "\x7b\n" ++ ",\n".intercalate (q.members.map fun m =>
      "  " ++ Json.string m.1 ++ ": " ++ m.2) ++ "\n\x7d" := rfl
  rw [map_map] at hlines
  rw [htext, String.toList_append, String.toList_append, String.toList_intercalate, hindent]
  exact congrArg (fun cs => '{' :: (cs ++ ['\n', '}'])) hlines

variable (q : LastQuery)

theorem fills_source (s : String) :
    Fills take q [("source", Json.string s)] { q with source := s } := by
  have htext := (takes_text blank_space s).into fun s => { q with source := s }
  refine .cons (by decide) ?_ (.nil _)
  rw [take]
  exact htext

theorem fills_blocks (bs : List String) :
    Fills take q [("blocks", listText bs)] { q with blocks := some bs } := by
  have hlist := (takes_listText bs).into fun bs => { q with blocks := some bs }
  refine .cons (by decide) ?_ (.nil _)
  rw [take]
  exact hlist

/-- An empty list of values is left out, and none have been taken before. -/
theorem fills_args {q : LastQuery} (h : q.args = []) (args : List String) :
    Fills take q (if args.isEmpty then [] else [("args", listText args)])
      { q with args := args } := by
  split
  · rename_i hempty
    rw [isEmpty_iff.mp hempty, ← h]
    exact .nil q
  · have hlist := (takes_listText args).into fun args => { q with args := args }
    refine .cons (by decide) ?_ (.nil _)
    rw [take]
    exact hlist

/-- An empty marker is left out, and none has been taken before. -/
theorem fills_marker {q : LastQuery} (h : q.marker = "") (marker : String) :
    Fills take q (if marker.isEmpty then [] else [("marker", Json.string marker)])
      { q with marker := marker } := by
  split
  · rename_i hempty
    rw [String.isEmpty_iff.mp hempty, ← h]
    exact .nil q
  · have htext := (takes_text blank_space marker).into fun m => { q with marker := m }
    refine .cons (by decide) ?_ (.nil _)
    rw [take]
    exact htext

theorem fills_timestamp {t : Timestamp} (ht : t.IsMoment) :
    Fills take q [("timestamp", Json.string t.text)] { q with time := t } := by
  have hmoment := (takes_moment blank_space ht).into fun time => { q with time := time.getD q.time }
  refine .cons (by decide) ?_ (.nil _)
  rw [take]
  exact hmoment

variable {q}

/-- **The state file is read back as the query it was written for.** -/
theorem readRecord_text {bs : List String} (hblocks : q.blocks = some bs)
    (htime : q.time.IsMoment) : Json.readRecord take {} q.text = some q := by
  have hmembers : q.members = [("source", Json.string q.source)] ++ [("blocks", listText bs)] ++
      (if q.args.isEmpty then [] else [("args", listText q.args)]) ++
      (if q.marker.isEmpty then [] else [("marker", Json.string q.marker)]) ++
      [("timestamp", Json.string q.time.text)] := by
    rw [members, hblocks]
    rfl
  have hfills : Fills take {} q.members q := by
    have hall := ((((fills_source {} q.source).append (fills_blocks _ bs)).append
      (fills_args rfl q.args)).append (fills_marker rfl q.marker)).append (fills_timestamp _ htime)
    rw [← hmembers, ← hblocks] at hall
    exact hall
  exact readRecord_of_fills hfills (by simp [members])
    (closes_append ['\n'] (by simp [Blank, Tree.isSpace]) rfl) q.toList_text

/-! ## Recording and finding -/

theorem isName_fileName : Path.IsName fileName := by
  constructor <;> decide

/-- **A query that was recorded is found again.** -/
theorem find_store {f g : Files} {dir mark : String} {now : Timestamp} {bs : List String}
    (hblocks : q.blocks = some bs) (hne : bs ≠ []) (htime : (q.time.orElse now).IsMoment)
    (h : q.store f dir now mark = (.ok (), g)) :
    find g dir = .ok { q with time := q.time.orElse now } := by
  have hread := Files.read_replace (Files.not_prefix_join isName_fileName dir)
    (by decide) (by decide) h
  have hdecoded := readRecord_text (q := { q with time := q.time.orElse now }) hblocks htime
  have hfull : ((q.blocks.getD []).isEmpty) = false := by
    rw [hblocks, Option.getD_some]
    simpa using hne
  rw [find]
  unfold path at hread ⊢
  rw [hread]
  dsimp only
  rw [hdecoded]
  dsimp only
  rw [hfull, if_neg Bool.false_ne_true]

/-- Other files are read as before. -/
theorem read_store_of_ne {f g : Files} {dir other content mark : String} {now : Timestamp}
    (hother : Files.placeOf other ≠ Files.placeOf (path dir)) (hread : f.read other = .ok content)
    (h : q.store f dir now mark = (.ok (), g)) : g.read other = .ok content :=
  Files.read_replace_of_ne (Files.not_prefix_join isName_fileName dir) hother hread h

end LastQuery

end TreeQuery
