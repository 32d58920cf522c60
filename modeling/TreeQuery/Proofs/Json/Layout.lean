import TreeQuery.Proofs.Json.Written

/-!
# Texts laid out over lines

Laying a text out adds white space between its parts and changes nothing else: it stands for the
same value (`denotes_indented`).  What is laid out of a part of a text does not depend on what comes
after it (`Lays`), so the parts of the grammar are laid out one by one.

A text that breaks off is no JSON (`not_denotes_writtenOf`).  The outermost bracket has been opened,
and no part of a result closes it (`Nested`).
-/

namespace TreeQuery.Json

open List TreeQuery.Json.Tree

/-! ## Characters laid out -/

/-- The text starts with a character other than a closing bracket. -/
def Starts (cs : List Char) : Prop := ∃ c rest, cs = c :: rest ∧ isClosing c = false

variable {cs laid : List Char} {c : Char} {m : Meaning} {n : Nat} {ps : Parts} {depth : Nat}
  {opening closing : Char}

theorem Starts.append (h : Starts cs) (ds : List Char) : Starts (cs ++ ds) := by
  obtain ⟨c, rest, rfl, hc⟩ := h
  exact ⟨c, rest ++ ds, rfl, hc⟩

theorem layOut_plain (h : isPlain c) (depth : Nat) (rest : List Char) :
    layOut .outside depth (c :: rest) = c :: layOut .outside depth rest := by
  simp only [isPlain, Bool.and_eq_true, bne_iff_ne, Bool.not_eq_true'] at h
  obtain ⟨⟨⟨⟨hquote, hopening⟩, hclosing⟩, hcomma⟩, hcolon⟩ := h
  cases rest with
  | nil => simp [layOut, hclosing]
  | cons d rest => simp [layOut, hopening, hclosing, hcomma, hcolon, Place.after, hquote]

theorem layOut_inside {p : Place} (h : p ≠ .outside) (depth : Nat) (c : Char) (rest : List Char) :
    layOut p depth (c :: rest) = c :: layOut (p.after c) depth rest := by
  cases rest with
  | nil => simp [layOut, h]
  | cons d rest => simp [layOut, h]

theorem layOut_quote (depth : Nat) (rest : List Char) :
    layOut .outside depth ('"' :: rest) = '"' :: layOut .inString depth rest := by
  cases rest <;> rfl

theorem layOut_opening (h : isOpening c) (hcs : Starts cs) (depth : Nat) :
    layOut .outside depth (c :: cs) =
      c :: (lineBreak (depth + 1) ++ layOut .outside (depth + 1) cs) := by
  obtain ⟨d, rest, rfl, hd⟩ := hcs
  simp [layOut, h, hd]

theorem layOut_closing (h : isClosing c) (hc : isOpening c = false) (depth : Nat)
    (rest : List Char) : layOut .outside depth (c :: rest) =
      lineBreak (depth - 1) ++ c :: layOut .outside (depth - 1) rest := by
  cases rest with
  | nil => simp [layOut, h]
  | cons d rest => simp [layOut, h, hc]

theorem layOut_comma (h : Starts cs) (depth : Nat) :
    layOut .outside depth (',' :: cs) = ',' :: (lineBreak depth ++ layOut .outside depth cs) := by
  obtain ⟨d, rest, rfl, -⟩ := h
  rfl

theorem layOut_colon (h : Starts cs) (depth : Nat) :
    layOut .outside depth (':' :: cs) = ':' :: ' ' :: layOut .outside depth cs := by
  obtain ⟨d, rest, rfl, -⟩ := h
  rfl

/-! ## Parts laid out -/

/-- **The part is laid out so at a depth**, whatever comes after it. -/
def Lays (depth : Nat) (cs laid : List Char) : Prop :=
  ∀ rest, layOut .outside depth (cs ++ rest) = laid ++ layOut .outside depth rest

theorem lays_plain (h : ∀ c ∈ cs, isPlain c) (depth : Nat) : Lays depth cs cs := by
  intro rest
  induction cs with
  | nil => rfl
  | cons c cs ih =>
    obtain ⟨hc, hcs⟩ := forall_mem_cons.mp h
    rw [cons_append, layOut_plain hc, ih hcs, cons_append]

theorem Inside.layOut {p : Place} (h : Inside p cs) (depth : Nat) (rest : List Char) :
    layOut p depth (cs ++ rest) = cs ++ layOut .inString depth rest := by
  induction h with
  | done => rfl
  | step hp _ ih => rw [cons_append, layOut_inside hp, ih, cons_append]

theorem lays_string {s : List Char} (h : Chars cs s) (depth : Nat) :
    Lays depth ('"' :: (cs ++ ['"'])) ('"' :: (cs ++ ['"'])) := by
  intro rest
  rw [cons_append, append_assoc, layOut_quote, h.inside.layOut, singleton_append,
    layOut_inside Place.noConfusion, cons_append, append_assoc]
  rfl

theorem Lays.append {ds laid' : List Char} (h : Lays depth cs laid)
    (h' : Lays depth ds laid') : Lays depth (cs ++ ds) (laid ++ laid') := by
  intro rest
  rw [append_assoc, h, h', append_assoc]

theorem Lays.comma (h : Lays depth cs laid) (hcs : Starts cs) :
    Lays depth (',' :: cs) (',' :: (lineBreak depth ++ laid)) := by
  intro rest
  rw [cons_append, layOut_comma (hcs.append rest), h, cons_append, append_assoc]

theorem Lays.colon (h : Lays depth cs laid) (hcs : Starts cs) :
    Lays depth (':' :: cs) (':' :: ' ' :: laid) := by
  intro rest
  rw [cons_append, layOut_colon (hcs.append rest), h]
  rfl

/-- What stands between brackets goes to lines of its own, one level deeper. -/
theorem Lays.brackets (h : Lays (depth + 1) cs laid)
    (hcs : Starts cs) (hopening : isOpening opening) (hclosing : isClosing closing)
    (hneither : isOpening closing = false) : Lays depth (opening :: (cs ++ [closing]))
      (opening :: (lineBreak (depth + 1) ++ (laid ++ lineBreak depth) ++ [closing])) := by
  intro rest
  rw [cons_append, append_assoc, layOut_opening hopening (hcs.append _), h,
    singleton_append, layOut_closing hclosing hneither, Nat.add_sub_cancel]
  simp only [append_assoc, cons_append, nil_append]

theorem lays_noBrackets (hopening : isOpening opening)
    (hclosing : isClosing closing) (depth : Nat) :
    Lays depth [opening, closing] [opening, closing] := by
  intro rest
  simp [layOut, hopening, hclosing]

/-! ## The grammar laid out -/

/-- Whether nothing stands between the brackets. -/
def Meaning.isEmpty : Meaning → Bool
  | .elements [] => true
  | .members [] => true
  | _ => false

theorem IsNumber.starts (h : IsNumber cs) : Starts cs := by
  have hne : cs ≠ [] := by
    cases h with
    | positive h =>
      obtain ⟨whole, fraction, exponent, rfl, hwhole, -⟩ := h
      exact append_ne_nil_of_left_ne_nil hwhole.1.1 _
    | negative h => exact cons_ne_nil _ _
  obtain ⟨c, rest, rfl⟩ := exists_cons_of_ne_nil hne
  have hplain := h.isPlain c mem_cons_self
  simp only [Json.isPlain, Bool.and_eq_true, Bool.not_eq_true'] at hplain
  exact ⟨c, rest, rfl, hplain.1.1.2⟩

/-- A text without white space does not start with a closing bracket. -/
theorem Denotes.starts (h : Denotes false cs m) (hm : m.isEmpty = false) : Starts cs := by
  induction h with
  | number h => exact h.starts
  | noElements => cases hm
  | element _ ih => exact ih rfl
  | moreElements _ _ ih _ => exact (ih rfl).append _
  | noMembers => cases hm
  | member _ _ ih _ => exact (ih rfl).append _
  | moreMembers _ _ ih _ => exact (ih rfl).append _
  | padded hspaced => cases hspaced
  | _ => exact ⟨_, _, rfl, rfl⟩

theorem blank_lineBreak (depth : Nat) : Blank (lineBreak depth) := by
  refine forall_mem_cons.mpr ⟨rfl, fun c hc => ?_⟩
  rw [eq_of_mem_replicate hc]
  rfl

theorem Denotes.indented {before : List Char} (h : Denotes true cs m) (hbefore : Blank before) :
    Denotes true (before ++ cs) m := by
  have hpadded := Denotes.padded rfl hbefore (forall_mem_nil _) h
  rwa [append_nil] at hpadded

theorem Denotes.eq_nil (h : Denotes false cs m) (hm : m.isEmpty) : cs = [] := by
  cases h with
  | noElements => rfl
  | noMembers => rfl
  | padded hspaced => cases hspaced
  | _ => cases hm

/-- Laid out at a depth, the text has the meaning. -/
def LaidAs (depth : Nat) (cs : List Char) (m : Meaning) : Prop :=
  ∃ laid, Lays depth cs laid ∧ Denotes true laid m

theorem laidAs_plain (h : Denotes false cs m) (hcs : ∀ c ∈ cs, isPlain c) (depth : Nat) :
    LaidAs depth cs m :=
  ⟨cs, lays_plain hcs depth, h.withSpace⟩

/-- Lists and objects, from what stands between their brackets. -/
theorem LaidAs.brackets {m' : Meaning}
    (hlaid : LaidAs (depth + 1) cs m) (h : Denotes false cs m) (hopening : isOpening opening)
    (hclosing : isClosing closing) (hneither : isOpening closing = false)
    (hm : ∀ {cs}, Denotes true cs m → Denotes true (opening :: (cs ++ [closing])) m') :
    LaidAs depth (opening :: (cs ++ [closing])) m' := by
  cases hempty : m.isEmpty with
  | true =>
    obtain rfl := h.eq_nil hempty
    exact ⟨_, lays_noBrackets hopening hclosing depth, hm h.withSpace⟩
  | false =>
    obtain ⟨laid, hlays, hdenotes⟩ := hlaid
    refine ⟨_, hlays.brackets (h.starts hempty) hopening hclosing hneither, hm ?_⟩
    exact .padded rfl (blank_lineBreak _) (blank_lineBreak _) hdenotes

/-- **A text laid out stands for what it stood for.** -/
theorem Denotes.laidAs (h : Denotes false cs m) (depth : Nat) : LaidAs depth cs m := by
  induction h generalizing depth with
  | null => exact laidAs_plain .null (all_eq_true.mp rfl) depth
  | isFalse => exact laidAs_plain .isFalse (all_eq_true.mp rfl) depth
  | isTrue => exact laidAs_plain .isTrue (all_eq_true.mp rfl) depth
  | number h => exact laidAs_plain (.number h) h.isPlain depth
  | string h => exact ⟨_, lays_string h depth, .string h⟩
  | array h ih => exact (ih (depth + 1)).brackets h rfl rfl rfl .array
  | object h ih => exact (ih (depth + 1)).brackets h rfl rfl rfl .object
  | noElements => exact ⟨[], fun _ => rfl, .noElements⟩
  | element _ ih =>
    obtain ⟨laid, hlays, hlaid⟩ := ih depth
    exact ⟨laid, hlays, .element hlaid⟩
  | moreElements _ hmore ih ihmore =>
    obtain ⟨laid, hlays, hlaid⟩ := ih depth
    obtain ⟨laid', hlays', hlaid'⟩ := ihmore depth
    refine ⟨_, hlays.append (hlays'.comma (hmore.starts rfl)), .moreElements hlaid ?_⟩
    exact hlaid'.indented (blank_lineBreak depth)
  | noMembers => exact ⟨[], fun _ => rfl, .noMembers⟩
  | member _ h ihname ih =>
    obtain ⟨laid, hlays, hlaid⟩ := ihname depth
    obtain ⟨laid', hlays', hlaid'⟩ := ih depth
    refine ⟨_, hlays.append (hlays'.colon (h.starts rfl)), .member hlaid ?_⟩
    exact hlaid'.indented (forall_mem_singleton.mpr rfl)
  | moreMembers _ hmore ih ihmore =>
    obtain ⟨laid, hlays, hlaid⟩ := ih depth
    obtain ⟨laid', hlays', hlaid'⟩ := ihmore depth
    refine ⟨_, hlays.append (hlays'.comma (hmore.starts rfl)), .moreMembers hlaid ?_⟩
    exact hlaid'.indented (blank_lineBreak depth)
  | padded hspaced => cases hspaced

theorem layOut_nil (p : Place) (depth : Nat) : layOut p depth [] = [] := by
  rw [layOut]

/-- **A text laid out over lines, with a line break at its end**, stands for what it stood for. -/
theorem denotes_indented {s : String} {t : Tree (List Char)}
    (h : Denotes false s.toList (.value t)) :
    Denotes true (indented s ++ "\n").toList (.value t) := by
  obtain ⟨laid, hlays, hdenotes⟩ := h.laidAs 0
  have hlaid : layOut .outside 0 s.toList = laid := by
    have hall := hlays []
    rwa [layOut_nil, append_nil, append_nil] at hall
  rw [indented, String.toList_append, String.toList_ofList, hlaid]
  exact .padded rfl (forall_mem_nil _) (forall_mem_singleton.mpr rfl)
    hdenotes

/-! ## Texts that break off -/

/-- **Inside an open bracket, the parts lead from `n` further open brackets to `m`**, and the
bracket stays open all the way. -/
inductive Nested : Nat → Parts → Nat → Prop
  | nil {n : Nat} : Nested n [] n
  | cons {n k m : Nat} {now : Bool} {s : String} {ps : Parts}
      (hstep : s.toList.foldl scan (.outside, (n : Int) + 1) = (.outside, (k : Int) + 1))
      (h : Nested k ps m) : Nested n ((now, s) :: ps) m

theorem Nested.append {k m : Nat} {qs : Parts} (hps : Nested n ps k) (hqs : Nested k qs m) :
    Nested n (ps ++ qs) m := by
  induction hps with
  | nil => exact hqs
  | cons hstep _ ih => exact .cons hstep (ih hqs)

/-- Part of the way the bracket is open as well. -/
theorem Nested.of_append {m : Nat} {qs : Parts} (h : Nested n (ps ++ qs) m) :
    ∃ k, Nested n ps k := by
  induction ps generalizing n with
  | nil => exact ⟨n, .nil⟩
  | cons p ps ih =>
    cases h with
    | cons hstep h =>
      obtain ⟨k, hk⟩ := ih h
      exact ⟨k, .cons hstep hk⟩

theorem Nested.foldl_scan {m : Nat} (h : Nested n ps m) :
    (ps.flatMap fun p => p.2.toList).foldl scan (.outside, (n : Int) + 1) =
      (.outside, (m : Int) + 1) := by
  induction h with
  | nil => rfl
  | cons hstep _ ih =>
    rw [flatMap_cons, foldl_append, hstep]
    exact ih

theorem nested_text {text : String} (h : IsText text) (n : Nat) (now : Bool) :
    Nested n [(now, text)] n := by
  obtain ⟨t, ht⟩ := h
  exact .cons (ht.foldl_scan _) .nil

theorem nested_row {r : Row Value} (hbinary : ∀ x ∈ (Value.row r).quantities, x.isBinary)
    (n : Nat) : Nested n (rowParts r) n := by
  unfold rowParts
  split
  · rename_i text htext
    exact nested_text (isText_of_encode _ htext hbinary) n true
  · exact .nil

theorem foldl_scan_blank (h : Blank cs) (n : Int) : cs.foldl scan (.outside, n) = (.outside, n) :=
  foldl_scan_plain (fun c hc => isPlain_of_isSpace (h c hc)) n

theorem nested_separated {separator : Parts} {elements : List Parts}
    (hseparator : Nested n separator n) (h : ∀ ps ∈ elements, Nested n ps n) :
    Nested n (elements.intersperse separator).flatten n := by
  induction elements with
  | nil => exact .nil
  | cons ps elements ih =>
    obtain ⟨hps, helements⟩ := forall_mem_cons.mp h
    cases elements with
    | nil =>
      rw [intersperse_singleton, flatten_singleton]
      exact hps
    | cons qs elements =>
      rw [intersperse_cons_cons, flatten_cons, flatten_cons]
      exact hps.append (hseparator.append (ih helements))

theorem nested_list {elements : List Parts} (h : ∀ ps ∈ elements, Nested (n + 1) ps (n + 1))
    (depth : Nat) : Nested n (listParts depth elements) n := by
  have hopened : scan (.outside, (n : Int) + 1) '[' = (.outside, ((n + 1 : Nat) : Int) + 1) := rfl
  have hclosed : scan (.outside, ((n + 1 : Nat) : Int) + 1) ']' = (.outside, (n : Int) + 1) :=
    Prod.ext rfl (Int.add_sub_cancel _ 1)
  unfold listParts
  split
  · refine .cons ?_ .nil
    rw [String.toList_ofList, foldl_cons, hopened]
    exact hclosed
  refine .append (.append (.cons ?_ .nil) (nested_separated (.cons ?_ .nil) h)) (.cons ?_ .nil)
  · rw [String.toList_ofList, foldl_cons, hopened]
    exact foldl_scan_blank (blank_lineBreak _) _
  · rw [String.toList_ofList, foldl_cons]
    exact foldl_scan_blank (blank_lineBreak _) _
  · rw [String.toList_ofList, foldl_append, foldl_scan_blank (blank_lineBreak _)]
    exact hclosed

theorem nested_value {v : Value} (hbinary : ∀ x ∈ v.quantities, x.isBinary) (n : Nat) :
    Nested n [(false, (encode v).getD "")] n := by
  cases hv : encode v with
  | none => exact .cons rfl .nil
  | some text => exact nested_text (isText_of_encode v hv hbinary) n false

theorem resultPartsAll_eq_map (depth : Nat) (vs : List Value) :
    resultPartsAll depth vs = vs.map (resultParts depth) := by
  induction vs with
  | nil => rfl
  | cons v vs ih => rw [resultPartsAll, ih, map_cons]

/-- **A result closes the brackets that it opens**, and no others. -/
theorem nested_resultParts (v : Value) (hbinary : ∀ x ∈ v.quantities, x.isBinary) (depth n : Nat) :
    Nested n (resultParts depth v) n := by
  induction v using Value.nested_induction generalizing depth n with
  | atom v h => cases v <;> first | exact nested_value hbinary n | cases h
  | map es => exact nested_value hbinary n
  | row r => exact nested_row hbinary n
  | list es ih =>
    rw [resultParts, resultPartsAll_eq_map]
    rw [Value.quantities_list] at hbinary
    refine nested_list (forall_mem_map.mpr fun v hv => ?_) depth
    exact ih v hv (fun x hx => hbinary x (mem_flatMap.mpr ⟨v, hv, hx⟩)) (depth + 1) (n + 1)
  | rows rs =>
    rw [Value.quantities_rows, Value.quantities_list] at hbinary
    refine nested_list (forall_mem_map.mpr fun r hr => ?_) depth
    exact nested_row (fun x hx => hbinary x (mem_flatMap.mpr ⟨_, mem_map_of_mem hr, hx⟩)) (n + 1)

/-- What has been written of parts are the first of them. -/
theorem exists_toList_writtenOf (ps : Parts) :
    ∃ qs more, ps = qs ++ more ∧ (writtenOf ps).toList = qs.flatMap fun p => p.2.toList := by
  obtain ⟨rest, hrest⟩ := dropWhile_suffix (l := ps.reverse) fun p => !p.1
  refine ⟨(ps.reverse.dropWhile fun p => !p.1).reverse, rest.reverse, ?_, ?_⟩
  · rw [← reverse_append, hrest, reverse_reverse]
  · rw [writtenOf, String.toList_join, flatMap_map]

/-- A text of the grammar is not empty. -/
theorem Denotes.ne_nil {spaced : Bool} (h : Denotes spaced cs m) (hm : m.isEmpty = false) :
    cs ≠ [] := by
  induction h with
  | number h =>
    obtain ⟨c, rest, hcs, -⟩ := h.starts
    rw [hcs]
    exact cons_ne_nil c rest
  | noElements => cases hm
  | element _ ih => exact ih rfl
  | moreElements => exact append_ne_nil_of_right_ne_nil _ (cons_ne_nil _ _)
  | noMembers => cases hm
  | member => exact append_ne_nil_of_right_ne_nil _ (cons_ne_nil _ _)
  | moreMembers => exact append_ne_nil_of_right_ne_nil _ (cons_ne_nil _ _)
  | padded _ _ _ _ ih =>
    exact append_ne_nil_of_right_ne_nil _ (append_ne_nil_of_left_ne_nil (ih hm) _)
  | _ => exact cons_ne_nil _ _

/-- **A result that breaks off inside a bracket is no JSON.** -/
theorem not_denotes_writtenOf {before : String} {v : Value}
    (hbefore : before.toList.foldl scan (.outside, 0) = (.outside, 1))
    (hbinary : ∀ x ∈ v.quantities, x.isBinary) (depth : Nat) (spaced : Bool)
    (t : Tree (List Char)) :
    ¬ Denotes spaced (writtenOf ((false, before) :: resultParts depth v)).toList (.value t) := by
  intro h
  obtain ⟨qs, more, hparts, hwritten⟩ :=
    exists_toList_writtenOf ((false, before) :: resultParts depth v)
  rw [hwritten] at h
  cases qs with
  | nil => exact h.ne_nil rfl rfl
  | cons q qs =>
    rw [cons_append] at hparts
    obtain ⟨rfl, hresult⟩ := List.cons.inj hparts
    have hnested := nested_resultParts v hbinary depth 0
    rw [hresult] at hnested
    obtain ⟨k, hk⟩ := hnested.of_append
    have hopen := h.foldl_scan 0
    rw [flatMap_cons, foldl_append, hbefore,
      show (1 : Int) = ((0 : Nat) : Int) + 1 from rfl, hk.foldl_scan] at hopen
    have hcount := (Prod.mk.inj hopen).2
    omega

end TreeQuery.Json
