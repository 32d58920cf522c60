import TreeQuery.Command.Envelope
import TreeQuery.Proofs.Json.Layout

/-!
# Envelopes are JSON

The answer for a script is one JSON object whose first member says whether all went well, and no
other member does (`IsEnvelope`); what it says can be read off the first letter outside of strings,
so it says one thing (`IsEnvelope.unique`).  The envelopes of successes and failures are such
answers, whatever texts they hold.  So is the envelope of the result of a query, unless a number of
the result is not finite: then it breaks off, and is no JSON (`not_isEnvelope_ofResult`).
-/

namespace TreeQuery

open List

namespace Json

/-! ## The first word of a text -/

/-- The first letter of a text outside of strings. -/
def firstLetter (p : Place) : List Char → Option Char
  | [] => none
  | c :: cs => if p = .outside ∧ c.isAlpha then some c else firstLetter (p.after c) cs

theorem firstLetter_blank {space : List Char} (h : Blank space) (rest : List Char) :
    firstLetter .outside (space ++ rest) = firstLetter .outside rest := by
  induction space with
  | nil => rfl
  | cons c space ih =>
    obtain ⟨hc, hspace⟩ := forall_mem_cons.mp h
    have hstep : firstLetter .outside (c :: (space ++ rest)) =
        firstLetter .outside (space ++ rest) := by
      simp only [Tree.isSpace, Bool.or_eq_true, beq_iff_eq] at hc
      rcases hc with ((rfl | rfl) | rfl) | rfl <;> rfl
    rw [cons_append, hstep]
    exact ih hspace

theorem Inside.firstLetter {p : Place} {cs : List Char} (h : Inside p cs) (rest : List Char) :
    firstLetter p (cs ++ rest) = firstLetter .inString rest := by
  induction h with
  | done => rfl
  | @step p c cs hp _ ih =>
    rw [cons_append, Json.firstLetter, if_neg (fun h => hp h.1)]
    exact ih

section FirstLetter

variable {spaced : Bool} {cs : List Char}

/-- A string is passed over. -/
theorem firstLetter_string {name : String} (h : Denotes spaced cs (.value (.string name)))
    (rest : List Char) : firstLetter .outside (cs ++ rest) = firstLetter .outside rest := by
  generalize hm : Meaning.value (.string name) = m at h
  induction h generalizing rest with
  | string h =>
    have hquote : ∀ cs, firstLetter .outside ('"' :: cs) = firstLetter .inString cs := fun _ => rfl
    rw [cons_append, append_assoc, hquote, h.inside.firstLetter]
    rfl
  | padded _ hbefore hafter _ ih =>
    rw [append_assoc, append_assoc, firstLetter_blank hbefore, ih _ hm,
      firstLetter_blank hafter]
  | _ => cases hm

/-- The first word of what is written is a truth value: it is one, or leads the members. -/
inductive Leads (b : Bool) : Meaning → Prop
  | bool : Leads b (.value (.bool b))
  | members {name : String} {ms : List (String × Tree (List Char))} :
    Leads b (.members ((name, .bool b) :: ms))
  | object {name : String} {ms : List (String × Tree (List Char))} :
    Leads b (.value (.object ((name, .bool b) :: ms)))

theorem Leads.firstLetter {b : Bool} {m : Meaning} (hm : Leads b m) (h : Denotes spaced cs m)
    (rest : List Char) : firstLetter .outside (cs ++ rest) = some (if b then 't' else 'f') := by
  induction h generalizing rest with
  | isFalse =>
    cases hm
    rfl
  | isTrue =>
    cases hm
    rfl
  | member hname _ _ ih =>
    cases hm
    have hcolon : ∀ cs, Json.firstLetter .outside (':' :: cs) = Json.firstLetter .outside cs :=
      fun _ => rfl
    rw [append_assoc, firstLetter_string hname, cons_append, hcolon, ih .bool]
  | moreMembers _ _ ih _ =>
    cases hm
    rw [append_assoc, ih .members]
  | object _ ih =>
    cases hm
    rw [cons_append, append_assoc]
    exact ih .members _
  | padded _ hbefore _ _ ih =>
    rw [append_assoc, append_assoc, firstLetter_blank hbefore, ih hm]
  | _ => cases hm

end FirstLetter
end Json

namespace Command

open TreeQuery.Json

/-! ## Envelopes -/

/-- **The output is one envelope**: a JSON object, with nothing but white space around it, that says
in its first member whether all went well, and in no other. -/
def IsEnvelope (ok : Bool) (output : String) : Prop :=
  ∃ members : List (String × Json.Tree (List Char)),
    Denotes true output.toList (.value (.object (("ok", .bool ok) :: members))) ∧
      "ok" ∉ members.map Prod.fst

theorem not_isEnvelope_empty (ok : Bool) : ¬ IsEnvelope ok "" := by
  rintro ⟨members, hdenotes, -⟩
  exact hdenotes.ne_nil rfl rfl

/-- **An envelope says one thing**: that all went well, or that it did not. -/
theorem IsEnvelope.unique {ok ok' : Bool} {output : String} (h : IsEnvelope ok output)
    (h' : IsEnvelope ok' output) : ok' = ok := by
  obtain ⟨members, hdenotes, -⟩ := h
  obtain ⟨members', hdenotes', -⟩ := h'
  have hletter := (Leads.object.firstLetter hdenotes []).symm.trans
    (Leads.object.firstLetter hdenotes' [])
  revert hletter
  cases ok <;> cases ok' <;> decide

namespace Envelope

theorem isEnvelope_object (ok : Bool) {members : List (String × String)}
    (hmembers : ∀ w ∈ members, IsText w.2) (hok : "ok" ∉ members.map Prod.fst) :
    IsEnvelope ok (written (Json.object (("ok", if ok then "true" else "false") :: members))) := by
  have hbool : Denotes false (if ok then "true" else "false").toList (.value (.bool ok)) := by
    cases ok with
    | false => exact .isFalse
    | true => exact .isTrue
  obtain ⟨ms, hnames, hms⟩ := exists_members hmembers
  refine ⟨ms, denotes_indented (denotes_object (.cons ⟨rfl, hbool⟩ hms)), ?_⟩
  rwa [hnames]

theorem isText_of_mem_numberMember {name : String} {n : Nat} {w : String × String}
    (h : w ∈ numberMember name n) : IsText w.2 := by
  unfold numberMember at h
  split at h
  · exact absurd h not_mem_nil
  · rw [mem_singleton.mp h]
    exact isText_number (isNumber_nat n)

theorem isText_metaText (m : Meta) : IsText (metaText m) := by
  refine isText_object fun w hw => ?_
  simp only [mem_append] at hw
  rcases hw with (hw | hw) | hw <;> exact isText_of_mem_numberMember hw

/-- **The envelope of a success is one**, if the data keep to the grammar. -/
theorem isEnvelope_success {data : Option String} (h : ∀ d ∈ data, IsText d)
    (details : Option Meta) : IsEnvelope true (written (success data details)) := by
  refine isEnvelope_object true ?_ ?_
  · intro w hw
    rcases mem_append.mp hw with hw | hw
    · cases data with
      | none => exact absurd hw not_mem_nil
      | some d =>
        rw [mem_singleton.mp hw]
        exact h d rfl
    · cases details with
      | none => exact absurd hw not_mem_nil
      | some m =>
        rw [mem_singleton.mp hw]
        exact isText_metaText m
  · cases data <;> cases details <;> simp

/-- **The envelope of a failure is one**, whatever its message. -/
theorem isEnvelope_failure (code : ErrorCode) (message suggestion : String) :
    IsEnvelope false (written (failure code message suggestion)) := by
  refine isEnvelope_object false (forall_mem_singleton.mpr ?_) (by simp)
  refine isText_object fun w hw => ?_
  rcases mem_append.mp hw with hw | hw
  · simp only [mem_cons, not_mem_nil, or_false] at hw
    rcases hw with rfl | rfl <;> exact isText_string _
  · exact isText_of_mem_textMember hw

/-- **The envelope of a result that can be written is one.** -/
theorem isEnvelope_ofResult {v : Value} (h : v.IsWritable) (m : Meta) :
    IsEnvelope true (ofResult v m) := by
  obtain ⟨text, htext, hisText⟩ := exists_encode h
  have hsome : IsEnvelope true (written (success (some text) (some m))) :=
    isEnvelope_success (by simpa using hisText) (some m)
  unfold ofResult
  split
  · exact isEnvelope_success (by simp) (some m)
  · rwa [htext]

/-- **The envelope of a result with a number that is not finite is none.** -/
theorem not_isEnvelope_ofResult {v : Value} (hbinary : ∀ x ∈ v.quantities, x.isBinary)
    (hwritable : v.quantities.all Quantity.isWritable = false) (m : Meta) (ok : Bool) :
    ¬ IsEnvelope ok (ofResult v m) := by
  have hnone : encode v = none := by
    rw [← isSome_encode_eq] at hwritable
    simpa using hwritable
  unfold ofResult
  split
  · cases hnone
  · rw [hnone]
    rintro ⟨members, hdenotes, -⟩
    exact not_denotes_writtenOf (by decide) hbinary 1 true _ hdenotes

end Envelope
end Command
end TreeQuery
