import TreeQuery.Command.Configure
import TreeQuery.Proofs.Command.Action
import TreeQuery.Proofs.Query.Batch
import TreeQuery.Proofs.Query.Clauses

/-!
# Checking a query before it is saved

A query is saved with markers in it, before there are any values.  What is checked is its text
without the markers.  When it runs, the text is cut at the markers, the values are put between the
pieces, and the template is read with an eye on the position of each value.  Both see one literal
text: that in which the markers, found from the left, are skipped (`Text.Erases`).

So the check decides about every run with the right number of values, but for the places of the
values (`check_decides`): if it rejects the text then no such run has a tree, and if it accepts the
text then all that can be wrong with a run is a value outside of the clauses.
-/

namespace TreeQuery

namespace Query

/-- A template with as many values as there are gaps between its segments is its literal text with a
queue of values. -/
theorem parse_eq_place {t : Template} (ht : t.segments.length = t.values.length + 1) :
    t.parse = (parseLiteral t.literal (Template.place 0 t.segments t.values)).mapError
      QueryError.parse := by
  have hqueue : t.interpolations = .ok (Template.place 0 t.segments t.values) := by
    unfold Template.interpolations
    rw [if_pos ht]
    split
    · rename_i hempty
      rw [List.isEmpty_iff.mp hempty]
      cases t.segments <;> rfl
    · rfl
  rw [Template.parse, hqueue]
  dsimp only
  cases parseLiteral t.literal (Template.place 0 t.segments t.values) <;> rfl

/-- **A text decides about its templates**, but for the places of the values. -/
theorem parse_of_literal {t : Template} (ht : t.segments.length = t.values.length + 1) :
    (∀ plain, parseText (String.ofList t.literal) = .ok plain →
      (∃ root, t.parse = .ok root ∧ root.SameLayout plain) ∨
        ∃ offset, t.parse = .error (.parse ⟨offset, .misplacedValue⟩)) ∧
      ∀ e, parseText (String.ofList t.literal) = .error e → ∃ e', t.parse = .error e' := by
  have hcompares := compares_parseLiteral t.literal
    (offsetsOf_place_sorted 0 t.segments t.values)
  rw [parse_eq_place ht, parseText_ofList]
  unfold Compares at hcompares
  cases hplain : parseLiteral t.literal [] with
  | error e =>
    rw [hplain] at hcompares
    obtain ⟨e', he'⟩ := hcompares
    rw [he']
    refine ⟨fun plain h => ?_, fun _ _ => ⟨.parse e', rfl⟩⟩
    cases h
  | ok root =>
    rw [hplain] at hcompares
    dsimp only at hcompares
    refine ⟨fun plain h => ?_, fun e h => by cases h⟩
    cases h
    split at hcompares
    · obtain ⟨root', hroot', hlayout⟩ := hcompares
      rw [hroot']
      exact .inl ⟨root', rfl, hlayout⟩
    · rw [hcompares]
      exact .inr ⟨_, rfl⟩

/-- A single block takes all values, one for each of its markers. -/
theorem deal_single {text marker : String} {values : List Value}
    (h : (Text.pieces (Template.markerOrDefault marker) text).length = values.length + 1) :
    deal [text] marker values =
      .ok [⟨Text.pieces (Template.markerOrDefault marker) text, values⟩] := by
  rw [Text.length_pieces] at h
  unfold deal
  dsimp only
  rw [dealFrom_cons (Template.toList_markerOrDefault marker)]
  dsimp only
  rw [Nat.succ.inj h, if_neg (Nat.lt_irrefl _), List.drop_length, List.take_length]
  rfl

end Query

namespace Command

open Query TreeQuery.Command.Action

variable {δ : Type}

/-- A query in one block, with a name for it, is checked and saved. -/
theorem run_runSave {s : Surroundings} {o : Options} {g : Settings} {args : List String}
    {st : State δ} {source : Source} {text : String}
    (hname : (Slug.queryName (args.headD "")).isEmpty = false)
    (hsource : Source.resolve st.files g.config s.input o.file (args.drop 1) = .ok source)
    (htext : source.blocks = [text]) :
    (runSave s o g args).run st =
      (Action.orFail o (parseText (unmarked (o.marker.getD Template.defaultMarker) text))
          (fun _ => .queryInvalid) QueryError.message (fun _ => "") >>= fun _ =>
        saveUnder s o g (Slug.queryName (args.headD "")) text).run st := by
  unfold runSave
  dsimp only
  rw [hname, if_neg Bool.false_ne_true]
  rw [run_bind_ok (run_files st), hsource, run_bind_ok (run_orFail_ok o source _ _ _ st), htext]

/-- **The check decides about every run.**  A query text with a marker, an empty one standing for
the default, is cut into a template by as many values as it has markers, and by no other number.
The literal text of the template is the text without its markers, which is what is checked.  If the
check accepts it then the template has a tree of the same layout, unless a value stands outside of
all clauses; if the check rejects it then the template has none.  A command that saves the text
goes on to save it if the check accepts it, and otherwise breaks off and leaves all files as they
are. -/
theorem check_decides (text marker : String) :
    ∃ n literal, Text.Erases (Template.markerOrDefault marker).toList text.toList n literal ∧
      unmarked marker text = String.ofList literal ∧
      (∀ values : List Value, values.length ≠ n →
        ∃ e, Template.split text marker values = .error e) ∧
      (∀ values : List Value, values.length = n →
        ∃ t, Template.split text marker values = .ok t ∧ deal [text] marker values = .ok [t] ∧
          t.values = values ∧ t.literal = literal ∧
          (∀ plain, parseText (unmarked marker text) = .ok plain →
            (∃ root, t.parse = .ok root ∧ root.SameLayout plain) ∨
              ∃ e : ParseError, t.parse = .error (.parse e) ∧ e.problem = .misplacedValue ∧
                e.problem.message = "interpolated value is outside of any SQL clause") ∧
          ∀ e, parseText (unmarked marker text) = .error e → ∃ e', t.parse = .error e') ∧
      ∀ (δ : Type) (s : Surroundings) (o : Options) (g : Settings) (args : List String)
        (st : State δ) (source : Source), o.marker.getD Template.defaultMarker = marker →
        (Slug.queryName (args.headD "")).isEmpty = false →
        Source.resolve st.files g.config s.input o.file (args.drop 1) = .ok source →
        source.blocks = [text] →
        (∀ plain, parseText (unmarked marker text) = .ok plain → (runSave s o g args).run st =
          (saveUnder s o g (Slug.queryName (args.headD "")) text).run st) ∧
        ∀ e, parseText (unmarked marker text) = .error e →
          ∃ stop st', (runSave s o g args).run st = (.error stop, st') ∧ st'.files = st.files := by
  have hunmarked := Text.replaced_empty (Template.markerOrDefault marker) text
  have hlength := Text.length_pieces (Template.markerOrDefault marker) text
  have hliteral := Text.flatMap_toList_pieces (Template.markerOrDefault marker) text
  refine ⟨_, _, Text.erases_splitOn (Template.toList_markerOrDefault marker) text.toList, hunmarked,
    fun values hvalues => ?_, fun values hvalues => ?_, ?_⟩
  · refine ⟨_, if_neg fun hcount => hvalues ?_⟩
    omega
  · rw [← hvalues] at hlength
    obtain ⟨haccepts, hrejects⟩ := parse_of_literal (t := ⟨_, values⟩) hlength
    rw [show Template.literal ⟨_, values⟩ = _ from hliteral, ← hunmarked] at haccepts hrejects
    refine ⟨⟨_, values⟩, if_pos hlength, deal_single hlength, rfl, hliteral, fun plain hplain => ?_,
      hrejects⟩
    rcases haccepts plain hplain with hroot | ⟨offset, herror⟩
    · exact .inl hroot
    · exact .inr ⟨_, herror, rfl, rfl⟩
  · rintro δ s o g args st source rfl hname hsource htext
    have hrun := run_runSave hname hsource htext
    refine ⟨fun plain hplain => ?_, fun e he => ?_⟩
    · rw [hrun, hplain]
      rfl
    · rw [he] at hrun
      obtain ⟨stop, st', hfail⟩ := run_fail (α := Relation) o .queryInvalid e.message "" st
      have hfiles := (Idle.fail (α := Relation) o .queryInvalid e.message "" st).1
      rw [hfail] at hfiles
      exact ⟨stop, st', hrun.trans (run_bind_error hfail), hfiles⟩

/-- A query whose marker holds a newline: without it two lines are one. -/
def brokenLine : String := "users WHERE a =\n@ AND b = c \x7b\n id\n\x7d"

/-- The broken line is joined for the check as it is for the run. -/
theorem check_decides_brokenLine :
    ∃ t, Template.split brokenLine "\n@" [.int 4] = .ok t ∧
      String.ofList t.literal = "users WHERE a = AND b = c \x7b\n id\n\x7d" ∧
      ((∃ root, t.parse = .ok root) ∨
        ∃ e : ParseError, t.parse = .error (.parse e) ∧ e.problem = .misplacedValue) := by
  have hsplit : (Template.split brokenLine "\n@" [.int 4]).isOk = true := by decide +kernel
  have hunmarked : unmarked "\n@" brokenLine = "users WHERE a = AND b = c \x7b\n id\n\x7d" := by
    decide +kernel
  have hplain : ∃ plain, parseText "users WHERE a = AND b = c \x7b\n id\n\x7d" = .ok plain :=
    ⟨_, rfl⟩
  obtain ⟨n, literal, -, hliteral, hother, hruns, -⟩ := check_decides brokenLine "\n@"
  have hn : [Value.int 4].length = n := by
    by_contra hne
    obtain ⟨e, he⟩ := hother _ hne
    rw [he] at hsplit
    cases hsplit
  obtain ⟨t, ht, -, -, htext, haccepts, -⟩ := hruns _ hn
  rw [hunmarked] at hliteral haccepts
  obtain ⟨plain, hplain⟩ := hplain
  refine ⟨t, ht, by rw [htext, hliteral], ?_⟩
  rcases haccepts plain hplain with ⟨root, hroot, -⟩ | ⟨e, he, hproblem, -⟩
  · exact .inl ⟨root, hroot⟩
  · exact .inr ⟨e, he, hproblem⟩

end Command
end TreeQuery
