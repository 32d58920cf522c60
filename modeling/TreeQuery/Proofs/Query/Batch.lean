import Mathlib.Data.List.Forall2
import TreeQuery.Proofs.Text.Pieces
import TreeQuery.Query.Batch

/-!
# Values dealt out without loss

The values of a run are dealt out to its blocks.  For each block the markers are counted first, and
then the block is cut at them; the two go over the text in ways of their own.  They agree on every
text and marker, so that a block always is a template with the values that it was given
(`dealFrom_cons`).  Hence dealing succeeds exactly if there are as many values as markers in all
blocks together, and then no value is lost and no block is changed (`deal_markers`).
-/

namespace TreeQuery.Query

open List

/-! ## Markers -/

namespace Template

theorem toList_markerOrDefault (marker : String) : (markerOrDefault marker).toList ≠ [] := by
  unfold markerOrDefault
  split
  · decide
  · rename_i hmarker
    intro hnil
    exact hmarker (by simpa using String.toList_eq_nil_iff.mp hnil)

theorem markerOrDefault_of_ne {marker : String} (h : marker.toList ≠ []) :
    markerOrDefault marker = marker := by
  refine if_neg fun hempty => h ?_
  rw [String.isEmpty_iff.mp hempty]
  rfl

end Template

/-- The number of markers in blocks. -/
def markersIn (marker : String) : List String → Nat
  | [] => 0
  | block :: rest => Text.occurrences marker.toList block.toList + markersIn marker rest

/-- **A template is a block with values at its markers**: the segments with the marker between them
are the block, no segment holds the marker, and there is one value between each two segments. -/
structure IsCut (marker block : String) (t : Template) : Prop where
  counts : t.segments.length = t.values.length + 1
  joined : marker.intercalate t.segments = block
  unmarked : ∀ s ∈ t.segments, ¬ marker.toList <:+: s.toList

/-! ## Dealing -/

section Deal

variable {marker : String} (hmarker : marker.toList ≠ [])

include hmarker

/-- A block is a template with as many values as it has markers. -/
theorem split_eq_ok {block : String} {values : List Value}
    (h : values.length = Text.occurrences marker.toList block.toList) :
    Template.split block marker values = .ok ⟨Text.pieces marker block, values⟩ := by
  unfold Template.split
  dsimp only
  rw [Template.markerOrDefault_of_ne hmarker, if_pos (by rw [Text.length_pieces, h])]

theorem isCut_pieces {block : String} {values : List Value}
    (h : values.length = Text.occurrences marker.toList block.toList) :
    IsCut marker block ⟨Text.pieces marker block, values⟩ where
  counts := by rw [Text.length_pieces, h]
  joined := Text.intercalate_pieces hmarker block
  unmarked _ hs := Text.not_infix_of_mem_pieces hmarker hs

/-- **Dealing to one block**: it takes a value for each of its markers, if there are enough, and
nothing else can go wrong with it. -/
theorem dealFrom_cons (index : Nat) (block : String) (rest : List String) (values : List Value) :
    dealFrom marker index (block :: rest) values =
      let n := Text.occurrences marker.toList block.toList
      if values.length < n then .error (.tooFew index n marker values.length)
      else (dealFrom marker (index + 1) rest (values.drop n)).map fun dealt =>
        (⟨Text.pieces marker block, values.take n⟩ :: dealt.1, dealt.2) := by
  rw [dealFrom]
  dsimp only
  split
  · rfl
  rename_i hmany
  rw [split_eq_ok hmarker (length_take_of_le (Nat.le_of_not_lt hmany))]
  dsimp only
  cases dealFrom marker (index + 1) rest (values.drop _) <;> rfl

/-- **Dealing to all blocks.**  If there are enough values, each block takes its own, and those
behind are left over; otherwise some block has too few. -/
theorem dealFrom_cases (blocks : List String) (index : Nat) (values : List Value) :
    (markersIn marker blocks ≤ values.length ∧ ∃ ts,
      dealFrom marker index blocks values = .ok (ts, values.drop (markersIn marker blocks)) ∧
      ts.flatMap Template.values = values.take (markersIn marker blocks) ∧
      List.Forall₂ (IsCut marker) blocks ts) ∨
    (values.length < markersIn marker blocks ∧ ∃ i n k,
      dealFrom marker index blocks values = .error (.tooFew i n marker k)) := by
  induction blocks generalizing index values with
  | nil => exact .inl ⟨Nat.zero_le _, [], rfl, rfl, .nil⟩
  | cons block rest ih =>
    rw [dealFrom_cons hmarker, markersIn]
    dsimp only
    generalize hn : Text.occurrences marker.toList block.toList = n
    by_cases hfew : values.length < n
    · refine .inr ⟨by omega, index, n, values.length, ?_⟩
      rw [if_pos hfew]
    rw [if_neg hfew]
    have hlength : (values.drop n).length = values.length - n := length_drop
    rcases ih (index + 1) (values.drop n) with
      ⟨hle, ts, hok, hvalues, hcuts⟩ | ⟨hlt, i, k, l, herror⟩
    · refine .inl ⟨by omega, ⟨Text.pieces marker block, values.take n⟩ :: ts, ?_, ?_, ?_⟩
      · rw [hok, drop_drop]
        rfl
      · rw [flatMap_cons, hvalues, take_add]
      · refine .cons (isCut_pieces hmarker ?_) hcuts
        rw [hn, length_take]
        omega
    · refine .inr ⟨by omega, i, k, l, ?_⟩
      rw [herror]
      rfl

end Deal

/-- **The two ends of a deal**: all values are dealt out, or their number is wrong. -/
theorem deal_cases (blocks : List String) (marker : String) (values : List Value) :
    (markersIn (Template.markerOrDefault marker) blocks = values.length ∧ ∃ ts,
      deal blocks marker values = .ok ts ∧ ts.flatMap Template.values = values ∧
      List.Forall₂ (IsCut (Template.markerOrDefault marker)) blocks ts) ∨
    (markersIn (Template.markerOrDefault marker) blocks ≠ values.length ∧ ∃ e,
      deal blocks marker values = .error e ∧ ∀ e', e ≠ .template e') := by
  unfold deal
  dsimp only
  rcases dealFrom_cases (Template.toList_markerOrDefault marker) blocks 1 values with
    ⟨hle, ts, hok, hvalues, hcuts⟩ | ⟨hlt, i, n, k, herror⟩
  · rw [hok]
    rcases Nat.lt_or_eq_of_le hle with hlt | hall
    · -- values are left over
      obtain ⟨v, left, hleft⟩ := exists_cons_of_length_pos
        (length_drop ▸ Nat.sub_pos_of_lt hlt)
      rw [hleft]
      exact .inr ⟨Nat.ne_of_lt hlt, _, rfl, fun e' he => by cases he⟩
    · rw [hall, take_length] at hvalues
      rw [hall, drop_length]
      exact .inl ⟨rfl, ts, rfl, hvalues, hcuts⟩
  · rw [herror]
    exact .inr ⟨Nat.ne_of_gt hlt, _, rfl, fun e' he => by cases he⟩

/-- **Values are dealt out to blocks without loss.**  For all blocks, markers (an empty one standing
for the default) and values, dealing succeeds if and only if there are as many values as there are
markers in the blocks, and never fails for a block that is no template with its values.  If it
succeeds, the values of the templates in a row are the values given, and each template is its block
with one value at each marker.  The markers in a block are as many as can stand in it without
overlapping. -/
theorem deal_markers (blocks : List String) (marker : String) (values : List Value) :
    ((∃ ts, deal blocks marker values = .ok ts) ↔
        markersIn (Template.markerOrDefault marker) blocks = values.length) ∧
      (∀ e, deal blocks marker values ≠ .error (.template e)) ∧
      (∀ ts, deal blocks marker values = .ok ts →
        ts.flatMap Template.values = values ∧
          List.Forall₂ (IsCut (Template.markerOrDefault marker)) blocks ts) ∧
      ∀ block : String, Text.MostOccurrences (Template.markerOrDefault marker).toList block.toList
        (Text.occurrences (Template.markerOrDefault marker).toList block.toList) := by
  have hmost := fun block : String =>
    Text.mostOccurrences (Template.toList_markerOrDefault marker) block.toList
  rcases deal_cases blocks marker values with
    ⟨hcount, ts, hok, hvalues, hcuts⟩ | ⟨hcount, e, herror, htemplate⟩
  · rw [hok]
    refine ⟨⟨fun _ => hcount, fun _ => ⟨ts, rfl⟩⟩, ?_, ?_, hmost⟩
    · intro e he
      cases he
    · intro ts' hts'
      cases hts'
      exact ⟨hvalues, hcuts⟩
  · rw [herror]
    refine ⟨⟨?_, fun h => absurd h hcount⟩, ?_, ?_, hmost⟩
    · rintro ⟨ts, hts⟩
      cases hts
    · intro e' he'
      cases he'
      exact htemplate e' rfl
    · intro ts hts
      cases hts

/-- Blocks in which the marker `@@` stands once, although it could start at two places, not at all,
and twice. -/
def markedBlocks : List String :=
  ["a@@@b", "", "@@x@@"]

/-- Three values are dealt out to the blocks. -/
theorem deal_markers_markedBlocks :
    ∃ ts, deal markedBlocks "@@" [.int 1, .null, .int 3] = .ok ts ∧
      ts.flatMap Template.values = [.int 1, .null, .int 3] ∧
      List.Forall₂ (IsCut "@@") markedBlocks ts := by
  have hmarkers : markersIn (Template.markerOrDefault "@@") markedBlocks = 3 := by decide +kernel
  obtain ⟨hiff, -, hcuts, -⟩ := deal_markers markedBlocks "@@" [.int 1, .null, .int 3]
  obtain ⟨ts, hts⟩ := hiff.mpr hmarkers
  exact ⟨ts, hts, hcuts ts hts⟩

end TreeQuery.Query
