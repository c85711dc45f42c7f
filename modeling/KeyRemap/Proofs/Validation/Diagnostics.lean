import KeyRemap.Proofs.Script.RoundTrip
import KeyRemap.Proofs.Validation.Independence
import KeyRemap.Vocabulary.Standard

/-!
# Issues of documents with one structure

Documents with the same mappings, names, patterns, nesting and order have issues that match one by
one: the same sort, severity and suggestion, and messages that are the same but for the places that
they print. So the issues of a script match those of the script laid out or written anew
(`Document.issues_match`).
-/
namespace KeyRemap

/-- Words with places printed between them. -/
def weave : List String → List Position → String
  | [], _ => ""
  | w :: ws, [] => w ++ weave ws []
  | w :: ws, p :: ps => w ++ p.text ++ weave ws ps

namespace Finding

/-- The places that the message prints. -/
def places : Finding → List Position
  | .duplicateSource _ _ first again => [first, again]
  | .duplicatePattern _ first | .duplicateLayer _ first => [first]
  | _ => []

/-- The message without the places, which stand between its words. -/
def words : Finding → List String
  | .duplicateSource source scope _ _ =>
    ["source key \"" ++ source ++ "\" is mapped twice in " ++ scope ++ " (first at ",
      ", again at ", ")"]
  | .duplicatePattern pattern _ =>
    ["device pattern \"" ++ pattern ++ "\" is already used by the block at "]
  | .duplicateLayer name _ => ["layer \"" ++ name ++ "\" is already declared at "]
  | f => [f.message]

theorem message_eq_weave (f : Finding) : f.message = weave f.words f.places := by
  cases f with
  | duplicateSource | duplicatePattern | duplicateLayer =>
    simp only [words, places, weave, ← String.append_assoc, String.append_empty]
    rfl
  | _ => exact String.append_empty.symm

@[simp] theorem kind_unplaced (f : Finding) : f.unplaced.kind = f.kind := by cases f <;> rfl

@[simp] theorem suggestion_unplaced (f : Finding) : f.unplaced.suggestion = f.suggestion := by
  cases f <;> rfl

@[simp] theorem words_unplaced (f : Finding) : f.unplaced.words = f.words := by cases f <;> rfl

@[simp] theorem length_places_unplaced (f : Finding) :
    f.unplaced.places.length = f.places.length := by
  cases f <;> rfl

end Finding

/-- Issues that are the same but for places: those where they are and those that their messages
print. -/
structure Issue.Matches (i j : Issue) : Prop where
  kind : i.finding.kind = j.finding.kind
  severity : i.finding.severity = j.finding.severity
  suggestion : i.finding.suggestion = j.finding.suggestion
  places : i.finding.places.length = j.finding.places.length
  message : ∃ words, i.finding.message = weave words i.finding.places ∧
    j.finding.message = weave words j.finding.places

theorem Issue.matches_of_unplaced_eq {i j : Issue}
    (h : i.finding.unplaced = j.finding.unplaced) : i.Matches j := by
  constructor
  case kind => rw [← i.finding.kind_unplaced, h, j.finding.kind_unplaced]
  case severity => rw [← i.finding.severity_unplaced, h, j.finding.severity_unplaced]
  case suggestion => rw [← i.finding.suggestion_unplaced, h, j.finding.suggestion_unplaced]
  case places => rw [← i.finding.length_places_unplaced, h, j.finding.length_places_unplaced]
  case message =>
    have hwords : i.finding.words = j.finding.words := by
      rw [← i.finding.words_unplaced, h, j.finding.words_unplaced]
    refine ⟨i.finding.words, i.finding.message_eq_weave, ?_⟩
    rw [hwords]
    exact j.finding.message_eq_weave

namespace Document

variable {d d' : Document}

theorem matches_of_bare_eq (h : d.bare = d'.bare) (v : Vocabulary) :
    List.Forall₂ Issue.Matches (d.issues v) (d'.issues v) := by
  have hfindings := findings_of_bare_eq h v
  rw [← List.forall₂_eq_eq_eq, List.forall₂_map_left_iff, List.forall₂_map_right_iff] at hfindings
  exact hfindings.imp fun _ _ => Issue.matches_of_unplaced_eq

/-- The form in which comments are written is no part of the structure. -/
theorem bare_written (d : Document) : d.written.bare = d.bare := by
  simp [bare, written, DeviceBlock.bare, DeviceBlock.written, LayerBlock.bare,
    LayerBlock.written, Entry.bare, Entry.written, Function.comp_def]

/-- The issues of documents with the same structure match one by one. So do those of a script and of
what it becomes when it is laid out, and those of a document and of what is read when it was
written. -/
theorem issues_match (v : Vocabulary) (layout : Layout) :
    (∀ d d' : Document, d.bare = d'.bare →
      List.Forall₂ Issue.Matches (d.issues v) (d'.issues v)) ∧
    (∀ text d, Script.parse text = .ok d → ∃ d', Script.parse (layout.format text) = .ok d' ∧
      List.Forall₂ Issue.Matches (d.issues v) (d'.issues v)) ∧
    ∀ d : Document, (d.Sayable ∨ ∃ text, Script.parse text = .ok d) →
      ∃ d', Script.parse (Script.write layout d) = .ok d' ∧
        List.Forall₂ Issue.Matches (d.issues v) (d'.issues v) := by
  refine ⟨fun d d' h => matches_of_bare_eq h v, fun text d h => ?_, fun d h => ?_⟩
  · obtain ⟨ts, ht, hs⟩ := Script.parse_eq_ok_iff.1 h
    obtain ⟨d', hd, ha⟩ := layout.exists_says_format ht hs
    exact ⟨d', hd, matches_of_bare_eq ha.bare_eq.symm v⟩
  · have hsayable : d.Sayable := by
      rcases h with h | ⟨text, h⟩
      · exact h
      · exact (Script.writable_of_parse h).sayable
    obtain ⟨d', hd, ha⟩ := Script.exists_parse_write layout hsayable
    have hbare : d'.bare = d.bare := ha.bare_eq.trans d.bare_written
    exact ⟨d', hd, matches_of_bare_eq hbare.symm v⟩

/-- A key that is mapped twice, in a text, with a comment and nowhere, laid out and written anew. -/
theorem issues_match_of_repeated_key :
    ∃ d e : Document, Script.parse "map(\"A\",\"B\");map(\"A\",\"C\");".toList = .ok d ∧
      e = { entries := [{ mapping := .simple "A" "B", comments := ["// first"] },
              { mapping := .simple "A" "C" }] } ∧
      (d.issues .standard).map (·.finding.message) =
        ["source key \"A\" is mapped twice in global scope (first at 1:1, again at 1:14)"] ∧
      (e.issues .standard).map (·.finding.message) =
        ["source key \"A\" is mapped twice in global scope (first at 0:0, again at 0:0)"] ∧
      List.Forall₂ Issue.Matches (d.issues .standard) (e.issues .standard) ∧
      (∃ d', Script.parse (Layout.format {} "map(\"A\",\"B\");map(\"A\",\"C\");".toList) =
          .ok d' ∧
        List.Forall₂ Issue.Matches (d.issues .standard) (d'.issues .standard)) ∧
      ∃ d', Script.parse (Script.write {} d) = .ok d' ∧
        List.Forall₂ Issue.Matches (d.issues .standard) (d'.issues .standard) := by
  let d : Document :=
    { entries := [⟨.simple "A" "B", [], ⟨1, 1⟩⟩, ⟨.simple "A" "C", [], ⟨1, 14⟩⟩] }
  let e : Document :=
    { entries := [{ mapping := .simple "A" "B", comments := ["// first"] },
        { mapping := .simple "A" "C" }] }
  have hp : Script.parse "map(\"A\",\"B\");map(\"A\",\"C\");".toList = .ok d := by
    decide +kernel
  obtain ⟨hbare, hformat, hwrite⟩ := issues_match .standard {}
  have hcommented := hbare d e rfl
  exact ⟨d, e, hp, rfl, by decide +kernel, by decide +kernel, hcommented, hformat _ d hp,
    hwrite d (.inr ⟨_, hp⟩)⟩

end Document

end KeyRemap
