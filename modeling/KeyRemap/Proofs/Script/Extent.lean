import KeyRemap.Overview
import KeyRemap.Proofs.Document.Json
import KeyRemap.Proofs.Script.Attachment
import KeyRemap.Proofs.Script.RoundTrip
import Mathlib.Data.String.Basic

/-!
# How much a text can say

No text has more tokens than characters, and none of them stands further down or to the right than
the text is long. So what a text of at most `n` characters says has at most `n` statements and
blocks, all within `n` lines and columns (`exists_heads_of_parse`); if `n` is an integer of 64 bits,
all numbers of the document are (`fits_of_parse`).
-/
namespace KeyRemap

theorem Position.after_le (p : Position) (cs : List Char) :
    (p.after cs).line ≤ p.line + cs.length ∧ (p.after cs).column ≤ p.column + cs.length := by
  induction cs generalizing p with
  | nil => simp
  | cons c cs ih =>
    have hstep : (p.step c).line ≤ p.line + 1 ∧ (p.step c).column ≤ p.column + 1 := by
      unfold step
      split <;> simp
    obtain ⟨hline, hcolumn⟩ := ih (p.step c)
    simp only [after_cons, List.length_cons]
    omega

namespace Spells

variable {p : Position} {cs : List Char} {ts : List Token}

/-- Every token takes at least one character. -/
theorem length_le (h : Spells p cs ts) (hl : ∀ t ∈ ts, t.lexeme.Spelled) :
    ts.length ≤ cs.length := by
  induction h with
  | nil => simp
  | blank _ _ ih =>
    have := ih hl
    simp only [List.length_cons]
    omega
  | @token p l cs ts _ ih =>
    obtain ⟨⟨c, s, hs, -⟩, hts⟩ := List.forall_mem_cons.1 hl
    have hspelling : l.spelling = c :: s := hs
    have := ih hts
    simp only [hspelling, List.length_cons, List.length_append]
    omega

/-- A token stands in front of the end of the text. -/
theorem position_lt (h : Spells p cs ts) (hl : ∀ t ∈ ts, t.lexeme.Spelled) :
    ∀ t ∈ ts, t.position.line < p.line + cs.length ∧ t.position.column < p.column + cs.length := by
  induction h with
  | nil => simp
  | @blank p c cs ts _ _ ih =>
    intro t ht
    have hlt := ih hl t ht
    have hle := p.after_le [c]
    simp only [Position.after_cons, Position.after_nil, List.length_cons, List.length_nil] at hle ⊢
    omega
  | @token p l cs ts _ ih =>
    obtain ⟨⟨c, s, hs, -⟩, hts⟩ := List.forall_mem_cons.1 hl
    have hspelling : l.spelling = c :: s := hs
    have hle := p.after_le l.spelling
    refine List.forall_mem_cons.2 ⟨?_, fun t ht => ?_⟩
    · simp only [Token.place, hspelling, List.length_append, List.length_cons]
      omega
    · have hlt := ih hts t ht
      simp only [List.length_append]
      omega

end Spells

namespace Document

theorem length_heads_layers (ls : List LayerBlock) : (ls.flatMap LayerBlock.heads).length =
    ls.length + (ls.flatMap (·.entries)).length := by
  induction ls with
  | nil => rfl
  | cons l ls ih =>
    simp only [List.flatMap_cons, List.length_append, List.length_cons, LayerBlock.heads,
      List.length_map, ih]
    omega

theorem length_heads_devices (bs : List DeviceBlock) : (bs.flatMap DeviceBlock.heads).length =
    bs.length + (bs.flatMap (·.layers)).length +
      (bs.flatMap fun b => b.entries ++ b.layers.flatMap (·.entries)).length := by
  induction bs with
  | nil => rfl
  | cons b bs ih =>
    simp only [List.flatMap_cons, List.length_append, List.length_cons, DeviceBlock.heads,
      List.length_map, length_heads_layers, ih]
    omega

/-- Every statement, layer and device block has one head. -/
theorem length_heads (d : Document) :
    d.heads.length = d.allEntries.length + d.allLayers.length + d.devices.length := by
  simp only [heads, allEntries, allLayers, List.length_append, List.length_map,
    length_heads_layers, length_heads_devices]
  omega

theorem flatMap_scopes (d : Document) : d.scopes.flatMap (·.2) = d.allEntries := by
  have hdevices :
      d.devices.zipIdx.flatMap (fun b => b.1.entries ++ b.1.layers.flatMap (·.entries)) =
        d.devices.flatMap fun b => b.entries ++ b.layers.flatMap (·.entries) := by
    conv_rhs => rw [← List.zipIdx_map_fst 0 d.devices, List.flatMap_map]
  simp [scopes, allEntries, List.flatMap_append, List.flatMap_assoc, List.flatMap_map, hdevices]

theorem length_eraseDups_le (names : List String) : names.eraseDups.length ≤ names.length := by
  induction hn : names.length using Nat.strongRecOn generalizing names with
  | ind n ih =>
    cases names with
    | nil => simp
    | cons s names =>
      have hle := List.length_filter_le (fun t => !t == s) names
      simp only [List.length_cons] at hn
      have hrest := ih _ (by omega) (names.filter fun t => !t == s) rfl
      rw [List.eraseDups_cons, List.length_cons]
      omega

/-- The counts of a document do not exceed the number of its heads. -/
theorem summary_le (d : Document) : d.summary.mappings ≤ d.heads.length ∧
    d.summary.layers ≤ d.heads.length ∧ d.summary.devices ≤ d.heads.length := by
  have hlayers := length_eraseDups_le (d.allLayers.map (·.name))
  rw [List.length_map] at hlayers
  simp only [summary, mappingCount, flatMap_scopes, layerNames, distinct, length_heads]
  omega

/-- A document fits if its timeouts and the places of its heads do. -/
theorem fits_of_heads {d : Document} (ht : d.InRange) (hp : ∀ p ∈ d.heads, p.1.Fits) : d.Fits := by
  obtain ⟨hentries, hlayers, hdevices⟩ := forall_mem_allEntries.1 ht
  simp only [heads, LayerBlock.heads, DeviceBlock.heads, List.forall_mem_append,
    List.forall_mem_flatMap, List.forall_mem_cons, List.forall_mem_map] at hp
  obtain ⟨⟨pentries, players⟩, pdevices⟩ := hp
  refine ⟨fun e he => ⟨hentries e he, pentries e he⟩, fun l hl => ⟨fun e he => ?_, ?_⟩,
    fun b hb => ⟨fun e he => ?_, fun l hl => ⟨fun e he => ?_, ?_⟩, ?_⟩⟩
  · exact ⟨hlayers l hl e he, (players l hl).2 e he⟩
  · exact (players l hl).1
  · exact ⟨(hdevices b hb).1 e he, (pdevices b hb).2.1 e he⟩
  · exact ⟨(hdevices b hb).2 l hl e he, ((pdevices b hb).2.2 l hl).2 e he⟩
  · exact ((pdevices b hb).2.2 l hl).1
  · exact (pdevices b hb).1

end Document

namespace Script

variable {text : List Char} {d : Document}

/-- A text has at least one character for each statement and block that it says, and these stand in
it. -/
theorem heads_of_parse (h : parse text = .ok d) : d.heads.length ≤ text.length ∧
    ∀ p ∈ d.heads, p.1.line ≤ text.length ∧ p.1.column ≤ text.length := by
  obtain ⟨ts, ht, hs⟩ := parse_eq_ok_iff.1 h
  -- Heads come with their comments, which are of no matter here.
  have hgathers : Gathers (fun t => assigned (some t) ts) [] ts :=
    gathers_of_assigned (List.Nodup.of_map _ (nodup_positions_of_tokenize ht)) fun t _ _ => by simp
  have hheads := (hs.attached hgathers).heads
  have hspells := spells_of_tokenizeFrom ht
  have hspelled := spelled_of_tokenizeFrom ht
  refine ⟨?_, fun p hp => ?_⟩
  · rw [hheads.length_eq, List.length_map]
    exact (List.length_filter_le _ ts).trans (hspells.length_le hspelled)
  · obtain ⟨t, hmem, rfl⟩ := List.mem_map.1 (hheads.mem_iff.1 hp)
    have hlt := hspells.position_lt hspelled t (List.mem_of_mem_filter hmem)
    simp only [Position.start] at hlt ⊢
    omega

/-- Every character takes at least one byte. -/
theorem length_toList_le (source : String) : source.toList.length ≤ source.utf8ByteSize := by
  rw [← String.utf8Len_toList]
  induction source.toList with
  | nil => simp
  | cons c cs ih =>
    have hc := c.utf8Size_pos
    rw [String.utf8Len_cons, List.length_cons]
    omega

/-- All numbers of a document that was read are integers of 64 bits, if the size of its text is. -/
theorem fits_of_parse (h : parse text = .ok d) (hn : fitsUnsigned text.length = true) : d.Fits := by
  refine Document.fits_of_heads (writable_of_parse h).sayable.inRange fun p hp => ?_
  have hle := (heads_of_parse h).2 p hp
  simp only [Position.Fits, fitsUnsigned, Bool.and_eq_true, decide_eq_true_eq] at hn ⊢
  omega

end Script

end KeyRemap
