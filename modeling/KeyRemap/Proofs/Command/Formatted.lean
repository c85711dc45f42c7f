import KeyRemap.Proofs.Command.Execution
import KeyRemap.Proofs.Layout.Preservation
import KeyRemap.Proofs.Validation.Independence

/-!
# Checks of a file that was laid out

Laying out a script keeps what it says, and a check looks at nothing else, so it exits as it did
before the file was laid out (`code_check_of_format`). The exception is a layout that is longer than
a file may be. Nothing looks at its size when it is written, and the check that comes next does not
read it (`not_forall_code_check_of_format`).
-/
namespace KeyRemap

open Command

namespace Report

/-- A report depends on what is found, not on where. -/
theorem isValid_ofIssues (issues : List Issue) : (ofIssues issues).isValid =
    (issues.map (·.finding.unplaced)).all (·.severity ≠ .error) := by
  rw [Bool.eq_iff_iff]
  simp [isValid, ofIssues, Issue.isError]

theorem isEmpty_warnings_ofIssues (issues : List Issue) : (ofIssues issues).warnings.isEmpty =
    (issues.map (·.finding.unplaced)).all (·.severity = .error) := by
  rw [Bool.eq_iff_iff]
  simp [ofIssues, Issue.isError]

end Report

namespace Check

theorem code_judged (report : Report) (summary : Document.Summary) (strict : Bool) :
    (judged report summary).code strict =
      if report.isValid && !(strict && !report.warnings.isEmpty) then 0 else 1 := by
  rw [code, checkFailure?]
  cases hv : report.isValid with
  | false => rfl
  | true => cases hw : (strict && !report.warnings.isEmpty) <;> rfl

/-- A check exits alike for documents of the same structure. -/
theorem code_ofDocument_of_bare_eq {d d' : Document} (h : d.bare = d'.bare) (v : Vocabulary)
    (strict : Bool) : (ofDocument v d).code strict = (ofDocument v d').code strict := by
  simp only [ofDocument, code_judged, Report.isValid_ofIssues, Report.isEmpty_warnings_ofIssues,
    Document.findings_of_bare_eq h v]

theorem ofSource_of_read {limit : Nat} {source : String} {d : Document}
    (h : Script.read limit source = .ok d) (v : Vocabulary) :
    ofSource v limit source = ofDocument v d := by
  rw [ofSource, h]

/-- A check that exits with zero or one has read the script. -/
theorem exists_read_of_code {v : Vocabulary} {limit : Nat} {source : String} {strict : Bool}
    (h : (ofSource v limit source).code strict = 0 ∨ (ofSource v limit source).code strict = 1) :
    ∃ d, Script.read limit source = .ok d := by
  cases hr : Script.read limit source with
  | ok d => exact ⟨d, rfl⟩
  | error e =>
    rw [ofSource, hr] at h
    rcases h with h | h <;> cases h

end Check

namespace Command

variable {s : Settings} {p : Path} {json strict : Bool} {code : Nat} {σ σ₁ σ₂ : FileStore}

/-- A check that exits with zero or one has read a script in the file, and changes nothing. -/
theorem exists_script_of_check (h : execute (runCheck s p json strict) σ = (code, σ₁))
    (hcode : code = 0 ∨ code = 1) : σ₁ = σ ∧ ∃ source d,
      σ.find p = .ok (.file (.text source)) ∧ Script.read s.maxInputBytes source = .ok d ∧
        code = (Check.ofDocument .standard d).code strict := by
  by_cases hread : ∃ text, σ.find p = .ok (.file (.text text)) ∧
      text.utf8ByteSize ≤ s.maxInputBytes
  · obtain ⟨source, hfind, hsize⟩ := hread
    rw [execute_check hfind hsize] at h
    obtain ⟨rfl, rfl⟩ := Prod.mk.inj h
    obtain ⟨d, hd⟩ := Check.exists_read_of_code hcode
    exact ⟨rfl, source, d, hfind, hd, by rw [Check.ofSource_of_read hd]⟩
  · rw [runCheck, execute_readScript_of_unread hread] at h
    obtain ⟨rfl, -⟩ := Prod.mk.inj h
    rcases hcode with h | h <;> cases h

/-- The layout of a script is read as a document of the same structure if it is not too long. -/
theorem exists_read_of_format {limit : Nat} {source : String} {formatted : List Char}
    {d : Document} {layout : Layout} (hd : Script.read limit source = .ok d)
    (hf : layout.format? source.toList = .ok formatted)
    (hl : (String.ofList formatted).utf8ByteSize ≤ limit) :
    ∃ d', Script.read limit (String.ofList formatted) = .ok d' ∧ d'.bare = d.bare := by
  obtain ⟨ts, ht, hs⟩ := Script.parse_eq_ok_iff.1 (Script.read_eq_ok_iff.1 hd).2
  obtain ⟨d', hd', ha⟩ := layout.exists_says_format ht hs
  rw [Layout.format, hf] at hd'
  exact ⟨d', Script.read_eq_ok_iff.2 ⟨hl, by rwa [String.toList_ofList]⟩, ha.bare_eq⟩

/-- A check that reads a script exits alike when the file was laid out, unless the layout is longer
than a file may be. -/
theorem code_check_of_format (hc : execute (runCheck s p json strict) σ = (code, σ₁))
    (hcode : code = 0 ∨ code = 1) (hf : execute (runFormat s p .write) σ₁ = (0, σ₂)) :
    ∃ source formatted, σ.find p = .ok (.file (.text source)) ∧
      s.layout.format? source.toList = .ok formatted ∧
      σ₂.find p = .ok (.file (.text (String.ofList formatted))) ∧
      (execute (runCheck s p json strict) σ₂).1 =
        if (String.ofList formatted).utf8ByteSize ≤ s.maxInputBytes then code else 3 := by
  obtain ⟨rfl, source, d, hfind, hd, rfl⟩ := exists_script_of_check hc hcode
  obtain ⟨text, formatted, htext, -, hformat, hafter⟩ := exists_of_execute_format hf
  rw [hfind] at htext
  cases htext
  refine ⟨source, formatted, hfind, hformat, hafter, ?_⟩
  split
  · rename_i hl
    obtain ⟨d', hd', hbare⟩ := exists_read_of_format hd hformat hl
    rw [execute_check hafter hl, Check.ofSource_of_read hd',
      Check.code_ofDocument_of_bare_eq hbare]
  · rename_i hl
    rw [runCheck, execute_readScript_of_unread]
    rintro ⟨text, htext, hle⟩
    rw [hafter] at htext
    cases htext
    exact hl hle

/-- A file with a mapping that lacks a blank, so that its layout is longer. -/
def tightScript : FileStore := ⟨[(["k"], .file (.text "map(\"A\",\"B\");"))]⟩

theorem find_tightScript :
    tightScript.find ⟨"k"⟩ = .ok (.file (.text "map(\"A\",\"B\");")) := rfl

theorem check_tightScript (h : 13 ≤ s.maxInputBytes) :
    execute (runCheck s ⟨"k"⟩ json strict) tightScript = (0, tightScript) := by
  have hparse : Script.parse "map(\"A\",\"B\");".toList =
      .ok { entries := [{ mapping := .simple "A" "B", position := ⟨1, 1⟩ }] } := by
    decide +kernel
  have hread := Script.read_eq_ok_iff.2 ⟨h, hparse⟩
  rw [execute_check find_tightScript h, Check.ofSource_of_read hread]
  cases strict <;> exact Prod.ext (by decide +kernel) rfl

/-- The mapping is laid out, and the check exits with zero again. -/
theorem code_check_of_format_tight :
    let formatted := execute (runFormat {} ⟨"k"⟩ .write) tightScript
    (execute (runCheck {} ⟨"k"⟩ false true) tightScript).1 = 0 ∧ formatted.1 = 0 ∧
      formatted.2.find ⟨"k"⟩ = .ok (.file (.text "map(\"A\", \"B\");\n")) ∧
      (execute (runCheck {} ⟨"k"⟩ false true) formatted.2).1 = 0 := by
  have hc : execute (runCheck {} ⟨"k"⟩ false true) tightScript = (0, tightScript) :=
    check_tightScript (by decide)
  have hf : (execute (runFormat {} ⟨"k"⟩ .write) tightScript).1 = 0 := by decide +kernel
  obtain ⟨source, formatted, hs, hl, ht, h⟩ :=
    code_check_of_format hc (.inl rfl) (Prod.ext hf rfl)
  rw [find_tightScript] at hs
  cases hs
  have hformat : Layout.format? {} "map(\"A\",\"B\");".toList =
      .ok "map(\"A\", \"B\");\n".toList := by decide +kernel
  rw [hformat] at hl
  cases hl
  exact ⟨congrArg Prod.fst hc, hf, ht, h⟩

/-- A check that reads a script need not read its layout. -/
theorem not_forall_code_check_of_format : ¬ ∀ (s : Settings) (p : Path) (json strict : Bool)
    (code : Nat) (σ σ₁ σ₂ : FileStore), s.Valid →
      execute (runCheck s p json strict) σ = (code, σ₁) → code = 0 ∨ code = 1 →
      execute (runFormat s p .write) σ₁ = (0, σ₂) →
      (execute (runCheck s p json strict) σ₂).1 = code := by
  intro h
  have hvalid : Settings.Valid { maxInputBytes := 13 } :=
    (Settings.fault?_eq_none_iff _).1 (by decide)
  have hf : (execute (runFormat { maxInputBytes := 13 } ⟨"k"⟩ .write) tightScript).1 = 0 := by
    decide +kernel
  have hagain := h { maxInputBytes := 13 } ⟨"k"⟩ false false 0 tightScript tightScript _ hvalid
    (check_tightScript (by decide)) (.inl rfl) (Prod.ext hf rfl)
  exact absurd hagain (by decide +kernel)

end Command

end KeyRemap
