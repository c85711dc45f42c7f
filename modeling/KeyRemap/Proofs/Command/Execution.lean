import KeyRemap.Command.Run
import KeyRemap.Proofs.FileStore.Replacement

/-!
# Commands over a file store

What a command on a script exits with and leaves behind, told by what the store holds. A script that
cannot be read as a text within the limit makes every command exit with three
(`exists_readScript`); checks change nothing (`execute_check`), and a file that was laid out in its
place holds the layout of its text (`exists_of_execute_format`).
-/
namespace KeyRemap

namespace FileStore

theorem stat_eq_map_find (s : FileStore) (p : Path) :
    s.stat p = (s.find p).map fun
      | .file content => ⟨false, content.size⟩
      | .directory => ⟨true, directorySize⟩ := by
  unfold stat
  cases s.find p with
  | error e => rfl
  | ok n => cases n <;> rfl

end FileStore

/-- The exit code of a check. -/
def Check.code (strict : Bool) : Check → Nat
  | .unreadable _ => 2
  | .judged report _ => ((Command.checkFailure? report strict).map Failure.code).getD 0

namespace Command

open FileAccess

/-- The exit code for what a command gives. -/
def exitCode : Except Failure Outcome → Nat
  | .ok o => o.code
  | .error f => f.code

/-- A command over a store: its exit code, and the store that it leaves behind. -/
def execute (command : Attempt (StateM FileStore) Outcome) (σ : FileStore) : Nat × FileStore :=
  let (result, τ) := command.run.run σ
  (exitCode result, τ)

section Steps

variable {α β ε : Type} (p : Path) (σ : FileStore)

theorem run_bind (x : StateM FileStore α) (f : α → StateM FileStore β) :
    (x >>= f) σ = f (x σ).1 (x σ).2 := rfl

theorem run_bind_attempt (x : Attempt (StateM FileStore) α)
    (f : α → Attempt (StateM FileStore) β) :
    (x >>= f) σ = match x σ with
      | (.ok a, τ) => f a τ
      | (.error e, τ) => (.error e, τ) := by
  simp only [bind, ExceptT.bind, ExceptT.mk, StateT.bind]
  cases hx : x σ with
  | mk r τ => cases r <;> rfl

theorem run_lift (x : StateM FileStore α) :
    (ExceptT.lift x : Attempt (StateM FileStore) α) σ = (.ok (x σ).1, (x σ).2) := rfl

theorem run_attempt (failure : ε → Failure) (action : StateM FileStore (Except ε α)) :
    (attempt failure action : Attempt (StateM FileStore) α) σ =
      ((action σ).1.mapError failure, (action σ).2) := by
  rw [attempt, run_bind_attempt, run_lift]
  cases hx : action σ with
  | mk r τ => cases r <;> rfl

theorem run_isThere : (isThere p : StateM FileStore Bool) σ = ((σ.stat p).isOk, σ) := by
  rw [isThere, run_bind]
  simp only [FileAccess.stat]
  cases σ.stat p <;> rfl

theorem run_readText : (readText p : StateM FileStore (Except FileError String)) σ =
    (match σ.find p with
      | .ok (.file (.text value)) => .ok value
      | .ok (.file (.binary _)) => .error .notText
      | .ok .directory => .error .isDirectory
      | .error e => .error e, σ) := by
  rw [readText, run_bind]
  simp only [FileAccess.read, FileStore.read]
  cases σ.find p with
  | error e => rfl
  | ok n =>
    cases n with
    | directory => rfl
    | file content => cases content <;> rfl

end Steps

/-- A script file is read just when it holds a text within the limit. -/
theorem exists_read (p : Path) (limit : Nat) (σ : FileStore) : ∃ r,
    (ScriptFile.read p limit : StateM FileStore (Except ScriptFileError String)) σ = (r, σ) ∧
      ∀ text, r = .ok text ↔
        σ.find p = .ok (.file (.text text)) ∧ text.utf8ByteSize ≤ limit := by
  rw [ScriptFile.read, run_bind]
  simp only [FileAccess.stat, FileStore.stat_eq_map_find]
  have hread := run_readText p σ
  cases hf : σ.find p with
  | error e => exact ⟨_, rfl, by simp⟩
  | ok n =>
    rw [hf] at hread
    cases n with
    | directory =>
      simp only [Except.map]
      split
      · exact ⟨_, rfl, by simp⟩
      · rw [run_bind, hread]
        exact ⟨_, rfl, by simp⟩
    | file content =>
      simp only [Except.map]
      split
      · rename_i hl
        refine ⟨_, rfl, fun text => iff_of_false nofun ?_⟩
        rintro ⟨htext, hle⟩
        cases htext
        exact absurd hl (Nat.not_lt.2 hle)
      · rename_i hl
        rw [run_bind, hread]
        cases content with
        | binary bytes => exact ⟨_, rfl, by simp⟩
        | text value =>
          refine ⟨.ok value, rfl, fun text => ⟨?_, ?_⟩⟩
          · rintro ⟨⟩
            exact ⟨rfl, Nat.not_lt.1 hl⟩
          · rintro ⟨htext, -⟩
            cases htext
            rfl

/-- A command has the text of a script just when its file holds it within the limit, and fails with
three if it does not. -/
theorem exists_readScript (s : Settings) (p : Path) (σ : FileStore) : ∃ r,
    (readScript s p : Attempt (StateM FileStore) String) σ = (r, σ) ∧
      (∀ text, r = .ok text ↔
        σ.find p = .ok (.file (.text text)) ∧ text.utf8ByteSize ≤ s.maxInputBytes) ∧
      ∀ f, r = .error f → f.code = 3 := by
  obtain ⟨r, hr, htext⟩ := exists_read p s.maxInputBytes σ
  rw [readScript, run_bind_attempt, run_lift, run_isThere]
  simp only
  split
  · rw [run_attempt, hr]
    refine ⟨_, rfl, fun text => ?_, ?_⟩
    · rw [← htext]
      cases r with
      | error e => exact iff_of_false nofun nofun
      | ok a => constructor <;> (rintro ⟨⟩; rfl)
    · rintro f hf
      cases r with
      | error e => cases hf; rfl
      | ok a => cases hf
  · rename_i hn
    refine ⟨_, rfl, fun text => iff_of_false nofun ?_, ?_⟩
    · rintro ⟨hfind, -⟩
      rw [FileStore.stat_eq_map_find, hfind] at hn
      exact hn rfl
    · rintro f hf
      cases hf
      rfl

/-- A script file that was written holds the text. -/
theorem find_of_write {p : Path} {text : String} {σ τ : FileStore}
    (h : (ScriptFile.write p text : StateM FileStore (Except ScriptFileError Unit)) σ =
      (.ok (), τ)) :
    τ.find p = .ok (.file (.text text)) := by
  rw [ScriptFile.write, run_bind] at h
  obtain ⟨hresult, rfl⟩ := Prod.mk.inj h
  cases hw : (replace (ScriptFile.temporary p) p text :
      StateM FileStore (Except ReplaceError Unit)) σ with
  | mk r u =>
    rw [hw] at hresult
    cases r with
    | error e => cases hresult
    | ok a => exact FileStore.find_of_replace hw

/-- What is left of a command is executed with what its first part gave. -/
theorem execute_bind {α : Type} (x : Attempt (StateM FileStore) α)
    (f : α → Attempt (StateM FileStore) Outcome) (σ : FileStore) :
    execute (x >>= f) σ = match x σ with
      | (.ok a, τ) => execute (f a) τ
      | (.error e, τ) => (e.code, τ) := by
  simp only [execute, ExceptT.run, StateT.run, run_bind_attempt]
  cases hx : x σ with
  | mk r τ => cases r <;> rfl

section Scripts

variable {s : Settings} {p : Path} {σ τ : FileStore} {text : String}

/-- A command goes on with the text of a script. -/
theorem execute_readScript (hf : σ.find p = .ok (.file (.text text)))
    (hl : text.utf8ByteSize ≤ s.maxInputBytes)
    (f : String → Attempt (StateM FileStore) Outcome) :
    execute (readScript s p >>= f) σ = execute (f text) σ := by
  obtain ⟨r, hr, htext, -⟩ := exists_readScript s p σ
  obtain rfl := (htext text).2 ⟨hf, hl⟩
  rw [execute_bind, hr]

theorem execute_readScript_of_unread
    (h : ¬ ∃ text, σ.find p = .ok (.file (.text text)) ∧ text.utf8ByteSize ≤ s.maxInputBytes)
    (f : String → Attempt (StateM FileStore) Outcome) :
    execute (readScript s p >>= f) σ = (3, σ) := by
  obtain ⟨r, hr, htext, hcode⟩ := exists_readScript s p σ
  cases r with
  | ok text => exact absurd ⟨text, (htext text).1 rfl⟩ h
  | error e => simp only [execute_bind, hr, hcode e rfl]

/-- A check exits with what is found out about the text of the file, and changes nothing. -/
theorem execute_check (hf : σ.find p = .ok (.file (.text text)))
    (hl : text.utf8ByteSize ≤ s.maxInputBytes) (json strict : Bool) :
    execute (runCheck s p json strict) σ =
      ((Check.ofSource .standard s.maxInputBytes text).code strict, σ) := by
  rw [runCheck, execute_readScript hf hl]
  simp only
  cases Check.ofSource .standard s.maxInputBytes text with
  | unreadable e => cases json <;> rfl
  | judged report summary =>
    simp only [Check.code]
    cases hc : checkFailure? report strict <;> rfl

/-- A command that succeeds behind the writing of a file goes on where the file holds the text. -/
theorem exists_of_execute_write {f : Unit → Attempt (StateM FileStore) Outcome}
    (h : execute (attempt (fun e : ScriptFileError => .inaccessible e.text)
      (ScriptFile.write p text) >>= f) σ = (0, τ)) :
    ∃ υ : FileStore, υ.find p = .ok (.file (.text text)) ∧ execute (f ()) υ = (0, τ) := by
  rw [execute_bind, run_attempt] at h
  cases hw : (ScriptFile.write p text :
      StateM FileStore (Except ScriptFileError Unit)) σ with
  | mk r υ =>
    rw [hw] at h
    cases r with
    | error e => cases h
    | ok a => exact ⟨υ, find_of_write hw, h⟩

/-- A file that was laid out in its place holds the layout of its text. -/
theorem exists_of_execute_format (h : execute (runFormat s p .write) σ = (0, τ)) :
    ∃ text formatted, σ.find p = .ok (.file (.text text)) ∧
      text.utf8ByteSize ≤ s.maxInputBytes ∧ s.layout.format? text.toList = .ok formatted ∧
        τ.find p = .ok (.file (.text (String.ofList formatted))) := by
  by_cases hread : ∃ text, σ.find p = .ok (.file (.text text)) ∧
      text.utf8ByteSize ≤ s.maxInputBytes
  · obtain ⟨text, hf, hl⟩ := hread
    rw [runFormat, execute_readScript hf hl] at h
    cases hformat : s.layout.format? text.toList with
    | error e =>
      simp only [hformat] at h
      cases h
    | ok formatted =>
      refine ⟨text, formatted, hf, hl, hformat, ?_⟩
      have horFrame : (orFrame p text ((Except.ok formatted).mapError LexicalError.toSyntaxError) :
          Attempt (StateM FileStore) (List Char)) σ = (.ok formatted, σ) := rfl
      rw [hformat, execute_bind, horFrame] at h
      simp only at h
      cases hchanged : (String.ofList formatted != text) with
      | false =>
        rw [hchanged] at h
        obtain rfl : σ = τ := (Prod.mk.inj h).2
        rwa [show String.ofList formatted = text by simpa using hchanged]
      | true =>
        rw [hchanged] at h
        obtain ⟨υ, hυ, hτ⟩ := exists_of_execute_write h
        obtain rfl := (Prod.mk.inj hτ).2
        exact hυ
  · rw [runFormat, execute_readScript_of_unread hread] at h
    cases h

end Scripts

end Command

end KeyRemap
