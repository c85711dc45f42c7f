import KeyRemap.FileAccess

/-!
# Replacing a file

A path is walked through directories, so it leads to the same place in stores that have the same
directories, and writing and moving files leave the directories as they are. So a file that was
replaced holds the new text (`find_of_replace`).
-/
namespace KeyRemap.FileStore

/-- The stores have the same directories. -/
def SameDirectories (s t : FileStore) : Prop :=
  ∀ a, s.node? a = some .directory ↔ t.node? a = some .directory

section Directories

variable {s t u : FileStore} {a b : Address}

theorem SameDirectories.trans (h : SameDirectories s t) (g : SameDirectories t u) :
    SameDirectories s u := fun a => (h a).trans (g a)

theorem SameDirectories.symm (h : SameDirectories s t) : SameDirectories t s := fun a => (h a).symm

theorem ne_nil_of_node? (h : s.node? a ≠ some .directory) : a ≠ [] := by
  rintro rfl
  exact h (node?_nil s)

theorem sameDirectories_put (h : s.node? a ≠ some .directory) (content : FileContent) :
    SameDirectories s (s.put a (.file content)) := by
  intro b
  by_cases hb : b = a
  · subst hb
    simp [node?_put_self (ne_nil_of_node? h), h]
  · rw [node?_put_of_ne hb]

theorem sameDirectories_erase (h : s.node? a ≠ some .directory) :
    SameDirectories s (s.erase a) := by
  intro b
  by_cases hb : b = a
  · subst hb
    simp [node?_erase_self (ne_nil_of_node? h), h]
  · rw [node?_erase_of_ne hb]

theorem SameDirectories.walk (h : SameDirectories s t) {steps : List String}
    (hw : s.walk a steps = .ok b) : t.walk a steps = .ok b := by
  induction steps generalizing a with
  | nil => exact hw
  | cons step steps ih =>
    unfold FileStore.walk at hw ⊢
    split at hw
    · cases hw
    · cases hw
    · rename_i hd
      simp only [(h a).1 hd]
      by_cases hstay : step = "."
      · rw [if_pos hstay] at hw ⊢
        exact ih hw
      rw [if_neg hstay] at hw ⊢
      by_cases hup : step = ".."
      · rw [if_pos hup] at hw ⊢
        exact ih hw
      rw [if_neg hup] at hw ⊢
      split at hw
      · cases hw
      · rename_i hname
        rw [if_neg hname]
        exact ih hw

theorem SameDirectories.follow (h : SameDirectories s t) {p : Path} {steps : List String}
    (hf : s.follow p steps = .ok a) : t.follow p steps = .ok a := by
  unfold FileStore.follow at hf ⊢
  split at hf; · cases hf
  split at hf; · cases hf
  split at hf; · cases hf
  rename_i hnull hlong hstart
  rw [if_neg hnull, if_neg hlong, if_neg hstart]
  exact h.walk hf

end Directories

section Operations

variable {s t : FileStore} {p source target : Path}

theorem find_eq_ok_iff {n : FileNode} :
    s.find p = .ok n ↔ ∃ a, s.locate p = .ok a ∧ s.node? a = some n := by
  unfold find
  cases s.locate p with
  | error e => simp [bind, Except.bind]
  | ok a => cases hn : s.node? a <;> simp [bind, Except.bind, hn]

/-- Where a file is written to. -/
theorem exists_of_write {text : String} (h : s.write p text = .ok t) :
    ∃ a, s.locate p = .ok a ∧ s.node? a ≠ some .directory ∧
      t = s.put a (.file (.text text)) := by
  unfold write at h
  simp only [bind, Except.bind] at h
  split at h
  · cases h
  · rename_i a ha
    split at h
    · cases h
    · rename_i hd
      exact ⟨a, ha, hd, (Except.ok.inj h).symm⟩

/-- What a file is moved from and to. -/
theorem exists_of_rename (h : s.rename source target = .ok t) : ∃ a content b,
    s.locate source = .ok a ∧ s.node? a = some (.file content) ∧
      s.follow target target.parts = .ok b ∧ target.isOpen = false ∧
      s.node? b ≠ some .directory ∧ t = (s.erase a).put b (.file content) := by
  unfold rename at h
  simp only [bind, Except.bind] at h
  split at h
  · cases h
  · rename_i a ha
    split at h
    · cases h
    · cases h
    · rename_i content hn
      split at h
      · cases h
      · rename_i b hb
        split at h; · cases h
        split at h; · cases h
        rename_i hopen
        split at h
        · cases h
        · rename_i hd
          exact ⟨a, content, b, ha, hn, hb, by simpa using hopen, hd, (Except.ok.inj h).symm⟩

theorem exists_of_replace {temporary : Path} {text : String}
    (h : (FileAccess.replace temporary target text :
      StateM FileStore (Except FileAccess.ReplaceError Unit)).run s = (.ok (), t)) :
    ∃ u, s.write temporary text = .ok u ∧ u.rename temporary target = .ok t := by
  simp only [FileAccess.replace, bind, StateT.bind, StateT.run, FileAccess.write,
    FileAccess.rename, perform] at h
  cases hw : s.write temporary text with
  | error e =>
    simp only [hw] at h
    cases h
  | ok u =>
    simp only [hw, StateT.bind, bind, perform] at h
    cases hr : u.rename temporary target with
    | error e =>
      simp only [hr] at h
      cases h
    | ok v =>
      simp only [hr] at h
      cases h
      exact ⟨u, rfl, hr⟩

/-- A file that was replaced holds the text. -/
theorem find_of_replace {temporary : Path} {text : String}
    (h : (FileAccess.replace temporary target text :
      StateM FileStore (Except FileAccess.ReplaceError Unit)).run s = (.ok (), t)) :
    t.find target = .ok (.file (.text text)) := by
  obtain ⟨u, hw, hr⟩ := exists_of_replace h
  obtain ⟨a, ha, hd, rfl⟩ := exists_of_write hw
  obtain ⟨a', content, b, ha', hn, hb, hopen, hdb, rfl⟩ := exists_of_rename hr
  -- the moved file is the one that was written
  obtain rfl : a = a' := by
    rw [locate, (sameDirectories_put hd _).follow ha] at ha'
    exact Except.ok.inj ha'
  rw [node?_put_self (ne_nil_of_node? hd)] at hn
  cases hn
  have hfile : (s.put a (.file (.text text))).node? a ≠ some .directory := by
    simp [node?_put_self (ne_nil_of_node? hd)]
  have herase := sameDirectories_erase hfile
  have hsame := herase.trans (sameDirectories_put (mt (herase b).2 hdb) (.text text))
  refine find_eq_ok_iff.2 ⟨b, ?_, node?_put_self (ne_nil_of_node? hdb) _⟩
  rw [locate, Path.steps, hopen]
  exact hsame.follow hb

end Operations

end KeyRemap.FileStore
