import KeyRemap.Text.Distance
import Mathlib.Data.List.Basic
import Mathlib.Order.Bounds.Defs
import Mathlib.Order.MinMax

/-!
# The least number of edits

The distance of two texts is the least number of single characters that are inserted, deleted or
replaced to turn one into the other (`isLeast_distance`). The entries of the table are told by a
recursion on the last characters of both texts, which are therefore held in reverse; a single edit
changes what the recursion gives by one at most.
-/
namespace KeyRemap.Text

/-- A single character is inserted, deleted or replaced. -/
inductive OneEdit : List Char → List Char → Prop where
  | insert (before behind : List Char) (c : Char) :
      OneEdit (before ++ behind) (before ++ c :: behind)
  | delete (before behind : List Char) (c : Char) :
      OneEdit (before ++ c :: behind) (before ++ behind)
  | replace (before behind : List Char) (c d : Char) :
      OneEdit (before ++ c :: behind) (before ++ d :: behind)

/-- A text is turned into another by a number of edits. -/
inductive Edits : Nat → List Char → List Char → Prop where
  | none (cs : List Char) : Edits 0 cs cs
  | more {n : Nat} {as bs cs : List Char} (h : Edits n as bs) (e : OneEdit bs cs) :
      Edits (n + 1) as cs

/-- The edits between two texts, from their first characters on. -/
def cost : List Char → List Char → Nat
  | [], bs => bs.length
  | a :: as, [] => (a :: as).length
  | a :: as, b :: bs =>
    min (min (cost (a :: as) bs + 1) (cost as (b :: bs) + 1))
      (if a = b then cost as bs else cost as bs + 1)
termination_by as bs => as.length + bs.length

@[simp] theorem cost_nil (bs : List Char) : cost [] bs = bs.length := by
  rw [cost]

@[simp] theorem cost_nil_right (as : List Char) : cost as [] = as.length := by
  cases as <;> rw [cost]

theorem cost_cons_cons (a b : Char) (as bs : List Char) : cost (a :: as) (b :: bs) =
    min (min (cost (a :: as) bs + 1) (cost as (b :: bs) + 1))
      (if a = b then cost as bs else cost as bs + 1) := by
  rw [cost]

section Table

variable (as bs p q : List Char) (a : Char)

/-- The entries of the row for `p` behind the column for `q`; both are reversed. -/
def entries (p : List Char) : List Char → List Char → List Nat
  | _, [] => []
  | q, b :: bs => cost p (b :: q) :: entries p (b :: q) bs

theorem fillRow_entries :
    fillRow a bs (cost p q) (entries p q bs) (cost (a :: p) q) = entries (a :: p) q bs := by
  induction bs generalizing q with
  | nil => rfl
  | cons b bs ih =>
    have hhere := cost_cons_cons a b p q
    rw [entries, entries, fillRow, ← hhere, ih]

theorem nextRow_entries : nextRow bs (cost p [] :: entries p [] bs) a =
    cost (a :: p) [] :: entries (a :: p) [] bs := by
  have hfirst : cost p [] + 1 = cost (a :: p) [] := by simp
  rw [nextRow, hfirst, fillRow_entries]

theorem foldl_nextRow : as.foldl (nextRow bs) (cost p [] :: entries p [] bs) =
    cost (as.reverse ++ p) [] :: entries (as.reverse ++ p) [] bs := by
  induction as generalizing p with
  | nil => rfl
  | cons a as ih =>
    rw [List.foldl_cons, nextRow_entries, ih, List.reverse_cons, List.append_assoc,
      List.singleton_append]

theorem entries_nil : entries [] q bs = List.range' (q.length + 1) bs.length := by
  induction bs generalizing q with
  | nil => rfl
  | cons b bs ih => simp [entries, ih, List.range'_succ]

theorem getLastD_entries : (entries p q bs).getLastD (cost p q) = cost p (bs.reverse ++ q) := by
  induction bs generalizing q with
  | nil => rfl
  | cons b bs ih =>
    rw [entries, List.getLastD_cons, ih, List.reverse_cons, List.append_assoc,
      List.singleton_append]

/-- The table holds what the recursion gives. -/
theorem distance_eq_cost : distance as bs = cost as.reverse bs.reverse := by
  have hfirst : List.range (bs.length + 1) = cost [] [] :: entries [] [] bs := by
    rw [entries_nil, List.range_eq_range', List.range'_succ, cost_nil]
    rfl
  rw [distance, hfirst, foldl_nextRow, List.getLastD_cons, getLastD_entries, List.append_nil,
    List.append_nil]

end Table

section Bound

variable {as bs cs : List Char} {n : Nat}

theorem cost_cons_le (a : Char) (as bs : List Char) : cost (a :: as) bs ≤ cost as bs + 1 := by
  cases bs with
  | nil => simp
  | cons b bs =>
    rw [cost_cons_cons]
    omega

theorem cost_cons_right_le (as : List Char) (b : Char) (bs : List Char) :
    cost as (b :: bs) ≤ cost as bs + 1 := by
  cases as with
  | nil => simp
  | cons a as =>
    rw [cost_cons_cons]
    omega

/-- What one edit changes at most stays the same with characters in front. -/
theorem cost_append_le (h : ∀ as, cost as cs ≤ cost as bs + 1) (before as : List Char) :
    cost as (before ++ cs) ≤ cost as (before ++ bs) + 1 := by
  induction before generalizing as with
  | nil => exact h as
  | cons b before ih =>
    -- The entry on the left has the same text on the right, so it needs an induction of its own.
    induction as with
    | nil =>
      have := ih []
      simp only [cost_nil, List.cons_append, List.length_cons] at this ⊢
      omega
    | cons a as iha =>
      have hleft := ih (a :: as)
      have hcorner := ih as
      simp only [List.cons_append, cost_cons_cons] at iha ⊢
      split <;> omega

theorem cost_le_cost_cons (as : List Char) (b : Char) (bs : List Char) :
    cost as bs ≤ cost as (b :: bs) + 1 := by
  induction as with
  | nil =>
    simp only [cost_nil, List.length_cons]
    omega
  | cons a as ih =>
    -- The last edit may as well leave the other text one character shorter.
    have := cost_cons_le a as bs
    rw [cost_cons_cons]
    split <;> omega

theorem cost_replace_le (b c : Char) (as bs : List Char) :
    cost as (c :: bs) ≤ cost as (b :: bs) + 1 := by
  induction as with
  | nil => simp
  | cons a as ih =>
    rw [cost_cons_cons, cost_cons_cons]
    split <;> split <;> omega

theorem OneEdit.cost_le (e : OneEdit bs cs) (as : List Char) : cost as cs ≤ cost as bs + 1 := by
  cases e with
  | insert before behind c =>
    exact cost_append_le (fun as => cost_cons_right_le as c behind) before as
  | delete before behind c =>
    exact cost_append_le (fun as => cost_le_cost_cons as c behind) before as
  | replace before behind c d =>
    exact cost_append_le (fun as => cost_replace_le c d as behind) before as

theorem cost_self (as : List Char) : cost as as = 0 := by
  induction as with
  | nil => simp
  | cons a as ih => simp [cost_cons_cons, ih]

theorem Edits.cost_le (h : Edits n as bs) : cost as bs ≤ n := by
  induction h with
  | none cs => exact Nat.le_of_eq (cost_self cs)
  | more _ e ih => exact Nat.le_trans (e.cost_le _) (Nat.add_le_add_right ih 1)

end Bound

section Scripts

variable {as bs cs : List Char} {n : Nat}

theorem OneEdit.reverse (e : OneEdit bs cs) : OneEdit bs.reverse cs.reverse := by
  cases e with
  | insert before behind c => simpa using OneEdit.insert behind.reverse before.reverse c
  | delete before behind c => simpa using OneEdit.delete behind.reverse before.reverse c
  | replace before behind c d => simpa using OneEdit.replace behind.reverse before.reverse c d

theorem OneEdit.cons (e : OneEdit bs cs) (c : Char) : OneEdit (c :: bs) (c :: cs) := by
  cases e with
  | insert before behind d => exact .insert (c :: before) behind d
  | delete before behind d => exact .delete (c :: before) behind d
  | replace before behind d e => exact .replace (c :: before) behind d e

theorem Edits.reverse (h : Edits n as bs) : Edits n as.reverse bs.reverse := by
  induction h with
  | none cs => exact .none _
  | more _ e ih => exact .more ih e.reverse

theorem Edits.cons (h : Edits n as bs) (c : Char) : Edits n (c :: as) (c :: bs) := by
  induction h with
  | none cs => exact .none _
  | more _ e ih => exact .more ih (e.cons c)

theorem Edits.head (e : OneEdit as bs) (h : Edits n bs cs) : Edits (n + 1) as cs := by
  induction h with
  | none cs => exact .more (.none _) e
  | more _ e' ih => exact .more (ih e) e'

theorem edits_insertions (bs : List Char) : Edits bs.length [] bs := by
  induction bs with
  | nil => exact .none []
  | cons b bs ih => exact .more ih (.insert [] bs b)

theorem edits_deletions (as : List Char) : Edits as.length as [] := by
  induction as with
  | nil => exact .none []
  | cons a as ih => exact .head (.delete [] as a) ih

/-- As many edits as the recursion gives are enough. -/
theorem edits_cost (as bs : List Char) : Edits (cost as bs) as bs := by
  induction as, bs using cost.induct with
  | case1 bs =>
    rw [cost_nil]
    exact edits_insertions bs
  | case2 a as =>
    rw [cost_nil_right]
    exact edits_deletions (a :: as)
  | case3 a as b bs hinsert hdelete hcorner =>
    have hi : Edits (cost (a :: as) bs + 1) (a :: as) (b :: bs) :=
      .more hinsert (.insert [] bs b)
    have hd : Edits (cost as (b :: bs) + 1) (a :: as) (b :: bs) :=
      .head (.delete [] as a) hdelete
    have hc : Edits (if a = b then cost as bs else cost as bs + 1) (a :: as) (b :: bs) := by
      split
      · rename_i h
        exact h ▸ hcorner.cons a
      · rename_i h
        exact .more (hcorner.cons a) (.replace [] bs a b)
    rw [cost_cons_cons]
    rcases min_choice (min (cost (a :: as) bs + 1) (cost as (b :: bs) + 1))
      (if a = b then cost as bs else cost as bs + 1) with h | h
    · rcases min_choice (cost (a :: as) bs + 1) (cost as (b :: bs) + 1) with h' | h'
      · rwa [h, h']
      · rwa [h, h']
    · rwa [h]

/-- The distance of two texts is the least number of edits that turn one into the other. -/
theorem isLeast_distance (as bs : List Char) :
    IsLeast {n | Edits n as bs} (distance as bs) := by
  rw [distance_eq_cost]
  constructor
  · have h := (edits_cost as.reverse bs.reverse).reverse
    rwa [List.reverse_reverse, List.reverse_reverse] at h
  · exact fun n h => h.reverse.cost_le

end Scripts

end KeyRemap.Text
