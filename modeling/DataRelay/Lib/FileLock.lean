import Mathlib.Data.List.Basic
import Mathlib.Logic.Function.Basic

/-! Advisory locks on the file one directory entry names. A lock belongs to the open file
description that took it and is on the inode, whatever the entry names by then. -/
namespace FileLock

/-- An open file description. -/
structure Description (P : Type*) where
  serial : ℕ
  process : P
  inode : ℕ
  deriving DecidableEq

/-- The entry, and the description that has the lock of each inode. -/
structure Files (P : Type*) where
  entry : Option ℕ := none
  inodes : ℕ := 0
  serials : ℕ := 0
  holder : ℕ → Option (Description P) := fun _ => none

namespace Files

variable {P : Type*} (f : Files P)

/-- `open` with `O_CREAT`: a missing file is made. -/
def openFile (p : P) : Description P × Files P :=
  let inode := f.entry.getD f.inodes
  (⟨f.serials, p, inode⟩,
    { f with
      entry := some inode
      inodes := if f.entry.isSome then f.inodes else f.inodes + 1
      serials := f.serials + 1 })

/-- `flock` with `LOCK_EX | LOCK_NB` succeeds. -/
def canLock [DecidableEq P] (d : Description P) : Bool :=
  f.holder d.inode = none ∨ f.holder d.inode = some d

def lock (d : Description P) : Files P :=
  { f with holder := Function.update f.holder d.inode (some d) }

/-- `flock` with `LOCK_UN`, and what closing the description does to the lock. -/
def unlock [DecidableEq P] (d : Description P) : Files P :=
  if f.holder d.inode = some d then { f with holder := Function.update f.holder d.inode none }
  else f

def unlink : Files P := { f with entry := none }

theorem lock_holder (d : Description P) (i : ℕ) :
    (f.lock d).holder i = if i = d.inode then some d else f.holder i := by
  simp only [lock, Function.update_apply]

section unlock

variable [DecidableEq P]

@[simp] theorem unlock_entry (d : Description P) : (f.unlock d).entry = f.entry := by
  unfold unlock
  split <;> rfl

@[simp] theorem unlock_serials (d : Description P) : (f.unlock d).serials = f.serials := by
  unfold unlock
  split <;> rfl

theorem unlock_holder (d : Description P) (i : ℕ) :
    (f.unlock d).holder i = if f.holder i = some d ∧ d.inode = i then none else f.holder i := by
  unfold unlock
  by_cases hi : d.inode = i
  · subst hi
    by_cases hd : f.holder d.inode = some d <;> simp [hd]
  · split
    · simp [hi, Function.update_of_ne (Ne.symm hi)]
    · simp [hi]

end unlock

/-! ### Who uses which description

A user has at most one description open, with or without the lock. -/

variable {ι : Type*}

/-- The users and the files agree on the descriptions in use and on who has a lock. -/
structure Consistent (f : Files P) (use : ι → Option (Description P × Bool)) : Prop where
  fresh : ∀ {a d l}, use a = some (d, l) → d.serial < f.serials
  unique : ∀ {a b d l l'}, use a = some (d, l) → use b = some (d, l') → a = b
  locked : ∀ {a d}, use a = some (d, true) → f.holder d.inode = some d
  held : ∀ {i d}, f.holder i = some d → d.inode = i ∧ ∃ a, use a = some (d, true)

namespace Consistent

variable {f} {use : ι → Option (Description P × Bool)}

/-- Two users have the locks of different files. -/
theorem exclusive (h : f.Consistent use) {a b : ι} {d e : Description P}
    (ha : use a = some (d, true)) (hb : use b = some (e, true)) (hde : d.inode = e.inode) :
    a = b ∧ d = e := by
  have hd := h.locked ha
  rw [hde, h.locked hb, Option.some.injEq] at hd
  subst hd
  exact ⟨h.unique ha hb, rfl⟩

theorem initial (entry : Option ℕ) (inodes : ℕ) :
    Consistent ({ entry, inodes } : Files P) (fun _ : ι => none) := by
  constructor <;> simp

theorem unlink (h : f.Consistent use) : f.unlink.Consistent use :=
  ⟨h.fresh, h.unique, h.locked, h.held⟩

variable [DecidableEq ι]

/-- A new description has a serial no other has. -/
theorem openFile (h : f.Consistent use) {a : ι} (ha : use a = none) (p : P) :
    (f.openFile p).2.Consistent (Function.update use a (some ((f.openFile p).1, false))) := by
  constructor
  · intro b d l hb
    by_cases hba : b = a
    · subst hba
      simp only [Function.update_self, Option.some.injEq, Prod.mk.injEq] at hb
      rw [← hb.1]
      exact Nat.lt_succ_self _
    · rw [Function.update_of_ne hba] at hb
      exact Nat.lt_succ_of_lt (h.fresh hb)
  · intro b c d l l' hb hc
    by_cases hba : b = a <;> by_cases hca : c = a
    · rw [hba, hca]
    · subst hba
      rw [Function.update_of_ne hca] at hc
      simp only [Function.update_self, Option.some.injEq, Prod.mk.injEq] at hb
      have hlt := h.fresh hc
      rw [← hb.1] at hlt
      exact absurd hlt (Nat.lt_irrefl _)
    · subst hca
      rw [Function.update_of_ne hba] at hb
      simp only [Function.update_self, Option.some.injEq, Prod.mk.injEq] at hc
      have hlt := h.fresh hb
      rw [← hc.1] at hlt
      exact absurd hlt (Nat.lt_irrefl _)
    · rw [Function.update_of_ne hba] at hb
      rw [Function.update_of_ne hca] at hc
      exact h.unique hb hc
  · intro b d hb
    by_cases hba : b = a
    · subst hba
      simp at hb
    · rw [Function.update_of_ne hba] at hb
      exact h.locked hb
  · intro i d hd
    obtain ⟨hi, b, hb⟩ := h.held hd
    refine ⟨hi, b, ?_⟩
    rw [Function.update_of_ne (by rintro rfl; simp [ha] at hb)]
    exact hb

theorem lock [DecidableEq P] (h : f.Consistent use) {a : ι} {d : Description P} (ha : use a = some (d, false))
    (hlock : f.canLock d = true) :
    (f.lock d).Consistent (Function.update use a (some (d, true))) := by
  have hfree : f.holder d.inode = none := by
    simp only [canLock, decide_eq_true_eq] at hlock
    rcases hlock with hnone | hown
    · exact hnone
    · obtain ⟨-, b, hb⟩ := h.held hown
      rw [h.unique ha hb, hb] at ha
      simp at ha
  have huse : ∀ {b e l}, Function.update use a (some (d, true)) b = some (e, l) →
      ∃ l', use b = some (e, l') := by
    intro b e l hb
    by_cases hba : b = a
    · subst hba
      simp only [Function.update_self, Option.some.injEq, Prod.mk.injEq] at hb
      exact ⟨false, by rw [ha, hb.1]⟩
    · rw [Function.update_of_ne hba] at hb
      exact ⟨l, hb⟩
  constructor
  · intro b e l hb
    obtain ⟨l', hb⟩ := huse hb
    exact h.fresh hb
  · intro b c e l l' hb hc
    obtain ⟨k, hb⟩ := huse hb
    obtain ⟨k', hc⟩ := huse hc
    exact h.unique hb hc
  · intro b e hb
    by_cases hba : b = a
    · subst hba
      simp only [Function.update_self, Option.some.injEq, Prod.mk.injEq, and_true] at hb
      subst hb
      rw [lock_holder, if_pos rfl]
    · rw [Function.update_of_ne hba] at hb
      have hheld := h.locked hb
      rw [lock_holder, if_neg]
      · exact hheld
      · intro heq
        rw [heq, hfree] at hheld
        cases hheld
  · intro i e he
    by_cases hi : i = d.inode
    · subst hi
      rw [lock_holder, if_pos rfl, Option.some.injEq] at he
      subst he
      exact ⟨rfl, a, Function.update_self ..⟩
    · rw [lock_holder, if_neg hi] at he
      obtain ⟨hei, b, hb⟩ := h.held he
      refine ⟨hei, b, ?_⟩
      rw [Function.update_of_ne]
      · exact hb
      · rintro rfl
        rw [ha] at hb
        simp at hb

/-- Unlocking or closing a description changes nothing for the other users. -/
theorem unlock [DecidableEq P] (h : f.Consistent use) {a : ι} {d : Description P} {l : Bool}
    (ha : use a = some (d, l)) {left : Option (Description P × Bool)}
    (hleft : left = none ∨ left = some (d, false)) :
    (f.unlock d).Consistent (Function.update use a left) := by
  have hself : ∀ {e l'}, left = some (e, l') → e = d ∧ l' = false := by
    rintro e l' rfl
    simpa using hleft
  have huse : ∀ {b e l'}, Function.update use a left b = some (e, l') →
      ∃ k, use b = some (e, k) := by
    intro b e l' hb
    by_cases hba : b = a
    · subst hba
      rw [Function.update_self] at hb
      exact ⟨l, by rw [ha, (hself hb).1]⟩
    · rw [Function.update_of_ne hba] at hb
      exact ⟨l', hb⟩
  constructor
  · intro b e l' hb
    obtain ⟨k, hb⟩ := huse hb
    simpa using h.fresh hb
  · intro b c e l' l'' hb hc
    obtain ⟨k, hb⟩ := huse hb
    obtain ⟨k', hc⟩ := huse hc
    exact h.unique hb hc
  · intro b e hb
    by_cases hba : b = a
    · subst hba
      rw [Function.update_self] at hb
      cases (hself hb).2
    · rw [Function.update_of_ne hba] at hb
      have hed : e ≠ d := by
        rintro rfl
        exact hba (h.unique hb ha)
      rw [unlock_holder, if_neg]
      · exact h.locked hb
      · rintro ⟨hd, -⟩
        rw [h.locked hb, Option.some.injEq] at hd
        exact hed hd
  · intro i e he
    rw [unlock_holder] at he
    split_ifs at he with hd
    obtain ⟨hei, b, hb⟩ := h.held he
    refine ⟨hei, b, ?_⟩
    rw [Function.update_of_ne]
    · exact hb
    · rintro rfl
      rw [ha] at hb
      simp only [Option.some.injEq, Prod.mk.injEq] at hb
      exact hd ⟨by rw [he, hb.1], by rw [hb.1, hei]⟩

/-- A description handed from one user to another. -/
theorem move (h : f.Consistent use) {a b : ι} {v : Description P × Bool} (ha : use a = some v)
    (hb : use b = none) :
    f.Consistent (Function.update (Function.update use a none) b (some v)) := by
  have hne : b ≠ a := by
    rintro rfl
    rw [ha] at hb
    cases hb
  have huse : ∀ {c e}, Function.update (Function.update use a none) b (some v) c = some e →
      use (if c = b then a else c) = some e := by
    intro c e hc
    by_cases hcb : c = b
    · subst hcb
      rw [if_pos rfl]
      simpa [ha] using hc
    · rw [if_neg hcb]
      rw [Function.update_of_ne hcb] at hc
      by_cases hca : c = a
      · subst hca
        simp at hc
      · rwa [Function.update_of_ne hca] at hc
  constructor
  · intro c d l hc
    exact h.fresh (huse hc)
  · intro c c' d l l' hc hc'
    have heq := h.unique (huse hc) (huse hc')
    by_cases hcb : c = b <;> by_cases hcb' : c' = b
    · rw [hcb, hcb']
    · rw [if_pos hcb, if_neg hcb'] at heq
      subst heq
      simp [Function.update_of_ne hcb'] at hc'
    · rw [if_neg hcb, if_pos hcb'] at heq
      subst heq
      simp [Function.update_of_ne hcb] at hc
    · rwa [if_neg hcb, if_neg hcb'] at heq
  · intro c d hc
    exact h.locked (huse hc)
  · intro i d hd
    obtain ⟨hi, c, hc⟩ := h.held hd
    refine ⟨hi, ?_⟩
    by_cases hca : c = a
    · subst hca
      exact ⟨b, by rw [Function.update_self, ← hc, ha]⟩
    · refine ⟨c, ?_⟩
      rw [Function.update_of_ne, Function.update_of_ne hca]
      · exact hc
      · rintro rfl
        rw [hb] at hc
        cases hc

end Consistent

end Files

end FileLock
