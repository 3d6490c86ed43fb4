import DataRelay.Runner.StreamRuntimeLock
import Mathlib.Data.Fintype.Basic

/-! Who owns the lock of a stream. As long as no entry is removed under an owner, all owners and
all calls on their way to the `flock` are on the file the entry names. -/
namespace Runner.RuntimeLock
open FileLock

/-- What may have the lock file open: a call in progress, or `_HANDLES` of a process. -/
inductive Slot (T P : Type) where
  | call (t : T)
  | handle (p : P)
  deriving DecidableEq

def Slot.owner {T P : Type} (process : T → P) : Slot T P → P
  | .call t => process t
  | .handle p => p

/-- The description the call owns the lock with or is about to. -/
def Phase.aimed {P : Type} : Phase P → Option (Description P)
  | .tryFlock d | .tryRecord d | .releaseUnlock d => some d
  | _ => none

/-- The file an `is_held` has the lock of. -/
def Phase.probed {P : Type} : Phase P → Option ℕ
  | .probeUnlock _ d => some d.inode
  | _ => none

section ownership

variable {T P : Type} [DecidableEq T] [DecidableEq P] (process : T → P)

namespace LockState

def use (s : LockState T P) : Slot T P → Option (Description P × Bool)
  | .call t => (s.phase t).use
  | .handle p => (s.handles p).map (·, true)

def owned (s : LockState T P) : Slot T P → Option (Description P)
  | .call t => (s.phase t).owned
  | .handle p => s.handles p

def aimed (s : LockState T P) : Slot T P → Option (Description P)
  | .call t => (s.phase t).aimed
  | .handle p => s.handles p

/-- The process owns the lock. -/
def Holds (s : LockState T P) (p : P) : Prop :=
  ∃ a d, a.owner process = p ∧ s.owned a = some d

/-- A process other than the thread's owns the lock. -/
def OthersHold (s : LockState T P) (t : T) : Prop := ∃ q, q ≠ process t ∧ s.Holds process q

/-- This step makes `try_acquire` return `False` to the thread. -/
def ReturnsFalse (s : LockState T P) (t : T) : LockAction T → Prop
  | .call t' op => t' = t ∧ op = .tryAcquire ∧ s.phase t matches .idle ∧
    s.guard (process t) = none ∧ (s.handles (process t)).isSome = true
  | .advance t' _ => t' = t ∧ s.phase t matches .tryClose _

/-- The step removes no entry under an owner or a call on its way to the `flock`, and
`try_acquire` is not called, and does not come to its `flock`, while the process itself owns the
lock or an `is_held` has the lock of the file. -/
def Undisturbed (s : LockState T P) : LockAction T → Prop
  | .call t .tryAcquire => s.handles (process t) = none
  | .call _ _ => True
  | .advance t _ =>
    match s.phase t with
    | .tryFlock d => ¬ s.Holds process (process t) ∧ ∀ t', (s.phase t').probed ≠ some d.inode
    | .unlink => (∀ p, ¬ s.Holds process p) ∧ ∀ t' d, s.phase t' ≠ .tryFlock d
    | _ => True

end LockState

/-- The state, with whether a process other than the thread's owned the lock at some moment of
the call the thread is in. -/
structure Watched (T P : Type) where
  state : LockState T P
  seen : T → Prop

namespace Watched

def SeenOther (w : Watched T P) (t : T) : Prop :=
  (¬ (w.state.phase t matches .idle) ∧ w.seen t) ∨ w.state.OthersHold process t

def step (w : Watched T P) (a : LockAction T) : Watched T P where
  state := w.state.step process a
  seen t := w.SeenOther process t ∨ (w.state.step process a).OthersHold process t

/-- One process at most owns the lock, and `try_acquire` returns `False` only when another
process has owned it during the call. -/
structure Law (w : Watched T P) (a : LockAction T) : Prop where
  exclusive : ∀ p q, (w.state.step process a).Holds process p →
    (w.state.step process a).Holds process q → p = q
  refused : ∀ t, w.state.ReturnsFalse process t a → w.SeenOther process t

end Watched

/-- The users of the file agree with its locks, and those that own the lock or are about to take
it are on the file the entry names. -/
structure LockState.Inv (s : LockState T P) : Prop where
  consistent : s.files.Consistent s.use
  opener : ∀ a d l, s.use a = some (d, l) → d.process = a.owner process
  current : ∀ a d, s.aimed a = some d → s.files.entry = some d.inode

end ownership

namespace LockState

variable {T P : Type} {process : T → P} {s : LockState T P}

theorem owned_spec {a : Slot T P} {d : Description P} (h : s.owned a = some d) :
    s.use a = some (d, true) ∧ s.aimed a = some d := by
  cases a with
  | handle p =>
    simp only [owned] at h
    simp [use, aimed, h]
  | call t =>
    simp only [owned] at h
    simp only [use, aimed]
    cases hphase : s.phase t <;> simp_all [Phase.owned, Phase.use, Phase.aimed]

/-- One owner at most. -/
theorem Inv.exclusive (h : s.Inv process) {p q : P} (hp : s.Holds process p)
    (hq : s.Holds process q) : p = q := by
  obtain ⟨a, d, rfl, ha⟩ := hp
  obtain ⟨b, e, rfl, hb⟩ := hq
  obtain ⟨huse, haim⟩ := owned_spec ha
  obtain ⟨huse', haim'⟩ := owned_spec hb
  have hinode : d.inode = e.inode := by
    have heq := (h.current a d haim).symm.trans (h.current b e haim')
    rwa [Option.some.injEq] at heq
  rw [(h.consistent.exclusive huse huse' hinode).1]

/-! ### What a change of one slot does -/

variable [DecidableEq P]

theorem Inv.setGuard (h : s.Inv process) (p : P) (guard : Option T) :
    (s.setGuard p guard).Inv process := ⟨h.consistent, h.opener, h.current⟩

variable [DecidableEq T]

@[simp] theorem use_setPhase (t : T) (phase : Phase P) :
    (s.setPhase t phase).use = Function.update s.use (.call t) phase.use := by
  funext a
  cases a with
  | call t' => by_cases h : t' = t <;> simp [use, setPhase, h]
  | handle p => simp [use, setPhase]

@[simp] theorem use_setHandle (p : P) (handle : Option (Description P)) :
    (s.setHandle p handle).use = Function.update s.use (.handle p) (handle.map (·, true)) := by
  funext a
  cases a with
  | call t => simp [use, setHandle]
  | handle p' => by_cases h : p' = p <;> simp [use, setHandle, h]

@[simp] theorem aimed_setPhase (t : T) (phase : Phase P) :
    (s.setPhase t phase).aimed = Function.update s.aimed (.call t) phase.aimed := by
  funext a
  cases a with
  | call t' => by_cases h : t' = t <;> simp [aimed, setPhase, h]
  | handle p => simp [aimed, setPhase]

@[simp] theorem aimed_setHandle (p : P) (handle : Option (Description P)) :
    (s.setHandle p handle).aimed = Function.update s.aimed (.handle p) handle := by
  funext a
  cases a with
  | call t => simp [aimed, setHandle]
  | handle p' => by_cases h : p' = p <;> simp [aimed, setHandle, h]

/-- A step of one call: the files it leaves, and its new phase. -/
theorem Inv.setPhase (h : s.Inv process) {t : T} {phase : Phase P} (files : Files P)
    (hfiles : files.Consistent (Function.update s.use (.call t) phase.use))
    (hopener : ∀ d l, phase.use = some (d, l) → d.process = process t)
    (hentry : ∀ a d, a ≠ .call t → s.aimed a = some d → files.entry = some d.inode)
    (haimed : ∀ d, phase.aimed = some d → files.entry = some d.inode) :
    ((s.withFiles files).setPhase t phase).Inv process := by
  constructor
  · rw [use_setPhase]
    exact hfiles
  · intro a d l ha
    rw [use_setPhase] at ha
    by_cases hat : a = .call t
    · subst hat
      rw [Function.update_self] at ha
      exact hopener d l ha
    · rw [Function.update_of_ne hat] at ha
      exact h.opener a d l ha
  · intro a d ha
    rw [aimed_setPhase] at ha
    by_cases hat : a = .call t
    · subst hat
      rw [Function.update_self] at ha
      exact haimed d ha
    · rw [Function.update_of_ne hat] at ha
      exact hentry a d hat ha

/-- Where the call is in its own code. -/
theorem Inv.move (h : s.Inv process) {t : T} {phase : Phase P} (huse : phase.use = (s.phase t).use)
    (haimed : ∀ d, phase.aimed = some d → (s.phase t).aimed = some d) :
    (s.setPhase t phase).Inv process := by
  have hupdate : Function.update s.use (.call t) phase.use = s.use := by
    rw [huse]
    exact Function.update_eq_self (Slot.call t) s.use
  apply h.setPhase s.files
  · rw [hupdate]
    exact h.consistent
  · intro d l hd
    exact h.opener (.call t) d l (huse.symm.trans hd)
  · intro a d _ ha
    exact h.current a d ha
  · intro d hd
    exact h.current (.call t) d (haimed d hd)

/-- A description no user can be about to lock is closed or unlocked. -/
theorem Inv.unlock (h : s.Inv process) {t : T} {phase : Phase P} {d : Description P} {l : Bool}
    (ht : (s.phase t).use = some (d, l)) (huse : phase.use = none ∨ phase.use = some (d, false))
    (haimed : phase.aimed = none) :
    ((s.withFiles (s.files.unlock d)).setPhase t phase).Inv process := by
  apply h.setPhase
  · exact h.consistent.unlock (a := Slot.call t) ht huse
  · intro e k he
    rcases huse with hnone | hsome
    · rw [hnone] at he
      cases he
    · rw [hsome] at he
      cases he
      exact h.opener (.call t) d l ht
  · intro a e _ ha
    rw [Files.unlock_entry]
    exact h.current a e ha
  · intro e he
    rw [haimed] at he
    cases he

theorem Inv.lock (h : s.Inv process) {t : T} {phase : Phase P} {d : Description P}
    (ht : (s.phase t).use = some (d, false)) (hlock : s.files.canLock d = true)
    (huse : phase.use = some (d, true))
    (haimed : ∀ e, phase.aimed = some e → (s.phase t).aimed = some e) :
    ((s.withFiles (s.files.lock d)).setPhase t phase).Inv process := by
  apply h.setPhase
  · rw [huse]
    exact h.consistent.lock (a := Slot.call t) ht hlock
  · intro e k he
    rw [huse] at he
    cases he
    exact h.opener (.call t) d false ht
  · intro a e _ ha
    exact h.current a e ha
  · intro e he
    exact h.current (.call t) e (haimed e he)

/-- Opening names a new file only when nobody is aimed at one. -/
theorem Inv.openFile (h : s.Inv process) {t : T} {phase : Phase P} (ht : (s.phase t).use = none)
    (huse : phase.use = some ((s.files.openFile (process t)).1, false))
    (haimed : ∀ e, phase.aimed = some e → e = (s.files.openFile (process t)).1) :
    ((s.withFiles (s.files.openFile (process t)).2).setPhase t phase).Inv process := by
  apply h.setPhase
  · rw [huse]
    exact h.consistent.openFile (a := Slot.call t) ht (process t)
  · intro e k he
    rw [huse] at he
    cases he
    rfl
  · intro a e _ ha
    simp [Files.openFile, h.current a e ha]
  · intro e he
    rw [haimed e he]
    rfl

/-- The entry goes when nobody is aimed at a file. -/
theorem Inv.unlink (h : s.Inv process) {t : T} (ht : (s.phase t).use = none)
    (hfree : ∀ p, ¬ s.Holds process p) (hpending : ∀ t' d, s.phase t' ≠ .tryFlock d) :
    ((s.withFiles s.files.unlink).setPhase t .idle).Inv process := by
  have hnone : ∀ a d, s.aimed a ≠ some d := by
    intro a d ha
    cases a with
    | handle p => exact hfree p ⟨.handle p, d, rfl, ha⟩
    | call t' =>
      cases hphase : s.phase t' with
      | tryFlock e => exact hpending t' e hphase
      | tryRecord e => exact hfree (process t') ⟨.call t', e, rfl, by simp [owned, hphase, Phase.owned]⟩
      | releaseUnlock e =>
        exact hfree (process t') ⟨.call t', e, rfl, by simp [owned, hphase, Phase.owned]⟩
      | _ => simp [aimed, hphase, Phase.aimed] at ha
  apply h.setPhase
  · have hupdate : Function.update s.use (.call t) (Phase.use .idle) = s.use := by
      rw [← show (s.phase t).use = Phase.use .idle from ht]
      exact Function.update_eq_self (Slot.call t) s.use
    rw [hupdate]
    exact h.consistent.unlink
  · intro d l hd
    cases hd
  · intro a d _ ha
    exact absurd ha (hnone a d)
  · intro d hd
    cases hd

/-- The description of an owner goes from one slot of the process to another. -/
theorem Inv.handOver (h : s.Inv process) {s' : LockState T P} {a b : Slot T P} {d : Description P}
    (hfiles : s'.files = s.files)
    (huse : s'.use = Function.update (Function.update s.use a none) b (some (d, true)))
    (haimed : s'.aimed = Function.update (Function.update s.aimed a none) b (some d))
    (howner : a.owner process = b.owner process) (ha : s.use a = some (d, true))
    (haim : s.aimed a = some d) (hb : s.use b = none) : s'.Inv process := by
  constructor
  · rw [hfiles, huse]
    exact h.consistent.move ha hb
  · intro c e l hc
    rw [huse, Function.update_apply, Function.update_apply] at hc
    split_ifs at hc with hcb hca
    · cases hc
      rw [hcb, ← howner]
      exact h.opener a d true ha
    · exact h.opener c e l hc
  · intro c e hc
    rw [hfiles]
    rw [haimed, Function.update_apply, Function.update_apply] at hc
    split_ifs at hc with hcb hca
    · cases hc
      exact h.current a d haim
    · exact h.current c e hc

/-- The handle of a successful `try_acquire` goes into `_HANDLES`, where no handle of before has
the lock. -/
theorem Inv.record (h : s.Inv process) {t : T} {d : Description P}
    (ht : s.phase t = .tryRecord d) :
    ((s.setHandle (process t) (some d)).setPhase t .idle).Inv process := by
  have huse : s.use (.call t) = some (d, true) := by simp [use, ht, Phase.use]
  have haim : s.aimed (.call t) = some d := by simp [aimed, ht, Phase.aimed]
  have hne : Slot.call t ≠ .handle (process t) := by simp
  refine h.handOver (a := .call t) (b := .handle (process t)) rfl ?_ ?_ rfl huse haim ?_
  · rw [use_setPhase, use_setHandle, Function.update_comm hne]
    rfl
  · rw [aimed_setPhase, aimed_setHandle, Function.update_comm hne]
    rfl
  · cases hhandle : s.handles (process t) with
    | none => simp [use, hhandle]
    | some e =>
      have huse' : s.use (.handle (process t)) = some (e, true) := by simp [use, hhandle]
      have hinode : d.inode = e.inode := by
        have heq := (h.current (.call t) d haim).symm.trans (h.current (.handle (process t)) e hhandle)
        rwa [Option.some.injEq] at heq
      exact absurd (h.consistent.exclusive huse huse' hinode).1 hne

/-- `release` takes the handle out of `_HANDLES`. -/
theorem Inv.pop (h : s.Inv process) {t : T} {d : Description P} (ht : s.phase t = .idle)
    (hhandle : s.handles (process t) = some d) :
    ((s.setHandle (process t) none).setPhase t (.releaseUnlock d)).Inv process := by
  refine h.handOver (a := .handle (process t)) (b := .call t) rfl ?_ ?_ rfl ?_ hhandle ?_
  · rw [use_setPhase, use_setHandle]
    rfl
  · rw [aimed_setPhase, aimed_setHandle]
    rfl
  · simp [use, hhandle]
  · simp [use, ht, Phase.use]

/-- The steps of a call keep the invariant. -/
theorem Inv.advance (h : s.Inv process) (t : T) (opens : Bool)
    (hfair : s.Undisturbed process (.advance t opens)) : (s.advance process t opens).Inv process := by
  simp only [Undisturbed] at hfair
  unfold LockState.advance
  cases ht : s.phase t with
  | idle => exact h
  | tryOpen =>
    simp only
    split
    · apply h.openFile (by rw [ht]; rfl) rfl
      rintro e ⟨⟩
      rfl
    · exact (h.setGuard _ _).move (by rw [show (s.setGuard _ _).phase t = _ from ht]; rfl)
        (by rintro e ⟨⟩)
  | tryFlock d =>
    simp only
    split
    · next hlock =>
      apply h.lock (by rw [ht]; rfl) hlock rfl
      rintro e ⟨⟩
      rw [ht]
      rfl
    · exact h.move (by rw [ht]; rfl) (by rintro e ⟨⟩)
  | tryClose d =>
    have hclose : ((s.withFiles (s.files.unlock d)).setPhase t .idle).Inv process :=
      h.unlock (by rw [ht]; rfl) (.inl rfl) rfl
    exact hclose.setGuard _ _
  | tryRecord d => exact (h.record ht).setGuard _ _
  | releaseUnlock d => exact h.unlock (by rw [ht]; rfl) (.inr rfl) rfl
  | releaseClose d => exact h.unlock (by rw [ht]; rfl) (.inl rfl) rfl
  | listDir =>
    simp only
    split <;> exact h.move (by rw [ht]; rfl) (by rintro e ⟨⟩)
  | probeCheck cleanup =>
    simp only [Phase.afterProbe, Bool.not_true, Bool.and_false, Bool.false_eq_true, ↓reduceIte]
    split
    · exact h
    · split <;> exact h.move (by rw [ht]; rfl) (by rintro e ⟨⟩)
  | probeOpen cleanup =>
    simp only
    split
    · exact h.openFile (by rw [ht]; rfl) rfl (by rintro e ⟨⟩)
    · cases cleanup <;> exact h.move (by rw [ht]; rfl) (by rintro e ⟨⟩)
  | probeFlock cleanup d =>
    simp only
    split
    · next hlock => exact h.lock (by rw [ht]; rfl) hlock rfl (by rintro e ⟨⟩)
    · exact h.move (by rw [ht]; rfl) (by rintro e ⟨⟩)
  | probeUnlock cleanup d => exact h.unlock (by rw [ht]; rfl) (.inr rfl) rfl
  | probeClose cleanup d held =>
    cases cleanup <;> cases held <;> exact h.unlock (by rw [ht]; rfl) (.inl rfl) rfl
  | unlink =>
    rw [ht] at hfair
    exact h.unlink (by rw [ht]; rfl) hfair.1 hfair.2

/-- So does the beginning of one. -/
theorem Inv.begin (h : s.Inv process) (t : T) (op : Operation) (ht : s.phase t = .idle) :
    (s.begin process t op).Inv process := by
  cases op with
  | tryAcquire =>
    simp only [LockState.begin]
    split
    · exact h
    · exact (h.setGuard _ _).move (by rw [show (s.setGuard _ _).phase t = _ from ht]; rfl)
        (by rintro e ⟨⟩)
  | release =>
    simp only [LockState.begin]
    split
    · exact h
    · cases hhandle : s.handles (process t) with
      | none => exact h
      | some d => exact h.pop ht hhandle
  | isHeld => exact h.move (by rw [ht]; rfl) (by rintro e ⟨⟩)
  | cleanup => exact h.move (by rw [ht]; rfl) (by rintro e ⟨⟩)

theorem Inv.step (h : s.Inv process) (a : LockAction T) (hfair : s.Undisturbed process a) :
    (s.step process a).Inv process := by
  cases a with
  | advance t opens => exact h.advance t opens hfair
  | call t op =>
    cases ht : s.phase t with
    | idle =>
      simp only [LockState.step, ht]
      exact h.begin t op ht
    | _ =>
      simp only [LockState.step, ht]
      exact h

omit [DecidableEq T] in
/-- A `flock` that fails outside of the probes fails on the lock of another process. -/
theorem Inv.othersHold (h : s.Inv process) {t : T} {d : Description P}
    (hlock : s.files.canLock d = false) (hself : ¬ s.Holds process (process t))
    (hprobe : ∀ t', (s.phase t').probed ≠ some d.inode) :
    s.OthersHold process t := by
  have hheld : s.files.holder d.inode ≠ none := by
    intro hnone
    simp [Files.canLock, hnone] at hlock
  obtain ⟨e, he⟩ := Option.ne_none_iff_exists'.mp hheld
  obtain ⟨hinode, a, ha⟩ := h.consistent.held he
  have howned : s.owned a = some e := by
    cases a with
    | handle p => simpa [use, owned] using ha
    | call t' =>
      simp only [use] at ha
      simp only [owned]
      cases hphase : s.phase t' <;> rw [hphase] at ha <;> simp [Phase.use] at ha
      case probeUnlock cleanup e' =>
        subst ha
        exact absurd (by rw [hphase, ← hinode]; rfl) (hprobe t')
      all_goals simp [Phase.owned, ha]
  refine ⟨a.owner process, ?_, a, e, rfl, howned⟩
  intro heq
  exact hself ⟨a, e, heq, howned⟩

omit [DecidableEq P] in
@[simp] theorem phase_setPhase (t t' : T) (phase : Phase P) :
    (s.setPhase t phase).phase t' = if t' = t then phase else s.phase t' :=
  Function.update_apply ..

/-- A call is moved on by its own steps only. -/
theorem step_phase_of_ne {a : LockAction T} {t : T} (h : t ≠ a.thread) :
    (s.step process a).phase t = s.phase t := by
  cases a with
  | call t' op =>
    have hne : t ≠ t' := h
    simp only [LockState.step]
    split
    · cases op <;> simp only [LockState.begin]
      · split <;> simp [setGuard, hne]
      · split
        · rfl
        · split <;> simp [setHandle, hne]
      · simp [hne]
      · simp [hne]
    · rfl
  | advance t' opens =>
    have hne : t ≠ t' := h
    simp only [LockState.step, LockState.advance]
    split <;> (try split) <;> simp [hne, withFiles, setGuard, setHandle]

/-- Only a failed `flock` brings a call to the end that returns `False`. -/
theorem phase_tryClose {a : LockAction T} {t : T} {d : Description P}
    (h : (s.step process a).phase t = .tryClose d) :
    s.phase t = .tryClose d ∨ (∃ opens, a = .advance t opens) ∧ s.phase t = .tryFlock d ∧
      s.files.canLock d = false := by
  by_cases hne : t = a.thread
  · cases a with
    | call t' op =>
      have hself : t = t' := hne
      subst hself
      cases ht : s.phase t with
      | idle =>
        simp only [LockState.step, ht] at h
        cases op <;> simp only [LockState.begin] at h
        · split at h <;> simp [ht] at h
        · split at h
          · simp [ht] at h
          · split at h <;> simp [ht] at h
        · simp at h
        · simp at h
      | _ =>
        simp only [LockState.step, ht] at h
        left
        exact h
    | advance t' opens =>
      have hself : t = t' := hne
      subst hself
      simp only [LockState.step, LockState.advance] at h
      cases ht : s.phase t with
      | tryFlock e =>
        simp only [ht] at h
        split at h
        · simp at h
        · next hlock =>
          simp only [phase_setPhase, ↓reduceIte, Phase.tryClose.injEq] at h
          subst h
          exact .inr ⟨⟨opens, rfl⟩, rfl, by simpa using hlock⟩
      | probeCheck cleanup =>
        simp only [ht] at h
        split at h
        · simp [ht] at h
        · cases hhandle : s.handles (process t) <;> simp [hhandle, Phase.afterProbe] at h
      | probeOpen cleanup =>
        simp only [ht] at h
        cases cleanup <;> split at h <;> simp [Phase.afterProbe] at h
      | probeClose cleanup e held =>
        cases cleanup <;> cases held <;> simp [ht, Phase.afterProbe] at h
      | listDir =>
        cases hentry : s.files.entry <;> simp [ht, hentry] at h
      | tryOpen =>
        simp only [ht] at h
        split at h <;> simp at h
      | probeFlock cleanup e =>
        simp only [ht] at h
        split at h <;> simp at h
      | _ => simp [ht] at h
  · left
    rwa [step_phase_of_ne hne] at h

end LockState

namespace Watched

variable {T P : Type} {process : T → P}

/-- The invariant, with what a call about to return `False` has seen. -/
structure Inv (process : T → P) (w : Watched T P) : Prop extends w.state.Inv process where
  failed : ∀ t d, w.state.phase t = .tryClose d → w.seen t

/-- No call is in progress and no process has the lock; the lock file may be there. -/
def initial (entry : Option ℕ) (inodes : ℕ) : Watched T P where
  state := { files := { entry, inodes } }
  seen _ := False

theorem initial_inv (entry : Option ℕ) (inodes : ℕ) : (initial entry inodes).Inv process := by
  refine ⟨⟨?_, ?_, ?_⟩, ?_⟩
  · have huse : (initial entry inodes : Watched T P).state.use = fun _ => none := by
      funext a
      cases a <;> rfl
    rw [huse]
    exact .initial entry inodes
  · rintro (t | p) d l ⟨⟩
  · rintro (t | p) d ⟨⟩
  · rintro t d ⟨⟩

variable [DecidableEq T] [DecidableEq P] {w : Watched T P}

theorem Inv.step (h : w.Inv process) (a : LockAction T) (hfair : w.state.Undisturbed process a) :
    (w.step process a).Inv process := by
  refine ⟨h.toInv.step a hfair, ?_⟩
  intro t d ht
  rcases LockState.phase_tryClose ht with hbefore | ⟨⟨opens, rfl⟩, hphase, hlock⟩
  · left
    left
    exact ⟨by simp [hbefore], h.failed t d hbefore⟩
  · left
    right
    simp only [LockState.Undisturbed, hphase] at hfair
    exact h.toInv.othersHold hlock hfair.1 hfair.2

theorem Inv.law (h : w.Inv process) (a : LockAction T) (hfair : w.state.Undisturbed process a) :
    w.Law process a := by
  constructor
  · intro p q hp hq
    exact (h.toInv.step a hfair).exclusive hp hq
  · intro t hreturns
    cases a with
    | call t' op =>
      obtain ⟨rfl, rfl, -, -, hown⟩ := hreturns
      simp only [LockState.Undisturbed] at hfair
      simp [hfair] at hown
    | advance t' opens =>
      obtain ⟨rfl, hphase⟩ := hreturns
      left
      cases ht : w.state.phase t' with
      | tryClose d => exact ⟨by simp, h.failed t' d ht⟩
      | _ => simp [ht] at hphase

end Watched

/-- In every order of the system calls of any number of threads and processes. -/
theorem lock_law {T P : Type} [DecidableEq T] [DecidableEq P] (process : T → P)
    (entry : Option ℕ) (inodes : ℕ) (actions : List (LockAction T))
    (h : Steps.Along (Watched.step process) (fun w a => w.state.Undisturbed process a)
      (Watched.initial entry inodes) actions) :
    Steps.Along (Watched.step process) (Watched.Law process) (Watched.initial entry inodes) actions :=
  Steps.along_of_invariant (fun _ a hw ha => Watched.Inv.step hw a ha)
    (fun _ a hw ha => Watched.Inv.law hw a ha) (Watched.initial_inv entry inodes) h

theorem LockState.holds_iff {T P : Type} {process : T → P} {s : LockState T P} {p : P} :
    (s.handles p).isSome = true ∨ (∃ t, process t = p ∧ (s.phase t).owned.isSome = true) ↔
      s.Holds process p := by
  simp only [Option.isSome_iff_exists]
  constructor
  · rintro (⟨d, hd⟩ | ⟨t, ht, d, hd⟩)
    · exact ⟨.handle p, d, rfl, hd⟩
    · exact ⟨.call t, d, ht, hd⟩
  · rintro ⟨a, d, ha, hd⟩
    cases a with
    | handle p' =>
      have hp : p' = p := ha
      subst hp
      exact .inl ⟨d, hd⟩
    | call t => exact .inr ⟨t, ha, d, hd⟩

instance LockState.decidableHolds {T P : Type} [Fintype T] [DecidableEq P] (process : T → P)
    (s : LockState T P) (p : P) : Decidable (s.Holds process p) :=
  decidable_of_iff _ LockState.holds_iff

/-- No process owns the lock, and no call has seen one that did. -/
structure Watched.Unseen {T P : Type} (process : T → P) (w : Watched T P) : Prop where
  seen : ∀ t, ¬ w.seen t
  free : ∀ p, ¬ w.state.Holds process p

theorem Watched.Unseen.not_seenOther {T P : Type} {process : T → P} {w : Watched T P}
    (h : w.Unseen process) (t : T) : ¬ w.SeenOther process t := by
  rintro (⟨-, hsaw⟩ | ⟨q, -, hq⟩)
  · exact h.seen t hsaw
  · exact h.free q hq

theorem Watched.Unseen.run {T P : Type} [DecidableEq T] [DecidableEq P] {process : T → P}
    {w : Watched T P} {actions : List (LockAction T)} (hw : w.Unseen process)
    (h : Steps.Along (Watched.step process)
      (fun w a => ∀ p, ¬ (w.state.step process a).Holds process p) w actions) :
    (Steps.run (Watched.step process) w actions).Unseen process := by
  have hstep : ∀ (w : Watched T P) (a : LockAction T), w.Unseen process →
      (∀ p, ¬ (w.state.step process a).Holds process p) → (w.step process a).Unseen process := by
    intro w a hw hafter
    refine ⟨?_, hafter⟩
    rintro t (hsaw | ⟨q, -, hq⟩)
    · exact hw.not_seenOther t hsaw
    · exact hafter q hq
  exact Steps.run_invariant hstep hw h

/-- A process takes the lock and releases it, another then takes it. -/
def takeTurns : List (LockAction (Fin 3)) :=
  [.call 1 .tryAcquire, .advance 1 true, .advance 1 true, .advance 1 true, .call 1 .release,
    .advance 1 true, .advance 1 true, .call 2 .tryAcquire, .advance 2 true, .advance 2 true]

theorem takeTurns_law :
    Steps.Along (Watched.step id) (Watched.Law id) (Watched.initial none 0) takeTurns ∧
      (Steps.run (Watched.step id) (Watched.initial none 0) takeTurns).state.Holds id 2 := by
  refine ⟨lock_law id none 0 takeTurns ⟨rfl, trivial, ⟨?_, ?_⟩, trivial, trivial, trivial, trivial,
    rfl, trivial, ⟨?_, ?_⟩, trivial⟩, ?_⟩
  all_goals decide +kernel

/-- The cleanup of process 0 finds the lock free, and process 1 takes it before the file is
removed. -/
def cleanupUnderOwner : List (LockAction (Fin 3)) :=
  [.call 0 .cleanup, .advance 0 true, .advance 0 true, .advance 0 true, .advance 0 true,
    .advance 0 true, .advance 0 true, .call 1 .tryAcquire, .advance 1 true, .advance 1 true,
    .advance 1 true, .advance 0 true, .call 2 .tryAcquire, .advance 2 true, .advance 2 true]

/-- Process 0 asks whether the lock is held while process 1 tries to take it. -/
def probeUnderTry : List (LockAction (Fin 3)) :=
  [.call 0 .isHeld, .advance 0 true, .advance 0 true, .advance 0 true, .call 1 .tryAcquire,
    .advance 1 true, .advance 1 true]

/-- Two processes own the lock after the first, and after the second `try_acquire` returns
`False` though no process ever owned it. -/
theorem lock_law_broken :
    ¬ Steps.Along (Watched.step id) (Watched.Law id) (Watched.initial (some 0) 1)
        (cleanupUnderOwner ++ [.advance 2 true]) ∧
      ¬ Steps.Along (Watched.step id) (Watched.Law id) (Watched.initial none 0)
        (probeUnderTry ++ [.advance 1 true]) := by
  constructor
  · intro h
    have heq : (1 : Fin 3) = 2 := h.last.exclusive 1 2 (by decide +kernel) (by decide +kernel)
    cases heq
  · intro h
    have hfree : Steps.Along (Watched.step id)
        (fun w a => ∀ p, ¬ (w.state.step id a).Holds id p) (Watched.initial none 0) probeUnderTry := by
      decide +kernel
    have hreturns : (Steps.run (Watched.step id) (Watched.initial none 0)
        probeUnderTry).state.ReturnsFalse id 1 (.advance 1 true) := ⟨rfl, rfl⟩
    have hinitial : (Watched.initial none 0 : Watched (Fin 3) (Fin 3)).Unseen id :=
      ⟨fun _ hsaw => hsaw, by decide +kernel⟩
    exact (hinitial.run hfree).not_seenOther 1 (h.last.refused 1 hreturns)

end Runner.RuntimeLock
