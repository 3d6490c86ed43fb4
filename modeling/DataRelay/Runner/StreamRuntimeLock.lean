import DataRelay.Lib.FileLock
import DataRelay.Lib.Steps

/-! The lock of one stream and kind across processes, at the granularity of system calls.
`try_acquire` and `is_held` take the same `flock`, and the cleanup removes the entry of the lock
file while `flock` goes with the inode. -/
namespace Runner.RuntimeLock
open FileLock

/-- Where a thread is in a call. In the calls of `is_held` the flag says whether
`cleanup_unowned_lock_files` made it. -/
inductive Phase (P : Type) where
  | idle
  | tryOpen
  | tryFlock (d : Description P)
  | tryClose (d : Description P)
  | tryRecord (d : Description P)
  | releaseUnlock (d : Description P)
  | releaseClose (d : Description P)
  | listDir
  | probeCheck (cleanup : Bool)
  | probeOpen (cleanup : Bool)
  | probeFlock (cleanup : Bool) (d : Description P)
  | probeUnlock (cleanup : Bool) (d : Description P)
  | probeClose (cleanup : Bool) (d : Description P) (held : Bool)
  | unlink

namespace Phase

variable {P : Type}

/-- The description the call has open, and whether it has the lock. -/
def use : Phase P → Option (Description P × Bool)
  | .tryFlock d | .tryClose d | .releaseClose d | .probeFlock _ d | .probeClose _ d _ =>
    some (d, false)
  | .tryRecord d | .releaseUnlock d | .probeUnlock _ d => some (d, true)
  | _ => none

/-- The description with which the process owns the lock, from the `flock` of `try_acquire` to
the `flock` of `release`. -/
def owned : Phase P → Option (Description P)
  | .tryRecord d | .releaseUnlock d => some d
  | _ => none

/-- `is_held` has returned; the cleanup goes on to remove a file not held. -/
def afterProbe (cleanup held : Bool) : Phase P := if cleanup && !held then .unlink else .idle

end Phase

inductive Operation where
  | tryAcquire
  | release
  | isHeld
  | cleanup
  deriving DecidableEq, Repr

/-- Threads `T` of processes `P`. `handles` is `_HANDLES` at the key of the lock, `guard` the
thread that has `_GUARD`. -/
structure LockState (T P : Type) where
  files : Files P
  handles : P → Option (Description P) := fun _ => none
  guard : P → Option T := fun _ => none
  phase : T → Phase P := fun _ => .idle

/-- A thread begins a call, or makes the next step of the one it is in; an `open` may fail with
an `OSError`. -/
inductive LockAction (T : Type) where
  | call (t : T) (op : Operation)
  | advance (t : T) (opens : Bool)

def LockAction.thread {T : Type} : LockAction T → T
  | .call t _ | .advance t _ => t

namespace LockState

variable {T P : Type} [DecidableEq T] [DecidableEq P] (process : T → P)

def setPhase (s : LockState T P) (t : T) (phase : Phase P) : LockState T P :=
  { s with phase := Function.update s.phase t phase }

def setHandle (s : LockState T P) (p : P) (handle : Option (Description P)) : LockState T P :=
  { s with handles := Function.update s.handles p handle }

def setGuard (s : LockState T P) (p : P) (guard : Option T) : LockState T P :=
  { s with guard := Function.update s.guard p guard }

def withFiles (s : LockState T P) (files : Files P) : LockState T P := { s with files }

/-- The first step of a call, up to its first system call. A thread waits for `_GUARD`. -/
def begin (s : LockState T P) (t : T) : Operation → LockState T P
  | .tryAcquire =>
    if (s.guard (process t)).isSome || (s.handles (process t)).isSome then s
    else (s.setGuard (process t) (some t)).setPhase t .tryOpen
  | .release =>
    if (s.guard (process t)).isSome then s
    else
      match s.handles (process t) with
      | none => s
      | some d => (s.setHandle (process t) none).setPhase t (.releaseUnlock d)
  | .isHeld => s.setPhase t (.probeCheck false)
  | .cleanup => s.setPhase t .listDir

/-- The next step of the call the thread is in. -/
def advance (s : LockState T P) (t : T) (opens : Bool) : LockState T P :=
  let p := process t
  match s.phase t with
  | .idle => s
  | .tryOpen =>
    if opens then
      (s.withFiles (s.files.openFile p).2).setPhase t (.tryFlock (s.files.openFile p).1)
    else (s.setGuard p none).setPhase t .idle
  | .tryFlock d =>
    if s.files.canLock d then (s.withFiles (s.files.lock d)).setPhase t (.tryRecord d)
    else s.setPhase t (.tryClose d)
  | .tryClose d => ((s.withFiles (s.files.unlock d)).setGuard p none).setPhase t .idle
  | .tryRecord d => ((s.setHandle p (some d)).setGuard p none).setPhase t .idle
  | .releaseUnlock d => (s.withFiles (s.files.unlock d)).setPhase t (.releaseClose d)
  | .releaseClose d => (s.withFiles (s.files.unlock d)).setPhase t .idle
  | .listDir => s.setPhase t (if s.files.entry.isSome then .probeCheck true else .idle)
  | .probeCheck cleanup =>
    if (s.guard p).isSome then s
    else s.setPhase t (if (s.handles p).isSome then .afterProbe cleanup true else .probeOpen cleanup)
  | .probeOpen cleanup =>
    if opens then
      (s.withFiles (s.files.openFile p).2).setPhase t (.probeFlock cleanup (s.files.openFile p).1)
    else s.setPhase t (.afterProbe cleanup false)
  | .probeFlock cleanup d =>
    if s.files.canLock d then (s.withFiles (s.files.lock d)).setPhase t (.probeUnlock cleanup d)
    else s.setPhase t (.probeClose cleanup d true)
  | .probeUnlock cleanup d =>
    (s.withFiles (s.files.unlock d)).setPhase t (.probeClose cleanup d false)
  | .probeClose cleanup d held =>
    (s.withFiles (s.files.unlock d)).setPhase t (.afterProbe cleanup held)
  | .unlink => (s.withFiles s.files.unlink).setPhase t .idle

/-- A thread that is in a call begins no other. -/
def step (s : LockState T P) : LockAction T → LockState T P
  | .call t op =>
    match s.phase t with
    | .idle => s.begin process t op
    | _ => s
  | .advance t opens => s.advance process t opens

end LockState

end Runner.RuntimeLock
