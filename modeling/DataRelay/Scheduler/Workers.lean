import DataRelay.Lib.Steps
import Mathlib.Logic.Function.Basic
import Mathlib.Tactic

/-! The workers of the scheduler of one process, from the supervisor that spawns them to the moment
they have given their stream back. The threads meet in `_workers` and `_stream_stop_events`, which
are only touched under one lock, and in the ownership of the streams, which other processes take
part in. The scheduler is not stopped as a whole. -/
namespace Scheduler

/-- Where the thread of `_loop_stream` is. -/
inductive Phase where
  | spawned
  /-- The ownership is somebody else's. -/
  | refused
  | owning
  /-- In the loop, which asks the event at its head. -/
  | looping (event : ℕ)
  | finishing (event : ℕ)
  | popped
  | returning
  | ended
  deriving DecidableEq, Repr

/-- The thread stands in `_workers`. -/
def Phase.registered : Phase → Bool
  | .spawned | .refused | .owning | .looping _ | .finishing _ => true
  | _ => false

/-- The thread has the ownership of its stream. -/
def Phase.owns : Phase → Bool
  | .owning | .looping _ | .finishing _ | .popped => true
  | _ => false

/-- The event a thread has taken for its own. -/
def Phase.event : Phase → Option ℕ
  | .looping event | .finishing event => some event
  | _ => none

structure Worker where
  stream : ℤ
  phase : Phase
  deriving DecidableEq, Repr

inductive Owner where
  | worker (n : ℕ)
  | elsewhere
  deriving DecidableEq, Repr

structure State where
  /-- `_workers`. -/
  workers : ℤ → Option ℕ := fun _ => none
  /-- `_stream_stop_events`. -/
  stopEvents : ℤ → Option ℕ := fun _ => none
  isSet : ℕ → Bool := fun _ => false
  thread : ℕ → Option Worker := fun _ => none
  owner : ℤ → Option Owner := fun _ => none
  threads : ℕ := 0
  events : ℕ := 0

/-- What a worker does next. -/
inductive WorkerStep where
  | acquire
  | popRefused
  | takeEvent
  | cycle
  | leave
  | pop
  | release
  | exit
  deriving DecidableEq, Repr

inductive Action where
  | ensureWorker (stream : ℤ)
  | requestStop (stream : ℤ)
  | worker (n : ℕ) (next : WorkerStep)
  | acquireElsewhere (stream : ℤ)
  | releaseElsewhere (stream : ℤ)
  deriving DecidableEq, Repr

namespace State

variable (s : State)

/-- `Thread.is_alive`. -/
def alive (n : ℕ) : Bool := (s.thread n).any fun w => w.phase ≠ .ended

/-- `is_stream_worker_alive`. -/
def isStreamWorkerAlive (stream : ℤ) : Bool := (s.workers stream).any s.alive

/-- What `join_stream_worker`, called in `s`, answers once its waiting is over, in `t`: it asks
after the worker it found at first. -/
def joinStreamWorker (t : State) (stream : ℤ) : Bool :=
  match s.workers stream with
  | none => true
  | some n => !t.alive n

/-- `_stream_stop_events.setdefault(stream_id, threading.Event())`. -/
def stopEvent (stream : ℤ) : ℕ := (s.stopEvents stream).getD s.events

def withStopEvent (stream : ℤ) : State :=
  { s with
    stopEvents := Function.update s.stopEvents stream (some (s.stopEvent stream))
    events := max s.events (s.stopEvent stream + 1) }

def setPhase (n : ℕ) (w : Worker) (phase : Phase) : State :=
  { s with thread := Function.update s.thread n (some { w with phase }) }

/-- `_workers.pop(stream_id, None)` and `_stream_stop_events.pop(stream_id, None)`. -/
def popStream (stream : ℤ) : State :=
  { s with
    workers := Function.update s.workers stream none
    stopEvents := Function.update s.stopEvents stream none }

/-- `_ensure_worker`. -/
def ensureWorker (stream : ℤ) : State :=
  if s.isStreamWorkerAlive stream then s
  else
    let t := s.withStopEvent stream
    { t with
      isSet := Function.update t.isSet (s.stopEvent stream) false
      workers := Function.update t.workers stream (some t.threads)
      thread := Function.update t.thread t.threads (some ⟨stream, .spawned⟩)
      threads := t.threads + 1 }

/-- `request_stream_stop`. -/
def requestStop (stream : ℤ) : State :=
  let t := s.withStopEvent stream
  { t with isSet := Function.update t.isSet (s.stopEvent stream) true }

/-- A step of a worker, in the phase it is taken in. -/
def stepWorker (n : ℕ) (w : Worker) : WorkerStep → State
  | .acquire =>
    if w.phase = .spawned then
      if s.owner w.stream = none then
        { s with owner := Function.update s.owner w.stream (some (.worker n)) }.setPhase n w .owning
      else s.setPhase n w .refused
    else s
  | .popRefused =>
    if w.phase = .refused then (s.popStream w.stream).setPhase n w .returning else s
  | .takeEvent =>
    if w.phase = .owning then
      (s.withStopEvent w.stream).setPhase n w (.looping (s.stopEvent w.stream))
    else s
  | .leave =>
    match w.phase with
    | .looping event => s.setPhase n w (.finishing event)
    | _ => s
  | .pop =>
    match w.phase with
    | .finishing _ => (s.popStream w.stream).setPhase n w .popped
    | _ => s
  | .release =>
    if w.phase = .popped then
      { s with owner := Function.update s.owner w.stream none }.setPhase n w .returning
    else s
  | .exit => if w.phase = .returning then s.setPhase n w .ended else s
  | .cycle => s

/-- The worker begins a cycle: the loop goes on while its event is not set. -/
def Begins (n : ℕ) (a : Action) : Prop :=
  a = .worker n .cycle ∧
    ∃ stream event, s.thread n = some ⟨stream, .looping event⟩ ∧ s.isSet event = false

end State

/-- An action nobody is ready for changes nothing. -/
def step (s : State) (a : Action) : State :=
  match a with
  | .ensureWorker stream => s.ensureWorker stream
  | .requestStop stream => s.requestStop stream
  | .acquireElsewhere stream =>
    if s.owner stream = none then
      { s with owner := Function.update s.owner stream (some .elsewhere) }
    else s
  | .releaseElsewhere stream =>
    if s.owner stream = some .elsewhere then
      { s with owner := Function.update s.owner stream none }
    else s
  | .worker n next =>
    match s.thread n with
    | some w => s.stepWorker n w next
    | none => s

namespace State

/-- Everyone who is to be reached through the two dictionaries is. -/
structure Inv (s : State) : Prop where
  spawned : ∀ n w, s.thread n = some w → n < s.threads
  fresh : ∀ stream event, s.stopEvents stream = some event → event < s.events
  own : ∀ stream stream' event, s.stopEvents stream = some event →
    s.stopEvents stream' = some event → stream = stream'
  listed : ∀ stream n, s.workers stream = some n →
    ∃ w, s.thread n = some w ∧ w.stream = stream ∧ w.phase.registered = true
  registered : ∀ n w, s.thread n = some w → w.phase.registered = true →
    s.workers w.stream = some n
  watched : ∀ n w event, s.thread n = some w → w.phase.event = some event →
    s.stopEvents w.stream = some event
  owned : ∀ n w, s.thread n = some w → w.phase.owns = true →
    s.owner w.stream = some (.worker n)

section Preservation

variable {s : State}

/-- Only one thread's phase changes. -/
theorem thread_setPhase {n m : ℕ} {w v : Worker} {phase : Phase}
    (hv : (s.setPhase n w phase).thread m = some v) :
    (m = n ∧ v = { w with phase }) ∨ (m ≠ n ∧ s.thread m = some v) := by
  by_cases hm : m = n
  · subst hm
    simp only [State.setPhase, Function.update_self, Option.some.injEq] at hv
    exact .inl ⟨rfl, hv.symm⟩
  · simp only [State.setPhase, Function.update_of_ne hm] at hv
    exact .inr ⟨hm, hv⟩

theorem Inv.setPhase (h : s.Inv) {n : ℕ} {w : Worker} {phase : Phase} (hw : s.thread n = some w)
    (hregistered : phase.registered = w.phase.registered)
    (hevent : ∀ event, phase.event = some event → s.stopEvents w.stream = some event)
    (howns : phase.owns = true → s.owner w.stream = some (.worker n)) :
    (s.setPhase n w phase).Inv := by
  refine ⟨?_, h.fresh, h.own, ?_, ?_, ?_, ?_⟩
  · intro m v hv
    rcases thread_setPhase hv with ⟨rfl, rfl⟩ | ⟨-, hv⟩
    · exact h.spawned m w hw
    · exact h.spawned m v hv
  · intro stream m hlisted
    obtain ⟨v, hv, hstream, hreg⟩ := h.listed stream m hlisted
    by_cases hm : m = n
    · subst hm
      obtain rfl := Option.some.inj (hw.symm.trans hv)
      exact ⟨_, Function.update_self .., hstream, hregistered.trans hreg⟩
    · exact ⟨v, (Function.update_of_ne hm ..).trans hv, hstream, hreg⟩
  · intro m v hv hreg
    rcases thread_setPhase hv with ⟨rfl, rfl⟩ | ⟨-, hv⟩
    · exact h.registered m w hw (hregistered.symm.trans hreg)
    · exact h.registered m v hv hreg
  · intro m v event hv hev
    rcases thread_setPhase hv with ⟨rfl, rfl⟩ | ⟨-, hv⟩
    · exact hevent event hev
    · exact h.watched m v event hv hev
  · intro m v hv hown
    rcases thread_setPhase hv with ⟨rfl, rfl⟩ | ⟨-, hv⟩
    · exact howns hown
    · exact h.owned m v hv hown

/-- A worker takes itself, and nobody else, out of the dictionaries. -/
theorem Inv.pop (h : s.Inv) {n : ℕ} {w : Worker} {phase : Phase} (hw : s.thread n = some w)
    (hwreg : w.phase.registered = true) (hregistered : phase.registered = false)
    (hevent : phase.event = none)
    (howns : phase.owns = true → s.owner w.stream = some (.worker n)) :
    ((s.popStream w.stream).setPhase n w phase).Inv := by
  have hworkers := h.registered n w hw hwreg
  have hother {m : ℕ} {v : Worker} (hm : m ≠ n) (hv : s.thread m = some v)
      (hreg : v.phase.registered = true) : v.stream ≠ w.stream := by
    intro hstream
    have hmine := h.registered m v hv hreg
    rw [hstream, hworkers] at hmine
    exact hm (Option.some.inj hmine).symm
  refine ⟨?_, ?_, ?_, ?_, ?_, ?_, ?_⟩
  · intro m v hv
    rcases thread_setPhase hv with ⟨rfl, rfl⟩ | ⟨-, hv⟩
    · exact h.spawned m w hw
    · exact h.spawned m v hv
  · intro stream event hevent
    by_cases hstream : stream = w.stream
    · subst hstream
      simp [State.setPhase, popStream] at hevent
    · simp only [State.setPhase, popStream, Function.update_of_ne hstream] at hevent
      exact h.fresh stream event hevent
  · intro stream stream' event hevent hevent'
    by_cases hstream : stream = w.stream
    · subst hstream
      simp [State.setPhase, popStream] at hevent
    · by_cases hstream' : stream' = w.stream
      · subst hstream'
        simp [State.setPhase, popStream] at hevent'
      · simp only [State.setPhase, popStream, Function.update_of_ne hstream,
          Function.update_of_ne hstream'] at hevent hevent'
        exact h.own stream stream' event hevent hevent'
  · intro stream m hlisted
    by_cases hstream : stream = w.stream
    · subst hstream
      simp [State.setPhase, popStream] at hlisted
    · simp only [State.setPhase, popStream, Function.update_of_ne hstream] at hlisted
      obtain ⟨v, hv, hvstream, hreg⟩ := h.listed stream m hlisted
      have hm : m ≠ n := by
        rintro rfl
        obtain rfl := Option.some.inj (hw.symm.trans hv)
        exact hstream hvstream.symm
      exact ⟨v, (Function.update_of_ne hm ..).trans hv, hvstream, hreg⟩
  · intro m v hv hreg
    rcases thread_setPhase hv with ⟨rfl, rfl⟩ | ⟨hm, hv⟩
    · exact absurd hreg (by rw [hregistered]; exact Bool.false_ne_true)
    · exact (Function.update_of_ne (hother hm hv hreg) ..).trans (h.registered m v hv hreg)
  · intro m v event hv hev
    rcases thread_setPhase hv with ⟨rfl, rfl⟩ | ⟨hm, hv⟩
    · exact absurd hev (by rw [hevent]; rintro ⟨⟩)
    · have hreg : v.phase.registered = true := by
        cases hphase : v.phase <;> simp_all [Phase.event, Phase.registered]
      exact (Function.update_of_ne (hother hm hv hreg) ..).trans (h.watched m v event hv hev)
  · intro m v hv hown
    rcases thread_setPhase hv with ⟨rfl, rfl⟩ | ⟨-, hv⟩
    · exact howns hown
    · exact h.owned m v hv hown

theorem withStopEvent_keeps {other : ℤ} {event : ℕ} (hevent : s.stopEvents other = some event)
    (stream : ℤ) : (s.withStopEvent stream).stopEvents other = some event := by
  by_cases hstream : other = stream
  · subst hstream
    simp [State.withStopEvent, stopEvent, hevent]
  · simp only [State.withStopEvent, Function.update_of_ne hstream, hevent]

theorem Inv.withStopEvent (h : s.Inv) (stream : ℤ) : (s.withStopEvent stream).Inv := by
  have hback {other : ℤ} {event : ℕ}
      (hevent : (s.withStopEvent stream).stopEvents other = some event) :
      s.stopEvents other = some event ∨ (other = stream ∧ event = s.events ∧
        s.stopEvents stream = none) := by
    by_cases hstream : other = stream
    · subst hstream
      simp only [State.withStopEvent, Function.update_self, Option.some.injEq, stopEvent] at hevent
      cases hold : s.stopEvents other with
      | none =>
        rw [hold] at hevent
        exact .inr ⟨rfl, hevent.symm, rfl⟩
      | some e =>
        rw [hold] at hevent
        exact .inl (congrArg some hevent)
    · simp only [State.withStopEvent, Function.update_of_ne hstream] at hevent
      exact .inl hevent
  refine ⟨h.spawned, ?_, ?_, h.listed, h.registered, ?_, h.owned⟩
  · intro other event hevent
    show event < max s.events (s.stopEvent stream + 1)
    rcases hback hevent with hold | ⟨_, rfl, hnone⟩
    · have hlt := h.fresh other event hold
      omega
    · simp only [stopEvent, hnone, Option.getD_none]
      omega
  · intro a b event ha hb
    rcases hback ha with holda | ⟨rfl, rfl, _⟩
    · rcases hback hb with holdb | ⟨rfl, rfl, _⟩
      · exact h.own a b event holda holdb
      · exact absurd (h.fresh a _ holda) (lt_irrefl _)
    · rcases hback hb with holdb | ⟨rfl, _, _⟩
      · exact absurd (h.fresh b _ holdb) (lt_irrefl _)
      · rfl
  · intro m v event hv hev
    exact withStopEvent_keeps (h.watched m v event hv hev) stream

theorem Inv.setFlag (h : s.Inv) (isSet : ℕ → Bool) : Inv { s with isSet } :=
  ⟨h.spawned, h.fresh, h.own, h.listed, h.registered, h.watched, h.owned⟩

/-- Only a stream without a worker gets one. -/
theorem Inv.workers_none (h : s.Inv) {stream : ℤ} (hdead : s.isStreamWorkerAlive stream = false) :
    s.workers stream = none := by
  cases hworkers : s.workers stream with
  | none => rfl
  | some n =>
    obtain ⟨w, hw, _, hreg⟩ := h.listed stream n hworkers
    have halive : s.isStreamWorkerAlive stream = true := by
      rw [isStreamWorkerAlive, hworkers, Option.any_some, alive, hw, Option.any_some]
      cases hphase : w.phase <;> simp_all [Phase.registered]
    rw [halive] at hdead
    cases hdead

theorem Inv.spawn (h : s.Inv) {stream : ℤ} (hnone : s.workers stream = none) :
    Inv { s with
      workers := Function.update s.workers stream (some s.threads)
      thread := Function.update s.thread s.threads (some ⟨stream, .spawned⟩)
      threads := s.threads + 1 } := by
  have hne {m : ℕ} {v : Worker} (hv : s.thread m = some v) : m ≠ s.threads :=
    (h.spawned m v hv).ne
  refine ⟨?_, h.fresh, h.own, ?_, ?_, ?_, ?_⟩
  · intro m v hv
    show m < s.threads + 1
    by_cases hm : m = s.threads
    · omega
    · simp only [Function.update_of_ne hm] at hv
      have hlt := h.spawned m v hv
      omega
  · intro other m hlisted
    by_cases hstream : other = stream
    · subst hstream
      simp only [Function.update_self, Option.some.injEq] at hlisted
      subst hlisted
      exact ⟨_, Function.update_self .., rfl, rfl⟩
    · simp only [Function.update_of_ne hstream] at hlisted
      obtain ⟨v, hv, hvstream, hreg⟩ := h.listed other m hlisted
      exact ⟨v, (Function.update_of_ne (hne hv) ..).trans hv, hvstream, hreg⟩
  · intro m v hv hreg
    by_cases hm : m = s.threads
    · subst hm
      simp only [Function.update_self, Option.some.injEq] at hv
      subst hv
      exact Function.update_self ..
    · simp only [Function.update_of_ne hm] at hv
      have hmine := h.registered m v hv hreg
      have hstream : v.stream ≠ stream := by
        rintro rfl
        rw [hnone] at hmine
        cases hmine
      exact (Function.update_of_ne hstream ..).trans hmine
  · intro m v event hv hev
    by_cases hm : m = s.threads
    · subst hm
      simp only [Function.update_self, Option.some.injEq] at hv
      subst hv
      cases hev
    · simp only [Function.update_of_ne hm] at hv
      exact h.watched m v event hv hev
  · intro m v hv hown
    by_cases hm : m = s.threads
    · subst hm
      simp only [Function.update_self, Option.some.injEq] at hv
      subst hv
      cases hown
    · simp only [Function.update_of_ne hm] at hv
      exact h.owned m v hv hown

/-- The ownership of a stream nobody here has changes hands. -/
theorem Inv.setOwner (h : s.Inv) {stream : ℤ} {owner : Option Owner}
    (hnobody : ∀ m v, s.thread m = some v → v.phase.owns = true → v.stream ≠ stream) :
    Inv { s with owner := Function.update s.owner stream owner } := by
  refine ⟨h.spawned, h.fresh, h.own, h.listed, h.registered, h.watched, ?_⟩
  intro m v hv hown
  exact (Function.update_of_ne (hnobody m v hv hown) ..).trans (h.owned m v hv hown)

/-- Who has a stream is known to the others. -/
theorem Inv.not_owner (h : s.Inv) {stream : ℤ} (howner : ∀ n, s.owner stream ≠ some (.worker n))
    (m : ℕ) (v : Worker) (hv : s.thread m = some v) (hown : v.phase.owns = true) :
    v.stream ≠ stream := by
  rintro rfl
  exact howner m (h.owned m v hv hown)

end Preservation

section Steps

variable {s : State}

theorem Inv.ensureWorker (h : s.Inv) (stream : ℤ) : (s.ensureWorker stream).Inv := by
  unfold State.ensureWorker
  split_ifs with halive
  · exact h
  · have hnone := h.workers_none (by simpa using halive)
    have hcleared := (h.withStopEvent stream).setFlag
      (Function.update (s.withStopEvent stream).isSet (s.stopEvent stream) false)
    exact hcleared.spawn hnone

theorem Inv.requestStop (h : s.Inv) (stream : ℤ) : (s.requestStop stream).Inv :=
  (h.withStopEvent stream).setFlag _

/-- A worker that leaves the phases of an owner gives the ownership back. -/
theorem Inv.stepWorker (h : s.Inv) {n : ℕ} {w : Worker} (hw : s.thread n = some w)
    (a : WorkerStep) :
    (s.stepWorker n w a).Inv := by
  cases a with
  | acquire =>
    dsimp only [State.stepWorker]
    split_ifs with hphase hfree
    · refine (h.setOwner (h.not_owner (by rw [hfree]; rintro k ⟨⟩))).setPhase hw ?_
        (by rintro _ ⟨⟩) ?_
      · rw [hphase]
        rfl
      · intro _
        exact Function.update_self ..
    · refine h.setPhase hw ?_ (by rintro _ ⟨⟩) (by rintro ⟨⟩)
      rw [hphase]
      rfl
    · exact h
  | popRefused =>
    dsimp only [State.stepWorker]
    split_ifs with hphase
    · exact h.pop hw (by rw [hphase]; rfl) rfl rfl (by rintro ⟨⟩)
    · exact h
  | takeEvent =>
    dsimp only [State.stepWorker]
    split_ifs with hphase
    · refine (h.withStopEvent w.stream).setPhase hw ?_ ?_ ?_
      · rw [hphase]
        rfl
      · rintro event ⟨⟩
        exact Function.update_self ..
      · intro _
        exact h.owned n w hw (by rw [hphase]; rfl)
    · exact h
  | leave =>
    dsimp only [State.stepWorker]
    split
    · rename_i event hphase
      refine h.setPhase hw ?_ ?_ ?_
      · rw [hphase]
        rfl
      · rintro _ ⟨⟩
        exact h.watched n w event hw (by rw [hphase]; rfl)
      · intro _
        exact h.owned n w hw (by rw [hphase]; rfl)
    · exact h
  | pop =>
    dsimp only [State.stepWorker]
    split
    · rename_i event hphase
      refine h.pop hw (by rw [hphase]; rfl) rfl rfl fun _ => ?_
      exact h.owned n w hw (by rw [hphase]; rfl)
    · exact h
  | release =>
    dsimp only [State.stepWorker]
    split_ifs with hphase
    · have hmine := h.owned n w hw (by rw [hphase]; rfl)
      have hreturned : (s.setPhase n w .returning).Inv := by
        refine h.setPhase hw ?_ (by rintro _ ⟨⟩) (by rintro ⟨⟩)
        rw [hphase]
        rfl
      have hnobody : ∀ m v, (s.setPhase n w .returning).thread m = some v → v.phase.owns = true →
          v.stream ≠ w.stream := by
        rintro m v hv hown hstream
        rcases thread_setPhase hv with ⟨rfl, rfl⟩ | ⟨hm, hv⟩
        · cases hown
        · have hother := h.owned m v hv hown
          rw [hstream, hmine] at hother
          exact hm (Owner.worker.inj (Option.some.inj hother)).symm
      exact hreturned.setOwner hnobody
    · exact h
  | exit =>
    dsimp only [State.stepWorker]
    split_ifs with hphase
    · refine h.setPhase hw ?_ (by rintro _ ⟨⟩) (by rintro ⟨⟩)
      rw [hphase]
      rfl
    · exact h
  | cycle => exact h

theorem Inv.step (h : s.Inv) (a : Action) : (step s a).Inv := by
  cases a with
  | ensureWorker stream => exact h.ensureWorker stream
  | requestStop stream => exact h.requestStop stream
  | acquireElsewhere stream =>
    dsimp only [Scheduler.step]
    split_ifs with hfree
    · exact h.setOwner (h.not_owner (by rw [hfree]; rintro k ⟨⟩))
    · exact h
  | releaseElsewhere stream =>
    dsimp only [Scheduler.step]
    split_ifs with howner
    · exact h.setOwner (h.not_owner (by rw [howner]; rintro k ⟨⟩))
    · exact h
  | worker n next =>
    dsimp only [Scheduler.step]
    cases hw : s.thread n with
    | none => exact h
    | some w => exact h.stepWorker hw next

end Steps

section Stopping

variable {s : State}

/-- The event of another stream, or a new one, is not this stream's. -/
theorem Inv.ne_stopEvent (h : s.Inv) {stream other : ℤ} {event : ℕ}
    (hevent : s.stopEvents other = some event) (hne : other ≠ stream) :
    event ≠ s.stopEvent stream := by
  rintro rfl
  unfold stopEvent at hevent
  cases hstop : s.stopEvents stream with
  | none =>
    rw [hstop] at hevent
    exact absurd (h.fresh other _ hevent) (lt_irrefl _)
  | some e =>
    rw [hstop] at hevent
    exact hne (h.own other stream e hevent hstop)

/-- A step of a worker moves that worker, sets no event, and takes none from another worker. -/
theorem stepWorker_cases {n : ℕ} {w : Worker} (hw : s.thread n = some w) (next : WorkerStep) :
    (s.stepWorker n w next).isSet = s.isSet ∧
      ∃ phase, (s.stepWorker n w next).thread =
          Function.update s.thread n (some { w with phase }) ∧
        (phase.registered = true → w.phase.registered = true) ∧
        ∀ stream event, s.stopEvents stream = some event →
          (s.stepWorker n w next).stopEvents stream = some event ∨
            (stream = w.stream ∧ w.phase.registered = true ∧ phase.registered = false) := by
  have hstay : s.thread = Function.update s.thread n (some { w with phase := w.phase }) := by
    rw [eq_comm, Function.update_eq_self_iff]
    exact hw.symm
  have hsame : s.isSet = s.isSet ∧ ∃ phase,
      s.thread = Function.update s.thread n (some { w with phase }) ∧
        (phase.registered = true → w.phase.registered = true) ∧
        ∀ stream event, s.stopEvents stream = some event → s.stopEvents stream = some event ∨
            (stream = w.stream ∧ w.phase.registered = true ∧ phase.registered = false) :=
    ⟨rfl, w.phase, hstay, id, fun _ _ hevent => .inl hevent⟩
  have hpop {phase : Phase} (hphase : phase.registered = false)
      (hreg : w.phase.registered = true) (stream : ℤ) (event : ℕ)
      (hevent : s.stopEvents stream = some event) :
      (s.popStream w.stream).stopEvents stream = some event ∨
        (stream = w.stream ∧ w.phase.registered = true ∧ phase.registered = false) := by
    by_cases hstream : stream = w.stream
    · exact .inr ⟨hstream, hreg, hphase⟩
    · exact .inl ((Function.update_of_ne hstream ..).trans hevent)
  cases next with
  | acquire =>
    dsimp only [State.stepWorker]
    split_ifs with hphase hfree
    · exact ⟨rfl, .owning, rfl, fun _ => by rw [hphase]; rfl, fun _ _ hevent => .inl hevent⟩
    · exact ⟨rfl, .refused, rfl, fun _ => by rw [hphase]; rfl, fun _ _ hevent => .inl hevent⟩
    · exact hsame
  | popRefused =>
    dsimp only [State.stepWorker]
    split_ifs with hphase
    · exact ⟨rfl, .returning, rfl, by rintro ⟨⟩, hpop rfl (by rw [hphase]; rfl)⟩
    · exact hsame
  | takeEvent =>
    dsimp only [State.stepWorker]
    split_ifs with hphase
    · exact ⟨rfl, .looping (s.stopEvent w.stream), rfl, fun _ => by rw [hphase]; rfl,
        fun _ _ hevent => .inl (withStopEvent_keeps hevent w.stream)⟩
    · exact hsame
  | cycle => exact hsame
  | leave =>
    dsimp only [State.stepWorker]
    split
    · rename_i event hphase
      exact ⟨rfl, .finishing event, rfl, fun _ => by rw [hphase]; rfl,
        fun _ _ hevent => .inl hevent⟩
    · exact hsame
  | pop =>
    dsimp only [State.stepWorker]
    split
    · rename_i event hphase
      exact ⟨rfl, .popped, rfl, by rintro ⟨⟩, hpop rfl (by rw [hphase]; rfl)⟩
    · exact hsame
  | release =>
    dsimp only [State.stepWorker]
    split_ifs with hphase
    · exact ⟨rfl, .returning, rfl, by rintro ⟨⟩, fun _ _ hevent => .inl hevent⟩
    · exact hsame
  | exit =>
    dsimp only [State.stepWorker]
    split_ifs with hphase
    · exact ⟨rfl, .ended, rfl, by rintro ⟨⟩, fun _ _ hevent => .inl hevent⟩
    · exact hsame

/-- The worker has been told to stop, or is past its loop. -/
def Told (s : State) (n : ℕ) : Prop :=
  ∃ w, s.thread n = some w ∧ (w.phase.registered = true →
    ∃ event, s.stopEvents w.stream = some event ∧ s.isSet event = true)

theorem Told.step {n : ℕ} (h : s.Inv) (htold : s.Told n) (a : Action) :
    (Scheduler.step s a).Told n := by
  obtain ⟨w, hw, hset⟩ := htold
  cases a with
  | ensureWorker stream =>
    dsimp only [Scheduler.step, State.ensureWorker]
    split_ifs with halive
    · exact ⟨w, hw, hset⟩
    · have hnone := h.workers_none (by simpa using halive)
      refine ⟨w, (Function.update_of_ne (h.spawned n w hw).ne ..).trans hw, fun hreg => ?_⟩
      obtain ⟨event, hevent, hflag⟩ := hset hreg
      have hstream : w.stream ≠ stream := by
        rintro rfl
        rw [h.registered n w hw hreg] at hnone
        cases hnone
      exact ⟨event, withStopEvent_keeps hevent stream,
        (Function.update_of_ne (h.ne_stopEvent hevent hstream) ..).trans hflag⟩
  | requestStop stream =>
    refine ⟨w, hw, fun hreg => ?_⟩
    obtain ⟨event, hevent, hflag⟩ := hset hreg
    refine ⟨event, withStopEvent_keeps hevent stream, ?_⟩
    show Function.update s.isSet (s.stopEvent stream) true event = true
    by_cases hsame : event = s.stopEvent stream
    · rw [hsame, Function.update_self]
    · rw [Function.update_of_ne hsame, hflag]
  | worker m next =>
    dsimp only [Scheduler.step]
    cases hv : s.thread m with
    | none => exact ⟨w, hw, hset⟩
    | some v =>
      obtain ⟨hflags, phase, hthread, hphase, hevents⟩ := stepWorker_cases hv next
      by_cases hm : n = m
      · subst hm
        obtain rfl := Option.some.inj (hw.symm.trans hv)
        refine ⟨{ w with phase }, ?_, fun hreg => ?_⟩
        · show (s.stepWorker n w next).thread n = _
          rw [hthread, Function.update_self]
        · obtain ⟨event, hevent, hflag⟩ := hset (hphase hreg)
          refine ⟨event, ?_, ?_⟩
          · rcases hevents w.stream event hevent with hkept | ⟨_, _, hgone⟩
            · exact hkept
            · exact absurd (hreg.symm.trans hgone) (by decide)
          · show (s.stepWorker n w next).isSet event = true
            rw [hflags, hflag]
      · refine ⟨w, ?_, fun hreg => ?_⟩
        · show (s.stepWorker m v next).thread n = some w
          rw [hthread, Function.update_of_ne hm, hw]
        · obtain ⟨event, hevent, hflag⟩ := hset hreg
          refine ⟨event, ?_, ?_⟩
          · rcases hevents w.stream event hevent with hkept | ⟨hstream, hvreg, _⟩
            · exact hkept
            · have hmine := h.registered m v hv hvreg
              rw [← hstream, h.registered n w hw hreg] at hmine
              exact absurd (Option.some.inj hmine) hm
          · show (s.stepWorker m v next).isSet event = true
            rw [hflags, hflag]
  | acquireElsewhere stream =>
    dsimp only [Scheduler.step]
    split_ifs <;> exact ⟨w, hw, hset⟩
  | releaseElsewhere stream =>
    dsimp only [Scheduler.step]
    split_ifs <;> exact ⟨w, hw, hset⟩

theorem Told.not_begins {n : ℕ} (h : s.Inv) (htold : s.Told n) (a : Action) : ¬ s.Begins n a := by
  rintro ⟨_, stream, event, hn, hflag⟩
  obtain ⟨w, hw, hset⟩ := htold
  obtain rfl := Option.some.inj (hn.symm.trans hw)
  obtain ⟨e, he, hset⟩ := hset rfl
  have hwatched := h.watched n _ event hn rfl
  rw [hwatched] at he
  rw [← Option.some.inj he, hflag] at hset
  cases hset

/-- A request reaches every worker of the stream there is. -/
theorem told_requestStop {n : ℕ} {w : Worker} (hw : s.thread n = some w) :
    (s.requestStop w.stream).Told n :=
  ⟨w, hw, fun _ => ⟨s.stopEvent w.stream, Function.update_self .., Function.update_self ..⟩⟩

/-- The worker is in its loop over the stream. -/
def Loops (s : State) (n : ℕ) (stream : ℤ) : Prop :=
  ∃ event, s.thread n = some ⟨stream, .looping event⟩

theorem Inv.loops (h : s.Inv) {n : ℕ} {stream : ℤ} (hloops : s.Loops n stream) :
    s.workers stream = some n ∧ s.owner stream = some (.worker n) := by
  obtain ⟨event, hn⟩ := hloops
  exact ⟨h.registered n _ hn rfl, h.owned n _ hn rfl⟩

theorem step_thread_of_ne {n m : ℕ} (hne : n ≠ m) (next : WorkerStep) :
    (Scheduler.step s (.worker m next)).thread n = s.thread n := by
  dsimp only [Scheduler.step]
  cases hw : s.thread m with
  | none => rfl
  | some w =>
    obtain ⟨-, phase, hthread, -⟩ := stepWorker_cases hw next
    exact (congrFun hthread n).trans (Function.update_of_ne hne ..)

/-- A thread once started is there for good. -/
theorem thread_step (h : s.Inv) {n : ℕ} {w : Worker} (hw : s.thread n = some w) (a : Action) :
    ∃ phase, (Scheduler.step s a).thread n = some { w with phase } ∧
      (w.phase = .ended → phase = .ended) := by
  cases a with
  | ensureWorker stream =>
    dsimp only [Scheduler.step, State.ensureWorker]
    split_ifs
    · exact ⟨w.phase, hw, id⟩
    · exact ⟨w.phase, (Function.update_of_ne (h.spawned n w hw).ne ..).trans hw, id⟩
  | requestStop stream => exact ⟨w.phase, hw, id⟩
  | worker m next =>
    by_cases hm : n = m
    · subst hm
      obtain ⟨-, phase, hthread, -⟩ := stepWorker_cases hw next
      have hnext : (Scheduler.step s (.worker n next)).thread n = some { w with phase } := by
        simp [Scheduler.step, hw, hthread]
      refine ⟨phase, hnext, fun hended => ?_⟩
      have hstay : s.stepWorker n w next = s := by cases next <;> simp [stepWorker, hended]
      rw [Scheduler.step, hw] at hnext
      simp only [hstay, hw, Option.some.injEq] at hnext
      rw [← hended, hnext]
    · exact ⟨w.phase, (step_thread_of_ne hm next).trans hw, id⟩
  | acquireElsewhere stream =>
    dsimp only [Scheduler.step]
    split_ifs <;> exact ⟨w.phase, hw, id⟩
  | releaseElsewhere stream =>
    dsimp only [Scheduler.step]
    split_ifs <;> exact ⟨w.phase, hw, id⟩

/-- In any run a thread stays where it is, and an ended one has ended. -/
theorem thread_run (h : s.Inv) {n : ℕ} {w : Worker} (hw : s.thread n = some w)
    (actions : List Action) : ∃ phase, (Steps.run step s actions).thread n = some { w with phase } ∧
      (w.phase = .ended → phase = .ended) := by
  induction actions generalizing s w with
  | nil => exact ⟨w.phase, hw, id⟩
  | cons a actions ih =>
    obtain ⟨phase, hstep, hended⟩ := thread_step h hw a
    obtain ⟨last, hlast, hkept⟩ := ih (h.step a) hstep
    exact ⟨last, hlast, fun hw => hkept (hended hw)⟩

/-- Once a join reports the worker stopped that it found in its loop, it loops no more. -/
theorem Inv.joined (h : s.Inv) {n : ℕ} {stream : ℤ} (hloops : s.Loops n stream)
    {later after : List Action}
    (hjoin : s.joinStreamWorker (Steps.run Scheduler.step s later) stream = true) :
    ¬ (Steps.run Scheduler.step (Steps.run Scheduler.step s later) after).Loops n stream := by
  have hlisted := (h.loops hloops).1
  obtain ⟨event, hn⟩ := hloops
  obtain ⟨phase, hthread, -⟩ := thread_run h hn later
  have hended : phase = .ended := by
    simpa [joinStreamWorker, hlisted, alive, hthread] using hjoin
  have hinv : (Steps.run Scheduler.step s later).Inv :=
    Steps.run_invariant (P := fun _ _ => True) (fun _ a h _ => h.step a) h
      (Steps.along_of_forall (fun _ _ => trivial) _ later)
  obtain ⟨last, hlast, hkept⟩ := thread_run hinv hthread after
  rintro ⟨event', hloop⟩
  rw [hlast, hkept hended] at hloop
  cases hloop

theorem start_inv : Inv {} := by
  refine ⟨?_, ?_, ?_, ?_, ?_, ?_, ?_⟩
  · rintro n w ⟨⟩
  · rintro stream event ⟨⟩
  · rintro stream stream' event ⟨⟩
  · rintro stream n ⟨⟩
  · rintro n w ⟨⟩
  · rintro n w event ⟨⟩
  · rintro n w ⟨⟩

theorem reached_inv (actions : List Action) : (Steps.run step {} actions).Inv :=
  Steps.run_invariant (P := fun _ _ => True) (fun _ a h _ => h.step a) start_inv
    (Steps.along_of_forall (fun _ _ => trivial) _ actions)

end Stopping

end State

/-- In every interleaving of the supervisor, the workers, the requests to stop and the owners in
other processes: at most one worker of the process is in its loop over a stream, and then nobody
else owns the stream; once `join_stream_worker` reports a stop, the worker that was in its loop
over the stream when the join was called loops no more (another one may have been spawned since);
and no worker a request to stop finds begins another cycle, whatever happens after the request. -/
theorem workers_law (actions : List Action) (stream : ℤ) :
    (∀ n m, (Steps.run step {} actions).Loops n stream →
        (Steps.run step {} actions).Loops m stream → n = m) ∧
      (∀ n, (Steps.run step {} actions).Loops n stream →
        (Steps.run step {} actions).owner stream = some (.worker n) ∧
          ∀ later, (Steps.run step {} actions).joinStreamWorker
              (Steps.run step (Steps.run step {} actions) later) stream = true →
            ∀ after, ¬ (Steps.run step (Steps.run step (Steps.run step {} actions) later)
              after).Loops n stream) ∧
      ∀ n w, (Steps.run step {} actions).thread n = some w → w.stream = stream →
        ∀ later, Steps.Along step (fun s a => ¬ s.Begins n a)
          (step (Steps.run step {} actions) (.requestStop stream)) later := by
  have hinv := State.reached_inv actions
  refine ⟨?_, ?_, ?_⟩
  · intro n m hn hm
    have hsame := (hinv.loops hn).1.symm.trans (hinv.loops hm).1
    exact Option.some.inj hsame
  · intro n hn
    exact ⟨(hinv.loops hn).2, fun later hjoin after => hinv.joined hn hjoin⟩
  · rintro n w hw rfl later
    have hstart : (step (Steps.run step {} actions) (.requestStop w.stream)).Inv ∧
        (step (Steps.run step {} actions) (.requestStop w.stream)).Told n :=
      ⟨hinv.step _, State.told_requestStop hw⟩
    refine @Steps.along_of_invariant _ _ step (fun s => s.Inv ∧ s.Told n) (fun _ _ => True) _
      ?_ ?_ _ _ hstart (Steps.along_of_forall (fun _ _ => trivial) _ later)
    · rintro s a ⟨hs, htold⟩ _
      exact ⟨hs.step a, htold.step hs a⟩
    · rintro s a ⟨hs, htold⟩ _
      exact htold.not_begins hs a

end Scheduler
