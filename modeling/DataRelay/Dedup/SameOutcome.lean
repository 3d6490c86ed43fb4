import DataRelay.Dedup.Registry
import Mathlib.Data.List.Forall2

/-! Two batches on which the queue decides alike. Whatever relates the batches event by event
relates the events that are kept, each with the metadata of its own key. -/
namespace Dedup
open Delivery

/-- What the queue does with an event. -/
inductive QueueDecision where
  | insert
  | suppress
  | replace (idx : ℕ)
  deriving DecidableEq, Repr

section decisions

variable (extractOne : Event → String → Option Json) (config : StreamDedupConfig)
  (seedKeys : List String)

def StreamDedupQueue.decision (q : StreamDedupQueue) (event : Event) : QueueDecision :=
  match extractDedupKey extractOne event config with
  | none => .insert
  | some (key, _) =>
    match q.keyToIndex.lookup key, decide (key ∈ seedKeys) with
    | none, false => .insert
    | none, true => .suppress
    | some idx, _ => if config.duplicateHandling = .keepLatest then .replace idx else .suppress

/-- The decisions on a batch, one after the other. -/
def decisions : StreamDedupQueue → List Event → List QueueDecision
  | _, [] => []
  | q, event :: events =>
    q.decision extractOne config seedKeys event ::
      decisions (q.ingestOne extractOne config seedKeys event) events

end decisions

/-- Two kept events of one place in the queue: made from related events, with the key of each. -/
def KeptPair (extractOne : Event → String → Option Json) (config : StreamDedupConfig)
    (R : Event → Event → Prop) (k k' : Event) : Prop :=
  ∃ e e' queueId, R e e' ∧
    k = attachDedupMetadata e ((extractDedupKey extractOne e config).map Prod.fst) queueId ∧
    k' = attachDedupMetadata e' ((extractDedupKey extractOne e' config).map Prod.fst) queueId

section run

variable {extractOne : Event → String → Option Json} {config : StreamDedupConfig}
  {seedKeys : List String} {R : Event → Event → Prop} {q q' : StreamDedupQueue}

structure EntryPair (extractOne : Event → String → Option Json) (config : StreamDedupConfig)
    (R : Event → Event → Prop) (x x' : DedupQueueEntry) : Prop where
  queueId : x.queueId = x'.queueId
  event : KeptPair extractOne config R x.event x'.event

/-- The queues hold related entries and go on with the same id. -/
structure Alike (extractOne : Event → String → Option Json) (config : StreamDedupConfig)
    (R : Event → Event → Prop) (q q' : StreamDedupQueue) : Prop where
  entries : List.Forall₂ (EntryPair extractOne config R) q.entries q'.entries
  nextQueueId : q.nextQueueId = q'.nextQueueId

/-! What one turn does, by the decision taken. -/

theorem ingestOne_of_insert {event : Event}
    (h : q.decision extractOne config seedKeys event = .insert) :
    q.ingestOne extractOne config seedKeys event =
      q.insertNew event (extractDedupKey extractOne event config) := by
  simp only [StreamDedupQueue.decision, StreamDedupQueue.ingestOne] at h ⊢
  cases hkey : extractDedupKey extractOne event config with
  | none => rfl
  | some ks =>
    simp only [hkey] at h ⊢
    cases hlookup : q.keyToIndex.lookup ks.1 with
    | none => cases hseed : decide (ks.1 ∈ seedKeys) <;> simp only [hlookup, hseed] at h ⊢; cases h
    | some idx =>
      simp only [hlookup] at h
      split_ifs at h

theorem ingestOne_of_suppress {event : Event}
    (h : q.decision extractOne config seedKeys event = .suppress) :
    (q.ingestOne extractOne config seedKeys event).entries = q.entries ∧
      (q.ingestOne extractOne config seedKeys event).nextQueueId = q.nextQueueId := by
  simp only [StreamDedupQueue.decision, StreamDedupQueue.ingestOne] at h ⊢
  cases hkey : extractDedupKey extractOne event config with
  | none => simp [hkey] at h
  | some ks =>
    simp only [hkey] at h ⊢
    cases hlookup : q.keyToIndex.lookup ks.1 with
    | none =>
      cases hseed : decide (ks.1 ∈ seedKeys) with
      | false => simp only [hlookup, hseed, reduceCtorEq] at h
      | true => exact ⟨rfl, rfl⟩
    | some idx =>
      by_cases hlatest : config.duplicateHandling = .keepLatest
      · simp only [hlookup, hlatest, ↓reduceIte, reduceCtorEq] at h
      · simp only [hlatest, ↓reduceIte, and_self]

theorem ingestOne_of_replace {event : Event} {idx : ℕ}
    (h : q.decision extractOne config seedKeys event = .replace idx) :
    (q.ingestOne extractOne config seedKeys event).nextQueueId = q.nextQueueId ∧
      ∃ k source, extractDedupKey extractOne event config = some (k, source) ∧
        (q.ingestOne extractOne config seedKeys event).entries =
          q.entries[idx]?.elim q.entries fun old => q.entries.set idx
            { queueId := old.queueId, dedupKey := k, keySource := source
              event := attachDedupMetadata event (some k) old.queueId } := by
  simp only [StreamDedupQueue.decision, StreamDedupQueue.ingestOne] at h ⊢
  cases hkey : extractDedupKey extractOne event config with
  | none => simp [hkey] at h
  | some ks =>
    obtain ⟨k, source⟩ := ks
    simp only [hkey] at h ⊢
    cases hlookup : q.keyToIndex.lookup k with
    | none => cases hseed : decide (k ∈ seedKeys) <;> simp only [hlookup, hseed, reduceCtorEq] at h
    | some i =>
      by_cases hlatest : config.duplicateHandling = .keepLatest
      · simp only [hlookup, hlatest, ↓reduceIte, QueueDecision.replace.injEq] at h ⊢
        subst h
        cases hold : q.entries[i]? <;> simp [StreamDedupQueue.replaceEntry, hold]
      · simp only [hlookup, hlatest, ↓reduceIte, reduceCtorEq] at h

theorem forall₂_set {α β : Type*} {S : α → β → Prop} {l : List α} {l' : List β}
    (h : List.Forall₂ S l l') (n : ℕ) {a : α} {b : β} (hab : S a b) :
    List.Forall₂ S (l.set n a) (l'.set n b) := by
  induction h generalizing n with
  | nil => exact .nil
  | cons hx h ih =>
    cases n with
    | zero => exact .cons hab h
    | succ n => exact .cons hx (ih n)

theorem forall₂_getElem? {α β : Type*} {S : α → β → Prop} {l : List α} {l' : List β}
    (h : List.Forall₂ S l l') (n : ℕ) : Option.Rel S l[n]? l'[n]? := by
  induction h generalizing n with
  | nil => exact .none
  | cons hx h ih =>
    cases n with
    | zero => exact .some hx
    | succ n => exact ih n

theorem Alike.ingestOne (h : Alike extractOne config R q q') {e e' : Event} (he : R e e')
    (hsame : q.decision extractOne config seedKeys e = q'.decision extractOne config seedKeys e') :
    Alike extractOne config R (q.ingestOne extractOne config seedKeys e)
      (q'.ingestOne extractOne config seedKeys e') := by
  cases hdecision : q.decision extractOne config seedKeys e with
  | insert =>
    rw [hdecision] at hsame
    rw [ingestOne_of_insert hdecision, ingestOne_of_insert hsame.symm]
    refine ⟨?_, congrArg (· + 1) h.nextQueueId⟩
    refine List.rel_append h.entries (.cons ⟨h.nextQueueId, e, e', q.nextQueueId, he, rfl, ?_⟩ .nil)
    rw [h.nextQueueId]
  | suppress =>
    rw [hdecision] at hsame
    obtain ⟨hentries, hnext⟩ := ingestOne_of_suppress hdecision
    obtain ⟨hentries', hnext'⟩ := ingestOne_of_suppress hsame.symm
    refine ⟨?_, hnext.trans (h.nextQueueId.trans hnext'.symm)⟩
    rw [hentries, hentries']
    exact h.entries
  | replace idx =>
    rw [hdecision] at hsame
    obtain ⟨hnext, k, source, hkey, hentries⟩ := ingestOne_of_replace hdecision
    obtain ⟨hnext', k', source', hkey', hentries'⟩ := ingestOne_of_replace hsame.symm
    refine ⟨?_, hnext.trans (h.nextQueueId.trans hnext'.symm)⟩
    rw [hentries, hentries']
    have hold := forall₂_getElem? h.entries idx
    generalize hget : q.entries[idx]? = old at hold
    generalize hget' : q'.entries[idx]? = old' at hold
    cases hold with
    | none => exact h.entries
    | @some old old' hpair =>
      refine forall₂_set h.entries idx ⟨hpair.queueId, e, e', old.queueId, he, by simp [hkey], ?_⟩
      simp [hkey', hpair.queueId]

theorem Alike.foldl (h : Alike extractOne config R q q') {events events' : List Event}
    (hevents : List.Forall₂ R events events')
    (hsame : decisions extractOne config seedKeys q events =
      decisions extractOne config seedKeys q' events') :
    Alike extractOne config R
      (events.foldl (StreamDedupQueue.ingestOne extractOne config seedKeys) q)
      (events'.foldl (StreamDedupQueue.ingestOne extractOne config seedKeys) q') := by
  induction hevents generalizing q q' with
  | nil => exact h
  | cons he _ ih =>
    simp only [decisions, List.cons.injEq] at hsame
    rw [List.foldl_cons, List.foldl_cons]
    exact ih (h.ingestOne he hsame.1) hsame.2

/-- The queue before a batch of `n` events. -/
def ingestStart (config : StreamDedupConfig) (n : ℕ) : StreamDedupQueue :=
  { summary := {
      totalEvents := n
      duplicateHandling := config.duplicateHandling
      dedupScope := config.scope } }

/-- The queue decides alike on two batches. -/
def SameOutcome (extractOne : Event → String → Option Json) (config : StreamDedupConfig)
    (seedKeys : List String) (events events' : List Event) : Prop :=
  decisions extractOne config seedKeys (ingestStart config events.length) events =
    decisions extractOne config seedKeys (ingestStart config events'.length) events'

/-- The kept events of two such batches are related pairs, each with its own key. -/
theorem ingest_kept {events events' : List Event} (h : List.Forall₂ R events events')
    (hsame : SameOutcome extractOne config seedKeys events events') :
    List.Forall₂ (KeptPair extractOne config R)
      (StreamDedupQueue.ingest extractOne config seedKeys events).events
      (StreamDedupQueue.ingest extractOne config seedKeys events').events := by
  have hstart : Alike extractOne config R (ingestStart config events.length)
      (ingestStart config events'.length) := ⟨.nil, rfl⟩
  have hentries := (hstart.foldl h hsame).entries
  unfold StreamDedupQueue.events
  rw [List.forall₂_map_left_iff, List.forall₂_map_right_iff]
  exact hentries.imp fun _ _ hpair => hpair.event

end run

end Dedup
