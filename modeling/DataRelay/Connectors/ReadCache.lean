import DataRelay.Lib.Json
import DataRelay.Lib.LetterCase
import DataRelay.Lib.Steps
import Std.Data.String.ToNat

/-! The connectors list as each worker keeps it, and the epoch file that tells every worker of a
change. A worker asks the file before it loads and again before it serves what it kept. It loads
with three queries, each of which sees what is committed by then. -/
namespace ReadCache
open PyText

structure ConnectorRow where
  id : ℤ
  fields : Json.Members
  deriving DecidableEq

/-- A row of `sources`; what an auth check writes into its `config_json` stands by itself. -/
structure SourceRow where
  id : ℤ
  connectorId : ℤ
  sourceType : String
  fields : Json.Members
  lastAuthCheckAt : Option String := none
  lastAuthCheckStatus : Option String := none
  lastAuthError : Option String := none
  deriving DecidableEq

/-- What is committed of the three tables a list is loaded from. -/
structure Catalog where
  connectors : List ConnectorRow := []
  /-- The connector of each stream. -/
  streams : List ℤ := []
  sources : List SourceRow := []
  deriving DecidableEq

/-- A row of the list: what `_serialize` is given, and the fields an auth check overwrites. -/
structure ConnectorRead where
  connector : ConnectorRow
  source : Option SourceRow
  streamCount : ℕ
  lastAuthCheckAt : Option String
  lastAuthCheckStatus : Option String
  lastAuthError : Option String
  deriving DecidableEq

abbrev ConnectorList := List ConnectorRead

def serialize (connector : ConnectorRow) (source : Option SourceRow) (streamCount : ℕ) :
    ConnectorRead where
  connector := connector
  source := source
  streamCount := streamCount
  lastAuthCheckAt := source.bind (·.lastAuthCheckAt)
  lastAuthCheckStatus := source.bind (·.lastAuthCheckStatus)
  lastAuthError := source.bind (·.lastAuthError)

/-- `db.query(Connector).order_by(Connector.id.asc())`. -/
def queryConnectors (c : Catalog) : List ConnectorRow :=
  c.connectors.mergeSort fun a b => a.id ≤ b.id

/-- The connectors with their `stream_counts`. -/
def countStreams (rows : List ConnectorRow) (c : Catalog) : List (ConnectorRow × ℕ) :=
  rows.map fun row => (row, c.streams.count row.id)

/-- What `_bulk_load_sources` keeps for a connector: its first source, or its last one that polls an
HTTP API. -/
def bulkLoadSource (c : Catalog) (connectorId : ℤ) : Option SourceRow :=
  ((c.sources.filter (·.connectorId = connectorId)).mergeSort fun a b => a.id ≤ b.id).foldl
    (fun existing source =>
      if existing.isNone ∨ source.sourceType = "HTTP_API_POLLING" then some source else existing)
    none

/-- The last loop of `_list_connectors_rows`. -/
def serializeRows (rows : List (ConnectorRow × ℕ)) (c : Catalog) : ConnectorList :=
  rows.map fun (row, streamCount) => serialize row (bulkLoadSource c row.id) streamCount

/-- `_list_connectors_rows`, with the catalog as each query finds it. -/
def listConnectorsRows (atConnectors atStreams atSources : Catalog) : ConnectorList :=
  serializeRows (countStreams (queryConnectors atConnectors) atStreams) atSources

structure CacheEntry where
  value : ConnectorList
  monoTs : ℚ
  epoch : String
  deriving DecidableEq

/-- `_list_fresh` and `_list_stale` of one worker. -/
structure Worker where
  listFresh : Option CacheEntry := none
  listStale : Option CacheEntry := none
  deriving DecidableEq

/-- What an auth check writes into the rows a worker keeps. -/
structure AuthPatch where
  connectorId : ℤ
  lastAuthCheckAt : Option String := none
  lastAuthCheckStatus : Option String := none
  lastAuthError : Option String := none
  deriving DecidableEq

/-- `_EPOCH_UNREADABLE`. -/
def epochUnreadable : String := "\x00unreadable"

/-- `_read_shared_epoch`: what the file holds, if it is there and can be read. -/
def readSharedEpoch (readable : Bool) (file : Option String) : String :=
  if readable then file.elim "" strip else epochUnreadable

/-- What `publish_connectors_catalog_epoch` writes at a time in nanoseconds. -/
def epochText (timeNs : ℕ) : String := toString timeNs ++ "\n"

/-- `_patch_rows`. -/
def patchRows (p : AuthPatch) (rows : ConnectorList) : ConnectorList :=
  rows.map fun row =>
    if row.connector.id = p.connectorId then
      { row with
        lastAuthCheckAt := p.lastAuthCheckAt.or row.lastAuthCheckAt
        lastAuthCheckStatus := p.lastAuthCheckStatus.or row.lastAuthCheckStatus
        lastAuthError :=
          if p.lastAuthError.isSome ∨ p.lastAuthCheckStatus = some "success" then p.lastAuthError
          else row.lastAuthError }
    else row

def CacheEntry.patch (p : AuthPatch) (e : CacheEntry) : CacheEntry :=
  { e with value := patchRows p e.value }

namespace Worker

/-- `_peek_connectors_list_fresh` under the lock: the entry, if it is young enough. -/
def peekFresh (ttl now : ℚ) (w : Worker) : Option CacheEntry :=
  w.listFresh.filter fun e => now - e.monoTs < ttl

/-- `_store_connectors_list_success`, once both comparisons have passed. -/
def store (w : Worker) (value : ConnectorList) (now : ℚ) (epoch : String) : Worker :=
  { w with listFresh := some ⟨value, now, epoch⟩, listStale := some ⟨value, now, epoch⟩ }

/-- `invalidate_connectors_list_fresh_cache`. -/
def invalidateFresh (w : Worker) : Worker := { w with listFresh := none }

/-- `patch_connectors_list_cache_connector`. -/
def patch (w : Worker) (p : AuthPatch) : Worker :=
  { w with listFresh := w.listFresh.map (·.patch p), listStale := w.listStale.map (·.patch p) }

/-- The last part of `clear_connectors_read_cache`. -/
def clear (_ : Worker) : Worker := {}

end Worker

/-- A thread of a worker, between two looks at what others change. -/
inductive Thread where
  | idle
  /-- It holds an entry young enough to serve, and is to compare the epochs. -/
  | peeked (entry : CacheEntry)
  | missed
  | observed (epoch : String)
  | connectorsRead (epoch : String) (rows : List ConnectorRow)
  | countsRead (epoch : String) (rows : List (ConnectorRow × ℕ))
  | loaded (epoch : String) (value : ConnectorList)
  /-- The first comparison of the store has passed, the one under the lock is to come. -/
  | checked (epoch : String) (value : ConnectorList) (now : ℚ)
  | storing (epoch : String) (value : ConnectorList) (now : ℚ)
  /-- A change is committed, its epoch is not written. -/
  | committed
  | published
  /-- An auth check is committed, which writes no epoch; the rows of its worker are to follow. -/
  | authCommitted (patch : AuthPatch)
  | expired (patch : AuthPatch)
  deriving DecidableEq

/-- The workers of one host, the epoch file they share, and the database as the catalogs that were
committed, the current one last. -/
structure Host where
  commits : List Catalog
  epochFile : Option String := none
  worker : ℕ → Worker := fun _ => {}
  thread : ℕ × ℕ → Thread := fun _ => .idle
  /-- The times at which an epoch was written. -/
  ticks : List ℕ := []
  /-- How many commits had been made when the last epoch was written, less one. -/
  publishedUpTo : ℕ := 0

inductive Action where
  | peek (now : ℚ)
  | compare (readable : Bool)
  | observe (readable : Bool)
  | loadConnectors
  | loadStreamCounts
  | loadSources
  | loadFails
  | check (readable : Bool) (now : ℚ)
  | checkLocked (readable : Bool)
  | store
  | commit (catalog : Catalog)
  | publish (timeNs : ℕ)
  | publishFails
  | clear
  | commitAuth (catalog : Catalog) (patch : AuthPatch)
  | expire
  | patch

namespace Host

variable (s : Host)

def setThread (who : ℕ × ℕ) (t : Thread) : Host :=
  { s with thread := Function.update s.thread who t }

def setWorker (n : ℕ) (w : Worker) : Host :=
  { s with worker := Function.update s.worker n w }

/-- What a query finds. -/
def current : Catalog := s.commits.getLast?.getD {}

/-- The epoch every worker reads while the file can be read. -/
def epoch : String := readSharedEpoch true s.epochFile

/-- One thread, which is the second of `who` in the worker that is the first, goes on. An action the
thread is not ready for changes nothing. -/
def step (ttl : ℚ) (s : Host) : (ℕ × ℕ) × Action → Host
  | (who, .peek now) =>
    if s.thread who = .idle then
      s.setThread who (((s.worker who.1).peekFresh ttl now).elim .missed .peeked)
    else s
  | (who, .compare readable) =>
    match s.thread who with
    | .peeked entry =>
      -- served, and done, if the epochs agree
      s.setThread who
        (if entry.epoch = readSharedEpoch readable s.epochFile then .idle else .missed)
    | _ => s
  | (who, .observe readable) =>
    if s.thread who = .missed then
      s.setThread who (.observed (readSharedEpoch readable s.epochFile))
    else s
  | (who, .loadConnectors) =>
    match s.thread who with
    | .observed epoch =>
      s.setThread who
        (if s.current.connectors = [] then .loaded epoch []
        else .connectorsRead epoch (queryConnectors s.current))
    | _ => s
  | (who, .loadStreamCounts) =>
    match s.thread who with
    | .connectorsRead epoch rows => s.setThread who (.countsRead epoch (countStreams rows s.current))
    | _ => s
  | (who, .loadSources) =>
    match s.thread who with
    | .countsRead epoch rows => s.setThread who (.loaded epoch (serializeRows rows s.current))
    | _ => s
  | (who, .loadFails) =>
    match s.thread who with
    | .observed _ | .connectorsRead _ _ | .countsRead _ _ => s.setThread who .idle
    | _ => s
  | (who, .check readable now) =>
    match s.thread who with
    | .loaded epoch value =>
      s.setThread who
        (if epoch = readSharedEpoch readable s.epochFile then .checked epoch value now else .idle)
    | _ => s
  | (who, .checkLocked readable) =>
    match s.thread who with
    | .checked epoch value now =>
      s.setThread who
        (if epoch = readSharedEpoch readable s.epochFile then .storing epoch value now else .idle)
    | _ => s
  | (who, .store) =>
    match s.thread who with
    | .storing epoch value now =>
      (s.setWorker who.1 ((s.worker who.1).store value now epoch)).setThread who .idle
    | _ => s
  | (who, .commit catalog) =>
    if s.thread who = .idle then
      { s with commits := s.commits ++ [catalog] }.setThread who .committed
    else s
  | (who, .publish timeNs) =>
    if s.thread who = .committed then
      { s with
        epochFile := some (epochText timeNs)
        ticks := timeNs :: s.ticks
        publishedUpTo := s.commits.length - 1 }.setThread who .published
    else s
  | (who, .publishFails) =>
    if s.thread who = .committed then s.setThread who .published else s
  | (who, .clear) =>
    if s.thread who = .published then
      (s.setWorker who.1 (s.worker who.1).clear).setThread who .idle
    else s
  | (who, .commitAuth catalog patch) =>
    if s.thread who = .idle then
      { s with commits := s.commits ++ [catalog] }.setThread who (.authCommitted patch)
    else s
  | (who, .expire) =>
    match s.thread who with
    | .authCommitted patch =>
      (s.setWorker who.1 (s.worker who.1).invalidateFresh).setThread who (.expired patch)
    | _ => s
  | (who, .patch) =>
    match s.thread who with
    | .expired patch => (s.setWorker who.1 ((s.worker who.1).patch patch)).setThread who .idle
    | _ => s

/-- The list an action serves from the cache without a load. -/
def freshHit : (ℕ × ℕ) × Action → Option ConnectorList
  | (who, .compare readable) =>
    match s.thread who with
    | .peeked entry =>
      if entry.epoch = readSharedEpoch readable s.epochFile ∧ entry.epoch ≠ epochUnreadable then
        some entry.value
      else none
    | _ => none
  | _ => none

end Host

/-! ### The text of an epoch -/

theorem epochText_read (timeNs : ℕ) :
    readSharedEpoch true (some (epochText timeNs)) = toString timeNs := by
  have hdigits : ∀ c ∈ (toString timeNs).toList, isSpace c = false := by
    intro c hc
    have hdigit : c.isDigit = true := Nat.isDigit_of_mem_toDigits (b := 10) (by decide)
      (by decide) (by simpa [toString] using hc)
    simp only [Char.isDigit, Bool.and_eq_true, decide_eq_true_eq] at hdigit
    have hlow : 48 ≤ c.toNat := hdigit.1
    have hhigh : c.toNat ≤ 57 := hdigit.2
    simp only [isSpace, Bool.or_eq_false_iff, Bool.and_eq_false_iff, decide_eq_false_iff_not,
      beq_eq_false_iff_ne]
    omega
  have hself : stripChars (toString timeNs).toList = (toString timeNs).toList := by
    apply stripChars_eq_self
    · intro c hc
      exact hdigits c (List.mem_of_mem_head? hc)
    · intro c hc
      exact hdigits c (List.mem_of_getLast? hc)
  show strip (toString timeNs ++ "\n") = toString timeNs
  have hbetween := stripChars_between (l := []) (r := ['\n']) (by simp) (by simp [isSpace])
    (toString timeNs).toList
  rw [strip, String.toList_append, show "\n".toList = ['\n'] from rfl]
  rw [List.nil_append] at hbetween
  rw [hbetween, hself, String.ofList_toList]

theorem toString_ne_empty (n : ℕ) : toString n ≠ "" := by
  intro h
  have hlist : Nat.toDigits 10 n = [] := by simpa [toString] using congrArg String.toList h
  exact Nat.toDigits_ne_nil hlist

/-! ### What an entry stands for -/

/-- What a load decides of a row; an auth check overwrites the rest. -/
def ConnectorRead.core (row : ConnectorRead) : ConnectorRow × Option SourceRow × ℕ :=
  (row.connector, row.source, row.streamCount)

theorem core_patchRows (p : AuthPatch) (rows : ConnectorList) :
    (patchRows p rows).map ConnectorRead.core = rows.map ConnectorRead.core := by
  unfold patchRows
  rw [List.map_map]
  apply List.map_congr_left
  intro row _
  show ConnectorRead.core (if row.connector.id = p.connectorId then _ else row) = _
  split_ifs <;> rfl

namespace Host

/-- The connectors as they are in a commit no older than the last one that was made known. -/
def ReadsConnectors (s : Host) (k : ℕ) (rows : List ConnectorRow) : Prop :=
  s.publishedUpTo ≤ k ∧ ∃ c, s.commits[k]? = some c ∧ rows = queryConnectors c

/-- The connectors of such a commit with the stream counts of the same or of a later one. -/
def ReadsCounts (s : Host) (k : ℕ) (rows : List (ConnectorRow × ℕ)) : Prop :=
  ∃ j ≤ k, ∃ connectors, s.ReadsConnectors j connectors ∧
    ∃ c, s.commits[k]? = some c ∧ rows = countStreams connectors c

/-- The rows are, auth checks aside, put together of the connectors of a commit no older than the
last one that was made known, and of the stream counts and the sources of the same or of later
ones. -/
def UpToDate (s : Host) (value : ConnectorList) : Prop :=
  ∃ k rows, s.ReadsCounts k rows ∧ ∃ k' ≥ k, ∃ c, s.commits[k']? = some c ∧
    value.map ConnectorRead.core = (serializeRows rows c).map ConnectorRead.core

/-- An epoch the file holds or has held. -/
def Known (s : Host) (epoch : String) : Prop := epoch = "" ∨ ∃ n ∈ s.ticks, epoch = toString n

end Host

/-- The epoch a thread took what it has in hand under. -/
def Thread.epoch : Thread → Option String
  | .peeked entry => some entry.epoch
  | .connectorsRead epoch _ | .countsRead epoch _ | .loaded epoch _ | .checked epoch _ _
  | .storing epoch _ _ => some epoch
  | _ => none

/-- What a thread has in hand is up to date, as far as it has come. -/
def Thread.UpToDate (s : Host) : Thread → Prop
  | .connectorsRead _ rows => ∃ k, s.ReadsConnectors k rows
  | .countsRead _ rows => ∃ k, s.ReadsCounts k rows
  | .peeked entry => s.UpToDate entry.value
  | .loaded _ value | .checked _ value _ | .storing _ value _ => s.UpToDate value
  | _ => True

namespace Host

/-- What was read under an epoch is up to date as long as the epoch stands. -/
def Backed (s : Host) (epoch : String) (upToDate : Prop) : Prop :=
  epoch = epochUnreadable ∨ (s.Known epoch ∧ (epoch = s.epoch → upToDate))

structure Inv (s : Host) : Prop where
  published : s.publishedUpTo < s.commits.length
  file : s.Known s.epoch
  entries : ∀ n entry, (s.worker n).listFresh = some entry →
    s.Backed entry.epoch (s.UpToDate entry.value)
  held : ∀ who epoch, (s.thread who).epoch = some epoch →
    s.Backed epoch ((s.thread who).UpToDate s)
  observed : ∀ who epoch, s.thread who = .observed epoch →
    epoch = epochUnreadable ∨ s.Known epoch

section Preservation

variable {s : Host}

theorem Inv.setThread (h : s.Inv) (who : ℕ × ℕ) {t : Thread}
    (hheld : ∀ epoch, t.epoch = some epoch → s.Backed epoch (t.UpToDate s))
    (hobserved : ∀ epoch, t = .observed epoch → epoch = epochUnreadable ∨ s.Known epoch) :
    (s.setThread who t).Inv := by
  refine ⟨h.published, h.file, h.entries, ?_, ?_⟩
  · intro other epoch hother
    by_cases hwho : other = who
    · subst hwho
      simp only [Host.setThread, Function.update_self] at hother ⊢
      exact hheld epoch hother
    · simp only [Host.setThread, Function.update_of_ne hwho] at hother ⊢
      exact h.held other epoch hother
  · intro other epoch hother
    by_cases hwho : other = who
    · subst hwho
      simp only [Host.setThread, Function.update_self] at hother
      exact hobserved epoch hother
    · simp only [Host.setThread, Function.update_of_ne hwho] at hother
      exact h.observed other epoch hother

/-- A thread that lets go of what it held. -/
theorem Inv.setThread_idle (h : s.Inv) (who : ℕ × ℕ) {t : Thread} (hheld : t.epoch = none)
    (hobserved : ∀ epoch, t ≠ .observed epoch) : (s.setThread who t).Inv :=
  h.setThread who (by rw [hheld]; rintro _ ⟨⟩) fun epoch he => absurd he (hobserved epoch)

/-- A thread that goes on under the epoch it holds. -/
theorem Inv.setThread_next (h : s.Inv) (who : ℕ × ℕ) {t t' : Thread} {epoch : String}
    (hthread : s.thread who = t) (ht : t.epoch = some epoch) (ht' : t'.epoch = some epoch)
    (hnext : t.UpToDate s → t'.UpToDate s) : (s.setThread who t').Inv := by
  refine h.setThread who ?_ ?_
  · intro e he
    obtain rfl : epoch = e := Option.some.inj (ht'.symm.trans he)
    have hbacked := h.held who epoch (by rw [hthread, ht])
    rw [hthread] at hbacked
    exact hbacked.imp id fun hk => ⟨hk.1, fun he => hnext (hk.2 he)⟩
  · rintro e rfl
    cases ht'

theorem Inv.setWorker (h : s.Inv) (n : ℕ) {w : Worker}
    (hfresh : ∀ entry, w.listFresh = some entry → s.Backed entry.epoch (s.UpToDate entry.value)) :
    (s.setWorker n w).Inv := by
  refine ⟨h.published, h.file, ?_, h.held, h.observed⟩
  intro m entry hentry
  by_cases hm : m = n
  · subst hm
    simp only [Host.setWorker, Function.update_self] at hentry
    exact hfresh entry hentry
  · simp only [Host.setWorker, Function.update_of_ne hm] at hentry
    exact h.entries m entry hentry

/-- A worker is written in the last step of what a thread does with it. -/
theorem Inv.setWorker_idle (h : s.Inv) (who : ℕ × ℕ) {w : Worker} {t : Thread}
    (hfresh : ∀ entry, w.listFresh = some entry → s.Backed entry.epoch (s.UpToDate entry.value))
    (hheld : t.epoch = none) (hobserved : ∀ epoch, t ≠ .observed epoch) :
    ((s.setWorker who.1 w).setThread who t).Inv :=
  (h.setWorker who.1 hfresh).setThread_idle who hheld hobserved

/-- The first query of a load, under the epoch the thread has observed. -/
theorem Inv.setThread_read (h : s.Inv) (who : ℕ × ℕ) {t : Thread} {epoch : String}
    (hthread : s.thread who = .observed epoch) (ht : t.epoch = some epoch)
    (hread : t.UpToDate s) : (s.setThread who t).Inv := by
  refine h.setThread who ?_ ?_
  · intro e he
    obtain rfl : epoch = e := Option.some.inj (ht.symm.trans he)
    exact (h.observed who epoch hthread).imp id fun hk => ⟨hk, fun _ => hread⟩
  · rintro e rfl
    cases ht

/-! The commit a query finds is the last one, and no commit is taken back. -/

theorem current_eq (h : s.Inv) : s.commits[s.commits.length - 1]? = some s.current := by
  have hpos := h.published
  have hne : s.commits ≠ [] := List.ne_nil_of_length_pos (by omega)
  rw [← List.getLast?_eq_getElem?, current, List.getLast?_eq_getLast_of_ne_nil hne,
    Option.getD_some]

theorem le_last {k : ℕ} {c : Catalog} (hc : s.commits[k]? = some c) : k ≤ s.commits.length - 1 := by
  have hlt : k < s.commits.length := (List.getElem?_eq_some_iff.mp hc).1
  omega

theorem readsConnectors_current (h : s.Inv) :
    s.ReadsConnectors (s.commits.length - 1) (queryConnectors s.current) := by
  have hpos := h.published
  exact ⟨by omega, _, current_eq h, rfl⟩

theorem ReadsConnectors.counts (h : s.Inv) {k : ℕ} {rows : List ConnectorRow}
    (hrows : s.ReadsConnectors k rows) :
    s.ReadsCounts (s.commits.length - 1) (countStreams rows s.current) := by
  obtain ⟨c, hc, -⟩ := hrows.2
  exact ⟨k, le_last hc, rows, hrows, _, current_eq h, rfl⟩

theorem ReadsCounts.upToDate (h : s.Inv) {k : ℕ} {rows : List (ConnectorRow × ℕ)}
    (hrows : s.ReadsCounts k rows) : s.UpToDate (serializeRows rows s.current) := by
  obtain ⟨-, -, -, -, c, hc, -⟩ := id hrows
  exact ⟨k, rows, hrows, _, le_last hc, _, current_eq h, rfl⟩

/-- A catalog without connectors is read with one query, and is a list by itself. -/
theorem upToDate_nil (h : s.Inv) (hnone : s.current.connectors = []) : s.UpToDate [] := by
  have hrows := ((readsConnectors_current h).counts h).upToDate h
  simpa [queryConnectors, hnone, countStreams, serializeRows] using hrows

section Commit

variable {catalog : Catalog}

theorem getElem?_commit {k : ℕ} {c : Catalog} (hc : s.commits[k]? = some c) :
    (s.commits ++ [catalog])[k]? = some c := by
  have hlt : k < s.commits.length := (List.getElem?_eq_some_iff.mp hc).1
  rw [List.getElem?_append_left hlt, hc]

theorem ReadsConnectors.commit {k : ℕ} {rows : List ConnectorRow} (h : s.ReadsConnectors k rows) :
    ReadsConnectors { s with commits := s.commits ++ [catalog] } k rows := by
  obtain ⟨hk, c, hc, hrows⟩ := h
  exact ⟨hk, c, getElem?_commit hc, hrows⟩

theorem ReadsCounts.commit {k : ℕ} {rows : List (ConnectorRow × ℕ)} (h : s.ReadsCounts k rows) :
    ReadsCounts { s with commits := s.commits ++ [catalog] } k rows := by
  obtain ⟨j, hj, connectors, hconnectors, c, hc, hrows⟩ := h
  exact ⟨j, hj, connectors, hconnectors.commit, c, getElem?_commit hc, hrows⟩

theorem UpToDate.commit {value : ConnectorList} (h : s.UpToDate value) :
    UpToDate { s with commits := s.commits ++ [catalog] } value := by
  obtain ⟨k, rows, hrows, k', hk', c, hc, hcore⟩ := h
  exact ⟨k, rows, hrows.commit, k', hk', c, getElem?_commit hc, hcore⟩

theorem thread_upToDate_commit {t : Thread} (h : t.UpToDate s) :
    t.UpToDate { s with commits := s.commits ++ [catalog] } := by
  cases t with
  | connectorsRead epoch rows => exact h.imp fun _ hk => hk.commit
  | countsRead epoch rows => exact h.imp fun _ hk => hk.commit
  | peeked entry => exact Host.UpToDate.commit h
  | loaded epoch value => exact Host.UpToDate.commit h
  | checked epoch value now => exact Host.UpToDate.commit h
  | storing epoch value now => exact Host.UpToDate.commit h
  | _ => trivial

variable (catalog) in
theorem Inv.commit (h : s.Inv) : Inv { s with commits := s.commits ++ [catalog] } := by
  refine ⟨?_, h.file, ?_, ?_, h.observed⟩
  · have := h.published
    simp only [List.length_append, List.length_singleton]
    omega
  · intro n entry hentry
    exact (h.entries n entry hentry).imp id fun hk => ⟨hk.1, fun he => (hk.2 he).commit⟩
  · intro who epoch hheld
    exact (h.held who epoch hheld).imp id fun hk =>
      ⟨hk.1, fun he => thread_upToDate_commit (hk.2 he)⟩

end Commit

theorem UpToDate.patch {value : ConnectorList} (h : s.UpToDate value) (p : AuthPatch) :
    s.UpToDate (patchRows p value) := by
  obtain ⟨k, rows, hrows, k', hk', c, hc, hcore⟩ := h
  exact ⟨k, rows, hrows, k', hk', c, hc, (core_patchRows p value).trans hcore⟩

/-- An epoch that was never written before leaves nothing that was read under another. -/
theorem Inv.publish (h : s.Inv) {timeNs : ℕ} (hnew : timeNs ∉ s.ticks) :
    Inv { s with
      epochFile := some (epochText timeNs)
      ticks := timeNs :: s.ticks
      publishedUpTo := s.commits.length - 1 } := by
  set s' : Host := { s with
    epochFile := some (epochText timeNs)
    ticks := timeNs :: s.ticks
    publishedUpTo := s.commits.length - 1 } with hs'
  have hepoch : s'.epoch = toString timeNs := epochText_read timeNs
  have hknown (epoch : String) (hk : s.Known epoch) : s'.Known epoch :=
    hk.imp id fun ⟨n, hn, he⟩ => ⟨n, List.mem_cons_of_mem timeNs hn, he⟩
  have hbacked (epoch : String) (before after : Prop) (hb : s.Backed epoch before) :
      s'.Backed epoch after := by
    refine hb.imp id fun hk => ⟨hknown epoch hk.1, fun he => ?_⟩
    rw [hepoch] at he
    rcases hk.1 with hempty | ⟨n, hn, htext⟩
    · exact absurd (he.symm.trans hempty) (toString_ne_empty timeNs)
    · have hsame : n = timeNs := Nat.repr_inj.mp (htext.symm.trans he)
      exact absurd (hsame ▸ hn) hnew
  refine ⟨?_, ?_, ?_, ?_, ?_⟩
  · have := h.published
    show s.commits.length - 1 < s.commits.length
    omega
  · rw [hepoch]
    exact .inr ⟨timeNs, List.mem_cons_self, rfl⟩
  · intro n entry hentry
    exact hbacked _ _ _ (h.entries n entry hentry)
  · intro who epoch hheld
    exact hbacked _ _ _ (h.held who epoch hheld)
  · intro who epoch hobserved
    exact (h.observed who epoch hobserved).imp id (hknown epoch)

/-- The publishes of a run are at times of their own. -/
def NewTick (s : Host) : (ℕ × ℕ) × Action → Prop
  | (_, .publish timeNs) => timeNs ∉ s.ticks
  | _ => True

theorem Inv.step (ttl : ℚ) (h : s.Inv) {a : (ℕ × ℕ) × Action} (hnew : s.NewTick a) :
    (s.step ttl a).Inv := by
  obtain ⟨who, action⟩ := a
  cases action with
  | peek now =>
    dsimp only [Host.step]
    split_ifs
    · cases hpeek : (s.worker who.1).peekFresh ttl now with
      | none => exact h.setThread_idle who rfl (by rintro _ ⟨⟩)
      | some entry =>
        refine h.setThread who ?_ (by rintro _ ⟨⟩)
        rintro epoch ⟨⟩
        exact h.entries who.1 entry (Option.filter_eq_some_iff.mp hpeek).1
    · exact h
  | compare readable =>
    dsimp only [Host.step]
    split
    · split_ifs
      · exact h.setThread_idle who rfl (by rintro _ ⟨⟩)
      · exact h.setThread_idle who rfl (by rintro _ ⟨⟩)
    · exact h
  | observe readable =>
    dsimp only [Host.step]
    split_ifs
    · refine h.setThread who (by rintro _ ⟨⟩) ?_
      rintro epoch ⟨⟩
      cases readable with
      | false => exact .inl rfl
      | true => exact .inr h.file
    · exact h
  | loadConnectors =>
    dsimp only [Host.step]
    split
    · rename_i epoch hthread
      split_ifs with hnone
      · exact h.setThread_read who hthread rfl (upToDate_nil h hnone)
      · exact h.setThread_read who hthread rfl ⟨_, readsConnectors_current h⟩
    · exact h
  | loadStreamCounts =>
    dsimp only [Host.step]
    split
    · rename_i epoch rows hthread
      exact h.setThread_next who hthread rfl rfl fun ⟨_, hrows⟩ => ⟨_, hrows.counts h⟩
    · exact h
  | loadSources =>
    dsimp only [Host.step]
    split
    · rename_i epoch rows hthread
      exact h.setThread_next who hthread rfl rfl fun ⟨_, hrows⟩ => hrows.upToDate h
    · exact h
  | loadFails =>
    dsimp only [Host.step]
    split
    · exact h.setThread_idle who rfl (by rintro _ ⟨⟩)
    · exact h.setThread_idle who rfl (by rintro _ ⟨⟩)
    · exact h.setThread_idle who rfl (by rintro _ ⟨⟩)
    · exact h
  | check readable now =>
    dsimp only [Host.step]
    split
    · rename_i epoch value hthread
      split_ifs
      · exact h.setThread_next who hthread rfl rfl id
      · exact h.setThread_idle who rfl (by rintro _ ⟨⟩)
    · exact h
  | checkLocked readable =>
    dsimp only [Host.step]
    split
    · rename_i epoch value now hthread
      split_ifs
      · exact h.setThread_next who hthread rfl rfl id
      · exact h.setThread_idle who rfl (by rintro _ ⟨⟩)
    · exact h
  | store =>
    dsimp only [Host.step]
    split
    · rename_i epoch value now hthread
      have hbacked := h.held who epoch (by rw [hthread]; rfl)
      rw [hthread] at hbacked
      refine h.setWorker_idle who ?_ rfl (by rintro _ ⟨⟩)
      rintro entry ⟨⟩
      exact hbacked
    · exact h
  | commit catalog =>
    dsimp only [Host.step]
    split_ifs
    · exact (h.commit catalog).setThread_idle who rfl (by rintro _ ⟨⟩)
    · exact h
  | publish timeNs =>
    dsimp only [Host.step]
    split_ifs
    · exact (h.publish hnew).setThread_idle who rfl (by rintro _ ⟨⟩)
    · exact h
  | publishFails =>
    dsimp only [Host.step]
    split_ifs
    · exact h.setThread_idle who rfl (by rintro _ ⟨⟩)
    · exact h
  | clear =>
    dsimp only [Host.step]
    split_ifs
    · exact h.setWorker_idle who (by rintro _ ⟨⟩) rfl (by rintro _ ⟨⟩)
    · exact h
  | commitAuth catalog patch =>
    dsimp only [Host.step]
    split_ifs
    · exact (h.commit catalog).setThread_idle who rfl (by rintro _ ⟨⟩)
    · exact h
  | expire =>
    dsimp only [Host.step]
    split
    · exact h.setWorker_idle who (by rintro _ ⟨⟩) rfl (by rintro _ ⟨⟩)
    · exact h
  | patch =>
    dsimp only [Host.step]
    split
    · rename_i patch hthread
      refine h.setWorker_idle who ?_ rfl (by rintro _ ⟨⟩)
      intro entry hentry
      obtain ⟨old, hold, rfl⟩ := Option.map_eq_some_iff.mp hentry
      exact (h.entries who.1 old hold).imp id fun hk => ⟨hk.1, fun he => (hk.2 he).patch patch⟩
    · exact h

/-- What is served without a load is up to date. -/
theorem Inv.freshHit (h : s.Inv) {a : (ℕ × ℕ) × Action} {value : ConnectorList}
    (hhit : s.freshHit a = some value) : s.UpToDate value := by
  obtain ⟨who, action⟩ := a
  cases action with
  | compare readable =>
    dsimp only [Host.freshHit] at hhit
    split at hhit
    · rename_i entry hthread
      split_ifs at hhit with hsame
      obtain rfl := Option.some.inj hhit
      have hreadable : readable = true := by
        cases readable with
        | true => rfl
        | false => exact absurd hsame.1 hsame.2
      subst hreadable
      have hbacked := h.held who entry.epoch (by rw [hthread]; rfl)
      rw [hthread] at hbacked
      rcases hbacked with hno | ⟨_, hfresh⟩
      · exact absurd hno hsame.2
      · exact hfresh hsame.1
    · cases hhit
  | _ => cases hhit

/-- Only a publish adds a time. -/
theorem mem_ticks_step (ttl : ℚ) {a : (ℕ × ℕ) × Action} {n : ℕ} (h : n ∈ (s.step ttl a).ticks) :
    n ∈ s.ticks ∨ a.2 = .publish n := by
  obtain ⟨who, action⟩ := a
  cases action with
  | publish timeNs =>
    dsimp only [Host.step] at h
    split_ifs at h
    · rcases List.mem_cons.mp h with rfl | h
      · exact .inr rfl
      · exact .inl h
    · exact .inl h
  | peek now =>
    dsimp only [Host.step] at h
    split_ifs at h <;> exact .inl h
  | observe readable =>
    dsimp only [Host.step] at h
    split_ifs at h <;> exact .inl h
  | publishFails =>
    dsimp only [Host.step] at h
    split_ifs at h <;> exact .inl h
  | commit catalog =>
    dsimp only [Host.step] at h
    split_ifs at h <;> exact .inl h
  | clear =>
    dsimp only [Host.step] at h
    split_ifs at h <;> exact .inl h
  | commitAuth catalog patch =>
    dsimp only [Host.step] at h
    split_ifs at h <;> exact .inl h
  | _ =>
    dsimp only [Host.step] at h
    split at h <;> exact .inl h

end Preservation

end Host

/-- The times at which the actions write an epoch. -/
def publishTimes (actions : List ((ℕ × ℕ) × Action)) : List ℕ :=
  actions.filterMap fun a =>
    match a.2 with
    | .publish timeNs => some timeNs
    | _ => none

theorem newTicks (ttl : ℚ) : ∀ (actions : List ((ℕ × ℕ) × Action)) (s : Host),
    (publishTimes actions).Nodup → (∀ n ∈ publishTimes actions, n ∉ s.ticks) →
    Steps.Along (Host.step ttl) Host.NewTick s actions
  | [], _, _, _ => trivial
  | a :: actions, s, hnodup, hfresh => by
    have hmem {n : ℕ} (ha : a.2 = .publish n) :
        publishTimes (a :: actions) = n :: publishTimes actions := by
      simp [publishTimes, ha]
    have hrest : (publishTimes actions).Sublist (publishTimes (a :: actions)) :=
      (List.sublist_cons_self a actions).filterMap _
    constructor
    · obtain ⟨who, action⟩ := a
      cases action with
      | publish timeNs => exact hfresh timeNs (by rw [hmem rfl]; exact List.mem_cons_self)
      | _ => trivial
    · refine newTicks ttl actions _ (hnodup.sublist hrest) ?_
      intro n hn hticks
      rcases Host.mem_ticks_step ttl hticks with hold | ha
      · exact hfresh n (hrest.subset hn) hold
      · rw [hmem ha] at hnodup
        exact (List.nodup_cons.mp hnodup).1 hn

/-- A host with the catalog it starts with and nothing kept. -/
def start (catalog : Catalog) : Host where
  commits := [catalog]

theorem start_inv (catalog : Catalog) : (start catalog).Inv := by
  refine ⟨Nat.one_pos, .inl rfl, ?_, ?_, ?_⟩
  · rintro n entry ⟨⟩
  · rintro who epoch ⟨⟩
  · rintro who epoch ⟨⟩

/-- In every interleaving of the threads of all workers that writes its epochs at times of their own,
a list that is served without a load is, auth checks aside, put together of the connectors of a
commit no older than the last one whose epoch was written before the epochs were compared, and of
the stream counts and the sources of the same commit or of later ones; the epoch file may fail to
be read or written at any time. -/
theorem freshHits_upToDate (ttl : ℚ) (catalog : Catalog) (actions : List ((ℕ × ℕ) × Action))
    (htimes : (publishTimes actions).Nodup) :
    Steps.Along (Host.step ttl) (fun s a => ∀ value, s.freshHit a = some value → s.UpToDate value)
      (start catalog) actions :=
  @Steps.along_of_invariant _ _ (Host.step ttl) Host.Inv _ _ (fun _ _ hs ha => hs.step ttl ha)
    (fun _ _ hs _ _ hhit => hs.freshHit hhit) _ _ (start_inv catalog)
    (newTicks ttl actions (start catalog) htimes fun _ _ hn => absurd hn List.not_mem_nil)

/-- Worker 0 keeps the list, worker 1 changes it, and worker 0 looks at what it kept before and
after the epoch of the change is written. -/
def keptAndChanged : List ((ℕ × ℕ) × Action) :=
  let keep : List Action :=
    [.peek 0, .observe true, .loadConnectors, .loadStreamCounts, .loadSources, .check true 1,
      .checkLocked true, .store, .peek 2, .compare true]
  let change : List Action := [.commit {}, .publish 5, .clear]
  keep.map (Prod.mk (0, 0)) ++ change.map (Prod.mk (1, 0)) ++
    [((0, 0), .peek 3), ((0, 0), .compare true)]

theorem keptAndChanged_upToDate :
    Steps.Along (Host.step 5) (fun s a => ∀ value, s.freshHit a = some value → s.UpToDate value)
      (start { connectors := [⟨1, []⟩], streams := [1] }) keptAndChanged :=
  freshHits_upToDate 5 _ keptAndChanged (by decide)

end ReadCache
