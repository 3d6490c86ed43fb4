import DataRelay.Lib.Dict
import DataRelay.Lib.Steps
import Mathlib.Logic.Relation

/-! Database sessions under read committed isolation: every statement sees what is committed and
the session's own writes, a changed row stays locked until the transaction ends, and sessions are
interleaved at their statements. A rule of rely and guarantee carries an invariant of the
committed rows through every interleaving. -/
namespace ReadCommitted

variable {K V M E R : Type}

abbrev Table (K V : Type) := List (K × V)

/-- A session's program, statement by statement. `M` is memory the sessions share outside the
database, `E` what a commit records in the log. -/
inductive Program (K V M E : Type) where
  | done
  /-- A query: the rows it sees. -/
  | read (next : Table K V → Program K V M E)
  /-- `SELECT … FOR UPDATE` of one row; a row that is not there is not locked. -/
  | lock (key : K) (next : Option V → Program K V M E)
  /-- An advisory lock, up to the end of the transaction. -/
  | hold (key : K) (next : Program K V M E)
  /-- `SELECT … FOR UPDATE SKIP LOCKED`: the keys chosen of the rows no other session has. -/
  | lockFree (choose : Table K V → List K) (next : Table K V → Program K V M E)
  | write (key : K) (change : Option V → Option V) (next : Program K V M E)
  /-- An insert; a key that is taken ends the session. -/
  | insert (key : K) (row : V) (next : Program K V M E)
  | memory (update : M → M) (next : M → Program K V M E)
  | commit (events : List E) (next : Program K V M E)
  | rollback (next : Program K V M E)

abbrev Write (K V : Type) := K × (Option V → Option V)

structure Session (K V M E : Type) where
  program : Program K V M E
  locks : List K := []
  writes : List (Write K V) := []

structure Committed (K V E : Type) where
  rows : Table K V := []
  log : List E := []
  deriving DecidableEq

structure System (K V M E : Type) extends Committed K V E where
  memory : M
  sessions : List (Session K V M E) := []

inductive Action (R : Type) where
  | start (request : R)
  | run (session : ℕ)
  | crash (session : ℕ)
  deriving DecidableEq

section semantics

variable [DecidableEq K]

/-- A row in place of another, or the row removed. -/
def put (key : K) (row : Option V) (rows : Table K V) : Table K V :=
  match row with
  | some v => Dict.set key v rows
  | none => Dict.restrict (· ≠ key) rows

def applyWrites (writes : List (Write K V)) (rows : Table K V) : Table K V :=
  writes.foldl (fun rows w => put w.1 (w.2 (Dict.get? w.1 rows)) rows) rows

/-- The change an insert makes. -/
def inserted (row : V) : Option V → Option V := fun _ => some row

/-- The rows with the given keys, in the order of the keys. -/
def pick (keys : List K) (rows : Table K V) : Table K V :=
  keys.filterMap fun key => (Dict.get? key rows).map fun row => (key, row)

/-- What a session finds, and what it has locked, at a statement that takes a lock. -/
def lockedKeys (key : K) (row : Option V) (locks : List K) : List K :=
  if row.isSome then key :: locks else locks

namespace System

variable (s : System K V M E)

/-- No other session has the lock of the key. -/
def free (i : ℕ) (key : K) : Bool :=
  s.sessions.zipIdx.all fun x => x.2 = i || key ∉ x.1.locks

def put (i : ℕ) (x : Session K V M E) : System K V M E :=
  { s with sessions := s.sessions.set i x }

/-- The next statement of a session; a session that has to wait stays where it is. -/
def advance (i : ℕ) (x : Session K V M E) : System K V M E :=
  let view := applyWrites x.writes s.rows
  match x.program with
  | .done => s
  | .read next => s.put i { x with program := next view }
  | .lock key next =>
    if s.free i key then
      s.put i { x with
        program := next (Dict.get? key view)
        locks := lockedKeys key (Dict.get? key view) x.locks }
    else s
  | .hold key next =>
    if s.free i key then s.put i { x with program := next, locks := key :: x.locks } else s
  | .lockFree choose next =>
    let chosen := pick (choose (Dict.restrict (s.free i) view)) (Dict.restrict (s.free i) view)
    s.put i { x with program := next chosen, locks := chosen.map Prod.fst ++ x.locks }
  | .write key change next =>
    if s.free i key then
      s.put i {
        program := next, locks := key :: x.locks, writes := x.writes ++ [(key, change)] }
    else s
  | .insert key row next =>
    if s.free i key then
      if Dict.get? key view = none then
        s.put i {
          program := next, locks := key :: x.locks, writes := x.writes ++ [(key, inserted row)] }
      else s.put i { program := .done }
    else s
  | .memory update next =>
    { s.put i { x with program := next s.memory } with memory := update s.memory }
  | .commit events next =>
    { s.put i { program := next } with rows := view, log := s.log ++ events }
  | .rollback next => s.put i { program := next }

end System

/-- Requests are served by new sessions; a session that crashes is rolled back. -/
def step (code : R → Program K V M E) (s : System K V M E) : Action R → System K V M E
  | .start request => { s with sessions := s.sessions ++ [{ program := code request }] }
  | .run i =>
    match s.sessions[i]? with
    | some x => s.advance i x
    | none => s
  | .crash i => s.put i { program := .done }

/-- What the next statement of a program records when it is a commit. -/
def Program.commits : Program K V M E → List E
  | .commit events _ => events
  | _ => []

/-- What an action records in the log. -/
def System.commits (s : System K V M E) : Action R → List E
  | .run i => (s.sessions[i]?.map (·.program.commits)).getD []
  | _ => []

end semantics

/-! ### Rows and writes -/

section rows

variable [DecidableEq K]

@[simp] theorem get?_put (key l : K) (row : Option V) (rows : Table K V) :
    Dict.get? l (put key row rows) = if key = l then row else Dict.get? l rows := by
  cases row with
  | some v => simp [put]
  | none =>
    by_cases h : key = l
    · simp [put, h]
    · simp [put, h, Ne.symm h]

@[simp] theorem applyWrites_nil (rows : Table K V) : applyWrites [] rows = rows := rfl

theorem applyWrites_append (ws : List (Write K V)) (w : Write K V) (rows : Table K V) :
    applyWrites (ws ++ [w]) rows =
      put w.1 (w.2 (Dict.get? w.1 (applyWrites ws rows))) (applyWrites ws rows) := by
  simp [applyWrites]

theorem get?_applyWrites_of_forall_ne {writes : List (Write K V)} {key : K}
    (h : ∀ w ∈ writes, w.1 ≠ key) (rows : Table K V) :
    Dict.get? key (applyWrites writes rows) = Dict.get? key rows := by
  induction writes using List.reverseRecOn with
  | nil => rfl
  | append_singleton ws w ih =>
    rw [applyWrites_append, get?_put, if_neg (h w (by simp))]
    exact ih fun v hv => h v (List.mem_append_left _ hv)

/-- What a session sees of a row depends on this row only. -/
theorem get?_applyWrites_congr (writes : List (Write K V)) {key : K} {rows rows' : Table K V}
    (h : Dict.get? key rows = Dict.get? key rows') :
    Dict.get? key (applyWrites writes rows) = Dict.get? key (applyWrites writes rows') := by
  induction writes using List.reverseRecOn with
  | nil => exact h
  | append_singleton ws w ih =>
    rw [applyWrites_append, applyWrites_append, get?_put, get?_put]
    by_cases hw : w.1 = key
    · rw [if_pos hw, if_pos hw, hw, ih]
    · rw [if_neg hw, if_neg hw, ih]

theorem nodup_put {rows : Table K V} (h : (rows.map Prod.fst).Nodup) (key : K) (row : Option V) :
    ((put key row rows).map Prod.fst).Nodup := by
  cases row with
  | some v => exact Dict.nodup_set h key v
  | none => exact h.sublist (List.Sublist.map _ List.filter_sublist)

theorem nodup_applyWrites {rows : Table K V} (h : (rows.map Prod.fst).Nodup)
    (writes : List (Write K V)) : ((applyWrites writes rows).map Prod.fst).Nodup := by
  induction writes using List.reverseRecOn with
  | nil => exact h
  | append_singleton ws w ih =>
    rw [applyWrites_append]
    exact nodup_put ih _ _

theorem mem_pick {keys : List K} {rows : Table K V} {key : K} {row : V} :
    (key, row) ∈ pick keys rows ↔ key ∈ keys ∧ Dict.get? key rows = some row := by
  unfold pick
  simp only [List.mem_filterMap, Option.map_eq_some_iff, Prod.mk.injEq]
  constructor
  · rintro ⟨k, hk, v, hv, rfl, rfl⟩
    exact ⟨hk, hv⟩
  · rintro ⟨hk, hv⟩
    exact ⟨key, hk, row, hv, rfl, rfl⟩

theorem keys_pick_sublist (keys : List K) (rows : Table K V) :
    ((pick keys rows).map Prod.fst).Sublist keys := by
  induction keys with
  | nil => exact List.Sublist.refl _
  | cons key keys ih =>
    unfold pick at ih ⊢
    cases h : Dict.get? key rows with
    | none =>
      rw [List.filterMap_cons_none (by simp [h])]
      exact ih.cons key
    | some row =>
      rw [List.filterMap_cons_some (b := (key, row)) (by simp [h]), List.map_cons]
      exact ih.cons_cons key

omit [DecidableEq K] in
theorem nodup_restrict {rows : Table K V} (h : (rows.map Prod.fst).Nodup) (keep : K → Bool) :
    ((Dict.restrict keep rows).map Prod.fst).Nodup :=
  h.sublist (List.Sublist.map _ List.filter_sublist)

theorem countP_put_some_le (p : K × V → Bool) (key : K) (row : V) (rows : Table K V) :
    (put key (some row) rows).countP p ≤ rows.countP p + if p (key, row) then 1 else 0 := by
  show (Dict.set key row rows).countP p ≤ _
  induction rows with
  | nil => simp [Dict.set, List.countP_cons]
  | cons head rows ih =>
    obtain ⟨l, v⟩ := head
    by_cases hl : l = key
    · simp only [Dict.set, hl, if_true, List.countP_cons]
      omega
    · simp only [Dict.set, hl, if_false, List.countP_cons]
      omega

/-- A table whose rows of a kind are all in another one has no more of them. -/
theorem countP_le_of_get? {p : K × V → Bool} {rows rows' : Table K V}
    (h : (rows.map Prod.fst).Nodup)
    (hsub : ∀ key row, Dict.get? key rows = some row → p (key, row) = true →
      Dict.get? key rows' = some row) : rows.countP p ≤ rows'.countP p := by
  rw [List.countP_eq_length_filter, List.countP_eq_length_filter]
  have hnodup : (rows.filter p).Nodup := (List.Nodup.of_map _ h).filter _
  refine (hnodup.subperm ?_).length_le
  rintro ⟨key, row⟩ hmem
  obtain ⟨hmem, hp⟩ := List.mem_filter.mp hmem
  have hget := hsub key row ((Dict.mem_iff_get? h).mp hmem) hp
  exact List.mem_filter.mpr ⟨Dict.mem_of_get? hget, hp⟩

end rows

/-! ### Rely and guarantee -/

section rules

variable (K V E)

/-- An invariant of what is committed, and what a commit may do that holds the given locks. -/
structure Rules where
  inv : Committed K V E → Prop
  guarantee : List K → Committed K V E → Committed K V E → Prop

variable {K V E}
variable [DecidableEq K] (rules : Rules K V E)

/-- A commit of another session, whose locks are none of these. It changes rows it holds. -/
def Rules.Other (locks : List K) (c d : Committed K V E) : Prop :=
  ∃ held : List K, held.Disjoint locks ∧
    (∀ key, key ∉ held → Dict.get? key d.rows = Dict.get? key c.rows) ∧
    rules.guarantee held c d ∧ rules.inv d

/-- Any number of commits of other sessions, as they come between two statements. -/
def Rules.Others (locks : List K) : Committed K V E → Committed K V E → Prop :=
  Relation.ReflTransGen (rules.Other locks)

/-- From here on the program keeps the guarantee and the invariant, whatever the others do that
keep theirs. -/
def Rules.Safe : Program K V M E → List K → List (Write K V) → Committed K V E → Prop
  | .done, _, _, _ => True
  | .read next, locks, ws, c => ∀ d, rules.Others locks c d →
    Rules.Safe (next (applyWrites ws d.rows)) locks ws d
  | .lock key next, locks, ws, c => ∀ d, rules.Others locks c d →
    Rules.Safe (next (Dict.get? key (applyWrites ws d.rows)))
      (lockedKeys key (Dict.get? key (applyWrites ws d.rows)) locks) ws d
  | .hold key next, locks, ws, c => ∀ d, rules.Others locks c d →
    Rules.Safe next (key :: locks) ws d
  | .lockFree choose next, locks, ws, c => ∀ d, rules.Others locks c d → ∀ free : K → Bool,
    Rules.Safe
      (next (pick (choose (Dict.restrict free (applyWrites ws d.rows)))
        (Dict.restrict free (applyWrites ws d.rows))))
      ((pick (choose (Dict.restrict free (applyWrites ws d.rows)))
        (Dict.restrict free (applyWrites ws d.rows))).map Prod.fst ++ locks) ws d
  | .write key change next, locks, ws, c => ∀ d, rules.Others locks c d →
    Rules.Safe next (key :: locks) (ws ++ [(key, change)]) d
  | .insert key row next, locks, ws, c => ∀ d, rules.Others locks c d →
    Dict.get? key (applyWrites ws d.rows) = none →
    Rules.Safe next (key :: locks) (ws ++ [(key, inserted row)]) d
  | .memory _ next, locks, ws, c => ∀ m, Rules.Safe (next m) locks ws c
  | .commit events next, locks, ws, c => ∀ d, rules.Others locks c d →
    rules.guarantee locks d ⟨applyWrites ws d.rows, d.log ++ events⟩ ∧
    rules.inv ⟨applyWrites ws d.rows, d.log ++ events⟩ ∧
    Rules.Safe next [] [] ⟨applyWrites ws d.rows, d.log ++ events⟩
  | .rollback next, locks, _, c => ∀ d, rules.Others locks c d → Rules.Safe next [] [] d

variable {rules}

theorem Rules.Others.refl (locks : List K) (c : Committed K V E) : rules.Others locks c c :=
  Relation.ReflTransGen.refl

theorem Rules.Others.inv {locks : List K} {c d : Committed K V E} (h : rules.Others locks c d)
    (hc : rules.inv c) : rules.inv d := by
  cases Relation.ReflTransGen.cases_tail h with
  | inl heq => exact heq ▸ hc
  | inr hlast =>
    obtain ⟨b, -, held, -, -, -, hinv⟩ := hlast
    exact hinv

/-- The rows a session holds stay as they are. -/
theorem Rules.Others.get? {locks : List K} {c d : Committed K V E} (h : rules.Others locks c d)
    {key : K} (hkey : key ∈ locks) : Dict.get? key d.rows = Dict.get? key c.rows := by
  induction h with
  | refl => rfl
  | tail _ hlast ih =>
    obtain ⟨held, hdisjoint, hsame, -⟩ := hlast
    rw [hsame key fun hheld => hdisjoint hheld hkey, ih]

/-- A session has locked a row, which is this one. -/
structure Holds (key : K) (row : V) (locks : List K) (c : Committed K V E) : Prop where
  lock : key ∈ locks
  row : Dict.get? key c.rows = some row

theorem Holds.others {key : K} {row : V} {locks : List K} {c d : Committed K V E}
    (h : Holds key row locks c) (hd : rules.Others locks c d) : Holds key row locks d :=
  ⟨h.lock, (hd.get? h.lock).trans h.row⟩

theorem holds_lock {key : K} {row : V} {c : Committed K V E}
    (h : Dict.get? key c.rows = some row) (locks : List K) :
    Holds key row (lockedKeys key (some row) locks) c :=
  ⟨List.mem_cons_self, h⟩

theorem Holds.wrote {key : K} {row : V} {locks : List K} {c : Committed K V E}
    (h : Holds key row locks c) (l : K) : Holds key row (l :: locks) c :=
  ⟨List.mem_cons_of_mem l h.lock, h.row⟩

theorem Holds.locked {key : K} {row : V} {locks : List K} {c : Committed K V E}
    (h : Holds key row locks c) (l : K) (found : Option V) :
    Holds key row (lockedKeys l found locks) c := by
  unfold lockedKeys
  split_ifs
  · exact h.wrote l
  · exact h

/-- What every commit of another session keeps, any number of them keep. -/
theorem Rules.Others.keeps {locks : List K} {P : Committed K V E → Prop}
    (hP : ∀ held c d, held.Disjoint locks →
      (∀ key, key ∉ held → Dict.get? key d.rows = Dict.get? key c.rows) →
      rules.guarantee held c d → P c → P d)
    {c d : Committed K V E} (h : rules.Others locks c d) (hc : P c) : P d := by
  induction h with
  | refl => exact hc
  | tail _ hlast ih =>
    obtain ⟨held, hdisjoint, hsame, hguarantee, -⟩ := hlast
    exact hP held _ _ hdisjoint hsame hguarantee ih

theorem Rules.Safe.of_others {p : Program K V M E} {locks : List K} {ws : List (Write K V)}
    {c d : Committed K V E} (h : rules.Safe p locks ws c) (hd : rules.Others locks c d) :
    rules.Safe p locks ws d := by
  induction p with
  | done => trivial
  | read next => exact fun e he => h e (hd.trans he)
  | lock key next => exact fun e he => h e (hd.trans he)
  | hold key next => exact fun e he => h e (hd.trans he)
  | lockFree choose next => exact fun e he => h e (hd.trans he)
  | write key change next => exact fun e he => h e (hd.trans he)
  | insert key row next => exact fun e he => h e (hd.trans he)
  | memory update next ih => exact fun m => ih m (h m)
  | commit events next => exact fun e he => h e (hd.trans he)
  | rollback next => exact fun e he => h e (hd.trans he)

end rules

/-! ### Every interleaving -/

section runs

variable [DecidableEq K] (rules : Rules K V E)

/-- A session that has locked what it writes and is safe from here on. -/
structure Session.Ok (c : Committed K V E) (x : Session K V M E) : Prop where
  covered : ∀ w ∈ x.writes, w.1 ∈ x.locks
  safe : rules.Safe x.program x.locks x.writes c

structure System.Valid (s : System K V M E) : Prop where
  inv : rules.inv s.toCommitted
  disjoint : ∀ (i j : ℕ) (x y : Session K V M E), i ≠ j → s.sessions[i]? = some x →
    s.sessions[j]? = some y → x.locks.Disjoint y.locks
  ok : ∀ (i : ℕ) (x : Session K V M E), s.sessions[i]? = some x → x.Ok rules s.toCommitted

variable {rules} {s : System K V M E} {i : ℕ} {x y : Session K V M E}

theorem System.free_eq_true {key : K} (h : s.free i key = true) {j : ℕ}
    (hj : s.sessions[j]? = some y) (hne : j ≠ i) : key ∉ y.locks := by
  unfold System.free at h
  have hmem : (y, j) ∈ s.sessions.zipIdx := List.mk_mem_zipIdx_iff_getElem?.mpr hj
  have hkey := List.all_eq_true.mp h _ hmem
  simpa [hne] using hkey

theorem getElem?_append_singleton {α : Type*} {xs : List α} {a b : α} {j : ℕ}
    (h : (xs ++ [a])[j]? = some b) : xs[j]? = some b ∨ j = xs.length ∧ b = a := by
  rcases lt_or_ge j xs.length with hlt | hge
  · rw [List.getElem?_append_left hlt] at h
    exact .inl h
  · rw [List.getElem?_append_right hge] at h
    rw [List.getElem?_singleton] at h
    split_ifs at h with hj
    exact .inr ⟨by omega, (Option.some.inj h).symm⟩

theorem getElem?_set_cases {α : Type*} {xs : List α} {a b : α} {i j : ℕ}
    (h : (xs.set i a)[j]? = some b) : (j = i ∧ b = a) ∨ (j ≠ i ∧ xs[j]? = some b) := by
  rw [List.getElem?_set] at h
  by_cases hij : i = j
  · rw [if_pos hij] at h
    split_ifs at h with hlt
    exact .inl ⟨hij.symm, (Option.some.inj h).symm⟩
  · rw [if_neg hij] at h
    exact .inr ⟨Ne.symm hij, h⟩

theorem System.Valid.put (h : s.Valid rules) (hx : s.sessions[i]? = some x)
    (hlocks : ∀ key ∈ y.locks, key ∈ x.locks ∨ s.free i key = true)
    (hok : y.Ok rules s.toCommitted) : (s.put i y).Valid rules := by
  have hapart : ∀ (j : ℕ) (z : Session K V M E), j ≠ i → s.sessions[j]? = some z →
      y.locks.Disjoint z.locks := by
    intro j z hj hz key hkey hother
    rcases hlocks key hkey with hold | hfree
    · exact h.disjoint i j x z (Ne.symm hj) hx hz hold hother
    · exact System.free_eq_true hfree hz hj hother
  refine ⟨h.inv, ?_, ?_⟩
  · intro j k z w hjk hz hw
    rcases getElem?_set_cases hz with ⟨rfl, rfl⟩ | ⟨hj, hzold⟩
    · rcases getElem?_set_cases hw with ⟨rfl, rfl⟩ | ⟨hk, hwold⟩
      · exact absurd rfl hjk
      · exact hapart k w hk hwold
    · rcases getElem?_set_cases hw with ⟨-, rfl⟩ | ⟨hk, hwold⟩
      · exact (hapart j z hj hzold).symm
      · exact h.disjoint j k z w hjk hzold hwold
  · intro j z hz
    rcases getElem?_set_cases hz with ⟨-, rfl⟩ | ⟨-, hz⟩
    · exact hok
    · exact h.ok j z hz

/-- A session without locks and writes. -/
theorem Session.Ok.plain {p : Program K V M E} {c : Committed K V E} (h : rules.Safe p [] [] c) :
    Session.Ok rules c { program := p } :=
  ⟨by simp, h⟩

/-- A commit that keeps the guarantee and the invariant is one the other sessions rely on. -/
theorem System.Valid.commit {events : List E} {next : Program K V M E} (h : s.Valid rules)
    (hx : s.sessions[i]? = some x)
    (hguarantee : rules.guarantee x.locks s.toCommitted
      ⟨applyWrites x.writes s.rows, s.log ++ events⟩)
    (hinv : rules.inv ⟨applyWrites x.writes s.rows, s.log ++ events⟩)
    (hsafe : rules.Safe next [] [] ⟨applyWrites x.writes s.rows, s.log ++ events⟩) :
    ({ s.put i { program := next } with
        rows := applyWrites x.writes s.rows, log := s.log ++ events } : System K V M E).Valid
      rules := by
  have hother : ∀ (j : ℕ) (z : Session K V M E), j ≠ i → s.sessions[j]? = some z →
      rules.Others z.locks s.toCommitted ⟨applyWrites x.writes s.rows, s.log ++ events⟩ := by
    intro j z hj hz
    refine Relation.ReflTransGen.single ⟨x.locks, ?_, ?_, hguarantee, hinv⟩
    · exact h.disjoint i j x z (Ne.symm hj) hx hz
    · intro key hkey
      apply get?_applyWrites_of_forall_ne
      rintro w hw rfl
      exact hkey ((h.ok i x hx).covered w hw)
  refine ⟨hinv, ?_, ?_⟩
  · intro j k z w hjk hz hw
    rcases getElem?_set_cases hz with ⟨-, rfl⟩ | ⟨hj, hz⟩
    · exact List.disjoint_nil_left _
    · rcases getElem?_set_cases hw with ⟨-, rfl⟩ | ⟨hk, hw⟩
      · exact List.disjoint_nil_right _
      · exact h.disjoint j k z w hjk hz hw
  · intro j z hz
    rcases getElem?_set_cases hz with ⟨-, rfl⟩ | ⟨hj, hz⟩
    · exact .plain hsafe
    · have hok := h.ok j z hz
      exact ⟨hok.covered, hok.safe.of_others (hother j z hj hz)⟩

/-- The committed rows stay as they are, or a commit changes them within its guarantee. -/
def Rules.Moves (rules : Rules K V E) (c d : Committed K V E) : Prop :=
  d = c ∨ ∃ locks, rules.guarantee locks c d

/-- A lock that is taken now is no other session's. -/
theorem System.Valid.advance (h : s.Valid rules) (hx : s.sessions[i]? = some x) :
    (s.advance i x).Valid rules ∧
      rules.Moves s.toCommitted (s.advance i x).toCommitted := by
  obtain ⟨hcovered, hsafe⟩ := h.ok i x hx
  have hrefl : rules.Others x.locks s.toCommitted s.toCommitted := Rules.Others.refl _ _
  have hsame : ∀ {y : Session K V M E}, (s.put i y).toCommitted = s.toCommitted := rfl
  have hkeep : ∀ key ∈ x.locks, key ∈ x.locks ∨ s.free i key = true := fun key hkey => .inl hkey
  have htake : ∀ key, s.free i key = true →
      ∀ l ∈ key :: x.locks, l ∈ x.locks ∨ s.free i l = true := by
    intro key hfree l hl
    rcases List.mem_cons.mp hl with rfl | hl
    · exact .inr hfree
    · exact .inl hl
  have hgrow : ∀ key (change : Option V → Option V), ∀ w ∈ x.writes ++ [(key, change)],
      w.1 ∈ key :: x.locks := by
    intro key change w hw
    rcases List.mem_append.mp hw with hw | hw
    · exact List.mem_cons_of_mem _ (hcovered w hw)
    · rw [List.mem_singleton.mp hw]
      exact List.mem_cons_self
  unfold System.advance
  cases hp : x.program with
  | done => exact ⟨h, .inl rfl⟩
  | read next =>
    rw [hp] at hsafe
    exact ⟨h.put hx hkeep ⟨hcovered, hsafe _ hrefl⟩, .inl hsame⟩
  | lock key next =>
    rw [hp] at hsafe
    by_cases hfree : s.free i key = true
    · simp only [hfree, if_true]
      refine ⟨h.put hx ?_ ⟨?_, hsafe _ hrefl⟩, .inl hsame⟩
      · unfold lockedKeys
        split_ifs with hrow
        · exact htake key hfree
        · exact hkeep
      · intro w hw
        unfold lockedKeys
        split_ifs with hrow
        · exact List.mem_cons_of_mem _ (hcovered w hw)
        · exact hcovered w hw
    · simp only [hfree]
      exact ⟨h, .inl rfl⟩
  | hold key next =>
    rw [hp] at hsafe
    by_cases hfree : s.free i key = true
    · simp only [hfree, if_true]
      exact ⟨h.put hx (htake key hfree)
        ⟨fun w hw => List.mem_cons_of_mem _ (hcovered w hw), hsafe _ hrefl⟩, .inl hsame⟩
    · simp only [hfree]
      exact ⟨h, .inl rfl⟩
  | lockFree choose next =>
    rw [hp] at hsafe
    refine ⟨h.put hx ?_ ⟨fun w hw => List.mem_append_right _ (hcovered w hw),
      hsafe _ hrefl (s.free i)⟩, .inl hsame⟩
    intro key hkey
    rcases List.mem_append.mp hkey with hkey | hkey
    · obtain ⟨⟨l, row⟩, hmem, rfl⟩ := List.mem_map.mp hkey
      obtain ⟨-, hrow⟩ := mem_pick.mp hmem
      rw [Dict.get?_restrict] at hrow
      split_ifs at hrow with hfree
      exact .inr hfree
    · exact .inl hkey
  | write key change next =>
    rw [hp] at hsafe
    by_cases hfree : s.free i key = true
    · simp only [hfree, if_true]
      exact ⟨h.put hx (htake key hfree) ⟨hgrow key change, hsafe _ hrefl⟩, .inl hsame⟩
    · simp only [hfree]
      exact ⟨h, .inl rfl⟩
  | insert key row next =>
    rw [hp] at hsafe
    by_cases hfree : s.free i key = true
    · simp only [hfree, if_true]
      by_cases hrow : Dict.get? key (applyWrites x.writes s.rows) = none
      · simp only [hrow, if_true]
        exact ⟨h.put hx (htake key hfree) ⟨hgrow key _, hsafe _ hrefl hrow⟩, .inl hsame⟩
      · simp only [hrow, if_false]
        exact ⟨h.put hx (by simp) (.plain trivial), .inl hsame⟩
    · simp only [hfree]
      exact ⟨h, .inl rfl⟩
  | memory update next =>
    rw [hp] at hsafe
    have hput := h.put hx hkeep (y := { x with program := next s.memory })
      ⟨hcovered, hsafe s.memory⟩
    exact ⟨⟨hput.inv, hput.disjoint, hput.ok⟩, .inl rfl⟩
  | commit events next =>
    rw [hp] at hsafe
    obtain ⟨hguarantee, hinv, hnext⟩ := hsafe _ hrefl
    exact ⟨h.commit hx hguarantee hinv hnext, .inr ⟨x.locks, hguarantee⟩⟩
  | rollback next =>
    rw [hp] at hsafe
    exact ⟨h.put hx (by simp) (.plain (hsafe _ hrefl)), .inl hsame⟩

variable {code : R → Program K V M E}

theorem System.Valid.step {a : Action R}
    (hcode : ∀ r, a = .start r → ∀ c, rules.inv c → rules.Safe (code r) [] [] c)
    (h : s.Valid rules) :
    (step code s a).Valid rules ∧ rules.Moves s.toCommitted (step code s a).toCommitted := by
  cases a with
  | start request =>
    refine ⟨⟨h.inv, ?_, ?_⟩, .inl rfl⟩
    · intro j k z w hjk hz hw
      rcases getElem?_append_singleton hz with hz | ⟨-, rfl⟩
      · rcases getElem?_append_singleton hw with hw | ⟨-, rfl⟩
        · exact h.disjoint j k z w hjk hz hw
        · exact List.disjoint_nil_right _
      · exact List.disjoint_nil_left _
    · intro j z hz
      rcases getElem?_append_singleton hz with hz | ⟨-, rfl⟩
      · exact h.ok j z hz
      · exact .plain (hcode request rfl _ h.inv)
  | run i =>
    simp only [ReadCommitted.step]
    cases hx : s.sessions[i]? with
    | none => exact ⟨h, .inl rfl⟩
    | some x => exact h.advance hx
  | crash i =>
    refine ⟨?_, .inl rfl⟩
    cases hx : s.sessions[i]? with
    | none =>
      have hnone : s.put i { program := .done } = s := by
        unfold System.put
        rw [List.set_eq_of_length_le (List.getElem?_eq_none_iff.mp hx)]
      show (s.put i { program := .done }).Valid rules
      rw [hnone]
      exact h
    | some x => exact h.put hx (by simp) (.plain trivial)

theorem step_log (code : R → Program K V M E) (s : System K V M E) (a : Action R) :
    (step code s a).log = s.log ++ s.commits a := by
  cases a with
  | start request => simp [step, System.commits]
  | crash i => simp [step, System.commits, System.put]
  | run i =>
    simp only [ReadCommitted.step, System.commits]
    cases hx : s.sessions[i]? with
    | none => simp
    | some x =>
      simp only [System.advance, Option.map_some, Option.getD_some]
      cases x.program with
      | commit events next => rfl
      | done => simp [Program.commits]
      | read next => simp [Program.commits, System.put]
      | lock key next =>
        simp only [Program.commits, List.append_nil]
        split_ifs <;> rfl
      | hold key next =>
        simp only [Program.commits, List.append_nil]
        split_ifs <;> rfl
      | lockFree choose next => simp [Program.commits, System.put]
      | write key change next =>
        simp only [Program.commits, List.append_nil]
        split_ifs <;> rfl
      | insert key row next =>
        simp only [Program.commits, List.append_nil]
        split_ifs <;> rfl
      | memory update next => simp [Program.commits, System.put]
      | rollback next => simp [Program.commits, System.put]

variable (rules code) in
/-- Where every request that is started is served by a safe program, the invariant holds after
every run of sessions, in any interleaving and with any crashes, and every step keeps the
guarantee. -/
theorem run_safe_of_started {actions : List (Action R)}
    (hcode : ∀ r, .start r ∈ actions → ∀ c, rules.inv c → rules.Safe (code r) [] [] c)
    {c : Committed K V E} (hc : rules.inv c) (m : M) :
    rules.inv (Steps.run (step code) { toCommitted := c, memory := m } actions).toCommitted ∧
      Steps.Along (step code)
        (fun s a => rules.Moves s.toCommitted (step code s a).toCommitted)
        { toCommitted := c, memory := m } actions := by
  have hinitial : ({ toCommitted := c, memory := m } : System K V M E).Valid rules :=
    ⟨hc, by simp, by simp⟩
  have hmem : Steps.Along (step code) (fun _ a => a ∈ actions)
      ({ toCommitted := c, memory := m } : System K V M E) actions :=
    Steps.along_mem _ _
  have hkeep : ∀ (s : System K V M E) a, s.Valid rules → a ∈ actions →
      (step code s a).Valid rules ∧ rules.Moves s.toCommitted (step code s a).toCommitted :=
    fun s a hs ha => hs.step fun r hr => hcode r (hr ▸ ha)
  have hstep : ∀ (s : System K V M E) a, s.Valid rules → a ∈ actions →
      (step code s a).Valid rules := fun s a hs ha => (hkeep s a hs ha).1
  refine ⟨(Steps.run_invariant hstep hinitial hmem).inv, ?_⟩
  exact Steps.along_of_invariant hstep (fun s a hs ha => (hkeep s a hs ha).2) hinitial hmem

variable (rules code) in
theorem run_safe (hcode : ∀ r c, rules.inv c → rules.Safe (code r) [] [] c) {c : Committed K V E}
    (hc : rules.inv c) (m : M) (actions : List (Action R)) :
    rules.inv (Steps.run (step code) { toCommitted := c, memory := m } actions).toCommitted ∧
      Steps.Along (step code)
        (fun s a => rules.Moves s.toCommitted (step code s a).toCommitted)
        { toCommitted := c, memory := m } actions :=
  run_safe_of_started rules code (fun r _ => hcode r) hc m

end runs

end ReadCommitted
