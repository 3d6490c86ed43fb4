import Mathlib.Data.List.Nodup
import Mathlib.Tactic

/-! A queue with one place for each key, told by positions alone: which item opened a place and
which item it holds. Items without a key have places of their own, and seeded keys have none. -/
namespace KeyedQueue

variable {κ : Type*}

structure Slot (κ : Type*) where
  key : Option κ
  /-- The position of the item that opened the place. -/
  first : ℕ
  /-- The position of the item it holds. -/
  held : ℕ
  deriving DecidableEq, Repr

/-- The item at position `n` comes in. -/
def enter [DecidableEq κ] (latest : Bool) (seeds : List κ) (slots : List (Slot κ)) (n : ℕ) (key : Option κ) :
    List (Slot κ) :=
  match key with
  | none => slots ++ [⟨none, n, n⟩]
  | some k =>
    if k ∈ seeds then slots
    else if some k ∈ slots.map (·.key) then
      slots.map fun s => if latest ∧ s.key = some k then { s with held := n } else s
    else slots ++ [⟨some k, n, n⟩]

def run [DecidableEq κ] (latest : Bool) (seeds : List κ) (keys : List (Option κ)) : List (Slot κ) :=
  keys.zipIdx.foldl (fun slots x => enter latest seeds slots x.2 x.1) []

/-- The item at a position opens a place: it has no key, or is the first with its key and the key
is not seeded. -/
def Opens (seeds : List κ) (keys : List (Option κ)) (i : ℕ) : Prop :=
  ∃ key, keys[i]? = some key ∧
    ∀ k, key = some k → k ∉ seeds ∧ ∀ j < i, keys[j]? ≠ some (some k)

/-- What the place opened at `i` holds in the end: the item itself, or the last one with its key. -/
def Holds (latest : Bool) (keys : List (Option κ)) (i j : ℕ) : Prop :=
  match latest, keys[i]? with
  | true, some (some k) => keys[j]? = some (some k) ∧ ∀ m, j < m → keys[m]? ≠ some (some k)
  | _, _ => j = i

/-- The places are those the items open, in order, and hold what they are to hold. -/
structure Exact (latest : Bool) (seeds : List κ) (keys : List (Option κ)) (slots : List (Slot κ)) :
    Prop where
  key : ∀ s ∈ slots, keys[s.first]? = some s.key
  ordered : (slots.map (·.first)).Pairwise (· < ·)
  opened : ∀ i, i ∈ slots.map (·.first) ↔ Opens seeds keys i
  held : ∀ s ∈ slots, Holds latest keys s.first s.held

section Concat

variable {latest : Bool} {seeds : List κ} {keys : List (Option κ)} {slots : List (Slot κ)}
  {key : Option κ}

theorem run_concat [DecidableEq κ] (latest : Bool) (seeds : List κ) (keys : List (Option κ)) (key : Option κ) :
    run latest seeds (keys ++ [key]) =
      enter latest seeds (run latest seeds keys) keys.length key := by
  simp [run, List.zipIdx_append, List.foldl_append]

theorem Opens.lt {i : ℕ} (h : Opens seeds keys i) : i < keys.length := by
  obtain ⟨key, hkey, -⟩ := h
  exact (List.getElem?_eq_some_iff.mp hkey).1

/-- An item opens a place whatever comes after it. -/
theorem opens_concat {i : ℕ} : Opens seeds (keys ++ [key]) i ↔ Opens seeds keys i ∨
    (i = keys.length ∧ ∀ k, key = some k → k ∉ seeds ∧ some k ∉ keys) := by
  constructor
  · rintro ⟨key', hkey, hfirst⟩
    have hlt : i < keys.length + 1 := by simpa using (List.getElem?_eq_some_iff.mp hkey).1
    rcases Nat.lt_succ_iff_lt_or_eq.mp hlt with hi | rfl
    · left
      refine ⟨key', by rwa [List.getElem?_append_left hi] at hkey, fun k hk => ?_⟩
      obtain ⟨hseed, hbefore⟩ := hfirst k hk
      refine ⟨hseed, fun j hj => ?_⟩
      have hne := hbefore j hj
      rwa [List.getElem?_append_left (by omega)] at hne
    · right
      obtain rfl : key = key' := by simpa using hkey
      refine ⟨rfl, fun k hk => ?_⟩
      obtain ⟨hseed, hbefore⟩ := hfirst k hk
      refine ⟨hseed, fun hmem => ?_⟩
      obtain ⟨j, hj, hget⟩ := List.mem_iff_getElem.mp hmem
      apply hbefore j hj
      rw [List.getElem?_append_left hj, List.getElem?_eq_getElem hj, hget]
  · rintro (h | ⟨rfl, hnew⟩)
    · have hlt := h.lt
      obtain ⟨key', hkey, hfirst⟩ := h
      refine ⟨key', by rwa [List.getElem?_append_left hlt], fun k hk => ?_⟩
      obtain ⟨hseed, hbefore⟩ := hfirst k hk
      refine ⟨hseed, fun j hj => ?_⟩
      rw [List.getElem?_append_left (by omega)]
      exact hbefore j hj
    · refine ⟨key, by simp, fun k hk => ?_⟩
      obtain ⟨hseed, habsent⟩ := hnew k hk
      refine ⟨hseed, fun j hj hget => habsent ?_⟩
      rw [List.getElem?_append_left hj] at hget
      exact List.mem_of_getElem? hget

/-- What a place holds does not change while its key does not come again. -/
theorem holds_concat {i j : ℕ} (hi : i < keys.length) (h : Holds latest keys i j)
    (hother : latest = true → ∀ k, key = some k → keys[i]? ≠ some (some k)) :
    Holds latest (keys ++ [key]) i j := by
  have hget : (keys ++ [key])[i]? = keys[i]? := List.getElem?_append_left hi
  unfold Holds at h ⊢
  rw [hget]
  cases latest with
  | false => exact h
  | true =>
    cases hkey : keys[i]? with
    | none => rwa [hkey] at h
    | some key' =>
      cases key' with
      | none => rwa [hkey] at h
      | some k =>
        rw [hkey] at h
        obtain ⟨hj, hlast⟩ := h
        have hjlt : j < keys.length := (List.getElem?_eq_some_iff.mp hj).1
        refine ⟨by rwa [List.getElem?_append_left hjlt], fun m hm hsome => ?_⟩
        have hmlt : m < keys.length + 1 := by simpa using (List.getElem?_eq_some_iff.mp hsome).1
        rcases Nat.lt_succ_iff_lt_or_eq.mp hmlt with hlt | rfl
        · rw [List.getElem?_append_left hlt] at hsome
          exact hlast m hm hsome
        · have hnew : key = some k := by simpa using hsome
          exact hother rfl k hnew hkey

/-- The last item is what a place just opened or just refreshed holds. -/
theorem holds_last {i : ℕ} (h : latest = true ∨ i = keys.length)
    (hkey : (keys ++ [key])[i]? = some key) (hsome : i ≠ keys.length → key ≠ none) :
    Holds latest (keys ++ [key]) i keys.length := by
  unfold Holds
  rw [hkey]
  cases latest with
  | false => exact (h.resolve_left (by simp)).symm
  | true =>
    cases key with
    | none =>
      by_cases hi : i = keys.length
      · exact hi.symm
      · exact absurd rfl (hsome hi)
    | some k =>
      refine ⟨by simp, fun m hm hget => ?_⟩
      have hlt : m < keys.length + 1 := by simpa using (List.getElem?_eq_some_iff.mp hget).1
      omega

end Concat

section Exact

variable {latest : Bool} {seeds : List κ} {keys : List (Option κ)} {slots : List (Slot κ)}
  {key : Option κ} {k : κ}

theorem Exact.opens (h : Exact latest seeds keys slots) {s : Slot κ} (hs : s ∈ slots) :
    Opens seeds keys s.first :=
  (h.opened s.first).mp (List.mem_map_of_mem hs)

theorem Exact.first_lt (h : Exact latest seeds keys slots) {s : Slot κ} (hs : s ∈ slots) :
    s.first < keys.length := (h.opens hs).lt

theorem exists_first (h : some k ∈ keys) :
    ∃ i : ℕ, keys[i]? = some (some k) ∧ ∀ j < i, keys[j]? ≠ some (some k) := by
  have hex : ∃ i : ℕ, keys[i]? = some (some k) := List.mem_iff_getElem?.mp h
  classical
  exact ⟨Nat.find hex, Nat.find_spec hex, fun j hj => Nat.find_min hex hj⟩

/-- The keys with a place are those that came in and are not seeded. -/
theorem Exact.mem_keys_iff (h : Exact latest seeds keys slots) :
    some k ∈ slots.map (·.key) ↔ k ∉ seeds ∧ some k ∈ keys := by
  constructor
  · intro hmem
    obtain ⟨s, hs, hkey⟩ := List.mem_map.mp hmem
    have hget := h.key s hs
    rw [hkey] at hget
    obtain ⟨key', hkey', hfirst⟩ := h.opens hs
    obtain rfl : some k = key' := by simpa [hget] using hkey'
    exact ⟨(hfirst k rfl).1, List.mem_of_getElem? hget⟩
  · rintro ⟨hseed, hmem⟩
    obtain ⟨i, hget, hbefore⟩ := exists_first hmem
    have hopens : Opens seeds keys i := by
      refine ⟨some k, hget, fun l hl => ?_⟩
      obtain rfl := Option.some.inj hl
      exact ⟨hseed, hbefore⟩
    obtain ⟨s, hs, rfl⟩ := List.mem_map.mp ((h.opened i).mpr hopens)
    have hkey : some (some k) = some s.key := hget.symm.trans (h.key s hs)
    rw [Option.some.inj hkey]
    exact List.mem_map_of_mem hs

/-- An item that opens a place. -/
theorem Exact.push (h : Exact latest seeds keys slots)
    (hnew : ∀ k, key = some k → k ∉ seeds ∧ some k ∉ keys) :
    Exact latest seeds (keys ++ [key]) (slots ++ [⟨key, keys.length, keys.length⟩]) := by
  have hlast : (keys ++ [key])[keys.length]? = some key := by simp
  refine ⟨?_, ?_, ?_, ?_⟩
  · intro s hs
    rcases List.mem_append.mp hs with hs | hs
    · rw [List.getElem?_append_left (h.first_lt hs)]
      exact h.key s hs
    · obtain rfl := List.mem_singleton.mp hs
      exact hlast
  · rw [List.map_append, List.pairwise_append]
    refine ⟨h.ordered, by simp, ?_⟩
    intro i hi j hj
    obtain ⟨s, hs, rfl⟩ := List.mem_map.mp hi
    obtain rfl : j = keys.length := by simpa using hj
    exact h.first_lt hs
  · intro i
    rw [List.map_append, List.mem_append, h.opened, opens_concat]
    apply or_congr Iff.rfl
    constructor
    · intro hi
      exact ⟨by simpa using hi, hnew⟩
    · rintro ⟨rfl, -⟩
      simp
  · intro s hs
    rcases List.mem_append.mp hs with hs | hs
    · apply holds_concat (h.first_lt hs) (h.held s hs)
      intro _ k hk hget
      exact (hnew k hk).2 (List.mem_of_getElem? hget)
    · obtain rfl := List.mem_singleton.mp hs
      exact holds_last (.inr rfl) hlast fun hne => absurd rfl hne

/-- An item whose key is seeded or has come before opens no place. -/
theorem Exact.opened_keep (h : Exact latest seeds keys slots) (hdup : k ∈ seeds ∨ some k ∈ keys)
    (i : ℕ) : i ∈ slots.map (·.first) ↔ Opens seeds (keys ++ [some k]) i := by
  rw [h.opened, opens_concat]
  constructor
  · exact .inl
  · rintro (hi | ⟨-, hnew⟩)
    · exact hi
    · obtain ⟨hseed, habsent⟩ := hnew k rfl
      exact absurd hdup (by simp [hseed, habsent])

theorem Exact.key_keep (h : Exact latest seeds keys slots) {s : Slot κ} (hs : s ∈ slots) :
    (keys ++ [key])[s.first]? = some s.key := by
  rw [List.getElem?_append_left (h.first_lt hs)]
  exact h.key s hs

/-- An item that is passed over. -/
theorem Exact.keep (h : Exact latest seeds keys slots) (hdup : k ∈ seeds ∨ some k ∈ keys)
    (hstay : latest = true → some k ∉ slots.map (·.key)) :
    Exact latest seeds (keys ++ [some k]) slots := by
  refine ⟨fun s hs => h.key_keep hs, h.ordered, h.opened_keep hdup, ?_⟩
  intro s hs
  apply holds_concat (h.first_lt hs) (h.held s hs)
  intro hl l hk hget
  obtain rfl := Option.some.inj hk
  have hkey : s.key = some k := Option.some.inj ((h.key s hs).symm.trans hget)
  exact hstay hl (hkey ▸ List.mem_map_of_mem hs)

/-- An item that takes the place of an earlier one with its key. -/
theorem Exact.refresh [DecidableEq κ] (h : Exact true seeds keys slots) (hdup : some k ∈ keys) :
    Exact true seeds (keys ++ [some k])
      (slots.map fun s => if s.key = some k then { s with held := keys.length } else s) := by
  have hfirst : (slots.map fun s => if s.key = some k then { s with held := keys.length } else s).map
      (·.first) = slots.map (·.first) := by
    rw [List.map_map]
    apply List.map_congr_left
    intro s _
    show (if s.key = some k then { s with held := keys.length } else s).first = s.first
    split_ifs <;> rfl
  refine ⟨?_, ?_, ?_, ?_⟩
  · intro t ht
    obtain ⟨s, hs, rfl⟩ := List.mem_map.mp ht
    have hkey : (keys ++ [some k])[s.first]? = some s.key := h.key_keep hs
    split_ifs <;> exact hkey
  · rw [hfirst]
    exact h.ordered
  · rw [hfirst]
    exact h.opened_keep (.inr hdup)
  · intro t ht
    obtain ⟨s, hs, rfl⟩ := List.mem_map.mp ht
    have hkey : (keys ++ [some k])[s.first]? = some s.key := h.key_keep hs
    split_ifs with hsame
    · rw [hsame] at hkey
      exact holds_last (.inl rfl) hkey fun _ => by simp
    · apply holds_concat (h.first_lt hs) (h.held s hs)
      intro _ l hl hget
      obtain rfl := Option.some.inj hl
      exact hsame (Option.some.inj ((h.key s hs).symm.trans hget))

theorem Exact.enter [DecidableEq κ] (h : Exact latest seeds keys slots) (key : Option κ) :
    Exact latest seeds (keys ++ [key]) (enter latest seeds slots keys.length key) := by
  cases key with
  | none => exact h.push (by simp)
  | some k =>
    unfold KeyedQueue.enter
    simp only
    by_cases hseed : k ∈ seeds
    · rw [if_pos hseed]
      refine h.keep (.inl hseed) fun _ hmem => ?_
      exact (h.mem_keys_iff.mp hmem).1 hseed
    · rw [if_neg hseed]
      by_cases hmem : some k ∈ slots.map (·.key)
      · rw [if_pos hmem]
        have hdup := (h.mem_keys_iff.mp hmem).2
        cases latest with
        | false => simpa using h.keep (.inr hdup) (by simp)
        | true => simpa using h.refresh hdup
      · rw [if_neg hmem]
        apply h.push
        intro l hl
        obtain rfl := Option.some.inj hl
        exact ⟨hseed, fun hk => hmem (h.mem_keys_iff.mpr ⟨hseed, hk⟩)⟩

/-- The queue after any items. -/
theorem exact_run [DecidableEq κ] (latest : Bool) (seeds : List κ) (keys : List (Option κ)) :
    Exact latest seeds keys (run latest seeds keys) := by
  induction keys using List.reverseRecOn with
  | nil =>
    refine ⟨by simp [run], by simp [run], fun i => ?_, by simp [run]⟩
    constructor
    · intro hi
      cases hi
    · rintro ⟨key, hkey, -⟩
      cases hkey
  | append_singleton keys key ih =>
    rw [run_concat]
    exact ih.enter key

/-- No key has two places. -/
theorem Exact.nodup_keys (h : Exact latest seeds keys slots) :
    (slots.filterMap (·.key)).Nodup := by
  have hpair : slots.Pairwise fun s t => s.first < t.first :=
    List.pairwise_map.mp h.ordered
  rw [List.Nodup, List.pairwise_filterMap]
  refine hpair.imp_of_mem ?_
  intro s t hs ht hlt k hk l hl hkl
  subst hkl
  obtain ⟨key', hkey', hfirst⟩ := h.opens ht
  obtain rfl : t.key = key' := Option.some.inj ((h.key t ht).symm.trans hkey')
  apply (hfirst k hl).2 s.first hlt
  rw [h.key s hs, hk]

/-- An item without a key is held by one place and no other. -/
theorem Exact.keyless (h : Exact latest seeds keys slots) {i : ℕ} (hi : keys[i]? = some none) :
    ∃! s, s ∈ slots ∧ s.held = i := by
  have hopens : Opens seeds keys i := ⟨none, hi, fun k hk => by cases hk⟩
  obtain ⟨s, hs, hfirst⟩ := List.mem_map.mp ((h.opened i).mpr hopens)
  have hself : ∀ t ∈ slots, t.held = i → t.first = i := by
    intro t ht hheld
    have hholds := h.held t ht
    unfold Holds at hholds
    split at hholds
    · next k _ =>
      rw [hheld, hi] at hholds
      cases hholds.1
    · exact hholds.symm.trans hheld
  have hheld : s.held = i := by
    have hholds := h.held s hs
    unfold Holds at hholds
    rw [hfirst, hi] at hholds
    cases latest <;> exact hholds
  refine ⟨s, ⟨hs, hheld⟩, ?_⟩
  rintro t ⟨ht, htheld⟩
  have hinj := List.inj_on_of_nodup_map (h.ordered.imp fun hlt => Nat.ne_of_lt hlt)
  exact hinj ht hs ((hself t ht htheld).trans hfirst.symm)

end Exact

end KeyedQueue
