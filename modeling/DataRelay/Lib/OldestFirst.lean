import Mathlib.Data.List.Sort
import Mathlib.Tactic

/-! Taking rows out of a table in batches, the least first. The rows of a batch are found in order
and taken out by their identifiers. -/
namespace OldestFirst

variable {ρ ι : Type*} [LinearOrder ρ] [DecidableEq ι] (ident : ρ → ι) (picks : ρ → Bool)

/-- The rows that are to go, in the order they go in. -/
def queue (rows : List ρ) : List ρ := (rows.filter picks).insertionSort (· ≤ ·)

/-- The rows of the next batch. -/
def batch (room : ℕ) (rows : List ρ) : List ρ := (queue picks rows).take room

/-- What a batch leaves. -/
def rest (room : ℕ) (rows : List ρ) : List ρ :=
  rows.filter fun r => ident r ∉ (batch picks room rows).map ident

/-- How many rows a batch takes out. -/
def taken (room : ℕ) (rows : List ρ) : ℕ :=
  (rows.filter fun r => ident r ∈ (batch picks room rows).map ident).length

variable {ident picks} {rows : List ρ}

theorem queue_perm : (queue picks rows).Perm (rows.filter picks) := List.perm_insertionSort ..

theorem queue_pairwise : (queue picks rows).Pairwise (· ≤ ·) := List.pairwise_insertionSort ..

@[simp] theorem mem_queue {r : ρ} : r ∈ queue picks rows ↔ r ∈ rows ∧ picks r = true := by
  rw [queue_perm.mem_iff, List.mem_filter]

theorem length_queue : (queue picks rows).length = (rows.filter picks).length :=
  queue_perm.length_eq

theorem mem_of_mem_batch {n : ℕ} {r : ρ} (h : r ∈ batch picks n rows) :
    r ∈ rows ∧ picks r = true :=
  mem_queue.1 (List.mem_of_mem_take h)

/-- A row is out after a batch if the batch has it. -/
theorem mem_rest_iff (hnodup : (rows.map ident).Nodup) {n : ℕ} {r : ρ} :
    r ∈ rest ident picks n rows ↔ r ∈ rows ∧ r ∉ batch picks n rows := by
  simp only [rest, List.mem_filter, decide_eq_true_eq, List.mem_map]
  apply and_congr_right
  intro hr
  apply not_congr
  constructor
  · rintro ⟨r', hr', hid⟩
    rwa [← List.inj_on_of_nodup_map hnodup (mem_of_mem_batch hr').1 hr hid]
  · exact fun h => ⟨r, h, rfl⟩

variable (ident picks) in
/-- A batch of identified rows takes out as many rows as it has. -/
theorem taken_eq (hnodup : (rows.map ident).Nodup) (n : ℕ) :
    taken ident picks n rows = min n (rows.filter picks).length := by
  have hrows : rows.Nodup := List.Nodup.of_map _ hnodup
  have hbatch : (batch picks n rows).Nodup :=
    (queue_perm.nodup_iff.2 (hrows.filter _)).sublist (List.take_sublist _ _)
  have hperm : (rows.filter fun r => decide (ident r ∈ (batch picks n rows).map ident)).Perm
      (batch picks n rows) := by
    rw [List.perm_ext_iff_of_nodup (hrows.filter _) hbatch]
    intro r
    simp only [List.mem_filter, decide_eq_true_eq, List.mem_map]
    constructor
    · rintro ⟨hr, r', hr', hid⟩
      rwa [← List.inj_on_of_nodup_map hnodup (mem_of_mem_batch hr').1 hr hid]
    · exact fun h => ⟨(mem_of_mem_batch h).1, r, h, rfl⟩
  rw [taken, hperm.length_eq, batch, List.length_take, length_queue]

omit [LinearOrder ρ] in
theorem length_filter_add (rows : List ρ) (condition : ρ → Bool) :
    (rows.filter condition).length + (rows.filter fun r => !condition r).length = rows.length := by
  have hsplit := List.length_eq_countP_add_countP (l := rows) condition
  rw [List.countP_eq_length_filter, List.countP_eq_length_filter] at hsplit
  rw [hsplit]
  congr 3
  funext r
  cases condition r <;> rfl

variable (ident picks rows) in
theorem taken_add_length_rest (n : ℕ) :
    taken ident picks n rows + (rest ident picks n rows).length = rows.length := by
  have hsplit := length_filter_add rows fun r =>
    decide (ident r ∈ (batch picks n rows).map ident)
  simp only [← decide_not] at hsplit
  exact hsplit

variable (ident picks) in
theorem nodup_rest (hnodup : (rows.map ident).Nodup) (n : ℕ) :
    ((rest ident picks n rows).map ident).Nodup :=
  hnodup.sublist (List.Sublist.map _ List.filter_sublist)

/-- After a batch the queue goes on behind it. -/
theorem queue_rest (hnodup : (rows.map ident).Nodup) (n : ℕ) :
    queue picks (rest ident picks n rows) = (queue picks rows).drop n := by
  have hrows : rows.Nodup := List.Nodup.of_map _ hnodup
  have hqueue : (queue picks rows).Nodup := queue_perm.nodup_iff.2 (hrows.filter _)
  have hsplit := List.take_append_drop n (queue picks rows)
  have hdisjoint : ((queue picks rows).take n).Disjoint ((queue picks rows).drop n) := by
    rw [← hsplit] at hqueue
    exact List.disjoint_of_nodup_append hqueue
  have hperm : (queue picks (rest ident picks n rows)).Perm ((queue picks rows).drop n) := by
    rw [List.perm_ext_iff_of_nodup
      (queue_perm.nodup_iff.2 ((List.Nodup.of_map _ (nodup_rest ident picks hnodup n)).filter _))
      (hqueue.sublist (List.drop_sublist _ _))]
    intro r
    rw [mem_queue, mem_rest_iff hnodup]
    constructor
    · rintro ⟨⟨hr, hnot⟩, hpicks⟩
      have hmem : r ∈ queue picks rows := mem_queue.2 ⟨hr, hpicks⟩
      rw [← hsplit] at hmem
      exact (List.mem_append.1 hmem).resolve_left hnot
    · intro h
      obtain ⟨hr, hpicks⟩ := mem_queue.1 (List.mem_of_mem_drop h)
      exact ⟨⟨hr, fun hb => hdisjoint hb h⟩, hpicks⟩
  exact hperm.eq_of_pairwise' queue_pairwise (queue_pairwise.sublist (List.drop_sublist _ _))

theorem length_filter_rest (hnodup : (rows.map ident).Nodup) (n : ℕ) :
    ((rest ident picks n rows).filter picks).length = (rows.filter picks).length - n := by
  rw [← length_queue, queue_rest hnodup, List.length_drop, length_queue]

/-- A batch after a batch is one batch of both sizes. -/
theorem rest_rest (hnodup : (rows.map ident).Nodup) (n m : ℕ) :
    rest ident picks m (rest ident picks n rows) = rest ident picks (n + m) rows := by
  have hbatch : batch picks m (rest ident picks n rows) = ((queue picks rows).drop n).take m := by
    rw [batch, queue_rest hnodup]
  rw [rest, hbatch, rest, rest, List.filter_filter]
  congr 1
  funext r
  rw [batch, batch, List.take_add, List.map_append]
  simp [List.mem_append, Bool.and_comm]

theorem rest_zero : rest ident picks 0 rows = rows := by simp [rest, batch]

/-- A batch as large as the queue takes all of it. -/
theorem rest_of_length_le (hnodup : (rows.map ident).Nodup) {n : ℕ}
    (hn : (rows.filter picks).length ≤ n) :
    rest ident picks n rows = rows.filter fun r => !picks r := by
  rw [rest]
  apply List.filter_congr
  intro r hr
  have hbatch : batch picks n rows = queue picks rows :=
    List.take_of_length_le (by rw [length_queue]; exact hn)
  rw [hbatch]
  have hiff : ident r ∈ (queue picks rows).map ident ↔ picks r = true := by
    rw [List.mem_map]
    constructor
    · rintro ⟨r', hr', hid⟩
      rw [← List.inj_on_of_nodup_map hnodup (mem_queue.1 hr').1 hr hid]
      exact (mem_queue.1 hr').2
    · exact fun h => ⟨r, mem_queue.2 ⟨hr, h⟩, rfl⟩
  cases hp : picks r <;> simp [hiff, hp]

end OldestFirst
