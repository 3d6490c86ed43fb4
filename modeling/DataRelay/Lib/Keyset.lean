import Mathlib.Data.List.Perm.Subperm
import Mathlib.Order.WithBot
import Mathlib.Tactic

/-! Reading a table in pages by a cursor: each page holds the first rows past the cursor in
ascending order, and the cursor moves to the last of them. Rows of one key may come in any
order. -/
namespace Keyset

variable {ρ κ : Type*} [LinearOrder κ] (key : ρ → κ) (limit : ℕ)

/-- The rows past a cursor; `⊥` is before all rows. -/
def above (cursor : WithBot κ) (table : List ρ) : List ρ :=
  table.filter fun r => decide (cursor < (key r : WithBot κ))

/-- The first `limit` rows of the rows past the cursor in some ascending order. -/
def IsPage (table : List ρ) (cursor : WithBot κ) (page : List ρ) : Prop :=
  ∃ rows : List ρ, rows.Perm (above key cursor table) ∧
    rows.Pairwise (fun a b => key a ≤ key b) ∧ page = rows.take limit

/-- The cursor after a page: its last row, if it has one. -/
def advance (cursor : WithBot κ) (page : List ρ) : WithBot κ :=
  (page.getLast?.map fun r => (key r : WithBot κ)).getD cursor

variable {key limit}

@[simp] theorem mem_above {cursor : WithBot κ} {table : List ρ} {r : ρ} :
    r ∈ above key cursor table ↔ r ∈ table ∧ cursor < (key r : WithBot κ) := by
  simp [above]

omit [LinearOrder κ] in
@[simp] theorem advance_nil (cursor : WithBot κ) : advance key cursor ([] : List ρ) = cursor := rfl

omit [LinearOrder κ] in
theorem advance_concat (cursor : WithBot κ) (page : List ρ) (r : ρ) :
    advance key cursor (page ++ [r]) = key r := by simp [advance]

theorem above_append (cursor : WithBot κ) (table new : List ρ) :
    above key cursor (table ++ new) = above key cursor table ++ above key cursor new :=
  List.filter_append ..

theorem above_eq_self {cursor : WithBot κ} {new : List ρ}
    (h : ∀ r ∈ new, cursor < (key r : WithBot κ)) : above key cursor new = new :=
  List.filter_eq_self.mpr fun r hr => by simpa using h r hr

section page

variable {table page : List ρ} {cursor : WithBot κ}

/-- A page and what it leaves. -/
theorem IsPage.split (h : IsPage key limit table cursor page) :
    ∃ tail : List ρ, (page ++ tail).Perm (above key cursor table) ∧
      (page ++ tail).Pairwise (fun a b => key a ≤ key b) ∧
      (tail ≠ [] → page.length = limit) ∧ page.length ≤ limit := by
  obtain ⟨rows, hperm, hsorted, rfl⟩ := h
  refine ⟨rows.drop limit, by simpa using hperm, by simpa using hsorted, fun hne => ?_, by simp⟩
  have hlt : limit < rows.length := by simpa using hne
  simp [hlt.le]

theorem IsPage.mem_above (h : IsPage key limit table cursor page) {r : ρ} (hr : r ∈ page) :
    r ∈ above key cursor table := by
  obtain ⟨tail, hperm, -⟩ := h.split
  exact hperm.mem_iff.mp (List.mem_append_left _ hr)

theorem IsPage.le_advance (h : IsPage key limit table cursor page) {r : ρ} (hr : r ∈ page) :
    (key r : WithBot κ) ≤ advance key cursor page := by
  obtain ⟨tail, -, hsorted, -⟩ := h.split
  have hpage := hsorted.sublist (List.sublist_append_left page tail)
  induction page using List.reverseRecOn with
  | nil => cases hr
  | append_singleton page last _ =>
    rw [advance_concat]
    rcases List.mem_append.mp hr with hr | hr
    · exact WithBot.coe_le_coe.mpr ((List.pairwise_append.mp hpage).2.2 r hr last (by simp))
    · rw [List.mem_singleton.mp hr]

/-- The cursor never moves back. -/
theorem IsPage.cursor_le (h : IsPage key limit table cursor page) :
    cursor ≤ advance key cursor page := by
  cases page with
  | nil => rfl
  | cons r page =>
    have hr : r ∈ r :: page := List.mem_cons_self
    exact (Keyset.mem_above.mp (h.mem_above hr)).2.le.trans (h.le_advance hr)

/-- What is past the new cursor is what the page left, but for rows that tie with its last. -/
theorem IsPage.above_advance (h : IsPage key limit table cursor page) {tail : List ρ}
    (hperm : (page ++ tail).Perm (above key cursor table)) :
    (above key (advance key cursor page) table).Perm
      (above key (advance key cursor page) tail) := by
  have hrest : above key (advance key cursor page) table =
      above key (advance key cursor page) (above key cursor table) := by
    simp only [above, List.filter_filter, ← Bool.decide_and]
    apply List.filter_congr
    intro r _
    exact decide_eq_decide.mpr ⟨fun hr => ⟨hr, h.cursor_le.trans_lt hr⟩, fun hr => hr.1⟩
  have hnone : above key (advance key cursor page) page = [] := by
    rw [above, List.filter_eq_nil_iff]
    intro r hr
    simpa using h.le_advance hr
  rw [hrest]
  refine (hperm.symm.filter _).trans ?_
  change (above key _ (page ++ tail)).Perm _
  rw [above_append, hnone, List.nil_append]

theorem IsPage.eq_nil_iff (h : IsPage key limit table cursor page) (hlimit : 0 < limit) :
    page = [] ↔ above key cursor table = [] := by
  constructor
  · rintro rfl
    obtain ⟨tail, hperm, -, hfull, -⟩ := h.split
    by_cases htail : tail = []
    · subst htail
      simpa using hperm.symm
    · have := hfull htail
      simp at this
      omega
  · intro hnone
    obtain ⟨tail, hperm, -⟩ := h.split
    rw [hnone, List.perm_nil] at hperm
    exact (List.append_eq_nil_iff.mp hperm).1

theorem exists_isPage (key : ρ → κ) (limit : ℕ) (table : List ρ) (cursor : WithBot κ) :
    ∃ page, IsPage key limit table cursor page :=
  ⟨_, _, List.perm_insertionSort (fun a b => key a ≤ key b) _, List.pairwise_insertionSort _ _, rfl⟩

theorem IsPage.above_advance_length_lt (h : IsPage key limit table cursor page) (hne : page ≠ []) :
    (above key (advance key cursor page) table).length < (above key cursor table).length := by
  obtain ⟨tail, hperm, -⟩ := h.split
  have hle := List.length_filter_le
    (fun r => decide (advance key cursor page < (key r : WithBot κ))) tail
  have hpos := List.length_pos_iff.mpr hne
  rw [(h.above_advance hperm).length_eq, ← hperm.length_eq, List.length_append]
  exact lt_of_le_of_lt hle (by omega)

end page

section sweep

variable {start cursor : WithBot κ} {table emitted page : List ρ}

/-- The rows past `start` are those emitted so far, in ascending order, and those still past the
cursor. -/
structure Swept (key : ρ → κ) (start : WithBot κ) (table : List ρ) (cursor : WithBot κ)
    (emitted : List ρ) : Prop where
  perm : (emitted ++ above key cursor table).Perm (above key start table)
  sorted : emitted.Pairwise fun a b => key a < key b
  le_cursor : ∀ r ∈ emitted, (key r : WithBot κ) ≤ cursor
  start_le : start ≤ cursor

theorem Swept.init (start : WithBot κ) (table : List ρ) : Swept key start table start [] :=
  ⟨by simp, by simp, by simp, le_rfl⟩

theorem Swept.append {new : List ρ} (h : Swept key start table cursor emitted)
    (hnew : ∀ r ∈ new, cursor < (key r : WithBot κ)) :
    Swept key start (table ++ new) cursor emitted := by
  refine ⟨?_, h.sorted, h.le_cursor, h.start_le⟩
  rw [above_append, above_append, above_eq_self hnew,
    above_eq_self fun r hr => h.start_le.trans_lt (hnew r hr), ← List.append_assoc]
  exact h.perm.append_right new

/-- With distinct keys a page leaves no ties behind. -/
theorem IsPage.lt_of_mem_tail (hdistinct : (table.map key).Nodup) {tail : List ρ}
    (hperm : (page ++ tail).Perm (above key cursor table))
    (hsorted : (page ++ tail).Pairwise fun a b => key a ≤ key b) {a b : ρ} (ha : a ∈ page)
    (hb : b ∈ tail) : key a < key b := by
  have hnodup : ((page ++ tail).map key).Nodup :=
    (hperm.map key).nodup_iff.mpr (hdistinct.sublist (List.filter_sublist.map key))
  refine lt_of_le_of_ne ((List.pairwise_append.mp hsorted).2.2 a ha b hb) fun heq => ?_
  rw [List.map_append, List.nodup_append] at hnodup
  exact hnodup.2.2 _ (List.mem_map_of_mem ha) _ (List.mem_map_of_mem hb) heq

/-- Reading a page keeps the sweep. -/
theorem Swept.read (h : Swept key start table cursor emitted)
    (hdistinct : (table.map key).Nodup) (hpage : IsPage key limit table cursor page) :
    Swept key start table (advance key cursor page) (emitted ++ page) := by
  obtain ⟨tail, hperm, hsorted, -⟩ := hpage.split
  have htail : above key (advance key cursor page) tail = tail := by
    apply above_eq_self
    intro r hr
    rcases List.eq_nil_or_concat page with rfl | ⟨front, last, rfl⟩
    · exact (mem_above.mp (hperm.mem_iff.mp hr)).2
    · rw [List.concat_eq_append] at hperm hsorted ⊢
      rw [advance_concat, WithBot.coe_lt_coe]
      exact IsPage.lt_of_mem_tail hdistinct hperm hsorted (by simp) hr
  refine ⟨?_, ?_, ?_, h.start_le.trans hpage.cursor_le⟩
  · rw [List.append_assoc]
    refine List.Perm.trans (List.Perm.append_left _ ?_) h.perm
    refine List.Perm.trans (List.Perm.append_left _ ?_) hperm
    exact (hpage.above_advance hperm).trans (by rw [htail])
  · have hstrict : page.Pairwise fun a b => key a < key b := by
      have hnodup : (page.map key).Nodup := by
        have hall : ((page ++ tail).map key).Nodup :=
          (hperm.map key).nodup_iff.mpr (hdistinct.sublist (List.filter_sublist.map key))
        rw [List.map_append] at hall
        exact (List.nodup_append.mp hall).1
      have hle := hsorted.sublist (List.sublist_append_left page tail)
      exact (hle.and (List.pairwise_map.mp hnodup)).imp fun hab => lt_of_le_of_ne hab.1 hab.2
    refine List.pairwise_append.mpr ⟨h.sorted, hstrict, fun a ha b hb => ?_⟩
    exact WithBot.coe_lt_coe.mp
      ((h.le_cursor a ha).trans_lt (mem_above.mp (hpage.mem_above hb)).2)
  · intro r hr
    rcases List.mem_append.mp hr with hr | hr
    · exact (h.le_cursor r hr).trans hpage.cursor_le
    · exact hpage.le_advance hr

/-- A reader that meets an empty page has emitted everything past its start. -/
theorem Swept.complete (h : Swept key start table cursor emitted)
    (hnone : above key cursor table = []) : emitted.Perm (above key start table) := by
  simpa [hnone] using h.perm

end sweep

section drain

variable {table : List ρ}

/-- Reading page after page until one is empty emits the rows `emitted`. -/
inductive Drains (key : ρ → κ) (limit : ℕ) (table : List ρ) : WithBot κ → List ρ → Prop where
  | done {cursor : WithBot κ} (h : IsPage key limit table cursor []) :
    Drains key limit table cursor []
  | read {cursor : WithBot κ} {page rest : List ρ} (hne : page ≠ [])
    (h : IsPage key limit table cursor page)
    (hrest : Drains key limit table (advance key cursor page) rest) :
    Drains key limit table cursor (page ++ rest)

/-- No two equal keys stand on both sides of a page boundary. -/
def Aligned (limit : ℕ) (keys : List κ) : Prop :=
  ∀ n a b, 0 < n → keys[n * limit - 1]? = some a → keys[n * limit]? = some b → a < b

theorem Drains.subperm {cursor : WithBot κ} {emitted : List ρ}
    (h : Drains key limit table cursor emitted) : emitted.Subperm (above key cursor table) := by
  induction h with
  | done h => exact List.nil_subperm
  | read hne h hrest ih =>
    obtain ⟨tail, hperm, -⟩ := h.split
    have hsub := ih.trans ((h.above_advance hperm).subperm.trans List.filter_sublist.subperm)
    exact ((List.subperm_append_left _).mpr hsub).trans hperm.subperm

/-- Every page that is not empty leaves fewer rows past the cursor. -/
theorem exists_drains (key : ρ → κ) (limit : ℕ) (table : List ρ) (cursor : WithBot κ) :
    ∃ emitted, Drains key limit table cursor emitted := by
  induction hn : (above key cursor table).length using Nat.strong_induction_on
    generalizing cursor with
  | _ n ih =>
    obtain ⟨page, hpage⟩ := exists_isPage key limit table cursor
    by_cases hne : page = []
    · exact ⟨[], .done (hne ▸ hpage)⟩
    · obtain ⟨rest, hrest⟩ := ih _ (hn ▸ hpage.above_advance_length_lt hne) _ rfl
      exact ⟨page ++ rest, .read hne hpage hrest⟩

/-- The boundaries of the first page and those after it. -/
theorem aligned_append {front back : List κ} (hlen : front.length = limit) (hlimit : 0 < limit) :
    Aligned limit (front ++ back) ↔
      (∀ a b, front.getLast? = some a → back.head? = some b → a < b) ∧ Aligned limit back := by
  have hfirst : (front ++ back)[1 * limit - 1]? = front.getLast? := by
    rw [one_mul, List.getElem?_append_left (by omega), List.getLast?_eq_getElem?, hlen]
  have hnext : (front ++ back)[1 * limit]? = back.head? := by
    rw [one_mul, List.getElem?_append_right (by omega), hlen, Nat.sub_self, List.head?_eq_getElem?]
  have hlater (n i : ℕ) (hi : limit ≤ i) : (front ++ back)[i]? = back[i - limit]? := by
    rw [List.getElem?_append_right (by omega), hlen]
  constructor
  · intro h
    refine ⟨fun a b ha hb => h 1 a b one_pos (hfirst.trans ha) (hnext.trans hb), ?_⟩
    intro n a b hn ha hb
    have hmul : (n + 1) * limit = n * limit + limit := by ring
    have hle : limit ≤ n * limit := Nat.le_mul_of_pos_left limit hn
    refine h (n + 1) a b n.succ_pos ?_ ?_
    · rw [hlater n _ (by omega), ← ha]
      congr 1
      omega
    · rw [hlater n _ (by omega), ← hb]
      congr 1
      omega
  · rintro ⟨hboundary, h⟩ n a b hn ha hb
    obtain ⟨n, rfl⟩ := Nat.exists_eq_succ_of_ne_zero hn.ne'
    rcases Nat.eq_zero_or_pos n with rfl | hpos
    · exact hboundary a b (hfirst ▸ ha) (hnext ▸ hb)
    · have hmul : (n + 1) * limit = n * limit + limit := by ring
      have hle : limit ≤ n * limit := Nat.le_mul_of_pos_left limit hpos
      rw [hlater n _ (by simp only [Nat.succ_eq_add_one]; omega)] at ha hb
      refine h n a b hpos ?_ ?_
      · rw [← ha]
        congr 1
        simp only [Nat.succ_eq_add_one]
        omega
      · rw [← hb]
        congr 1
        simp only [Nat.succ_eq_add_one]
        omega

theorem aligned_of_length_le {keys : List κ} (h : keys.length ≤ limit) : Aligned limit keys := by
  intro n a b hn _ hb
  have hlt := (List.getElem?_eq_some_iff.mp hb).1
  have hle : limit ≤ n * limit := Nat.le_mul_of_pos_left limit hn
  omega

/-- Rows in ascending order have one list of keys, whatever the order of ties. -/
theorem map_key_eq {rows rows' : List ρ} (hperm : rows.Perm rows')
    (hsorted : rows.Pairwise fun a b => key a ≤ key b)
    (hsorted' : rows'.Pairwise fun a b => key a ≤ key b) : rows.map key = rows'.map key :=
  (hperm.map key).eq_of_pairwise (fun _ _ _ _ => le_antisymm) (List.pairwise_map.mpr hsorted)
    (List.pairwise_map.mpr hsorted')

/-- Nothing is lost on the way to an empty page exactly when no page ends inside a group of
equal keys. -/
theorem Drains.complete_iff {cursor : WithBot κ} {emitted rows : List ρ} (hlimit : 0 < limit)
    (h : Drains key limit table cursor emitted) (hrows : rows.Perm (above key cursor table))
    (hsorted : rows.Pairwise fun a b => key a ≤ key b) :
    (above key cursor table).Subperm emitted ↔ Aligned limit (rows.map key) := by
  induction h generalizing rows with
  | done h =>
    have hnone := (h.eq_nil_iff hlimit).mp rfl
    rw [hnone, List.perm_nil] at hrows
    simp [hnone, hrows, Aligned]
  | @read cursor page rest hne h hrest ih =>
    obtain ⟨tail, hperm, hpage, hfull, hle⟩ := h.split
    rw [map_key_eq (hrows.trans hperm.symm) hsorted hpage, hperm.symm.subperm_right,
      List.subperm_append_left, List.map_append]
    obtain ⟨front, last, rfl⟩ := (List.eq_nil_or_concat page).resolve_left hne
    rw [List.concat_eq_append] at *
    rcases tail with _ | ⟨t, ts⟩
    · simpa using aligned_of_length_le (by simpa using hle)
    have hlen : ((front ++ [last]).map key).length = limit := by simpa using hfull (by simp)
    have hlast : key last ≤ key t := (List.pairwise_append.mp hpage).2.2 last (by simp) t (by simp)
    have hboundary : (∀ a b, ((front ++ [last]).map key).getLast? = some a →
        ((t :: ts).map key).head? = some b → a < b) ↔ key last < key t := by simp
    rw [aligned_append hlen hlimit, hboundary]
    rcases hlast.lt_or_eq with hlt | heq
    · have htail : above key (advance key cursor (front ++ [last])) (t :: ts) = t :: ts := by
        apply above_eq_self
        intro r hr
        rw [advance_concat, WithBot.coe_lt_coe]
        have hsuffix := hpage.sublist (List.sublist_append_right (front ++ [last]) (t :: ts))
        rcases List.mem_cons.mp hr with rfl | hr
        · exact hlt
        · exact hlt.trans_le ((List.pairwise_cons.mp hsuffix).1 r hr)
      have hrest' := (h.above_advance hperm).trans (by rw [htail])
      rw [← hrest'.subperm_right]
      rw [ih hrest'.symm (hpage.sublist (List.sublist_append_right _ _))]
      simp [hlt]
    · have hlost : ¬ (t :: ts).Subperm rest := by
        intro hsub
        have hmem := hrest.subperm.subset (hsub.subset List.mem_cons_self)
        rw [mem_above, advance_concat, WithBot.coe_lt_coe, heq] at hmem
        exact lt_irrefl _ hmem.2
      simp [hlost, heq]

end drain

end Keyset
