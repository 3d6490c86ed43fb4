import Mathlib.Algebra.Order.Field.Basic
import Mathlib.Tactic

/-! A fixed window counter over an ordered field: a window opens with the first call that comes
after the last one has run out, and lets a fixed number of calls through. Two windows side by side
may let their calls through at the seam, and that is all an interval can hold beyond its share. -/
namespace FixedWindow

variable {𝕜 : Type*} [Field 𝕜] [LinearOrder 𝕜]

/-- A window: when it opened and how many calls it has let through. -/
structure Window (𝕜 : Type*) where
  start : 𝕜
  sent : ℤ
  deriving DecidableEq, Repr

/-- Whether a call is let through, and the window after it. -/
def letThrough (limit : ℤ) (per now : 𝕜) : Option (Window 𝕜) → Bool × Window 𝕜
  | none => (true, ⟨now, 1⟩)
  | some w =>
    if per ≤ now - w.start then (true, ⟨now, 1⟩)
    else if limit ≤ w.sent then (false, w)
    else (true, ⟨w.start, w.sent + 1⟩)

/-- The times of the calls that are let through. -/
def admitted (limit : ℤ) (per : 𝕜) : Option (Window 𝕜) → List 𝕜 → List 𝕜
  | _, [] => []
  | w, now :: times =>
    if (letThrough limit per now w).1 then
      now :: admitted limit per (some (letThrough limit per now w).2) times
    else admitted limit per (some (letThrough limit per now w).2) times

/-- The window after the calls. -/
def windowAfter (limit : ℤ) (per : 𝕜) : Option (Window 𝕜) → List 𝕜 → Option (Window 𝕜)
  | w, [] => w
  | w, now :: times => windowAfter limit per (some (letThrough limit per now w).2) times

/-- How many of the times lie in `[a, b)`. -/
def within (a b : 𝕜) (times : List 𝕜) : ℕ := times.countP fun t => a ≤ t ∧ t < b

section Counting

omit [Field 𝕜]

variable {a b now : 𝕜} {times : List 𝕜}

@[simp] theorem within_nil : within a b ([] : List 𝕜) = 0 := rfl

theorem within_cons : within a b (now :: times) =
    within a b times + if a ≤ now ∧ now < b then 1 else 0 := by
  unfold within
  rw [List.countP_cons]
  simp only [decide_eq_true_eq]

end Counting

section Bound

variable {limit : ℤ} {per a b now : 𝕜} {w : Option (Window 𝕜)} {times : List 𝕜}

theorem admitted_subset : ∀ (times : List 𝕜) (w : Option (Window 𝕜)),
    ∀ t ∈ admitted limit per w times, t ∈ times
  | [], _, _, ht => ht
  | now :: times, w, t, ht => by
    rw [admitted] at ht
    split_ifs at ht with hopen
    · rcases List.mem_cons.mp ht with rfl | ht
      · exact List.mem_cons_self
      · exact List.mem_cons_of_mem now (admitted_subset times _ t ht)
    · exact List.mem_cons_of_mem now (admitted_subset times _ t ht)

/-- Nothing counts once the interval is over. -/
theorem within_late (h : ∀ t ∈ times, b ≤ t) : within a b (admitted limit per w times) = 0 := by
  unfold within
  rw [List.countP_eq_zero]
  intro t ht
  have hlate := h t (admitted_subset times w t ht)
  simp only [decide_eq_true_eq, not_and, not_lt]
  intro _
  exact hlate

/-- A window no call has overtaken. -/
def Valid (limit : ℤ) (times : List 𝕜) (w : Option (Window 𝕜)) : Prop :=
  ∀ v, w = some v → 0 ≤ v.sent ∧ v.sent ≤ limit ∧ ∀ t ∈ times, v.start ≤ t

/-- A call opens a window, or falls into one that is full or has room. -/
theorem letThrough_cases (limit : ℤ) (per now : 𝕜) (w : Option (Window 𝕜)) :
    letThrough limit per now w = (true, ⟨now, 1⟩) ∨ ∃ v, w = some v ∧ now - v.start < per ∧
      ((limit ≤ v.sent ∧ letThrough limit per now w = (false, v)) ∨
        (v.sent < limit ∧ letThrough limit per now w = (true, ⟨v.start, v.sent + 1⟩))) := by
  cases w with
  | none => exact .inl rfl
  | some v =>
    by_cases hopen : per ≤ now - v.start
    · exact .inl (by simp only [letThrough, hopen, ↓reduceIte])
    · refine .inr ⟨v, rfl, not_le.mp hopen, ?_⟩
      by_cases hfull : limit ≤ v.sent
      · exact .inl ⟨hfull, by simp only [letThrough, hopen, hfull, ↓reduceIte]⟩
      · exact .inr ⟨not_le.mp hfull, by simp only [letThrough, hopen, hfull, ↓reduceIte]⟩

variable (per) in
theorem Valid.next (hlimit : 0 < limit) {w : Option (Window 𝕜)}
    (h : Valid limit (now :: times) w) (hsorted : (now :: times).Pairwise (· ≤ ·)) :
    Valid limit times (some (letThrough limit per now w).2) := by
  have hlater := (List.pairwise_cons.mp hsorted).1
  rcases letThrough_cases limit per now w with hpass | ⟨v, rfl, _, ⟨_, hpass⟩ | ⟨hroom, hpass⟩⟩
  · rw [hpass]
    rintro u ⟨⟩
    exact ⟨Int.one_nonneg, hlimit, hlater⟩
  · obtain ⟨hnonneg, hsent, hstart⟩ := h v rfl
    rw [hpass]
    rintro u ⟨⟩
    exact ⟨hnonneg, hsent, fun t ht => hstart t (List.mem_cons_of_mem now ht)⟩
  · obtain ⟨hnonneg, _, hstart⟩ := h v rfl
    rw [hpass]
    rintro u ⟨⟩
    refine ⟨?_, hroom, fun t ht => hstart t (List.mem_cons_of_mem now ht)⟩
    show 0 ≤ v.sent + 1
    omega

/-- The window counts the calls let through since it opened. -/
theorem windowAfter_counted (hlimit : 0 < limit) : ∀ (times before : List 𝕜)
    (w : Option (Window 𝕜)), times.Pairwise (· ≤ ·) → Valid limit times w →
    (∀ v, w = some v → v.sent ≤ (before.countP fun t => v.start ≤ t : ℕ)) →
    ∀ v, windowAfter limit per w times = some v →
      v.sent ≤ ((before ++ admitted limit per w times).countP fun t => v.start ≤ t : ℕ)
  | [], before, w, _, _, hw, v, hv => by
    rw [admitted, List.append_nil]
    exact hw v hv
  | now :: times, before, w, hsorted, hvalid, hw, v, hv => by
    obtain ⟨_, hrest⟩ := List.pairwise_cons.mp hsorted
    have hnext := hvalid.next per hlimit hsorted
    rw [windowAfter] at hv
    rw [admitted]
    rcases letThrough_cases limit per now w with hpass | ⟨u, rfl, _, ⟨_, hpass⟩ | ⟨_, hpass⟩⟩
    · rw [hpass] at hv hnext ⊢
      have hgo := windowAfter_counted hlimit times (before ++ [now]) _ hrest hnext
        (by rintro x ⟨⟩; simp [List.countP_append]) v hv
      simpa using hgo
    · rw [hpass] at hv hnext ⊢
      exact windowAfter_counted hlimit times before _ hrest hnext
        (by rintro x ⟨⟩; exact hw u rfl) v hv
    · rw [hpass] at hv hnext ⊢
      have hgo := windowAfter_counted hlimit times (before ++ [now]) _ hrest hnext (by
        rintro x ⟨⟩
        have hcount := hw u rfl
        have hstart := (hvalid u rfl).2.2 now List.mem_cons_self
        simp only [List.countP_append, List.countP_singleton, hstart, decide_true, ↓reduceIte]
        push_cast
        omega) v hv
      simpa using hgo

variable [IsStrictOrderedRing 𝕜]

/-- From a window that is open: what is left of it, and a full one for each that may follow. -/
theorem within_open (hlimit : 0 < limit) (hper : 0 < per) (a b : 𝕜) : ∀ (times : List 𝕜)
    (start : 𝕜) (sent : ℤ) (k : ℕ), times.Pairwise (· ≤ ·) → (∀ t ∈ times, start ≤ t) →
    0 ≤ sent → sent ≤ limit → b ≤ start + (k + 1) * per →
    (within a b (admitted limit per (some ⟨start, sent⟩) times) : ℤ) ≤ limit - sent + k * limit
  | [], start, sent, k, _, _, hnonneg, hsent, _ => by
    have hk : 0 ≤ (k : ℤ) * limit := mul_nonneg (Int.natCast_nonneg k) hlimit.le
    simp only [admitted, within_nil, Nat.cast_zero]
    omega
  | now :: times, start, sent, k, hsorted, hstart, hnonneg, hsent, hb => by
    obtain ⟨hlater, hrest⟩ := List.pairwise_cons.mp hsorted
    by_cases hopen : per ≤ now - start
    · have hpass : letThrough limit per now (some ⟨start, sent⟩) = (true, ⟨now, 1⟩) := by
        simp only [letThrough, hopen, ↓reduceIte]
      rcases le_or_gt b now with hlate | hearly
      · have hzero : within a b (admitted limit per (some ⟨start, sent⟩) (now :: times)) = 0 := by
          refine within_late fun t ht => ?_
          rcases List.mem_cons.mp ht with rfl | ht
          · exact hlate
          · exact hlate.trans (hlater t ht)
        have hk : 0 ≤ (k : ℤ) * limit := mul_nonneg (Int.natCast_nonneg k) hlimit.le
        rw [hzero]
        omega
      · obtain ⟨j, rfl⟩ : ∃ j, k = j + 1 := by
          cases k with
          | zero =>
            have hend : b ≤ start + per := by simpa using hb
            linarith
          | succ j => exact ⟨j, rfl⟩
        have hnext := within_open hlimit hper a b times now 1 j hrest hlater (by omega) (by omega)
          (by push_cast at hb; linarith)
        rw [admitted, hpass]
        simp only [↓reduceIte, within_cons]
        push_cast
        have hsplit : ((j : ℤ) + 1) * limit = j * limit + limit := by ring
        rw [hsplit]
        split_ifs <;> omega
    · by_cases hfull : limit ≤ sent
      · have hpass : letThrough limit per now (some ⟨start, sent⟩) = (false, ⟨start, sent⟩) := by
          simp only [letThrough, hopen, hfull, ↓reduceIte]
        have hgo := within_open hlimit hper a b times start sent k hrest
          (fun t ht => hstart t (List.mem_cons_of_mem now ht)) hnonneg hsent hb
        rw [admitted, hpass]
        simpa using hgo
      · have hpass : letThrough limit per now (some ⟨start, sent⟩) = (true, ⟨start, sent + 1⟩) := by
          simp only [letThrough, hopen, hfull, ↓reduceIte]
        have hgo := within_open hlimit hper a b times start (sent + 1) k hrest
          (fun t ht => hstart t (List.mem_cons_of_mem now ht)) (by omega) (by omega) hb
        rw [admitted, hpass]
        simp only [↓reduceIte, within_cons]
        split_ifs <;> omega

/-- An interval of `k` windows lets through no more than `k + 1` of them hold. -/
theorem within_le (hlimit : 0 < limit) (hper : 0 < per) (a : 𝕜) (k : ℕ) : ∀ (times : List 𝕜)
    (w : Option (Window 𝕜)), times.Pairwise (· ≤ ·) → Valid limit times w →
    (within a (a + k * per) (admitted limit per w times) : ℤ) ≤ (k + 1) * limit
  | [], w, _, _ => by
    have hk : 0 ≤ ((k : ℤ) + 1) * limit := mul_nonneg (by omega) hlimit.le
    simpa [admitted] using hk
  | now :: times, w, hsorted, hw => by
    obtain ⟨hlater, hrest⟩ := List.pairwise_cons.mp hsorted
    have hexpand : ((k : ℤ) + 1) * limit = limit + k * limit := by ring
    rcases lt_or_ge now a with hearly | hin
    · have hgo := within_le hlimit hper a k times _ hrest (hw.next per hlimit hsorted)
      rw [admitted]
      split_ifs
      · rw [within_cons, if_neg fun h => absurd h.1 (not_le.mpr hearly)]
        exact hgo
      · exact hgo
    · rcases letThrough_cases limit per now w with hpass | ⟨v, rfl, hrun, -⟩
      · have hgo := within_open hlimit hper a (a + k * per) times now 1 k hrest hlater
          Int.one_nonneg hlimit (by linarith)
        rw [admitted, hpass, hexpand]
        simp only [↓reduceIte, within_cons]
        split_ifs <;> omega
      · obtain ⟨hnonneg, hsent, hstart⟩ := hw v rfl
        have hgo : (within a (a + k * per) (admitted limit per (some v) (now :: times)) : ℤ) ≤
            limit - v.sent + k * limit :=
          within_open hlimit hper a (a + k * per) (now :: times) v.start v.sent k hsorted hstart
            hnonneg hsent (by linarith)
        rw [hexpand]
        omega

/-- A call is refused only where as many calls as a window holds were let through in the time of
one window before it. -/
theorem refused_full (hlimit : 0 < limit) {before : List 𝕜}
    (hsorted : (before ++ [now]).Pairwise (· ≤ ·))
    (hrefused : (letThrough limit per now (windowAfter limit per none before)).1 = false) :
    limit ≤ ((admitted limit per none before).countP fun t => now - per < t ∧ t ≤ now : ℕ) := by
  obtain ⟨hbefore, _, hlast⟩ := List.pairwise_append.mp hsorted
  rcases letThrough_cases limit per now (windowAfter limit per none before) with
    hpass | ⟨v, hv, hrun, ⟨hfull, _⟩ | ⟨_, hpass⟩⟩
  · rw [hpass] at hrefused
    cases hrefused
  · have hcounted := windowAfter_counted hlimit before [] none hbefore (by rintro u ⟨⟩)
      (by rintro u ⟨⟩) v hv
    rw [List.nil_append] at hcounted
    have hmono := List.countP_mono_left (l := admitted limit per none before)
      (p := fun t => decide (v.start ≤ t)) (q := fun t => decide (now - per < t ∧ t ≤ now))
      fun t ht hstart => by
        rw [decide_eq_true_eq] at hstart ⊢
        exact ⟨by linarith, hlast t (admitted_subset before none t ht) now (by simp)⟩
    omega
  · rw [hpass] at hrefused
    cases hrefused

end Bound

end FixedWindow
