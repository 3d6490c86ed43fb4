import DataRelay.Lib.JsonPath

/-! Selector paths that part: after a common front they name different members. Rewrites along
such paths commute, and neither sees what the other does. -/
namespace JsonPath
open Json

inductive Parts : List Sel → List Sel → Prop where
  | here {k l : String} (h : k ≠ l) (s t : List Sel) : Parts (.key k :: s) (.key l :: t)
  | deeper (x : Sel) {s t : List Sel} (h : Parts s t) : Parts (x :: s) (x :: t)

theorem Parts.symm {s t : List Sel} (h : Parts s t) : Parts t s := by
  induction h with
  | here h s t => exact .here h.symm t s
  | deeper x _ ih => exact .deeper x ih

theorem Parts.left_ne_nil {s t : List Sel} (h : Parts s t) : s ≠ [] := by
  cases h <;> simp

theorem rewriteMember_cons (k : String) (f : Json → Option Json) (m : String × Json)
    (ms : Members) : rewriteMember k f (m :: ms) =
      if m.1 = k then (match f m.2 with | some w => (m.1, w) :: ms | none => ms)
      else m :: rewriteMember k f ms := by
  obtain ⟨n, v⟩ := m
  by_cases hn : n = k
  · cases hf : f v <;> simp [rewriteMember, Dict.set, Dict.erase, hn, hf]
  · cases hc : Dict.get? k ms with
    | none => simp [rewriteMember, hn, hc]
    | some c => cases hf : f c <;> simp [rewriteMember, Dict.set, Dict.erase, hn, hc, hf]

theorem rewriteMember_comm {k l : String} (h : k ≠ l) (f g : Json → Option Json) (ms : Members) :
    rewriteMember l g (rewriteMember k f ms) = rewriteMember k f (rewriteMember l g ms) := by
  induction ms with
  | nil => rfl
  | cons m ms ih =>
    by_cases hk : m.1 = k
    · have hl : m.1 ≠ l := fun hl => h (hk.symm.trans hl)
      cases hf : f m.2 <;> simp [rewriteMember_cons, hk, h, hf]
    · by_cases hl : m.1 = l
      · cases hg : g m.2 <;> simp [rewriteMember_cons, hl, h.symm, hg]
      · simp [rewriteMember_cons, hk, hl, ih]

theorem get?_rewriteMember_ne {k l : String} (h : k ≠ l) (f : Json → Option Json) (ms : Members) :
    Dict.get? l (rewriteMember k f ms) = Dict.get? l ms := by
  unfold rewriteMember
  split
  · rfl
  · split
    · simp [h]
    · exact Dict.get?_erase_ne h ms

/-- A rewrite below the root never removes the root. -/
theorem rewriteAt_cons_isSome (f : Json → Option Json) {s : List Sel} (hs : s ≠ []) (v : Json) :
    ∃ w, rewriteAt f s v = some w := by
  cases s with
  | nil => exact absurd rfl hs
  | cons x s => cases x <;> cases v <;> exact ⟨_, rfl⟩

theorem rewriteAt_comm {s t : List Sel} (h : Parts s t) (f g : Json → Option Json) (v : Json) :
    (rewriteAt f s v).bind (rewriteAt g t) = (rewriteAt g t v).bind (rewriteAt f s) := by
  induction h generalizing v with
  | here h s t =>
    cases v with
    | obj ms => simp [rewriteAt, rewriteMember_comm h]
    | _ => rfl
  | @deeper x s t h ih =>
    have hchild (c : Json) : ∃ a b d, rewriteAt f s c = some a ∧ rewriteAt g t c = some b ∧
        rewriteAt g t a = some d ∧ rewriteAt f s b = some d := by
      obtain ⟨a, ha⟩ := rewriteAt_cons_isSome f h.left_ne_nil c
      obtain ⟨b, hb⟩ := rewriteAt_cons_isSome g h.symm.left_ne_nil c
      obtain ⟨d, hd⟩ := rewriteAt_cons_isSome g h.symm.left_ne_nil a
      have := ih c
      rw [ha, hb, Option.bind_some, Option.bind_some, hd] at this
      exact ⟨a, b, d, ha, hb, hd, this.symm⟩
    cases x with
    | key k =>
      cases v with
      | obj ms =>
        cases hc : Dict.get? k ms with
        | none => simp [rewriteAt, rewriteMember, hc]
        | some c =>
          obtain ⟨a, b, d, ha, hb, hd, hd'⟩ := hchild c
          simp [rewriteAt, rewriteMember, hc, ha, hb, hd, hd', Dict.set_set]
      | _ => rfl
    | index i =>
      cases v with
      | arr xs =>
        cases hn : resolveIndex xs.length i with
        | none => simp [rewriteAt, hn]
        | some n =>
          obtain ⟨c, hc⟩ := resolved_item hn
          obtain ⟨hlt, rfl⟩ := List.getElem?_eq_some_iff.mp hc
          obtain ⟨a, b, d, ha, hb, hd, hd'⟩ := hchild xs[n]
          simp [rewriteAt, hn, rewriteItem, ha, hb, resolveIndex_lt hn, hd, hd']
      | _ => rfl
    | wild =>
      cases v with
      | arr xs => simp [rewriteAt, List.filterMap_filterMap, ih]
      | _ => rfl

/-- A rewrite along one path leaves the values of the other alone. -/
theorem valuesAt_rewriteAt {s t : List Sel} (h : Parts s t) (g : Json → Option Json) {v w : Json}
    (hw : rewriteAt g t v = some w) : valuesAt s w = valuesAt s v := by
  induction h generalizing v w with
  | here h s t =>
    cases v with
    | obj ms =>
      simp only [rewriteAt, Option.some.injEq] at hw
      simp [← hw, valuesAt, get?_rewriteMember_ne h.symm]
    | _ => simp_all [rewriteAt]
  | @deeper x s t h ih =>
    cases x with
    | key k =>
      cases v with
      | obj ms =>
        simp only [rewriteAt, Option.some.injEq] at hw
        cases hc : Dict.get? k ms with
        | none => simp [← hw, rewriteMember, hc]
        | some c =>
          obtain ⟨d, hd⟩ := rewriteAt_cons_isSome g h.symm.left_ne_nil c
          simp [← hw, rewriteMember_some hc hd, valuesAt, hc, ih hd]
      | _ => simp_all [rewriteAt]
    | index i =>
      cases v with
      | arr xs =>
        simp only [rewriteAt, Option.some.injEq] at hw
        cases hn : resolveIndex xs.length i with
        | none => simp [← hw, hn]
        | some n =>
          obtain ⟨c, hc⟩ := resolved_item hn
          obtain ⟨d, hd⟩ := rewriteAt_cons_isSome g h.symm.left_ne_nil c
          simp only [hn, rewriteItem_some hc hd] at hw
          simp only [← hw, valuesAt, List.length_set, hn, Option.bind_some, hc,
            List.getElem?_set_self (resolveIndex_lt hn), Option.map_some, Option.getD_some, ih hd]
      | _ => simp_all [rewriteAt]
    | wild =>
      cases v with
      | arr xs =>
        simp only [rewriteAt, Option.some.injEq] at hw
        subst hw
        simp only [valuesAt]
        induction xs with
        | nil => rfl
        | cons x xs ihx =>
          obtain ⟨d, hd⟩ := rewriteAt_cons_isSome g h.symm.left_ne_nil x
          simp [hd, ih hd, ihx]
      | _ => simp_all [rewriteAt]

end JsonPath
