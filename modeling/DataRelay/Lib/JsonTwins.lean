import DataRelay.Lib.JsonParting

/-! Two values that agree but for a text at one position. A rewrite that looks at nothing but
the kind of a value keeps them so, and a rewrite of that position to a constant makes them
equal. -/
namespace JsonPath
open Json

inductive SameBut : Pos → Json → Json → Prop where
  | refl (p : Pos) (v : Json) : SameBut p v v
  | text (s t : String) : SameBut [] (.str s) (.str t)
  | member {k : String} {p : Pos} {ms : Members} {c c' : Json} (hc : Dict.get? k ms = some c)
    (h : SameBut p c c') : SameBut (.member k :: p) (.obj ms) (.obj (Dict.set k c' ms))
  | item {n : ℕ} {p : Pos} {xs : List Json} {c c' : Json} (hc : xs[n]? = some c)
    (h : SameBut p c c') : SameBut (.item n :: p) (.arr xs) (.arr (xs.set n c'))

/-- What it makes of an object or a list does not depend on the contents, and texts become
texts or are all removed. -/
structure Blind (f : Json → Option Json) : Prop where
  obj : ∀ a b, f (.obj a) = f (.obj b)
  arr : ∀ a b, f (.arr a) = f (.arr b)
  text : (∀ s, f (.str s) = none) ∨ ∀ s, ∃ t, f (.str s) = some (.str t)

section rewrite

variable {f : Json → Option Json}

theorem set_eq_rewriteMember {k : String} {ms : Members} {c : Json} (hc : Dict.get? k ms = some c)
    (d : Json) : Dict.set k d ms = rewriteMember k (fun _ => some d) ms := by
  simp [rewriteMember, hc]

theorem rewriteMember_set {k l : String} (h : k ≠ l) {ms : Members} {c : Json}
    (hc : Dict.get? k ms = some c) (d : Json) (g : Json → Option Json) :
    rewriteMember l g (Dict.set k d ms) = Dict.set k d (rewriteMember l g ms) := by
  rw [set_eq_rewriteMember hc, rewriteMember_comm h,
    set_eq_rewriteMember ((get?_rewriteMember_ne h.symm g ms).trans hc)]

theorem erase_set (k : String) (d : Json) {ms : Members} {c : Json}
    (hc : Dict.get? k ms = some c) : Dict.erase k (Dict.set k d ms) = Dict.erase k ms := by
  induction ms with
  | nil => simp at hc
  | cons m ms ih =>
    obtain ⟨l, w⟩ := m
    by_cases hl : l = k
    · simp [Dict.set, Dict.erase, hl]
    · simp only [Dict.get?_cons, hl, ↓reduceIte] at hc
      simp [Dict.set, Dict.erase, hl, ih hc]

/-- A blind rewrite along any path keeps two values that differ at a member path. -/
theorem SameBut.rewriteAt_rel (hf : Blind f) {ks : List String} {v v' : Json}
    (h : SameBut (ks.map .member) v v') (q : List Sel) :
    Option.Rel (SameBut (ks.map .member)) (rewriteAt f q v) (rewriteAt f q v') := by
  have hrefl (p : Pos) (r : Option Json) : Option.Rel (SameBut p) r r := by
    cases r with
    | none => exact .none
    | some w => exact .some (.refl p w)
  induction ks generalizing v v' q with
  | nil =>
    cases h with
    | refl => exact hrefl _ _
    | text s t =>
      cases q with
      | nil =>
        rcases hf.text with hnone | hsome
        · simp only [rewriteAt, hnone]
          exact .none
        · obtain ⟨a, ha⟩ := hsome s
          obtain ⟨b, hb⟩ := hsome t
          simp only [rewriteAt, ha, hb]
          exact .some (.text a b)
      | cons x q => cases x <;> exact .some (.text s t)
  | cons k ks ih =>
    cases h with
    | refl => exact hrefl _ _
    | @member _ _ ms c c' hc h =>
      cases q with
      | nil =>
        simp only [rewriteAt, hf.obj ms (Dict.set k c' ms)]
        exact hrefl _ _
      | cons x q =>
        cases x with
        | index i => exact .some (.member hc h)
        | wild => exact .some (.member hc h)
        | key l =>
          refine .some ?_
          by_cases hl : k = l
          · subst hl
            have hrel := ih h q
            have hc' : Dict.get? k (Dict.set k c' ms) = some c' := by simp
            cases hd : rewriteAt f q c with
            | none =>
              rw [hd] at hrel
              cases hd' : rewriteAt f q c' with
              | none =>
                simp only [rewriteMember, hc, hc', hd, hd', erase_set k c' hc]
                exact .refl _ _
              | some w => simp [hd'] at hrel
            | some w =>
              rw [hd] at hrel
              cases hd' : rewriteAt f q c' with
              | none => simp [hd'] at hrel
              | some w' =>
                rw [hd'] at hrel
                have hw : SameBut (ks.map .member) w w' := by simpa using hrel
                simp only [rewriteMember, hc, hc', hd, hd', Dict.set_set]
                have hset : Dict.set k w' ms = Dict.set k w' (Dict.set k w ms) := by simp
                rw [hset]
                exact .member (by simp) hw
          · rw [rewriteMember_set hl hc]
            exact .member ((get?_rewriteMember_ne (fun h => hl h.symm) _ ms).trans hc) h

/-- A rewrite that is constant on texts makes them equal at the position where they differ. -/
theorem SameBut.rewriteAt_eq (hf : ∀ s t, f (.str s) = f (.str t)) {ks : List String} {v v' : Json}
    (h : SameBut (ks.map .member) v v') :
    rewriteAt f (ks.map .key) v = rewriteAt f (ks.map .key) v' := by
  induction ks generalizing v v' with
  | nil =>
    cases h with
    | refl => rfl
    | text s t => exact hf s t
  | cons k ks ih =>
    cases h with
    | refl => rfl
    | @member _ _ ms c c' hc h =>
      have hc' : Dict.get? k (Dict.set k c' ms) = some c' := by simp
      simp only [List.map_cons, rewriteAt, rewriteMember, hc, hc', ih h]
      cases rewriteAt f (ks.map .key) c' with
      | none => simp [erase_set k c' hc]
      | some w => simp

end rewrite

section members

variable {ks : List String} {ms ms' : Members}

theorem set_comm_of_get? {k l : String} (h : k ≠ l) {c : Json} (hc : Dict.get? k ms = some c)
    (d w : Json) : Dict.set l w (Dict.set k d ms) = Dict.set k d (Dict.set l w ms) := by
  induction ms with
  | nil => simp at hc
  | cons m ms ih =>
    obtain ⟨n, v⟩ := m
    by_cases hn : n = k
    · simp [Dict.set, hn, h]
    · simp only [Dict.get?_cons, hn, ↓reduceIte] at hc
      by_cases hnl : n = l
      · subst hnl
        simp [Dict.set, hn]
      · simp [Dict.set, hn, hnl, ih hc]

/-- They have the same members. -/
theorem SameBut.has_eq {p : Pos} (h : SameBut p (.obj ms) (.obj ms')) (name : String) :
    Dict.has name ms = Dict.has name ms' := by
  cases h with
  | refl => rfl
  | @member k _ _ c c' hc h =>
    by_cases hk : k = name
    · subst hk
      simp [Dict.has, hc]
    · simp [Dict.has, hk]

/-- A member that neither has is added to both. -/
theorem SameBut.set_new {p : Pos} (h : SameBut p (.obj ms) (.obj ms')) {name : String}
    (hnew : Dict.has name ms = false) (w : Json) :
    SameBut p (.obj (Dict.set name w ms)) (.obj (Dict.set name w ms')) := by
  cases h with
  | refl => exact .refl _ _
  | @member k _ _ c c' hc h =>
    have hne : k ≠ name := by
      rintro rfl
      simp [Dict.has, hc] at hnew
    rw [set_comm_of_get? hne hc]
    exact .member (by simp [hne.symm, hc]) h

end members

end JsonPath
