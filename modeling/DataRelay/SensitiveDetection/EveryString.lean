import DataRelay.SchemaObservation.Enforcement
import DataRelay.SensitiveDetection.LeafSegments

/-! Detection sees every string of a batch exactly when the keys it comes upon are plain. -/
namespace SensitiveDetection
open BoundedCollect JsonPath Protection PyText SchemaObservation

/-! ### The samples as a bounded collection -/

/-- The strings among the places of a walk, under their paths. -/
def stringsOf (found : List (Place × Json)) : List (String × String) :=
  found.filterMap fun x =>
    match x.2 with
    | .str s => some (x.1.path, s)
    | _ => none

def enterSample (samples : List (String × String)) (x : String × String) :
    List (String × String) := addSample samples x.1 x.2

theorem entersKey_enterSample : EntersKey Prod.fst enterSample :=
  entersKey_setDefault Prod.fst Prod.snd

theorem stringsOf_append (xs ys : List (Place × Json)) :
    stringsOf (xs ++ ys) = stringsOf xs ++ stringsOf ys := List.filterMap_append ..

theorem mem_stringsOf {found : List (Place × Json)} {path s : String} :
    (path, s) ∈ stringsOf found ↔ ∃ p, (p, .str s) ∈ found ∧ p.path = path := by
  rw [stringsOf, List.mem_filterMap]
  constructor
  · rintro ⟨⟨p, v⟩, hmem, hsome⟩
    cases v with
    | str t =>
      obtain ⟨rfl, rfl⟩ := Prod.mk.inj (Option.some.inj hsome)
      exact ⟨p, hmem, rfl⟩
    | _ => cases hsome
  · rintro ⟨p, hmem, rfl⟩
    exact ⟨(p, .str s), hmem, rfl⟩

section Samples

variable {maxDepth maxPaths : ℕ}

theorem member_path {key : String} (hplain : isPlainMember key.toList = true) (p : Place) :
    (p.member key).path = p.path ++ "." ++ key := by
  apply String.toList_injective
  simp [Place.member, appendFieldPath, memberChars, hplain]

theorem childPath_eq (path key : String) : childPath path key = path ++ "." ++ key := by
  unfold childPath
  split_ifs with h
  · rfl
  · rw [not_not.mp h]
    rfl

theorem sampleValue_deep {depth : ℕ} (h : maxDepth < depth) (v : Json) (path : String)
    (samples : List (String × String)) : sampleValue maxDepth maxPaths v path depth samples = samples := by
  unfold sampleValue
  exact if_pos (.inr h)

theorem visitValue_deep {depth : ℕ} (h : maxDepth < depth) (v : Json) (p : Place) :
    visitValue maxDepth v depth p = [] := by
  unfold visitValue
  exact if_pos h

/-- A member under a plain key, when its value is walked alike at its place. -/
theorem sampleMember_collect {key : String} {child : Json} {depth : ℕ} {p : Place}
    {samples : List (String × String)}
    (hkey : maxDepth < depth ∨ isPlainMember key.toList = true)
    (hwalk : sampleValue maxDepth maxPaths child (p.member key).path depth samples =
      collect maxPaths enterSample (stringsOf (visitValue maxDepth child depth (p.member key)))
        samples) :
    sampleValue maxDepth maxPaths child (p.path ++ "." ++ key) depth samples =
      collect maxPaths enterSample (stringsOf (visitValue maxDepth child depth (p.member key)))
        samples := by
  rcases hkey with hdeep | hplain
  · rw [sampleValue_deep hdeep, visitValue_deep hdeep]
    rfl
  · rw [← member_path hplain]
    exact hwalk

mutual
/-- On plain keys the second walk comes upon the strings the first one does, under the same
paths. -/
theorem sampleValue_collect : ∀ (v : Json) (depth : ℕ) (p : Place)
    (samples : List (String × String)), PlainKeys maxDepth v depth →
      sampleValue maxDepth maxPaths v p.path depth samples =
        collect maxPaths enterSample (stringsOf (visitValue maxDepth v depth p)) samples
  | v, depth, p, samples, hv => by
    by_cases hdeep : maxDepth < depth
    · rw [sampleValue_deep hdeep, visitValue_deep hdeep]
      rfl
    unfold sampleValue
    by_cases hfull : maxPaths ≤ samples.length
    · rw [if_pos (.inl hfull), collect_of_full hfull]
    rw [if_neg (not_or.mpr ⟨hfull, hdeep⟩)]
    unfold visitValue
    rw [if_neg hdeep]
    cases v with
    | obj ms => exact sampleMembers_collect ms (depth + 1) p samples (hv.resolve_left hdeep)
    | arr xs =>
      exact sampleItems_collect xs arraySampleSize 0 (depth + 1) p.array samples
        (hv.resolve_left hdeep)
    | str s =>
      have hone : collect maxPaths enterSample [(p.path, s)] samples = addSample samples p.path s :=
        collect_cons_of_room (Nat.lt_of_not_le hfull) _ _
      exact hone.symm
    | _ => rfl

theorem sampleMembers_collect : ∀ (ms : Json.Members) (depth : ℕ) (p : Place)
    (samples : List (String × String)), PlainMembers maxDepth ms depth →
      sampleMembers maxDepth maxPaths ms p.path depth samples =
        collect maxPaths enterSample (stringsOf (visitMembers maxDepth ms depth p)) samples
  | [], _, _, _, _ => by
    rw [sampleMembers, visitMembers]
    rfl
  | (key, child) :: ms, depth, p, samples, hms => by
    have hchild := sampleMember_collect hms.1
      (sampleValue_collect child depth (p.member key) samples hms.2.1)
    rw [sampleMembers, visitMembers, stringsOf_append, collect_append, ← hchild, childPath_eq]
    split_ifs with hfull
    · exact (collect_of_full hfull _).symm
    · exact sampleMembers_collect ms depth p _ hms.2.2

theorem sampleItems_collect : ∀ (xs : List Json) (left n depth : ℕ) (p : Place)
    (samples : List (String × String)), PlainItems maxDepth xs left depth →
      sampleItems maxDepth maxPaths xs left p.path depth samples =
        collect maxPaths enterSample (stringsOf (visitItems maxDepth xs left n depth p)) samples
  | [], _, _, _, _, _, _ => by
    simp only [sampleItems, visitItems]
    rfl
  | _ :: _, 0, _, _, _, _, _ => by
    simp only [sampleItems, visitItems]
    rfl
  | x :: xs, left + 1, n, depth, p, samples, hxs => by
    have hstep {samples' : List (String × String)} {first : List (Place × Json)}
        (hrest : PlainItems maxDepth xs left depth)
        (hfirst : samples' = collect maxPaths enterSample (stringsOf first) samples) :
        (if maxPaths ≤ samples'.length then samples'
          else sampleItems maxDepth maxPaths xs left p.path depth samples') =
          collect maxPaths enterSample
            (stringsOf (first ++ visitItems maxDepth xs left (n + 1) depth p)) samples := by
      rw [stringsOf_append, collect_append, ← hfirst]
      split_ifs with hfull
      · exact (collect_of_full hfull _).symm
      · exact sampleItems_collect xs left (n + 1) depth p samples' hrest
    have hother (hx : ∀ ms, x = .obj ms → False) (hplain : PlainKeys maxDepth x depth)
        (hrest : PlainItems maxDepth xs left depth) :
        sampleItems maxDepth maxPaths (x :: xs) (left + 1) p.path depth samples =
          collect maxPaths enterSample
            (stringsOf (visitItems maxDepth (x :: xs) (left + 1) n depth p)) samples := by
      rw [sampleItems, visitItems]
      · exact hstep hrest (sampleValue_collect x depth (p.array.item n) samples hplain)
      · exact hx
      · exact hx
    cases x with
    | obj ms =>
      rw [sampleItems, visitItems]
      exact hstep hxs.2 (sampleItemMembers_collect ms depth (p.item n) samples hxs.1)
    | _ => exact hother (by simp) hxs.1 hxs.2

theorem sampleItemMembers_collect : ∀ (ms : Json.Members) (depth : ℕ) (p : Place)
    (samples : List (String × String)), PlainMembers maxDepth ms depth →
      sampleItemMembers maxDepth maxPaths ms p.path depth samples =
        collect maxPaths enterSample (stringsOf (visitMembers maxDepth ms depth p)) samples
  | [], _, _, _, _ => by
    rw [sampleItemMembers, visitMembers]
    rfl
  | (key, child) :: ms, depth, p, samples, hms => by
    have hchild := sampleMember_collect hms.1
      (sampleValue_collect child depth (p.member key) samples hms.2.1)
    rw [sampleItemMembers, visitMembers, stringsOf_append, collect_append, ← hchild]
    exact sampleItemMembers_collect ms depth p _ hms.2.2
end

theorem sampleEvent_collect {event : Json} (h : PlainEvent maxDepth event)
    (samples : List (String × String)) :
    sampleEvent maxDepth maxPaths samples event =
      collect maxPaths enterSample (stringsOf (visits maxDepth event)) samples := by
  cases event with
  | obj ms => exact sampleMembers_collect ms 0 ⟨"$", [], []⟩ samples h
  | _ => exact sampleValue_collect _ 0 ⟨"$", [], []⟩ samples h

/-- The samples of a batch with plain keys. -/
theorem collectStringSamples_collect {maxEvents : ℕ} {events : List Json}
    (h : ∀ event ∈ events.take maxEvents, PlainEvent maxDepth event) :
    collectStringSamplesFromEvents maxDepth maxPaths maxEvents events =
      collect maxPaths enterSample
        ((events.take maxEvents).flatMap fun event => stringsOf (visits maxDepth event)) [] := by
  rw [collect_flatMap, collectStringSamplesFromEvents]
  apply List.foldl_ext
  intro samples event hevent
  exact sampleEvent_collect (h event hevent) samples

end Samples

/-! ### The places of the walk -/

/-- What holds of each place of the walk and the value recorded there. -/
structure Located (event : Json) (x : Place × Json) : Prop where
  text : x.1.path.toList = '$' :: selsChars x.1.sels
  observed : ∀ i, .index i ∉ x.1.sels
  value : getAt x.1.pos event = some x.2

theorem located_of_visited {event : Json} {p : Place} {v : Json} (h : Visited event p v) :
    Located event (p, v) := ⟨h.text, h.observed, h.value⟩

section Places

variable {event : Json} {maxDepth : ℕ}

mutual
theorem visitValue_located : ∀ (v : Json) (depth : ℕ) (p : Place), v.WellFormed →
    Visited event p v → ∀ x ∈ visitValue maxDepth v depth p, Located event x
  | v, depth, p, hwf, hv, x, hx => by
    unfold visitValue at hx
    split_ifs at hx
    · exact absurd hx List.not_mem_nil
    · rcases List.mem_cons.mp hx with rfl | hx
      · exact located_of_visited hv
      · cases v with
        | obj ms =>
          exact visitMembers_located ms ms (depth + 1) p hwf hv (List.suffix_refl ms) x hx
        | arr xs =>
          rcases List.mem_cons.mp hx with rfl | hx
          · exact ⟨hv.array_text, hv.array_observed, hv.value⟩
          · exact visitItems_located xs xs arraySampleSize 0 (depth + 1) p hwf hv rfl x hx
        | _ => exact absurd hx List.not_mem_nil

theorem visitMembers_located : ∀ (ms all : Json.Members) (depth : ℕ) (p : Place),
    (Json.obj all).WellFormed → Visited event p (.obj all) → ms <:+ all →
      ∀ x ∈ visitMembers maxDepth ms depth p, Located event x
  | [], _, _, _, _, _, _, x, hx => by
    rw [visitMembers] at hx
    exact absurd hx List.not_mem_nil
  | (key, child) :: ms, all, depth, p, hwf, hv, hsub, x, hx => by
    have hmem : (key, child) ∈ all := hsub.subset (by simp)
    have hget : Dict.get? key all = some child := Dict.get?_of_mem hwf.keys hmem
    rw [visitMembers] at hx
    rcases List.mem_append.mp hx with hx | hx
    · exact visitValue_located child depth (p.member key) (hwf.member hmem) (hv.member hget) x hx
    · exact visitMembers_located ms all depth p hwf hv ((List.suffix_cons _ _).trans hsub) x hx

theorem visitItems_located : ∀ (xs all : List Json) (left n depth : ℕ) (p : Place),
    (Json.arr all).WellFormed → Visited event p (.arr all) → xs = all.drop n →
      ∀ x ∈ visitItems maxDepth xs left n depth p.array, Located event x
  | [], _, _, _, _, _, _, _, _, x, hx => by
    simp only [visitItems] at hx
    exact absurd hx List.not_mem_nil
  | y :: ys, _, 0, _, _, _, _, _, _, x, hx => by
    simp only [visitItems] at hx
    exact absurd hx List.not_mem_nil
  | y :: ys, all, left + 1, n, depth, p, hwf, hv, hdrop, x, hx => by
    have hy : all[n]? = some y := by
      rw [← List.head?_drop, ← hdrop, List.head?_cons]
    have hrest : ys = all.drop (n + 1) := by
      rw [← List.tail_drop, ← hdrop, List.tail_cons]
    have hwy : y.WellFormed := hwf.item (List.mem_of_getElem? hy)
    have htail (hx : x ∈ visitItems maxDepth ys left (n + 1) depth p.array) : Located event x :=
      visitItems_located ys all left (n + 1) depth p hwf hv hrest x hx
    have hother (hne : ∀ ms, y = .obj ms → False) : Located event x := by
      rw [visitItems] at hx
      · rcases List.mem_append.mp hx with hx | hx
        · exact visitValue_located y depth _ hwy (hv.nested hy) x hx
        · exact htail hx
      · exact hne
    cases y with
    | obj ms =>
      rw [visitItems] at hx
      rcases List.mem_append.mp hx with hx | hx
      · exact visitMembers_located ms ms depth _ hwy (hv.item hy) (List.suffix_refl ms) x hx
      · exact htail hx
    | _ => exact hother (by simp)
end

theorem visits_located (hwf : event.WellFormed) : ∀ x ∈ visits maxDepth event, Located event x := by
  cases event with
  | obj ms => exact visitMembers_located ms ms 0 _ hwf (.root _) (List.suffix_refl ms)
  | _ => exact visitValue_located _ 0 _ hwf (.root _)

/-- The last member of a path is followed by lists only. -/
theorem lastKey_eq {sels : List Sel} {key : String} (hobs : ∀ i, .index i ∉ sels)
    (h : lastKey sels = some key) :
    ∃ init n, sels = init ++ .key key :: List.replicate n .wild := by
  induction sels using List.reverseRecOn with
  | nil => cases h
  | append_singleton sels s ih =>
    have hobs' : ∀ i, .index i ∉ sels := fun i hi => hobs i (List.mem_append_left _ hi)
    cases s with
    | key k =>
      have hk : k = key := by simpa [lastKey, List.filterMap_append] using h
      exact ⟨sels, 0, by rw [hk]; rfl⟩
    | wild =>
      have hk : lastKey sels = some key := by simpa [lastKey, List.filterMap_append] using h
      obtain ⟨init, n, rfl⟩ := ih hobs' hk
      refine ⟨init, n + 1, ?_⟩
      rw [List.append_assoc, List.cons_append, List.replicate_succ']
    | index i => exact absurd (List.mem_append_right _ (List.mem_singleton.mpr rfl)) (hobs i)

theorem Located.text_lastKey {x : Place × Json} (h : Located event x) {key : String}
    (hkey : lastKey x.1.sels = some key) :
    ∃ a n, x.1.path.toList = '$' :: (a ++ (memberChars key ++ pairs n)) := by
  obtain ⟨init, n, hsels⟩ := lastKey_eq h.observed hkey
  refine ⟨selsChars init, n, ?_⟩
  rw [h.text, hsels]
  simp [selsChars, selChars, pairs]

end Places

/-! ### Plain keys -/

/-- The last object key of a place is plain. -/
def KeyPlain (p : Place) : Prop :=
  ∀ key, lastKey p.sels = some key → isPlainMember key.toList = true

theorem keyPlain_member {p : Place} {key : String} :
    KeyPlain (p.member key) ↔ isPlainMember key.toList = true := by
  have hlast : lastKey (p.member key).sels = some key := by
    simp [lastKey, Place.member, List.filterMap_append]
  constructor
  · intro h
    exact h key hlast
  · intro h k hk
    rw [hlast] at hk
    exact Option.some.inj hk ▸ h

theorem keyPlain_array {p : Place} : KeyPlain p.array ↔ KeyPlain p := by
  have hlast : lastKey p.array.sels = lastKey p.sels := by
    simp [lastKey, Place.array, List.filterMap_append]
  unfold KeyPlain
  rw [hlast]

section PlainPlaces

variable {maxDepth : ℕ}

theorem plainKeys_deep {depth : ℕ} (h : maxDepth < depth) (v : Json) : PlainKeys maxDepth v depth := by
  cases v with
  | obj ms => exact .inl h
  | arr xs => exact .inl h
  | _ => trivial

mutual
/-- The keys are plain exactly when each place of the walk ends in a plain one. -/
theorem visitValue_plain : ∀ (v : Json) (depth : ℕ) (p : Place), KeyPlain p →
    ((∀ x ∈ visitValue maxDepth v depth p, KeyPlain x.1) ↔ PlainKeys maxDepth v depth)
  | v, depth, p, hp => by
    by_cases hdeep : maxDepth < depth
    · simp [visitValue_deep hdeep, plainKeys_deep hdeep]
    unfold visitValue
    rw [if_neg hdeep, List.forall_mem_cons, and_iff_right hp]
    cases v with
    | obj ms =>
      rw [PlainKeys, or_iff_right hdeep]
      exact visitMembers_plain ms (depth + 1) p
    | arr xs =>
      rw [PlainKeys, or_iff_right hdeep, List.forall_mem_cons, and_iff_right (keyPlain_array.mpr hp)]
      exact visitItems_plain xs arraySampleSize 0 (depth + 1) p.array (keyPlain_array.mpr hp)
    | _ => simp [PlainKeys]

theorem visitMembers_plain : ∀ (ms : Json.Members) (depth : ℕ) (p : Place),
    (∀ x ∈ visitMembers maxDepth ms depth p, KeyPlain x.1) ↔ PlainMembers maxDepth ms depth
  | [], _, _ => by simp [visitMembers, PlainMembers]
  | (key, child) :: ms, depth, p => by
    rw [visitMembers, List.forall_mem_append, PlainMembers, visitMembers_plain ms depth p, ← and_assoc]
    apply and_congr_left'
    by_cases hdeep : maxDepth < depth
    · simp [visitValue_deep hdeep, plainKeys_deep hdeep, hdeep]
    rw [or_iff_right hdeep]
    constructor
    · intro h
      have hhere : (p.member key, child) ∈ visitValue maxDepth child depth (p.member key) := by
        unfold visitValue
        rw [if_neg hdeep]
        exact List.mem_cons_self
      have hkey := h _ hhere
      exact ⟨keyPlain_member.mp hkey, (visitValue_plain child depth _ hkey).mp h⟩
    · rintro ⟨hkey, hchild⟩
      exact (visitValue_plain child depth _ (keyPlain_member.mpr hkey)).mpr hchild

theorem visitItems_plain : ∀ (xs : List Json) (left n depth : ℕ) (p : Place), KeyPlain p →
    ((∀ x ∈ visitItems maxDepth xs left n depth p, KeyPlain x.1) ↔
      PlainItems maxDepth xs left depth)
  | [], _, _, _, _, _ => by simp [visitItems, PlainItems]
  | _ :: _, 0, _, _, _, _ => by simp [visitItems, PlainItems]
  | y :: ys, left + 1, n, depth, p, hp => by
    have hrest := visitItems_plain ys left (n + 1) depth p hp
    have hother (hne : ∀ ms, y = .obj ms → False) :
        (∀ x ∈ visitItems maxDepth (y :: ys) (left + 1) n depth p, KeyPlain x.1) ↔
          PlainItems maxDepth (y :: ys) (left + 1) depth := by
      rw [visitItems, PlainItems, List.forall_mem_append, hrest]
      · exact and_congr_left' (visitValue_plain y depth _ (keyPlain_array.mpr hp))
      · exact hne
      · exact hne
    cases y with
    | obj ms =>
      rw [visitItems, PlainItems, List.forall_mem_append, hrest]
      exact and_congr_left' (visitMembers_plain ms depth _)
    | _ => exact hother (by simp)
end

theorem visits_plain (event : Json) :
    (∀ x ∈ visits maxDepth event, KeyPlain x.1) ↔ PlainEvent maxDepth event := by
  have hroot : KeyPlain ⟨"$", [], []⟩ := fun key h => by cases h
  cases event with
  | obj ms => exact visitMembers_plain ms 0 _
  | _ => exact visitValue_plain _ 0 _ hroot

end PlainPlaces

/-! ### The paths reported -/

section Reported

variable {maxDepth maxPaths maxEvents : ℕ} {events : List Json}

theorem collectPathsFromEvents_collect :
    collectPathsFromEvents maxDepth maxPaths maxEvents events =
      collect maxPaths enterMerged ((events.take maxEvents).flatMap fun event =>
        collect maxPaths enterType (visits maxDepth event) []) [] := by
  have hout : (fun event => (collectPathsFromEvent maxDepth maxPaths event).out) =
      fun event => collect maxPaths enterType (visits maxDepth event) [] := by
    funext event
    exact collectPathsFromEvent_out event
  rw [collectPathsFromEvents, hout]
  rcases Nat.eq_zero_or_pos maxPaths with rfl | hpos
  · have hnone (event : Json) : collect 0 enterType (visits maxDepth event) [] = [] :=
      collect_of_full (Nat.zero_le _) _
    have hempty : ((events.take maxEvents).flatMap fun event =>
        collect 0 enterType (visits maxDepth event) []) = [] := by simp [hnone]
    rw [hempty]
    rfl
  · exact mergePaths_eq_collect _ _ hpos

theorem merge_string {existing : Option InferredType} {new : InferredType}
    (h : mergeInferredTypes existing new = .string) : new = .string ∨ existing = some .string := by
  cases existing with
  | none => exact .inl h
  | some old =>
    unfold mergeInferredTypes at h
    simp only at h
    split_ifs at h with h1 h2 h3 h4 h5
    · exact .inl h
    · exact .inr (congrArg some h)
    · exact .inl h

/-- A path reported as a string was recorded for a string in some event of the sample. -/
theorem exists_string_of_reported {path : String}
    (h : Dict.get? path (collectPathsFromEvents maxDepth maxPaths maxEvents events) =
      some .string) :
    ∃ event ∈ events.take maxEvents, ∃ p s, (p, .str s) ∈ visits maxDepth event ∧
      p.path = path := by
  have hevent (event : Json)
      (h : Dict.get? path (collect maxPaths enterType (visits maxDepth event) []) = some .string) :
      ∃ p s, (p, .str s) ∈ visits maxDepth event ∧ p.path = path := by
    refine collect_induction (P := fun out => Dict.get? path out = some InferredType.string →
      ∃ p s, (p, .str s) ∈ visits maxDepth event ∧ p.path = path) ?_ (by simp) h
    intro x hx out hout hget
    rw [enterType, Dict.get?_set] at hget
    split_ifs at hget with hpath
    · rcases merge_string (Option.some.inj hget) with hnew | hold
      · obtain ⟨p, v⟩ := x
        cases v with
        | str s => exact ⟨p, s, hx, hpath⟩
        | _ => cases hnew
      · exact hout (hpath ▸ hold)
    · exact hout hget
  rw [collectPathsFromEvents_collect] at h
  refine collect_induction (P := fun out => Dict.get? path out = some InferredType.string →
    ∃ event ∈ events.take maxEvents, ∃ p s, (p, .str s) ∈ visits maxDepth event ∧
      p.path = path) ?_ (by simp) h
  intro x hx out hout hget
  rw [enterMerged, Dict.get?_set] at hget
  split_ifs at hget with hpath
  · rcases merge_string (Option.some.inj hget) with hnew | hold
    · obtain ⟨event, hmem, hentry⟩ := List.mem_flatMap.mp hx
      have hfound : Dict.get? path (collect maxPaths enterType (visits maxDepth event) []) =
          some .string := by
        rw [← hpath, ← hnew]
        exact Dict.get?_of_mem (entersKey_enterType.nodup_collect _) hentry
      exact ⟨event, hmem, hevent event hfound⟩
    · exact hout (hpath ▸ hold)
  · exact hout hget

/-- The paths of the places of a batch. -/
def visitedPaths (maxDepth : ℕ) (sample : List Json) : Finset String :=
  (sample.flatMap fun event => (visits maxDepth event).map fun x => x.1.path).toFinset

theorem mem_visitedPaths {sample : List Json} {event : Json} (hevent : event ∈ sample)
    {x : Place × Json} (hx : x ∈ visits maxDepth event) :
    x.1.path ∈ visitedPaths maxDepth sample :=
  List.mem_toFinset.mpr (List.mem_flatMap.mpr ⟨event, hevent, List.mem_map_of_mem hx⟩)

/-- Within the limit every path is reported. -/
theorem reported_of_visited (hlimit : (visitedPaths maxDepth (events.take maxEvents)).card ≤ maxPaths)
    {event : Json} (hevent : event ∈ events.take maxEvents) {x : Place × Json}
    (hx : x ∈ visits maxDepth event) :
    x.1.path ∈ (collectPathsFromEvents maxDepth maxPaths maxEvents events).map Prod.fst := by
  have hout : x.1.path ∈ (collect maxPaths enterType (visits maxDepth event) []).map Prod.fst :=
    entersKey_enterType.mem_collect hlimit (fun y hy => mem_visitedPaths hevent hy) hx
  obtain ⟨entry, hentry, hpath⟩ := List.mem_map.mp hout
  rw [collectPathsFromEvents_collect, ← hpath]
  refine entersKey_enterMerged.mem_collect hlimit ?_ (List.mem_flatMap.mpr ⟨event, hevent, hentry⟩)
  intro y hy
  obtain ⟨other, hother, hmem⟩ := List.mem_flatMap.mp hy
  obtain ⟨z, hz, hzy⟩ := List.mem_map.mp
    (entersKey_enterType.collected y.1 (List.mem_map_of_mem hmem))
  rw [← hzy]
  exact mem_visitedPaths hother hz

/-- On plain keys each string place has a sample, and each sample is a string of its path. -/
theorem sampled_of_plain (hwf : ∀ event ∈ events, event.WellFormed)
    (hlimit : (visitedPaths maxDepth (events.take maxEvents)).card ≤ maxPaths)
    (hplain : ∀ event ∈ events.take maxEvents, PlainEvent maxDepth event) {event : Json}
    (hevent : event ∈ events.take maxEvents) {p : Place} {t : String}
    (hp : (p, .str t) ∈ visits maxDepth event) :
    ∃ s, Dict.get? p.path (collectStringSamplesFromEvents maxDepth maxPaths maxEvents events) =
        some s ∧
      ∃ other ∈ events.take maxEvents, ∃ q, (q, .str s) ∈ visits maxDepth other ∧
        q.path = p.path ∧ getAt q.pos other = some (.str s) := by
  set strings := (events.take maxEvents).flatMap fun event => stringsOf (visits maxDepth event)
    with hstrings
  rw [collectStringSamples_collect hplain]
  have hsource {path s : String} (h : (path, s) ∈ strings) :
      ∃ other ∈ events.take maxEvents, ∃ q, (q, .str s) ∈ visits maxDepth other ∧
        q.path = path := by
    obtain ⟨other, hother, hmem⟩ := List.mem_flatMap.mp h
    exact ⟨other, hother, mem_stringsOf.mp hmem⟩
  have hentered : p.path ∈ (collect maxPaths enterSample strings []).map Prod.fst := by
    refine entersKey_enterSample.mem_collect hlimit (x := (p.path, t)) ?_ ?_
    · rintro ⟨path, s⟩ hmem
      obtain ⟨other, hother, q, hq, rfl⟩ := hsource hmem
      exact mem_visitedPaths hother hq
    · exact List.mem_flatMap.mpr ⟨event, hevent, mem_stringsOf.mpr ⟨p, hp, rfl⟩⟩
  obtain ⟨⟨path, s⟩, hmem, hpath⟩ := List.mem_map.mp hentered
  have hget := Dict.get?_of_mem (entersKey_enterSample.nodup_collect strings) hmem
  rw [← hpath]
  refine ⟨s, hget, ?_⟩
  have hsample : (path, s) ∈ strings := by
    refine collect_induction (P := fun out => (path, s) ∈ out → (path, s) ∈ strings) ?_
      (by simp) hmem
    intro x hx out hout hin
    unfold enterSample addSample at hin
    split_ifs at hin with hhas
    · exact hout hin
    · rcases Dict.mem_set hin with ⟨rfl, rfl⟩ | hold
      · exact hx
      · exact hout hold
  obtain ⟨other, hother, q, hq, hpath⟩ := hsource hsample
  exact ⟨other, hother, q, hq, hpath,
    (visits_located (hwf other (List.mem_of_mem_take hother)) _ hq).value⟩

end Reported

/-- Within the limit on the number of paths, detection sees every string exactly when every
object key it comes upon is plain. -/
theorem seesEveryString_iff {T : CaseTable} (hT : LowersToLetters T)
    {maxDepth maxPaths maxEvents : ℕ} {events : List Json}
    (hwf : ∀ event ∈ events, event.WellFormed)
    (hlimit : (visitedPaths maxDepth (events.take maxEvents)).card ≤ maxPaths) :
    SeesEveryString T maxDepth maxPaths maxEvents events ↔
      ∀ event ∈ events.take maxEvents, PlainEvent maxDepth event := by
  have hlocated {event : Json} (hevent : event ∈ events.take maxEvents) {x : Place × Json}
      (hx : x ∈ visits maxDepth event) : Located event x :=
    visits_located (hwf event (List.mem_of_mem_take hevent)) x hx
  constructor
  · intro h event hevent
    rw [← visits_plain]
    intro x hx key hkey
    by_contra hquoted
    obtain ⟨a, n, htext⟩ := (hlocated hevent hx).text_lastKey hkey
    have hleaf := h.leaf event hevent x hx (reported_of_visited hlimit hevent hx) key hkey
    exact leafSegment_quoted hT (by simpa using hquoted) htext hleaf
  · intro hplain
    constructor
    · intro path hstring
      obtain ⟨event, hevent, p, s, hp, rfl⟩ := exists_string_of_reported hstring
      exact sampled_of_plain hwf hlimit hplain hevent hp
    · intro event hevent x hx _ key hkey
      obtain ⟨a, n, htext⟩ := (hlocated hevent hx).text_lastKey hkey
      have hkeyPlain := (visits_plain event).mpr (hplain event hevent) x hx key hkey
      exact leafSegment_plain hkeyPlain htext

theorem asciiCase_lowersToLetters : LowersToLetters asciiCase := by
  intro c hc d hd hascii
  have hsame : c.toLower = c := by
    unfold Char.toLower
    split_ifs with hupper
    · have hrange : 65 ≤ c.toNat ∧ c.toNat ≤ 90 := hupper
      omega
    · rfl
  have hdc : d = c := hsame ▸ List.mem_singleton.mp hd
  subst hdc
  omega

/-- An event with a nested string. -/
def contactEvent : Json := .obj [("user", .obj [("email", .str "a@b.c")])]

theorem contactEvent_seen :
    (∀ event ∈ [contactEvent].take 500, PlainEvent 64 event) ∧
      SeesEveryString asciiCase 64 5000 500 [contactEvent] := by
  have huser : isPlainMember "user".toList = true := by decide
  have hemail : isPlainMember "email".toList = true := by decide
  have hplain : ∀ event ∈ [contactEvent].take 500, PlainEvent 64 event := by
    intro event hevent
    obtain rfl := List.mem_singleton.mp hevent
    exact ⟨.inr huser, .inr ⟨.inr hemail, trivial, trivial⟩, trivial⟩
  have hwf : ∀ event ∈ [contactEvent], event.WellFormed := by
    simp [contactEvent, Json.WellFormed, Json.WellFormedMembers]
  exact ⟨hplain,
    (seesEveryString_iff asciiCase_lowersToLetters hwf (by decide +kernel)).mpr hplain⟩

/-- A key with a dot in it: no sample is found under its path. -/
theorem dottedKey_unseen :
    (visitedPaths 64 ([.obj [("a.b", .str "x")]].take 500)).card ≤ 5000 ∧
      ¬ SeesEveryString asciiCase 64 5000 500 [.obj [("a.b", .str "x")]] := by
  have hreported : Dict.get? "$['a.b']"
      (collectPathsFromEvents 64 5000 500 [.obj [("a.b", .str "x")]]) = some .string := by
    decide +kernel
  have hsamples : Dict.get? "$['a.b']"
      (collectStringSamplesFromEvents 64 5000 500 [.obj [("a.b", .str "x")]]) = none := by
    decide +kernel
  refine ⟨by decide +kernel, fun h => ?_⟩
  obtain ⟨s, hs, -⟩ := h.sampled _ hreported
  rw [hsamples] at hs
  cases hs

end SensitiveDetection
