import DataRelay.Mapping.ResidualExactness

/-! Basic mapping with the unmapped fields passed through. The residual is merged into the mapped
output, also inside of mapped objects and lists, at places where the output has nothing. -/
namespace Mapping
open JsonPath

/-! ### The merge -/

mutual
/-- What becomes of a value the target has. -/
def mergeValue (target : Json) : Json → Json
  | .obj source =>
    match target with
    | .obj target => .obj (mergeInto target source)
    | v => v
  | .arr source =>
    match target with
    | .arr target => .arr (mergeArrays target source)
    | v => v
  | _ => target

/-- `merge_into`. -/
def mergeInto (target : Json.Members) : Json.Members → Json.Members
  | [] => target
  | (key, srcVal) :: source =>
    match Dict.get? key target with
    | none => mergeInto (Dict.set key srcVal target) source
    | some tgtVal => mergeInto (Dict.set key (mergeValue tgtVal srcVal) target) source

/-- `merge_arrays`: past the end of the target the items are appended. -/
def mergeArrays (target : List Json) : List Json → List Json
  | [] => target
  | srcItem :: source =>
    match target with
    | [] => srcItem :: mergeArrays [] source
    | tgtItem :: target => mergeValue tgtItem srcItem :: mergeArrays target source
end

/-- `deep_merge_pass_through`. -/
def deepMergePassThrough (output : Json.Members) (residual : Json) : Json.Members :=
  match residual with
  | .obj source => mergeInto output source
  | _ => output

/-! ### The mapping -/

/-- `maps_whole_event`. -/
def mapsWholeEvent (sourceJsonPaths : List String) : Bool :=
  sourceJsonPaths.any fun path => PyText.strip path = "$" ∨ PyText.strip path = ""

section mapping

variable (lib : PathLibrary)

/-- `merge_unknown_field_pass_through`. -/
def mergeUnknownFieldPassThrough (event output : Json.Members) (sourceJsonPaths : List String) :
    Except MapError Json.Members :=
  if mapsWholeEvent sourceJsonPaths then .ok output
  else
    (buildResidualAfterMapping lib (.obj event) sourceJsonPaths).map fun residual =>
      if residual = .obj [] then output else deepMergePassThrough output residual

/-- `compile_mappings`. -/
def compileMappings : List (String × String) → Except MapError (List (String × lib.Query))
  | [] => .ok []
  | (outField, path) :: fieldMappings =>
    match compileJsonpath lib path with
    | .ok query => (compileMappings fieldMappings).map ((outField, query) :: ·)
    | .error _ => .error (.invalidMapping outField path)

/-- The output before the unmapped fields. -/
def extractFields (event : Json) (compiledMappings : List (String × lib.Query)) : Json.Members :=
  compiledMappings.foldl (fun output m => Dict.set m.1 (extractOneCompiled lib m.2 event .null) output) []

/-- `apply_compiled_mapping`. -/
def applyCompiledMapping (event : Json.Members) (compiledMappings : List (String × lib.Query))
    (sourceJsonPaths : Option (List String)) : Except MapError Json.Members :=
  if compiledMappings.isEmpty then .ok event
  else
    match sourceJsonPaths with
    | some paths =>
      mergeUnknownFieldPassThrough lib event (extractFields lib (.obj event) compiledMappings) paths
    | none => .ok (extractFields lib (.obj event) compiledMappings)

/-- A basic mapping of `apply_mapping_with_transform_results` that passes the unmapped fields
through. -/
def applyBasicMapping (event : Json.Members) (basic : List (String × String)) :
    Except MapError Json.Members :=
  (compileMappings lib basic).bind fun compiled =>
    applyCompiledMapping lib event compiled (some (basic.map Prod.snd))

end mapping

/-! ### What is at a place stays there -/

/-- The same scalar, or containers of one kind. -/
def SameKind : Json → Json → Prop
  | .arr _, .arr _ => True
  | .obj _, .obj _ => True
  | v, w => v = w

theorem SameKind.refl (v : Json) : SameKind v v := by cases v <;> simp [SameKind]

theorem SameKind.trans {u v w : Json} (h1 : SameKind u v) (h2 : SameKind v w) : SameKind u w := by
  cases u <;> cases v <;> cases w <;> simp_all [SameKind]

/-- At every place of the value the other has the same scalar or a container of the same kind. -/
def Extends (v w : Json) : Prop :=
  ∀ p x, getAt p v = some x → ∃ y, getAt p w = some y ∧ SameKind x y

theorem Extends.refl (v : Json) : Extends v v := fun _ x hx => ⟨x, hx, .refl x⟩

theorem Extends.trans {u v w : Json} (h1 : Extends u v) (h2 : Extends v w) : Extends u w := by
  intro p x hx
  obtain ⟨y, hy, hxy⟩ := h1 p x hx
  obtain ⟨z, hz, hyz⟩ := h2 p y hy
  exact ⟨z, hz, hxy.trans hyz⟩

theorem Extends.obj {ms ns : Json.Members}
    (h : ∀ k v, Dict.get? k ms = some v → ∃ w, Dict.get? k ns = some w ∧ Extends v w) :
    Extends (.obj ms) (.obj ns) := by
  intro p x hx
  cases p with
  | nil => exact ⟨.obj ns, rfl, by obtain rfl := Option.some.inj hx; trivial⟩
  | cons t p =>
    cases t with
    | item n => cases hx
    | member k =>
      obtain ⟨v, hv, hx⟩ := Option.bind_eq_some_iff.mp hx
      obtain ⟨w, hw, hvw⟩ := h k v hv
      obtain ⟨y, hy, hxy⟩ := hvw p x hx
      exact ⟨y, by simpa [getAt, hw] using hy, hxy⟩

theorem Extends.arr {xs ys : List Json}
    (h : ∀ (i : ℕ) (v : Json), xs[i]? = some v → ∃ w, ys[i]? = some w ∧ Extends v w) :
    Extends (.arr xs) (.arr ys) := by
  intro p x hx
  cases p with
  | nil => exact ⟨.arr ys, rfl, by obtain rfl := Option.some.inj hx; trivial⟩
  | cons t p =>
    cases t with
    | member k => cases hx
    | item n =>
      obtain ⟨v, hv, hx⟩ := Option.bind_eq_some_iff.mp hx
      obtain ⟨w, hw, hvw⟩ := h n v hv
      obtain ⟨y, hy, hxy⟩ := hvw p x hx
      exact ⟨y, by simpa [getAt, hw] using hy, hxy⟩

/-- A scalar is extended by itself alone. -/
theorem Extends.eq_of_scalar {v w : Json} (h : Extends v w) (hv : isContainer v = false) : w = v := by
  obtain ⟨y, hy, hvy⟩ := h [] v rfl
  obtain rfl := Option.some.inj hy
  cases v <;> simp_all [SameKind, isContainer]

mutual
theorem extends_mergeValue : ∀ source target : Json, Extends target (mergeValue target source)
  | .obj source, target => by
    cases target with
    | obj target =>
      rw [mergeValue]
      exact Extends.obj fun k v hv => (get?_mergeInto source target k v hv).imp fun w hw => ⟨hw.1, hw.2.1⟩
    | _ => exact .refl _
  | .arr source, target => by
    cases target with
    | arr target =>
      rw [mergeValue]
      exact Extends.arr (getElem?_mergeArrays source target)
    | _ => exact .refl _
  | .null, target => by simpa [mergeValue] using .refl target
  | .bool _, target => by simpa [mergeValue] using .refl target
  | .int _, target => by simpa [mergeValue] using .refl target
  | .float _, target => by simpa [mergeValue] using .refl target
  | .str _, target => by simpa [mergeValue] using .refl target

/-- A member of the target is extended, and stays where the source has none of its name. -/
theorem get?_mergeInto : ∀ (source target : Json.Members) (k : String) (v : Json),
    Dict.get? k target = some v → ∃ w, Dict.get? k (mergeInto target source) = some w ∧
      Extends v w ∧ (Dict.get? k source = none → w = v)
  | [], _, _, v, hv => ⟨v, hv, .refl v, fun _ => rfl⟩
  | (key, srcVal) :: source, target, k, v, hv => by
    rw [mergeInto]
    cases hkey : Dict.get? key target with
    | none =>
      have hne : key ≠ k := by
        rintro rfl
        rw [hkey] at hv
        cases hv
      have hset : Dict.get? k (Dict.set key srcVal target) = some v := by simp [hne, hv]
      obtain ⟨w, hw, hext, hsame⟩ := get?_mergeInto source _ k v hset
      exact ⟨w, hw, hext, by simpa [hne] using hsame⟩
    | some tgtVal =>
      by_cases hk : key = k
      · subst hk
        obtain rfl : tgtVal = v := by simpa [hv] using hkey.symm
        have hset : Dict.get? key (Dict.set key (mergeValue tgtVal srcVal) target) =
            some (mergeValue tgtVal srcVal) := by simp
        obtain ⟨w, hw, hext, -⟩ := get?_mergeInto source _ key _ hset
        exact ⟨w, hw, (extends_mergeValue srcVal tgtVal).trans hext, by simp⟩
      · have hset : Dict.get? k (Dict.set key (mergeValue tgtVal srcVal) target) = some v := by
          simp [hk, hv]
        obtain ⟨w, hw, hext, hsame⟩ := get?_mergeInto source _ k v hset
        exact ⟨w, hw, hext, by simpa [hk] using hsame⟩

theorem getElem?_mergeArrays : ∀ (source target : List Json) (i : ℕ) (v : Json),
    target[i]? = some v → ∃ w, (mergeArrays target source)[i]? = some w ∧ Extends v w
  | [], _, _, v, hv => ⟨v, hv, .refl v⟩
  | srcItem :: source, target, i, v, hv => by
    cases target with
    | nil => cases hv
    | cons tgtItem target =>
      rw [mergeArrays]
      cases i with
      | zero =>
        obtain rfl := Option.some.inj hv
        exact ⟨_, rfl, extends_mergeValue srcItem tgtItem⟩
      | succ i => exact getElem?_mergeArrays source target i v hv
end

/-! ### The mapped fields -/

section

variable {lib : PathLibrary} {event : Json.Members}

theorem compileMappings_ok {basic : List (String × String)}
    (h : ∀ m ∈ basic, ∃ place, firstMatchAt lib (.obj event) m.2 = .ok place) :
    ∃ compiled, compileMappings lib basic = .ok compiled ∧ compiled.map Prod.fst = basic.map Prod.fst ∧
      ∀ outField path, (outField, path) ∈ basic → ∃ query, compileJsonpath lib path = .ok query ∧
        (outField, query) ∈ compiled := by
  induction basic with
  | nil => exact ⟨[], rfl, rfl, by simp⟩
  | cons m basic ih =>
    obtain ⟨outField, path⟩ := m
    obtain ⟨⟨place, hplace⟩, hbasic⟩ := List.forall_mem_cons.mp h
    obtain ⟨query, hquery, -⟩ := Raising.bind_eq_ok hplace
    obtain ⟨compiled, hok, hkeys, hmem⟩ := ih hbasic
    refine ⟨(outField, query) :: compiled, ?_, ?_, ?_⟩
    · rw [compileMappings, hquery, hok]
      rfl
    · rw [List.map_cons, List.map_cons, hkeys]
    · intro outField' path' hm
      rcases List.mem_cons.mp hm with heq | hm
      · obtain ⟨rfl, rfl⟩ := Prod.mk.inj heq
        exact ⟨query, hquery, List.mem_cons_self⟩
      · obtain ⟨query', hquery', hmem'⟩ := hmem outField' path' hm
        exact ⟨query', hquery', List.mem_cons_of_mem _ hmem'⟩

theorem get?_extract_of_not_mem {compiled : List (String × lib.Query)} (output : Json.Members)
    {k : String} (h : k ∉ compiled.map Prod.fst) :
    Dict.get? k (compiled.foldl (fun output m =>
      Dict.set m.1 (extractOneCompiled lib m.2 (.obj event) .null) output) output) =
      Dict.get? k output := by
  induction compiled generalizing output with
  | nil => rfl
  | cons m compiled ih =>
    simp only [List.map_cons, List.mem_cons, not_or] at h
    rw [List.foldl_cons, ih _ h.2, Dict.get?_set, if_neg (Ne.symm h.1)]

/-- With distinct output fields each field of the output is the one extracted for it. -/
theorem get?_extractFields {compiled : List (String × lib.Query)}
    (hnodup : (compiled.map Prod.fst).Nodup) {k : String} {query : lib.Query}
    (hmem : (k, query) ∈ compiled) : Dict.get? k (extractFields lib (.obj event) compiled) =
      some (extractOneCompiled lib query (.obj event) .null) := by
  unfold extractFields
  generalize ([] : Json.Members) = output
  induction compiled generalizing output with
  | nil => cases hmem
  | cons m compiled ih =>
    obtain ⟨hm, hnodup⟩ := List.nodup_cons.mp hnodup
    rcases List.mem_cons.mp hmem with rfl | hmem
    · rw [List.foldl_cons, get?_extract_of_not_mem _ hm, Dict.get?_set, if_pos rfl]
    · exact ih hnodup hmem _

variable (lib event) in
/-- The result has the first match of the path, or the missing value, in the output field: at each
place of the match there is the same scalar or a container of the same kind, and it is the match
itself where that is no container or the residual has nothing of the field's name. -/
def MatchKept (sourceJsonPaths : List String) (result : Json.Members) (outField path : String) :
    Prop :=
  ∃ query w, compileJsonpath lib path = .ok query ∧ Dict.get? outField result = some w ∧
    Extends (extractOneCompiled lib query (.obj event) .null) w ∧
    (isContainer (extractOneCompiled lib query (.obj event) .null) = false ∨
      (∀ left, buildResidualAfterMapping lib (.obj event) sourceJsonPaths = .ok (.obj left) →
        Dict.get? outField left = none) →
      w = extractOneCompiled lib query (.obj event) .null)

/-- The merge, where it is made, extends the output. -/
theorem mergeUnknown_extends {paths : List String} {residual : Json} (output : Json.Members)
    (hresidual : buildResidualAfterMapping lib (.obj event) paths = .ok residual) :
    ∃ result, mergeUnknownFieldPassThrough lib event output paths = .ok result ∧
      ∀ k v, Dict.get? k output = some v → ∃ w, Dict.get? k result = some w ∧ Extends v w ∧
        ((∀ left, residual = .obj left → Dict.get? k left = none) → w = v) := by
  have hsame : ∀ k v, Dict.get? k output = some v → ∃ w, Dict.get? k output = some w ∧ Extends v w ∧
      ((∀ left, residual = .obj left → Dict.get? k left = none) → w = v) :=
    fun k v hv => ⟨v, hv, .refl v, fun _ => rfl⟩
  unfold mergeUnknownFieldPassThrough
  by_cases hwhole : mapsWholeEvent paths
  · exact ⟨output, by rw [if_pos hwhole], hsame⟩
  · rw [if_neg hwhole, hresidual]
    by_cases hempty : residual = .obj []
    · exact ⟨output, by simp [Except.map, hempty], hsame⟩
    · refine ⟨deepMergePassThrough output residual, by simp [Except.map, hempty], fun k v hv => ?_⟩
      cases residual with
      | obj source =>
        obtain ⟨w, hw, hext, hleft⟩ := get?_mergeInto source output k v hv
        exact ⟨w, hw, hext, fun h => hleft (h source rfl)⟩
      | _ => exact hsame k v hv

/-- A basic mapping with distinct output fields goes through, and every mapped field keeps its
match. -/
theorem mappedFields_kept (lib : PathLibrary) (event : Json.Members)
    (basic : List (String × String)) (hnodup : (basic.map Prod.fst).Nodup)
    (hpaths : ∀ m ∈ basic, ∃ place, firstMatchAt lib (.obj event) m.2 = .ok place) :
    ∃ result, applyBasicMapping lib event basic = .ok result ∧ ∀ outField path,
      (outField, path) ∈ basic → MatchKept lib event (basic.map Prod.snd) result outField path := by
  obtain ⟨compiled, hcompiled, hkeys, hqueries⟩ := compileMappings_ok hpaths
  have hnodup' : (compiled.map Prod.fst).Nodup := hkeys ▸ hnodup
  have hsources : ∀ path ∈ basic.map Prod.snd, ∃ place,
      firstMatchAt lib (.obj event) path = .ok place := by
    intro path hpath
    obtain ⟨m, hm, rfl⟩ := List.mem_map.mp hpath
    exact hpaths m hm
  obtain ⟨selected, hselected, -, -⟩ := selectPaths_ok [] List.nodup_nil hsources
  obtain ⟨residual, hresidual⟩ : ∃ residual,
      buildResidualAfterMapping lib (.obj event) (basic.map Prod.snd) = .ok residual := by
    rw [buildResidualAfterMapping, selectedConcretePaths, hselected]
    exact ⟨_, rfl⟩
  obtain ⟨result, hresult, hmerged⟩ :=
    mergeUnknown_extends (extractFields lib (.obj event) compiled) hresidual
  by_cases hempty : compiled = []
  · refine ⟨event, ?_, fun outField path hm => ?_⟩
    · rw [applyBasicMapping, hcompiled, hempty]
      rfl
    · obtain ⟨query, -, hmem⟩ := hqueries outField path hm
      rw [hempty] at hmem
      cases hmem
  refine ⟨result, ?_, fun outField path hm => ?_⟩
  · rw [applyBasicMapping, hcompiled, ← hresult]
    simp [Except.bind, applyCompiledMapping, hempty]
  · obtain ⟨query, hquery, hmem⟩ := hqueries outField path hm
    obtain ⟨w, hw, hext, hsame⟩ := hmerged outField _ (get?_extractFields hnodup' hmem)
    refine ⟨query, w, hquery, hw, hext, ?_⟩
    rintro (hscalar | hleft)
    · exact hext.eq_of_scalar hscalar
    · exact hsame fun left heq => hleft left (heq ▸ hresidual)

end

/-- A mapped object under the name of one that is not mapped. -/
def actorEvent : Json.Members :=
  [("actor", .obj [("id", .int 1)]), ("user", .obj [("name", .str "x")])]

def actorPaths : PathLibrary where
  Query := String
  parse := some
  find query _ :=
    if query = "$.actor" then some [⟨.obj [("id", .int 1)], .child .root (.fields ["actor"])⟩]
    else some []

theorem actorField_kept : ∃ result,
    applyBasicMapping actorPaths actorEvent [("user", "$.actor")] = .ok result ∧
      ∀ outField path, (outField, path) ∈ [("user", "$.actor")] →
        MatchKept actorPaths actorEvent ["$.actor"] result outField path :=
  mappedFields_kept actorPaths actorEvent [("user", "$.actor")] (by simp)
    (by
      have hplace : firstMatchAt actorPaths (.obj actorEvent) "$.actor" =
          .ok (some [.member "actor"]) := by rfl
      simp [hplace])

/-- The name of the other object joins the mapped one. -/
theorem mappedObject_merged : ∃ result,
    applyBasicMapping actorPaths actorEvent [("user", "$.actor")] = .ok result ∧
      Dict.get? "user" result = some (.obj [("id", .int 1), ("name", .str "x")]) ∧
      Dict.get? "user" result ≠ some (extractOneCompiled actorPaths "$.actor" (.obj actorEvent) .null) :=
  ⟨[("user", .obj [("id", .int 1), ("name", .str "x")])], by decide +kernel⟩

end Mapping
