import DataRelay.Connectors.Catalog
import DataRelay.Connectors.VersionMatchers
import DataRelay.Lib.Pruning

/-! The dependency check of the registry: modules whose requirements are not met turn invalid,
pass after pass, until a pass changes nothing. -/
namespace Connectors
open PyText

inductive ConnectorModuleStatus where
  | valid
  | invalid
  deriving DecidableEq, Repr

structure ValidationIssue where
  ruleId : String
  message : String
  connectorId : String
  path : String
  deriving DecidableEq, Repr

/-- `ConnectorModuleEntry`. -/
structure ModuleEntry extends Entry where
  manifestPath : String := ""
  status : ConnectorModuleStatus := .valid
  errors : List ValidationIssue := []
  deriving DecidableEq, Repr

/-- `RegistryLoadResult`: the modules are kept by their connector ids. -/
structure RegistryLoadResult where
  modules : List ModuleEntry
  issues : List ValidationIssue := []
  nodup : (modules.map (·.connectorId)).Nodup

namespace RegistryLoadResult

def find (r : RegistryLoadResult) (id : String) : Option ModuleEntry :=
  r.modules.find? (·.connectorId = id)

end RegistryLoadResult

/-- `known.setdefault(key, value)`. -/
def setDefault (key value : String) (known : List (String × String)) : List (String × String) :=
  if Dict.has key known then known else Dict.set key value known

def addKnown (known : List (String × String)) (entry : ModuleEntry) : List (String × String) :=
  setDefault entry.connectorId entry.connectorId
    (setDefault entry.packageIdentity.1 entry.connectorId known)

/-- `known_packages`: the module an id stands for, under its connector id. -/
def knownPackages (modules : List ModuleEntry) : List (String × String) :=
  modules.foldl addKnown []

/-- `invalid`, with the issue kept on the module and on the result. -/
def ModuleEntry.invalidated (entry : ModuleEntry) (issue : ValidationIssue) : ModuleEntry :=
  { entry with status := .invalid, errors := entry.errors ++ [issue] }

def RegistryLoadResult.invalidate (r : RegistryLoadResult) (id : String) (issue : ValidationIssue) :
    RegistryLoadResult where
  modules := r.modules.map fun entry =>
    if entry.connectorId = id then entry.invalidated issue else entry
  issues := r.issues ++ [issue]
  nodup := by
    have hids : (r.modules.map fun entry =>
        if entry.connectorId = id then entry.invalidated issue else entry).map (·.connectorId) =
          r.modules.map (·.connectorId) := by
      rw [List.map_map]
      apply List.map_congr_left
      intro entry _
      simp only [Function.comp_apply]
      split_ifs <;> rfl
    rw [hids]
    exact r.nodup

section Check

variable (pk : Packaging) (repr : String → String) (known : List (String × String))

/-- `bool(target_version) and _dependency_version_matches(...)`. -/
def targetMatches (targetVersion : Option String) (spec : String) : Except PackagingError Bool :=
  match nonempty targetVersion with
  | none => .ok false
  | some version => dependencyVersionMatches pk version spec

/-- What is wrong with one requirement of a module, if anything. -/
def requirementIssue (r : RegistryLoadResult) (entry : ModuleEntry)
    (requirement : PackageRequirement) : Option ValidationIssue :=
  let requiredId := strip requirement.packageId
  let issue (ruleId message : String) : Option ValidationIssue :=
    some { ruleId, message, connectorId := entry.connectorId, path := entry.manifestPath }
  match (Dict.get? requiredId known).bind r.find with
  | none => issue "DEP-001" ("missing required package: " ++ requiredId)
  | some target =>
    if target.status ≠ .valid ∨ target.manifest = none then
      issue "DEP-002" ("required package is invalid: " ++ requiredId)
    else
      match nonempty requirement.version with
      | none => none
      | some spec =>
        let targetVersion := target.packageIdentity.2
        let installed := (targetVersion.map repr).getD "None"
        match targetMatches pk targetVersion spec with
        | .error _ =>
          issue "DEP-004" ("dependency version is not comparable for " ++ requiredId ++
            ": installed=" ++ installed ++ " requires=" ++ repr spec)
        | .ok false =>
          issue "DEP-003" ("required package version mismatch for " ++ requiredId ++
            ": installed=" ++ installed ++ " requires=" ++ repr spec)
        | .ok true => none

/-- The first issue of a module. -/
def moduleIssue (r : RegistryLoadResult) (entry : ModuleEntry) : Option ValidationIssue :=
  (iterRequirements entry.manifest).findSome? (requirementIssue pk repr known r entry)

/-- One turn of the loop over the modules; the flag is `changed`. -/
def visitModule (s : RegistryLoadResult × Bool) (id : String) : RegistryLoadResult × Bool :=
  match s.1.find id with
  | none => s
  | some entry =>
    if entry.status = .invalid then s
    else
      match moduleIssue pk repr known s.1 entry with
      | none => s
      | some issue => (s.1.invalidate id issue, true)

def dependencyPass (r : RegistryLoadResult) : RegistryLoadResult × Bool :=
  (r.modules.map (·.connectorId)).foldl (visitModule pk repr known) (r, false)

/-- `while changed`, for as many passes as there is fuel. -/
def dependencyLoop : ℕ → RegistryLoadResult → Option RegistryLoadResult
  | 0, _ => none
  | fuel + 1, r =>
    let pass := dependencyPass pk repr known r
    if pass.2 then dependencyLoop fuel pass.1 else some pass.1

/-- `_apply_dependency_issues`: one pass more than there are modules. -/
def applyDependencyIssues (r : RegistryLoadResult) : Option RegistryLoadResult :=
  dependencyLoop pk repr (knownPackages r.modules) (r.modules.length + 1) r

end Check

namespace RegistryLoadResult

def entries (r : RegistryLoadResult) : List Entry := r.modules.map (·.toEntry)

/-- The connector ids of the valid modules. -/
def validIds (r : RegistryLoadResult) : Set String :=
  {id | ∃ entry ∈ r.modules, entry.connectorId = id ∧ entry.status = .valid}

theorem find_eq_some {r : RegistryLoadResult} {id : String} {entry : ModuleEntry} :
    r.find id = some entry ↔ entry ∈ r.modules ∧ entry.connectorId = id := by
  unfold find
  constructor
  · intro h
    exact ⟨List.mem_of_find?_eq_some h, by simpa using List.find?_some h⟩
  · rintro ⟨hmem, rfl⟩
    cases hfind : r.modules.find? (·.connectorId = entry.connectorId) with
    | none =>
      rw [List.find?_eq_none] at hfind
      have hfalse := hfind entry hmem
      simp at hfalse
    | some other =>
      have hother := List.mem_of_find?_eq_some hfind
      have hsame : other.connectorId = entry.connectorId := by simpa using List.find?_some hfind
      rw [List.inj_on_of_nodup_map r.nodup hother hmem hsame]

theorem validIds_finite (r : RegistryLoadResult) : r.validIds.Finite := by
  apply ((r.modules.map (·.connectorId)).toFinset.finite_toSet).subset
  rintro id ⟨entry, hmem, rfl, -⟩
  simp only [List.coe_toFinset, Set.mem_ofPred_eq]
  exact List.mem_map_of_mem hmem

theorem ncard_validIds_le (r : RegistryLoadResult) : r.validIds.ncard ≤ r.modules.length := by
  have hsub : r.validIds ⊆ ↑(r.modules.map (·.connectorId)).toFinset := by
    rintro id ⟨entry, hmem, rfl, -⟩
    simp only [List.coe_toFinset, Set.mem_ofPred_eq]
    exact List.mem_map_of_mem hmem
  have hcard := Set.ncard_le_ncard hsub (Finset.finite_toSet _)
  rw [Set.ncard_coe_finset] at hcard
  have hlen := (r.modules.map (·.connectorId)).toFinset_card_le
  rw [List.length_map] at hlen
  omega

@[simp] theorem entries_invalidate (r : RegistryLoadResult) (id : String) (issue : ValidationIssue) :
    (r.invalidate id issue).entries = r.entries := by
  unfold entries invalidate
  rw [List.map_map]
  apply List.map_congr_left
  intro entry _
  simp only [Function.comp_apply]
  split_ifs <;> rfl

theorem validIds_invalidate (r : RegistryLoadResult) (id : String) (issue : ValidationIssue) :
    (r.invalidate id issue).validIds = r.validIds \ {id} := by
  ext other
  simp only [validIds, invalidate, List.mem_map, Set.mem_ofPred_eq, Set.mem_sdiff,
    Set.mem_singleton_iff]
  constructor
  · rintro ⟨entry, ⟨before, hmem, rfl⟩, hid, hstatus⟩
    split_ifs at hid hstatus with hsame
    · cases hstatus
    · exact ⟨⟨before, hmem, hid, hstatus⟩, by rw [← hid]; exact hsame⟩
  · rintro ⟨⟨entry, hmem, rfl, hstatus⟩, hne⟩
    refine ⟨entry, ⟨entry, hmem, ?_⟩, rfl, hstatus⟩
    rw [if_neg hne]

end RegistryLoadResult

section Fixpoint

variable (pk : Packaging) (known : List (String × String)) (entries : List Entry)

/-- The requirement resolves to a member of `T` whose version it accepts. -/
def SatisfiedBy (T : Set String) (requirement : PackageRequirement) : Prop :=
  ∃ target ∈ entries, Dict.get? (strip requirement.packageId) known = some target.connectorId ∧
    target.connectorId ∈ T ∧ target.manifest ≠ none ∧
      ∀ spec ∈ nonempty requirement.version,
        targetMatches pk target.packageIdentity.2 spec = .ok true

/-- Every requirement of the module is satisfied by a member of `T`. -/
def RequirementsSatisfied (T : Set String) (id : String) : Prop :=
  ∀ entry ∈ entries, entry.connectorId = id →
    ∀ requirement ∈ iterRequirements entry.manifest, SatisfiedBy pk known entries T requirement

theorem requirementsSatisfied_monotone :
    Pruning.Monotone (RequirementsSatisfied pk known entries) := by
  intro S T id hsub h entry hentry hid requirement hrequirement
  obtain ⟨target, htarget, hget, hmem, hrest⟩ := h entry hentry hid requirement hrequirement
  exact ⟨target, htarget, hget, hsub hmem, hrest⟩

variable {pk known entries} {repr : String → String}

/-- A requirement has no issue exactly when a valid module satisfies it: ids are unique, so the
module the id stands for is the only candidate. -/
theorem requirementIssue_eq_none {r : RegistryLoadResult} {entry : ModuleEntry}
    {requirement : PackageRequirement} :
    requirementIssue pk repr known r entry requirement = none ↔
      SatisfiedBy pk known r.entries r.validIds requirement := by
  unfold requirementIssue
  simp only
  cases hget : (Dict.get? (strip requirement.packageId) known).bind r.find with
  | none =>
    simp only [reduceCtorEq, false_iff]
    rintro ⟨target, -, hknown, ⟨module, hmodule, hid, -⟩, -⟩
    rw [hknown, Option.bind_some, ← hid,
      RegistryLoadResult.find_eq_some.mpr ⟨hmodule, rfl⟩] at hget
    cases hget
  | some target =>
    obtain ⟨id, hknown, hfind⟩ := Option.bind_eq_some_iff.mp hget
    obtain ⟨hmem, rfl⟩ := RegistryLoadResult.find_eq_some.mp hfind
    have hcandidate : SatisfiedBy pk known r.entries r.validIds requirement ↔
        target.status = .valid ∧ target.manifest ≠ none ∧
          ∀ spec ∈ nonempty requirement.version,
            targetMatches pk target.packageIdentity.2 spec = .ok true := by
      constructor
      · rintro ⟨other, hother, hget', ⟨module, hmodule, hid, hvalid⟩, hmanifest, hversion⟩
        rw [hknown, Option.some.injEq] at hget'
        obtain ⟨full, hfull, rfl⟩ := List.mem_map.mp hother
        obtain rfl := List.inj_on_of_nodup_map r.nodup hmem hfull hget'
        obtain rfl := List.inj_on_of_nodup_map r.nodup hmodule hmem hid
        exact ⟨hvalid, hmanifest, hversion⟩
      · rintro ⟨hvalid, hmanifest, hversion⟩
        exact ⟨target.toEntry, List.mem_map_of_mem hmem, hknown, ⟨target, hmem, rfl, hvalid⟩,
          hmanifest, hversion⟩
    rw [hcandidate]
    simp only
    by_cases hbroken : target.status ≠ .valid ∨ target.manifest = none
    · rw [if_pos hbroken]
      simp only [reduceCtorEq, false_iff]
      rintro ⟨hvalid, hmanifest, -⟩
      exact hbroken.elim (fun h => h hvalid) hmanifest
    · rw [if_neg hbroken]
      rw [not_or, not_not] at hbroken
      cases hspec : nonempty requirement.version with
      | none => simp [hbroken]
      | some spec =>
        simp only [Option.mem_def, Option.some.injEq, forall_eq']
        cases hmatch : targetMatches pk target.packageIdentity.2 spec with
        | error e => simp
        | ok answer => cases answer <;> simp [hbroken]

variable (pk known repr) in
theorem moduleIssue_eq_none {r : RegistryLoadResult} {entry : ModuleEntry}
    (hentry : entry ∈ r.modules) :
    moduleIssue pk repr known r entry = none ↔
      RequirementsSatisfied pk known r.entries r.validIds entry.connectorId := by
  unfold moduleIssue RequirementsSatisfied
  rw [List.findSome?_eq_none_iff]
  simp only [requirementIssue_eq_none]
  constructor
  · intro h other hother hid requirement hrequirement
    obtain ⟨full, hfull, rfl⟩ := List.mem_map.mp hother
    obtain rfl := List.inj_on_of_nodup_map r.nodup hfull hentry hid
    exact h requirement hrequirement
  · intro h requirement hrequirement
    exact h entry.toEntry (List.mem_map_of_mem hentry) rfl requirement hrequirement

variable (pk known repr) in
/-- One turn leaves a supported module alone and removes an unsupported one. -/
theorem visitModule_spec {s : RegistryLoadResult × Bool} (hentries : s.1.entries = entries)
    (id : String) :
    (visitModule pk repr known s id = s ∧
      (id ∈ s.1.validIds → RequirementsSatisfied pk known entries s.1.validIds id)) ∨
    ((visitModule pk repr known s id).2 = true ∧
      (visitModule pk repr known s id).1.entries = entries ∧
      Pruning.Prune (RequirementsSatisfied pk known entries) s.1.validIds
        (visitModule pk repr known s id).1.validIds) := by
  subst hentries
  unfold visitModule
  cases hfind : s.1.find id with
  | none =>
    refine .inl ⟨rfl, ?_⟩
    rintro ⟨entry, hmem, rfl, -⟩
    rw [RegistryLoadResult.find_eq_some.mpr ⟨hmem, rfl⟩] at hfind
    cases hfind
  | some entry =>
    obtain ⟨hmem, rfl⟩ := RegistryLoadResult.find_eq_some.mp hfind
    simp only
    by_cases hinvalid : entry.status = .invalid
    · rw [if_pos hinvalid]
      refine .inl ⟨rfl, ?_⟩
      rintro ⟨other, hother, hid, hvalid⟩
      obtain rfl := List.inj_on_of_nodup_map s.1.nodup hother hmem hid
      rw [hinvalid] at hvalid
      cases hvalid
    · rw [if_neg hinvalid]
      have hvalid : entry.connectorId ∈ s.1.validIds := by
        refine ⟨entry, hmem, rfl, ?_⟩
        cases hstatus : entry.status with
        | valid => rfl
        | invalid => exact absurd hstatus hinvalid
      cases hissue : moduleIssue pk repr known s.1 entry with
      | none => exact .inl ⟨rfl, fun _ => (moduleIssue_eq_none pk known repr hmem).mp hissue⟩
      | some issue =>
        refine .inr ⟨rfl, by simp, ?_⟩
        simp only [RegistryLoadResult.validIds_invalidate]
        apply Pruning.Prune.remove hvalid
        rw [← moduleIssue_eq_none pk known repr hmem, hissue]
        simp

variable (pk known repr) in
/-- A stretch of turns removes unsupported modules only; one that changes nothing has found
every module it visited supported. -/
theorem visitModules_spec (ids : List String) {s : RegistryLoadResult × Bool}
    (hentries : s.1.entries = entries) :
    (ids.foldl (visitModule pk repr known) s).1.entries = entries ∧
      Relation.ReflTransGen (Pruning.Prune (RequirementsSatisfied pk known entries)) s.1.validIds
        (ids.foldl (visitModule pk repr known) s).1.validIds ∧
      ((ids.foldl (visitModule pk repr known) s).2 = true → s.2 = true ∨
        (ids.foldl (visitModule pk repr known) s).1.validIds.ncard < s.1.validIds.ncard) ∧
      ((ids.foldl (visitModule pk repr known) s).2 = false → s.2 = false ∧
        ids.foldl (visitModule pk repr known) s = s ∧
          ∀ id ∈ ids, id ∈ s.1.validIds →
            RequirementsSatisfied pk known entries s.1.validIds id) := by
  induction ids generalizing s with
  | nil => exact ⟨hentries, .refl, .inl, fun h => ⟨h, rfl, by simp⟩⟩
  | cons id ids ih =>
    rw [List.foldl_cons]
    rcases visitModule_spec pk known repr hentries id with
      ⟨hsame, hsupported⟩ | ⟨hchanged, hentries', hprune⟩
    · rw [hsame]
      obtain ⟨hent, hrun, hlt, hrest⟩ := ih hentries
      refine ⟨hent, hrun, hlt, fun h => ?_⟩
      obtain ⟨hfalse, heq, hall⟩ := hrest h
      refine ⟨hfalse, heq, ?_⟩
      rintro other hother hmem
      rcases List.mem_cons.mp hother with rfl | hother
      · exact hsupported hmem
      · exact hall other hother hmem
    · obtain ⟨hent, hrun, hlt, hrest⟩ := ih hentries'
      have hless := hprune.ncard_lt s.1.validIds_finite
      refine ⟨hent, .head hprune hrun, fun _ => .inr ?_, fun h => ?_⟩
      · have hle := Set.ncard_le_ncard (Pruning.run_subset hrun)
          (RegistryLoadResult.validIds_finite _)
        omega
      · obtain ⟨hfalse, -, -⟩ := hrest h
        rw [hchanged] at hfalse
        cases hfalse

variable (pk known repr) in
/-- With more fuel than there are valid modules the loop comes to rest. -/
theorem dependencyLoop_spec {fuel : ℕ} {r : RegistryLoadResult} (hentries : r.entries = entries)
    (hfuel : r.validIds.ncard < fuel) :
    ∃ t, dependencyLoop pk repr known fuel r = some t ∧
      Relation.ReflTransGen (Pruning.Prune (RequirementsSatisfied pk known entries)) r.validIds
        t.validIds ∧
      Pruning.SelfSupported (RequirementsSatisfied pk known entries) t.validIds := by
  induction fuel generalizing r with
  | zero => omega
  | succ fuel ih =>
    obtain ⟨hent, hrun, hlt, hrest⟩ := visitModules_spec pk known repr
      (r.modules.map (·.connectorId)) (s := (r, false)) hentries
    unfold dependencyLoop dependencyPass
    simp only
    cases hflag : ((r.modules.map (·.connectorId)).foldl (visitModule pk repr known) (r, false)).2 with
    | true =>
      have hless := (hlt hflag).resolve_left (by simp)
      obtain ⟨t, ht, hrun', hself⟩ := ih hent (by simp only at hless; omega)
      exact ⟨t, by simpa using ht, hrun.trans hrun', hself⟩
    | false =>
      obtain ⟨-, heq, hall⟩ := hrest hflag
      refine ⟨r, by simp [heq], .refl, ?_⟩
      rintro id ⟨entry, hmem, rfl, hvalid⟩
      exact hall _ (List.mem_map_of_mem hmem) ⟨entry, hmem, rfl, hvalid⟩

end Fixpoint

/-! ### The order of the modules -/

section Order

/-- A module goes by its package id and by its connector id. -/
def ModuleEntry.goesBy (entry : ModuleEntry) (id : String) : Prop :=
  entry.packageIdentity.1 = id ∨ entry.connectorId = id

instance (entry : ModuleEntry) (id : String) : Decidable (entry.goesBy id) :=
  inferInstanceAs (Decidable (_ ∨ _))

theorem get?_setDefault (key value id : String) (known : List (String × String)) :
    Dict.get? id (setDefault key value known) =
      (Dict.get? id known).or (if key = id then some value else none) := by
  unfold setDefault Dict.has
  cases hkey : Dict.get? key known with
  | none =>
    by_cases hid : key = id
    · subst hid
      simp [hkey]
    · simp [hid]
  | some v =>
    by_cases hid : key = id
    · subst hid
      simp [hkey]
    · simp [hid]

/-- An id stands for the first module that goes by it. -/
theorem get?_knownPackages (modules : List ModuleEntry) (id : String) :
    Dict.get? id (knownPackages modules) =
      (modules.find? (·.goesBy id)).map (·.connectorId) := by
  have hfold (known : List (String × String)) :
      Dict.get? id (modules.foldl addKnown known) =
        (Dict.get? id known).or ((modules.find? (·.goesBy id)).map (·.connectorId)) := by
    induction modules generalizing known with
    | nil => simp
    | cons entry modules ih =>
      rw [List.foldl_cons, ih]
      unfold addKnown
      rw [get?_setDefault, get?_setDefault, List.find?_cons]
      by_cases hpackage : entry.packageIdentity.1 = id
      · have hgoes : entry.goesBy id := .inl hpackage
        cases Dict.get? id known <;> simp [hpackage, hgoes]
      · by_cases hconnector : entry.connectorId = id
        · have hgoes : entry.goesBy id := .inr hconnector
          cases Dict.get? id known <;> simp [hpackage, hconnector, hgoes]
        · have hgoes : ¬ entry.goesBy id := by
            rintro (h | h)
            · exact hpackage h
            · exact hconnector h
          cases Dict.get? id known <;> simp [hpackage, hconnector, hgoes]
  exact (hfold []).trans (by simp)

/-- Where no two modules share an id, the order of the modules does not matter for it. -/
theorem knownPackages_perm {modules modules' : List ModuleEntry} (hperm : modules'.Perm modules)
    (hapart : ∀ a ∈ modules, ∀ b ∈ modules, ∀ id, a.goesBy id → b.goesBy id →
      a.connectorId = b.connectorId) (id : String) :
    Dict.get? id (knownPackages modules') = Dict.get? id (knownPackages modules) := by
  rw [get?_knownPackages, get?_knownPackages]
  cases h : modules.find? (·.goesBy id) with
  | none =>
    have hnone : modules'.find? (·.goesBy id) = none := by
      rw [List.find?_eq_none] at h ⊢
      intro entry hentry
      exact h entry (hperm.subset hentry)
    rw [hnone]
  | some entry =>
    have hentry := List.mem_of_find?_eq_some h
    have hgoes : entry.goesBy id := by simpa using List.find?_some h
    cases h' : modules'.find? (·.goesBy id) with
    | none =>
      rw [List.find?_eq_none] at h'
      exact absurd hgoes (by simpa using h' entry (hperm.symm.subset hentry))
    | some other =>
      have hother := hperm.subset (List.mem_of_find?_eq_some h')
      have hgoes' : other.goesBy id := by simpa using List.find?_some h'
      rw [Option.map_some, Option.map_some, hapart other hother entry hentry id hgoes' hgoes]

variable {pk : Packaging}

theorem requirementsSatisfied_congr {known known' : List (String × String)}
    {entries entries' : List Entry} (hknown : ∀ id, Dict.get? id known' = Dict.get? id known)
    (hentries : ∀ entry, entry ∈ entries' ↔ entry ∈ entries) :
    RequirementsSatisfied pk known' entries' = RequirementsSatisfied pk known entries := by
  funext T id
  unfold RequirementsSatisfied SatisfiedBy
  simp only [hknown, hentries]

theorem validIds_perm {r r' : RegistryLoadResult} (h : r'.modules.Perm r.modules) :
    r'.validIds = r.validIds := by
  ext id
  unfold RegistryLoadResult.validIds
  simp only [Set.mem_ofPred_eq, h.mem_iff]

end Order

/-- What the check leaves valid: the greatest set of modules, valid before, in which every
requirement of every member is satisfied by a member. -/
theorem applyDependencyIssues_greatest (pk : Packaging) (repr : String → String)
    (r : RegistryLoadResult) :
    ∃ t, applyDependencyIssues pk repr r = some t ∧
      IsGreatest {T | T ⊆ r.validIds ∧ Pruning.SelfSupported
        (RequirementsSatisfied pk (knownPackages r.modules) r.entries) T} t.validIds := by
  have hle := r.ncard_validIds_le
  obtain ⟨t, ht, hrun, hself⟩ := dependencyLoop_spec pk (knownPackages r.modules) repr
    rfl (show r.validIds.ncard < r.modules.length + 1 by omega)
  exact ⟨t, ht, Pruning.isGreatest_of_run (requirementsSatisfied_monotone _ _ _) hrun hself⟩

/-- The order matters through the known packages only. -/
theorem applyDependencyIssues_congr (pk : Packaging) (repr : String → String)
    {r r' t : RegistryLoadResult} (hperm : r'.modules.Perm r.modules)
    (hknown : ∀ id, Dict.get? id (knownPackages r'.modules) =
      Dict.get? id (knownPackages r.modules))
    (ht : applyDependencyIssues pk repr r = some t) :
    ∃ t', applyDependencyIssues pk repr r' = some t' ∧ t'.validIds = t.validIds := by
  obtain ⟨u, hu, hgreatest⟩ := applyDependencyIssues_greatest pk repr r
  obtain rfl := Option.some.inj (ht.symm.trans hu)
  obtain ⟨t', ht', hgreatest'⟩ := applyDependencyIssues_greatest pk repr r'
  have hentries (entry : Entry) : entry ∈ r'.entries ↔ entry ∈ r.entries :=
    (hperm.map _).mem_iff
  rw [validIds_perm hperm, requirementsSatisfied_congr hknown hentries] at hgreatest'
  exact ⟨t', ht', hgreatest'.unique hgreatest⟩

/-- Modules of which no two share an id end the same way in every order. -/
theorem applyDependencyIssues_perm (pk : Packaging) (repr : String → String)
    {r r' t : RegistryLoadResult} (hperm : r'.modules.Perm r.modules)
    (hapart : ∀ a ∈ r.modules, ∀ b ∈ r.modules, ∀ id, a.goesBy id → b.goesBy id →
      a.connectorId = b.connectorId)
    (ht : applyDependencyIssues pk repr r = some t) :
    ∃ t', applyDependencyIssues pk repr r' = some t' ∧ t'.validIds = t.validIds :=
  applyDependencyIssues_congr pk repr hperm (knownPackages_perm hperm hapart) ht

/-- The check ends with the greatest supported set, and two orders of the modules in which every
id stands for the same module end with the same one. -/
theorem dependencies_settled (pk : Packaging) (repr : String → String) (r : RegistryLoadResult) :
    ∃ t, applyDependencyIssues pk repr r = some t ∧
      IsGreatest {T | T ⊆ r.validIds ∧ Pruning.SelfSupported
        (RequirementsSatisfied pk (knownPackages r.modules) r.entries) T} t.validIds ∧
      ∀ r' : RegistryLoadResult, r'.modules.Perm r.modules →
        (∀ id, Dict.get? id (knownPackages r'.modules) = Dict.get? id (knownPackages r.modules)) →
          ∃ t', applyDependencyIssues pk repr r' = some t' ∧ t'.validIds = t.validIds := by
  obtain ⟨t, ht, hgreatest⟩ := applyDependencyIssues_greatest pk repr r
  exact ⟨t, ht, hgreatest, fun r' hperm hknown =>
    applyDependencyIssues_congr pk repr hperm hknown ht⟩

/-- A module of a package, with what it requires. -/
def packageModule (connectorId packageId version : String)
    (requires : Requires := .absent) : ModuleEntry where
  connectorId := connectorId
  manifest := some { id := connectorId, version, packageId := some packageId, requires }

def RegistryLoadResult.statuses (r : RegistryLoadResult) : List (String × ConnectorModuleStatus) :=
  r.modules.map fun entry => (entry.connectorId, entry.status)

theorem RegistryLoadResult.mem_validIds {r : RegistryLoadResult} {id : String} :
    id ∈ r.validIds ↔ (id, .valid) ∈ r.statuses := by
  unfold validIds statuses
  simp only [Set.mem_ofPred_eq, List.mem_map, Prod.mk.injEq]

/-- A chain that hangs on a missing package, and a cycle that supports itself. -/
def chainAndCycle : List ModuleEntry :=
  [packageModule "first" "first-pack" "1.0" (.one ⟨"second", none⟩),
    packageModule "second" "second-pack" "1.0" (.one ⟨"third", none⟩),
    packageModule "third" "third-pack" "1.0" (.one ⟨"missing", none⟩),
    packageModule "left" "left-pack" "1.0" (.one ⟨"right-pack", none⟩),
    packageModule "right" "right-pack" "1.0" (.one ⟨"left", some ">=1.0"⟩)]

/-- One pass settles the chain from its end; from its head every link takes another pass. -/
example :
    (applyDependencyIssues releasePackaging id ⟨chainAndCycle, [], by decide⟩).map (·.statuses) =
        some [("first", .invalid), ("second", .invalid), ("third", .invalid), ("left", .valid),
          ("right", .valid)] ∧
      (applyDependencyIssues releasePackaging id ⟨chainAndCycle.reverse, [], by decide⟩).map
          (·.statuses) =
        some [("right", .valid), ("left", .valid), ("third", .invalid), ("second", .invalid),
          ("first", .invalid)] := by
  exact ⟨rfl, rfl⟩

def vendorFeed : ModuleEntry := packageModule "feed" "vendor-feed" "1.0"

/-- Its package id is the connector id of the other one. -/
def secondFeed : ModuleEntry := packageModule "feed-v2" "feed" "2.0"

def feedExtension : ModuleEntry :=
  packageModule "extra" "feed-extra" "1.0" (.one ⟨"feed", some ">=2.0"⟩)

def vendorFirst : RegistryLoadResult := ⟨[vendorFeed, secondFeed, feedExtension], [], by decide⟩

def secondFirst : RegistryLoadResult := ⟨[secondFeed, vendorFeed, feedExtension], [], by decide⟩

/-- The extension is valid or not by which of the two comes first. -/
theorem sharedId_order_matters :
    ∃ r r' t t' : RegistryLoadResult, r'.modules.Perm r.modules ∧
      applyDependencyIssues releasePackaging id r = some t ∧
      applyDependencyIssues releasePackaging id r' = some t' ∧ t.validIds ≠ t'.validIds := by
  obtain ⟨t, ht, hstatuses⟩ : ∃ t, applyDependencyIssues releasePackaging id vendorFirst = some t ∧
      t.statuses = [("feed", .valid), ("feed-v2", .valid), ("extra", .invalid)] := by
    rw [← Option.map_eq_some_iff]
    rfl
  obtain ⟨t', ht', hstatuses'⟩ :
      ∃ t', applyDependencyIssues releasePackaging id secondFirst = some t' ∧
        t'.statuses = [("feed-v2", .valid), ("feed", .valid), ("extra", .valid)] := by
    rw [← Option.map_eq_some_iff]
    rfl
  refine ⟨vendorFirst, secondFirst, t, t', .swap _ _ _, ht, ht', fun h => ?_⟩
  have hmem : "extra" ∈ t'.validIds := by
    rw [RegistryLoadResult.mem_validIds, hstatuses']
    decide
  rw [← h, RegistryLoadResult.mem_validIds, hstatuses] at hmem
  exact absurd hmem (by decide)

end Connectors
