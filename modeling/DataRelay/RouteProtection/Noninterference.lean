import DataRelay.Classification.RouteStage
import DataRelay.Dedup.SameOutcome
import DataRelay.Lib.Raising
import DataRelay.Protection.MaskedTwins
import DataRelay.RouteProtection.ResultCache
import DataRelay.SensitiveDetection.Detection
import DataRelay.Sources.CheckpointAgreement

/-! What a destination can tell of a masked field. Two batches that differ in one field go
through deduplication, the transform of a route, its protection rules and its classification; the
field is masked, but what the transform carries over from the raw events is not, nor is the level
that follows from what was detected in them. -/
namespace RouteProtection
open Classification JsonPath Protection Delivery Reordering Dedup SensitiveDetection Sources

/-! ### The stages of a route -/

def isInternalKey (k : String) : Bool := ['_', '_'].isPrefixOf k.toList

mutual
/-- `_strip_internal_nested`. -/
def stripInternalNested : Json → Json
  | .arr xs => .arr (stripInternalItems xs)
  | .obj ms => .obj (stripInternalMembers ms)
  | v => v

def stripInternalItems : List Json → List Json
  | [] => []
  | x :: xs => stripInternalNested x :: stripInternalItems xs

def stripInternalMembers : Json.Members → Json.Members
  | [] => []
  | (k, v) :: ms =>
    if isInternalKey k then stripInternalMembers ms
    else (k, stripInternalNested v) :: stripInternalMembers ms
end

/-- `sanitize_delivery_event`; every reserved key is internal. -/
def sanitizeDeliveryEvent (event : Event) : Event := stripInternalMembers event

/-- The members the transform carries over from a raw event. -/
def carriedKeys : List String :=
  transportMetaKeys ++ [gdcDedupKeyMeta, gdcDedupQueueIdMeta]

/-- A route with its mapping and enrichment of one event, and its classification when that is
on. -/
structure RoutePipeline where
  transform : Event → Except String Event
  modes : ModeContext
  route : RouteContext
  config : RouteTransformConfig
  has_transform : route.transform = some config
  classification : Option RouteClassificationConfig := none

/-- The stream a batch belongs to: its dedup, the detection of sensitive fields and the
configuration its routes share. -/
structure StreamSetup where
  extractOne : Event → String → Option Json
  dedup : StreamDedupConfig
  applyDedup : Bool := true
  seedKeys : List String := []
  detection : DetectionSettings
  /-- The findings of the batch are committed; else its routes see none. -/
  findingsStored : Bool := true
  shared : SharedBatch

namespace RoutePipeline

variable (rp : RoutePipeline) (st : StreamSetup)

/-- Mapping and enrichment of one event, without internal members. -/
def transformEvent (event : Event) : Except String Event :=
  (rp.transform event).map sanitizeDeliveryEvent

def engines : Engines where
  transform _ raws := (raws.mapM rp.transformEvent).map (copyTransportMetadata raws)
  modes := rp.modes

/-- The events of the stream's queue. -/
def kept (raws : List Event) : List Event :=
  (applyStreamDedup st.extractOne st.dedup st.applyDedup st.seedKeys raws).1

def batchOf (raws : List Event) : SharedBatch := { st.shared with extractedEvents := kept st raws }

/-- The classes of the findings the routes share, detected in the kept raw events. -/
def findingClasses (raws : List Event) : List String :=
  if st.detection.isEnabled && st.findingsStored then
    (detectHitsForBatch st.detection ((kept st raws).map .obj)).map (·.hit.sensitivityClass)
  else []

/-- The events `process_route_pipeline` hands to `send_fn` when the policy lets them through. -/
def handed (raws : List Event) : Except RouteError (List Event) :=
  (routeStages rp.engines (batchOf st raws) rp.route {}).1.map fun out =>
    match rp.classification with
    | none => out.protectedEvents
    | some c => c.routeClassificationStage (findingClasses st raws) out.protectedEvents

/-- The rules of the route. -/
def rules : List Rule :=
  rulesInForce (rp.route.protectionConfig st.shared).rules (rp.route.mergedEphemeral st.shared)

/-- The masked event that a kept event becomes. -/
def Masked (event masked : Event) : Prop :=
  ∃ mapped, rp.transformEvent event = .ok mapped ∧
    runAll (ruleStep rp.modes) (rp.rules st) (copyEventMetadata event mapped) = some masked

/-- The level of a batch, before overrides raise it. -/
def batchLevel (c : RouteClassificationConfig) (raws : List Event) : String :=
  resolveClassificationLevel (findingClasses st raws) c.rules

/-- What the classification stage makes of a masked event. -/
def stamp (raws : List Event) (masked : Event) : Event :=
  rp.classification.elim masked fun c => c.stamp (batchLevel st c raws) masked

end RoutePipeline

/-! ### Two batches that differ in one field -/

/-- Two events that differ in the text at `f` only, each with the dedup metadata of its own key. -/
def AttachedPair (f : Pos) (k k' : Event) : Prop :=
  ∃ e e' key key' queueId, SameBut f (.obj e) (.obj e') ∧
    k = attachDedupMetadata e key queueId ∧ k' = attachDedupMetadata e' key' queueId

namespace RoutePipeline

variable (rp : RoutePipeline) (st : StreamSetup)

/-- The transform copies `f` to the output path `ks` and reads it nowhere else, the dedup
metadata included. -/
def CopiesTo (f : Pos) (ks : List String) : Prop :=
  ∀ k k' o o', AttachedPair f k k' → rp.transformEvent k = .ok o → rp.transformEvent k' = .ok o' →
    SameBut (ks.map .member) (.obj o) (.obj o')

/-- Two batches that differ in `f` only, for a stream that keeps the same events of both and a
route that masks or drops its copy of `f`. -/
structure Twins (f : Pos) (ks : List String) (raws raws' : List Event) : Prop where
  differ : List.Forall₂ (fun e e' => SameBut f (.obj e) (.obj e')) raws raws'
  outcome : st.applyDedup = true → st.dedup.enabled = true →
    SameOutcome st.extractOne st.dedup st.seedKeys raws raws'
  copies : rp.CopiesTo f ks
  masked : ∃ rule ∈ rp.rules st, rule.Masks ks

/-- What the transform carries over from two events is the same. -/
def SameCarried (k k' : Event) : Prop :=
  ∀ o, rp.transformEvent k = .ok o → ∀ name ∈ carriedKeys, Dict.has name o = false →
    Dict.get? name k = Dict.get? name k'

/-- The route classifies both batches alike. -/
def SameLevel (raws raws' : List Event) : Prop :=
  ∀ c, rp.classification = some c → batchLevel st c raws = batchLevel st c raws'

/-- The levels that destinations see of both batches are the same: an event with a level of its own
shows the effective level only. -/
def ShowsSameLevel (raws raws' : List Event) : Prop :=
  kept st raws ≠ [] → ∀ c, rp.classification = some c →
    batchLevel st c raws = batchLevel st c raws' ∨
      (c.effectiveLevel (batchLevel st c raws) = c.effectiveLevel (batchLevel st c raws') ∧
        ∀ k ∈ kept st raws, ∀ o, rp.transformEvent k = .ok o →
          Dict.has "classification_level" o = true)

/-- No rule of the route addresses a member that is carried over, or the level. -/
def LeavesMetadata : Prop :=
  ∀ name ∈ "classification_level" :: carriedKeys, ∀ rule ∈ rp.rules st, ∀ rest,
    parseProtectionPath rule.fieldPath ≠ .ok (.key name :: rest)

end RoutePipeline

/-! ### What is handed on, event by event -/

theorem forall₂_of_mapM_some {α β : Type} {g : α → Option β} {xs : List α} {ys : List β}
    (h : xs.mapM g = some ys) : List.Forall₂ (fun x y => g x = some y) xs ys := by
  induction xs generalizing ys with
  | nil =>
    obtain rfl : [] = ys := Option.some.inj h
    exact .nil
  | cons x xs ih =>
    rw [List.mapM_cons] at h
    cases hx : g x with
    | none => simp [hx] at h
    | some y =>
      cases hxs : xs.mapM g with
      | none => simp [hx, hxs] at h
      | some zs =>
        obtain rfl : y :: zs = ys := by simpa [hx, hxs] using h
        exact .cons hx (ih hxs)

/-- Two stages in a row, the second on what is made of an item and its first result. -/
theorem forall₂_zipWith {α β γ δ : Type} {A : α → β → Prop} {B : γ → δ → Prop} (g : α → β → γ)
    {xs : List α} {ys : List β} {zs : List δ} (hA : List.Forall₂ A xs ys)
    (hB : List.Forall₂ B (xs.zipWith g ys) zs) :
    List.Forall₂ (fun x z => ∃ y, A x y ∧ B (g x y) z) xs zs := by
  induction hA generalizing zs with
  | nil =>
    obtain rfl := List.forall₂_nil_left_iff.mp hB
    exact .nil
  | @cons x y _ _ hxy _ ih =>
    cases hB with
    | cons hz hrest => exact .cons ⟨y, hxy, hz⟩ (ih hrest)

theorem forall₂_square {α β γ δ : Type} {A : α → β → Prop} {B : α → γ → Prop} {C : β → δ → Prop}
    {xs : List α} {ys : List β} {zs : List γ} {ws : List δ} (hA : List.Forall₂ A xs ys)
    (hB : List.Forall₂ B xs zs) (hC : List.Forall₂ C ys ws) :
    List.Forall₂ (fun z w => ∃ x y, A x y ∧ B x z ∧ C y w) zs ws := by
  induction hA generalizing zs ws with
  | nil =>
    obtain rfl := List.forall₂_nil_left_iff.mp hB
    obtain rfl := List.forall₂_nil_left_iff.mp hC
    exact .nil
  | cons hxy _ ih =>
    cases hB with
    | cons hz hzs =>
      cases hC with
      | cons hw hws => exact .cons ⟨_, _, hxy, hz, hw⟩ (ih hzs hws)

namespace RoutePipeline

variable {rp : RoutePipeline} {st : StreamSetup}

/-- A protection stage that returns ran every event through the rules. -/
theorem protectRoute_runAll {raws xs : List Event} {result : ProtectBatchResult}
    (h : protectRoute rp.engines (batchOf st raws) rp.route xs = .ok result) :
    List.Forall₂ (fun x y => runAll (ruleStep rp.modes) (rp.rules st) x = some y) xs
      result.events := by
  unfold protectRoute at h
  have hconfig : rp.route.protectionConfig (batchOf st raws) = rp.route.protectionConfig st.shared :=
    rfl
  have hmerged : rp.route.mergedEphemeral (batchOf st raws) = rp.route.mergedEphemeral st.shared :=
    rfl
  rw [hconfig, hmerged] at h
  cases htargets : collectTokenizationTargets xs ((rp.route.protectionConfig st.shared).rules ++
      rp.route.mergedEphemeral st.shared) with
  | error e => simp [htargets] at h
  | ok targets =>
    simp only [htargets] at h
    cases hbatch : protectBatch rp.engines.modes rp.engines.protectionEnabled xs
        (rp.route.protectionConfig st.shared).rules (rp.route.mergedEphemeral st.shared) with
    | error e =>
      simp only [hbatch] at h
      split at h <;> cases h
    | ok r =>
      simp only [hbatch] at h
      have hclean : cleanBatch (protectBatch rp.engines.modes rp.engines.protectionEnabled xs _ _) =
          xs.mapM (runAll (ruleStep rp.engines.modes) (rp.rules st)) :=
        cleanBatch_protectBatch rp.engines.protectionEnabled xs _ _
      rw [hbatch] at hclean
      cases hwarnings : r.warnings with
      | nil =>
        obtain rfl : r = result := by simpa [hwarnings] using h
        simp only [cleanBatch, hwarnings, List.isEmpty_nil, ↓reduceIte] at hclean
        exact forall₂_of_mapM_some hclean.symm
      | cons first rest => simp [hwarnings] at h

/-- The transform gives one event for each, and each keeps what is carried over. -/
theorem engines_transform {c : RouteTransformConfig} {raws transformed : List Event}
    (h : rp.engines.transform c raws = .ok transformed) :
    ∃ mapped, List.Forall₂ (fun raw o => rp.transformEvent raw = .ok o) raws mapped ∧
      transformed = raws.zipWith copyEventMetadata mapped := by
  simp only [engines] at h
  cases hmapped : raws.mapM rp.transformEvent with
  | error e => simp [hmapped, Except.map] at h
  | ok mapped =>
    have hall := Raising.forall₂_of_mapM_ok hmapped
    refine ⟨mapped, hall, ?_⟩
    rw [hmapped] at h
    simpa [Except.map, copyTransportMetadata, hall.length_eq] using h.symm

/-- The stages of a route that has seen no batch before. -/
theorem routeStages_ok {raws : List Event} {out : RouteEvents}
    (h : (routeStages rp.engines (batchOf st raws) rp.route {}).1 = .ok out) :
    ∃ transformed result, rp.engines.transform rp.config (kept st raws) = .ok transformed ∧
      protectRoute rp.engines (batchOf st raws) rp.route transformed = .ok result ∧
      out.protectedEvents = result.events := by
  simp only [routeStages, transformStage, rp.has_transform, Memo.serve_nil] at h
  cases htransform : rp.engines.transform rp.config (kept st raws) with
  | error e =>
    simp [applyRouteTransform, batchOf, htransform, Except.mapError] at h
  | ok transformed =>
    simp only [applyRouteTransform, batchOf, htransform, Except.mapError] at h
    cases hprotect : protectRoute rp.engines (batchOf st raws) rp.route transformed with
    | error e =>
      simp only [batchOf] at hprotect
      simp [hprotect, Except.map] at h
    | ok result =>
      refine ⟨transformed, result, rfl, hprotect, ?_⟩
      simp only [batchOf] at hprotect
      simp only [hprotect, Except.map, Except.ok.injEq] at h
      rw [← h]

/-- What a route hands on are the masked events, each with the stamp. -/
theorem handed_masked {raws handedEvents : List Event}
    (h : rp.handed st raws = .ok handedEvents) :
    ∃ masked, List.Forall₂ (rp.Masked st) (kept st raws) masked ∧
      handedEvents = masked.map (rp.stamp st raws) := by
  unfold handed at h
  cases hstages : (routeStages rp.engines (batchOf st raws) rp.route {}).1 with
  | error e => simp [hstages, Except.map] at h
  | ok out =>
    obtain ⟨transformed, result, htransform, hprotect, hout⟩ := routeStages_ok hstages
    obtain ⟨mapped, hmapped, rfl⟩ := engines_transform htransform
    have hmasked := forall₂_zipWith copyEventMetadata hmapped (protectRoute_runAll hprotect)
    refine ⟨result.events, hmasked, ?_⟩
    rw [hstages] at h
    simp only [Except.map, Except.ok.injEq, hout] at h
    subst h
    cases hc : rp.classification with
    | none =>
      have hstamp : rp.stamp st raws = id := by
        funext masked
        simp [stamp, hc]
      rw [hstamp, List.map_id]
    | some c =>
      have hstamp : rp.stamp st raws = c.stamp (batchLevel st c raws) := by
        funext masked
        simp [stamp, hc]
      rw [hstamp]
      rfl

/-! ### Two runs -/

/-- The stream keeps pairs that differ in the field and in their metadata. -/
theorem Twins.kept_pairs {f : Pos} {ks : List String} {raws raws' : List Event}
    (h : rp.Twins st f ks raws raws') :
    List.Forall₂ (AttachedPair f) (kept st raws) (kept st raws') := by
  have hempty : raws.isEmpty = raws'.isEmpty := by
    cases h.differ <;> rfl
  unfold kept applyStreamDedup
  rw [← hempty]
  by_cases hoff : (!st.applyDedup || !st.dedup.enabled || raws.isEmpty) = true
  · simp only [hoff, ↓reduceIte]
    exact h.differ.imp fun e e' he => ⟨e, e', none, none, 0, he, rfl, rfl⟩
  · simp only [hoff, Bool.false_eq_true, ↓reduceIte]
    simp only [Bool.or_eq_true, Bool.not_eq_eq_eq_not, Bool.not_true, not_or,
      Bool.not_eq_false] at hoff
    refine (ingest_kept h.differ (h.outcome hoff.1.1 hoff.1.2)).imp fun k k' hpair => ?_
    obtain ⟨e, e', queueId, he, hk, hk'⟩ := hpair
    exact ⟨e, e', _, _, queueId, he, hk, hk'⟩

theorem carryOver_cons_of_has {l : String} {event : Event} (h : Dict.has l event = true)
    (keys : List String) (raw : Event) :
    carryOver (l :: keys) raw event = carryOver keys raw event := by
  unfold carryOver
  rw [List.foldl_cons]
  cases Dict.get? l raw <;> simp [h]

theorem carryOver_cons_of_new {l : String} {event : Event} (h : Dict.has l event = false)
    (keys : List String) (raw : Event) :
    carryOver (l :: keys) raw event =
      carryOver keys raw ((Dict.get? l raw).elim event fun v => Dict.set l v event) := by
  unfold carryOver
  rw [List.foldl_cons]
  cases Dict.get? l raw <;> simp [h]

/-- Carrying over the same members keeps two outputs alike. -/
theorem carryOver_sameBut {p : Pos} {keys : List String} {k k' o o' : Event}
    (h : SameBut p (.obj o) (.obj o'))
    (hsame : ∀ name ∈ keys, Dict.has name o = false → Dict.get? name k = Dict.get? name k') :
    SameBut p (.obj (carryOver keys k o)) (.obj (carryOver keys k' o')) := by
  induction keys generalizing o o' with
  | nil => exact h
  | cons l keys ih =>
    have hrest := fun name hname => hsame name (List.mem_cons_of_mem l hname)
    cases hhas : Dict.has l o with
    | true =>
      rw [carryOver_cons_of_has hhas, carryOver_cons_of_has ((h.has_eq l).symm.trans hhas)]
      exact ih h hrest
    | false =>
      rw [carryOver_cons_of_new hhas, carryOver_cons_of_new ((h.has_eq l).symm.trans hhas),
        ← hsame l List.mem_cons_self hhas]
      cases Dict.get? l k with
      | none => exact ih h hrest
      | some v =>
        refine ih (h.set_new hhas v) fun name hname hnew => hrest name hname ?_
        by_cases hl : l = name
        · subst hl
          exact hhas
        · simpa [Dict.has, hl] using hnew

section pair

variable {f : Pos} {ks : List String} {raws raws' : List Event} {k k' d d' : Event}

/-- One pair of events is masked to the same event when the carried members agree. -/
theorem Twins.masked_eq (h : rp.Twins st f ks raws raws') (hpair : AttachedPair f k k')
    (hsame : rp.SameCarried k k') (hd : rp.Masked st k d) (hd' : rp.Masked st k' d') : d = d' := by
  obtain ⟨o, ho, hrun⟩ := hd
  obtain ⟨o', ho', hrun'⟩ := hd'
  have htwin := carryOver_sameBut (h.copies k k' o o' hpair ho ho') (hsame o ho)
  exact runAll_masked h.masked htwin hrun hrun'

/-- Two such batches are masked to the same events when the carried members agree. -/
theorem Twins.all_masked_eq (h : rp.Twins st f ks raws raws') {masked masked' : List Event}
    (hsame : List.Forall₂ rp.SameCarried (kept st raws) (kept st raws'))
    (hm : List.Forall₂ (rp.Masked st) (kept st raws) masked)
    (hm' : List.Forall₂ (rp.Masked st) (kept st raws') masked') : masked = masked' := by
  have hboth := hsame.mp (fun k k' hsame hpair => And.intro hpair hsame) h.kept_pairs
  rw [← List.forall₂_eq_eq_eq]
  refine (forall₂_square hboth hm hm').imp fun a b hsquare => ?_
  obtain ⟨k, k', ⟨hpair, hcarried⟩, ha, hb⟩ := hsquare
  exact h.masked_eq hpair hcarried ha hb

/-- A carried member is masked to what it was. -/
theorem Masked.get?_carried (hd : rp.Masked st k d) (hfree : rp.LeavesMetadata st) {name : String}
    (hname : name ∈ carriedKeys) {o : Event} (ho : rp.transformEvent k = .ok o)
    (hnew : Dict.has name o = false) : Dict.get? name d = Dict.get? name k := by
  obtain ⟨o₁, ho₁, hrun⟩ := hd
  obtain rfl : o = o₁ := Except.ok.inj (ho.symm.trans ho₁)
  have hmissing : Dict.get? name o = none := by simpa [Dict.has] using hnew
  rw [runAll_get? (hfree name (List.mem_cons_of_mem _ hname)) hrun, copyEventMetadata,
    get?_carryOver, hmissing]
  exact if_pos hname

/-- So is the level an event brings. -/
theorem Masked.has_level (hd : rp.Masked st k d) (hfree : rp.LeavesMetadata st) {o : Event}
    (ho : rp.transformEvent k = .ok o) :
    Dict.has "classification_level" d = Dict.has "classification_level" o := by
  obtain ⟨o₁, ho₁, hrun⟩ := hd
  obtain rfl : o = o₁ := Except.ok.inj (ho.symm.trans ho₁)
  have hlevel : "classification_level" ∉ carriedKeys := by decide
  have hmapped : Dict.get? "classification_level" (copyEventMetadata k o) =
      Dict.get? "classification_level" o := by
    rw [copyEventMetadata, get?_carryOver, if_neg, Option.or_none]
    exact hlevel
  rw [Dict.has, Dict.has, runAll_get? (hfree _ List.mem_cons_self) hrun, hmapped]

/-- The stamp is no carried member. -/
theorem get?_stamp (rp : RoutePipeline) (st : StreamSetup) (raws : List Event) (masked : Event)
    {name : String} (hname : name ∈ carriedKeys) :
    Dict.get? name (rp.stamp st raws masked) = Dict.get? name masked := by
  have hlevel : name ≠ "classification_level" := by
    rintro rfl
    revert hname
    decide
  have hgdc : name ≠ "classification_level_gdc" := by
    rintro rfl
    revert hname
    decide
  cases hc : rp.classification with
  | none => simp [stamp, hc]
  | some c => simp [stamp, hc, RouteClassificationConfig.get?_stamp _ _ hlevel hgdc]

/-- What is handed on of two such batches agrees on the carried members only when they do. -/
theorem Twins.sameCarried_of_handed (h : rp.Twins st f ks raws raws')
    (hfree : rp.LeavesMetadata st) {masked masked' : List Event}
    (hm : List.Forall₂ (rp.Masked st) (kept st raws) masked)
    (hm' : List.Forall₂ (rp.Masked st) (kept st raws') masked')
    (heq : masked.map (rp.stamp st raws) = masked'.map (rp.stamp st raws')) :
    List.Forall₂ rp.SameCarried (kept st raws) (kept st raws') := by
  have hstamps : List.Forall₂ (fun m m' => rp.stamp st raws m = rp.stamp st raws' m') masked
      masked' := by
    rw [← List.forall₂_eq_eq_eq, List.forall₂_map_left_iff, List.forall₂_map_right_iff] at heq
    exact heq
  have hjoin := forall₂_square hstamps (List.Forall₂.flip hm) (List.Forall₂.flip hm')
  refine h.kept_pairs.mp (fun k k' hpair hjoined => ?_) hjoin
  obtain ⟨m, m', hstamp, ha, hb⟩ := hjoined
  intro o ho name hname hnew
  have ⟨o', ho', _⟩ := hb
  have hnew' : Dict.has name o' = false := by
    rwa [← (h.copies k k' o o' hpair ho ho').has_eq name]
  rw [← Masked.get?_carried ha hfree hname ho hnew, ← Masked.get?_carried hb hfree hname ho' hnew',
    ← get?_stamp rp st raws m hname, hstamp, get?_stamp rp st raws' m' hname]

/-- The two stamps of the masked events of a batch are the same exactly when the levels seen
are. -/
theorem stamps_eq_iff (hfree : rp.LeavesMetadata st) {masked : List Event}
    (hm : List.Forall₂ (rp.Masked st) (kept st raws) masked) :
    masked.map (rp.stamp st raws) = masked.map (rp.stamp st raws') ↔
      rp.ShowsSameLevel st raws raws' := by
  rw [List.map_inj_left, ShowsSameLevel]
  cases hc : rp.classification with
  | none => simp [stamp, hc]
  | some c =>
    have hsame (m : Event) : rp.stamp st raws m = rp.stamp st raws' m ↔
        batchLevel st c raws = batchLevel st c raws' ∨
          (c.effectiveLevel (batchLevel st c raws) = c.effectiveLevel (batchLevel st c raws') ∧
            Dict.has "classification_level" m = true) := by
      simp only [stamp, hc, Option.elim_some]
      exact RouteClassificationConfig.stamp_eq_iff m
    simp only [hsame, Option.some.injEq, forall_eq']
    constructor
    · intro hall hne
      by_cases hlevel : batchLevel st c raws = batchLevel st c raws'
      · exact .inl hlevel
      · have hown : ∀ m ∈ masked, c.effectiveLevel (batchLevel st c raws) =
            c.effectiveLevel (batchLevel st c raws') ∧
              Dict.has "classification_level" m = true :=
          fun m hmem => (hall m hmem).resolve_left hlevel
        refine .inr ⟨?_, fun k hk o ho => ?_⟩
        · have hmasked : masked ≠ [] := by
            rintro rfl
            exact hne (List.forall₂_nil_right_iff.mp hm)
          obtain ⟨m, hmem⟩ := List.exists_mem_of_ne_nil masked hmasked
          exact (hown m hmem).1
        · obtain ⟨m, hmem, hmask⟩ := Raising.exists_mem_of_forall₂ hm hk
          rw [← hmask.has_level hfree ho]
          exact (hown m hmem).2
    · intro hshows m hmem
      obtain ⟨k, hk, hmask⟩ := Raising.exists_mem_of_forall₂ hm.flip hmem
      rcases hshows (List.ne_nil_of_mem hk) with hlevel | ⟨heff, hown⟩
      · exact .inl hlevel
      · have ⟨o, ho, _⟩ := hmask
        exact .inr ⟨heff, (Masked.has_level hmask hfree ho).trans (hown k hk o ho)⟩

end pair

end RoutePipeline

/-! ### A login batch -/

/-- A mapping of `user_id` to `user`. -/
def userMapping (event : Event) : Except String Event :=
  .ok ((Dict.get? "user_id" event).elim [] fun v => [("user", v)])

def userTransform : RouteTransformConfig where
  fieldMappings := [("user", .str "$.user_id")]
  enrichment := []
  overridePolicy := "KEEP_EXISTING"

def maskUser : Rule where
  streamId := 1
  fieldPath := "$.user"
  protectionMode := .fullMask

def loginRoute : RoutePipeline where
  transform := userMapping
  modes := fixedContext
  route := {
    routeId := 1
    transform := some userTransform
    protectionRules := [maskUser] }
  config := userTransform
  has_transform := rfl
  classification := some {}

def loginStream (keyField : String) : StreamSetup where
  extractOne _ _ := none
  dedup := { enabled := true, keyField := keyField }
  detection := { caseTable := PyText.asciiCase, isEnabled := false }
  shared := { streamId := 1, extractedEvents := [] }

def loginEvent (user : String) : Event := [("event_id", .str "e-1"), ("user_id", .str user)]

/-- What the route hands on of a login with the dedup key `key`. -/
def handedLogin (key : String) : Event :=
  [("user", .str maskLiteral), (gdcDedupKeyMeta, .str key), (gdcDedupQueueIdMeta, .int 1),
    ("classification_level", .str "INTERNAL")]

theorem stripInternalNested_sameBut {v v' : Json} (h : SameBut [] v v') :
    SameBut [] (stripInternalNested v) (stripInternalNested v') := by
  cases h with
  | refl => exact .refl _ _
  | text s t => exact .text s t

theorem get?_attachDedupMetadata {name : String} (hkey : gdcDedupKeyMeta ≠ name)
    (hid : gdcDedupQueueIdMeta ≠ name) (event : Event) (key : Option String) (queueId : ℕ) :
    Dict.get? name (attachDedupMetadata event key queueId) = Dict.get? name event := by
  cases key with
  | none => rfl
  | some k => simp [attachDedupMetadata, hkey, hid]

theorem loginRoute_copiesTo : loginRoute.CopiesTo [.member "user_id"] ["user"] := by
  intro k k' o o' hpair ho ho'
  obtain ⟨e, e', key, key', queueId, hbut, rfl, rfl⟩ := hpair
  have hmapped (event : Event) (key : Option String) (queueId : ℕ) :
      loginRoute.transformEvent (attachDedupMetadata event key queueId) =
        .ok ((Dict.get? "user_id" event).elim [] fun v => [("user", stripInternalNested v)]) := by
    have hget : Dict.get? "user_id" (attachDedupMetadata event key queueId) =
        Dict.get? "user_id" event :=
      get?_attachDedupMetadata (by decide) (by decide) event key queueId
    simp only [RoutePipeline.transformEvent, loginRoute, userMapping, hget]
    cases Dict.get? "user_id" event <;> rfl
  rw [hmapped] at ho ho'
  obtain rfl := Except.ok.inj ho
  obtain rfl := Except.ok.inj ho'
  cases hbut with
  | refl => exact .refl _ _
  | @member _ _ ms c c' hc h =>
    have hset : [("user", stripInternalNested c')] =
        Dict.set "user" (stripInternalNested c') [("user", stripInternalNested c)] := rfl
    rw [hc, Dict.get?_set, if_pos rfl, Option.elim_some, Option.elim_some, hset]
    exact .member rfl (stripInternalNested_sameBut h)

theorem loginEvents_twins (keyField : String)
    (houtcome : SameOutcome (loginStream keyField).extractOne (loginStream keyField).dedup
      (loginStream keyField).seedKeys [loginEvent "alice"] [loginEvent "bob"]) :
    loginRoute.Twins (loginStream keyField) [.member "user_id"] ["user"] [loginEvent "alice"]
      [loginEvent "bob"] := by
  have hset : loginEvent "bob" = Dict.set "user_id" (.str "bob") (loginEvent "alice") := rfl
  have hrule : maskUser ∈ loginRoute.rules (loginStream "event_id") := by decide +kernel
  refine ⟨?_, fun _ _ => houtcome, loginRoute_copiesTo, maskUser, hrule, .inl rfl, ?_⟩
  · rw [hset]
    exact .cons (.member rfl (.text "alice" "bob")) .nil
  · rfl

end RouteProtection
