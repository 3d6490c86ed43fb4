import DataRelay.Webhook.Sender
import DataRelay.Replay.Uncertainty

/-! One key for all requests of a call. A sink that ignores repeated keys takes the first
request of a call and loses the others. -/
namespace Webhook
open Delivery Replay

/-- The header a sink deduplicates by. -/
def PostRequest.idempotencyKey (r : PostRequest) : Option String :=
  Dict.get? "Idempotency-Key" r.headers

def PostOutcome.taken : PostOutcome → Bool
  | .accepted => true
  | .rejected _ _ => false
  | .lost taken _ => taken

/-- The requests that reach the sink. -/
def takenRequests (posts : List Post) : List PostRequest :=
  (posts.filter fun p => p.outcome.taken).map (·.request)

/-- The events a sink keeps that ignores a request whose key it has seen. -/
def sinkEvents : List PostRequest → (seen : List String) → List Event
  | [], _ => []
  | r :: rs, seen =>
    match r.idempotencyKey with
    | none => r.events ++ sinkEvents rs seen
    | some key => if key ∈ seen then sinkEvents rs seen else r.events ++ sinkEvents rs (key :: seen)

namespace WebhookCall

variable {c : WebhookCall}

/-- What an idempotency key promises of a call: requests with different bodies have different
keys, sending again repeats the requests, and a deduplicating sink ends with every event once,
however often the call was sent before it returned. -/
structure ExactlyOnce (c : WebhookCall) : Prop where
  separated : ∀ (w : WebhookWorld), ∀ p ∈ (c.send w).1, ∀ q ∈ (c.send w).1,
    p.request.body ≠ q.request.body → p.request.idempotencyKey ≠ q.request.idempotencyKey
  repeated : ∀ w w' : WebhookWorld, w.answers = w'.answers → w.reprText = w'.reprText →
    (c.send w).1.map (fun p => (p.request.idempotencyKey, p.request.body)) =
      (c.send w').1.map fun p => (p.request.idempotencyKey, p.request.body)
  once : ∀ (ws : List WebhookWorld) (w : WebhookWorld), (c.send w).2 = none →
    sinkEvents ((ws ++ [w]).flatMap fun w => takenRequests (c.send w).1) [] = c.events

/-- The call gets as far as its requests. -/
def Posts (c : WebhookCall) (mode : PayloadMode) : Prop :=
  c.events ≠ [] ∧ c.formatterConfigOk = true ∧ PyText.strip c.config.url ≠ "" ∧
    c.resolveWebhookPayloadMode = .ok mode

/-- All events fit one request. -/
def FitsOne (c : WebhookCall) (mode : PayloadMode) : Prop :=
  if c.prefixOn = false ∧ mode = .singleEventObject then c.events.length = 1
  else c.events.length ≤ c.batchSize

/-- The text of the prefix depends on the clock. -/
def ReadsClock (c : WebhookCall) : Prop :=
  c.prefixOn = true ∧ c.prefixContext.timestamp = none ∧
    Piece.hole "timestamp" ∈ pieces c.prefixTemplate

theorem send_of_posts {mode : PayloadMode} (h : c.Posts mode) (w : WebhookWorld) :
    c.send w =
      postRequests w.answers (c.config.retryCount + 1).toNat (c.requests mode w) 0 := by
  obtain ⟨hev, hfmt, hurl, hmode⟩ := h
  simp [send, hev, hfmt, hurl, hmode]

/-- A call that gets to no request sends nothing, and returns only if it has no events. -/
theorem send_of_not_posts (h : ∀ mode, ¬ c.Posts mode) (w : WebhookWorld) :
    (c.send w).1 = [] ∧ ((c.send w).2 = none → c.events = []) := by
  unfold send
  split_ifs with hev hfmt hurl
  · exact ⟨rfl, fun _ => by simpa using hev⟩
  · exact ⟨rfl, fun h => by simp at h⟩
  · exact ⟨rfl, fun h => by simp at h⟩
  · cases hmode : c.resolveWebhookPayloadMode with
    | error error => exact ⟨rfl, fun h => by simp at h⟩
    | ok mode => exact absurd ⟨by simpa using hev, by simpa using hfmt, hurl, hmode⟩ (h mode)

@[simp] theorem request_idempotencyKey (mode : PayloadMode) (w : WebhookWorld) (k : ℕ)
    (batch : List Event) :
    (c.request mode w k batch).idempotencyKey = Dict.get? "Idempotency-Key" c.headers := by
  unfold request PostRequest.idempotencyKey
  split_ifs <;> simp

@[simp] theorem request_events (mode : PayloadMode) (w : WebhookWorld) (k : ℕ)
    (batch : List Event) : (c.request mode w k batch).events = batch := by
  unfold request
  split_ifs <;> rfl

theorem one_le_batchSize : 1 ≤ c.batchSize := by
  unfold batchSize
  omega

theorem slices_of_le (hev : c.events ≠ []) (h : c.events.length ≤ c.batchSize) :
    c.slices = [c.events] := by
  have hpos : 0 < c.events.length := List.length_pos_iff.mpr hev
  have hone : (c.events.length + c.batchSize - 1) / c.batchSize = 1 := by
    apply Nat.div_eq_of_lt_le <;> omega
  simp [slices, hone, List.take_of_length_le h]

theorem slices_of_lt (h : c.batchSize < c.events.length) :
    ∃ rest, c.slices = c.events.take c.batchSize :: rest := by
  have hone := c.one_le_batchSize
  have hpos : 0 < (c.events.length + c.batchSize - 1) / c.batchSize :=
    Nat.div_pos (by omega) (by omega)
  obtain ⟨n, hn⟩ := Nat.exists_eq_succ_of_ne_zero hpos.ne'
  rw [slices, hn, List.range_succ_eq_map, List.map_cons]
  simp

theorem batches_of_fitsOne {mode : PayloadMode} (hev : c.events ≠ []) (h : c.FitsOne mode) :
    c.batches mode = [c.events] := by
  unfold FitsOne at h
  unfold batches
  split_ifs at h with hsingle
  · obtain ⟨e, he⟩ := List.length_eq_one_iff.mp h
    simp [hsingle.1, hsingle.2, he]
  · have hslices := slices_of_le hev h
    split_ifs with hprefixOn hmode
    · exact hslices
    · exact absurd ⟨by simpa using hprefixOn, hmode⟩ hsingle
    · exact hslices

/-- Events that do not fit leave the first request short of some. -/
theorem batches_of_not_fitsOne {mode : PayloadMode} (hev : c.events ≠ [])
    (h : ¬ c.FitsOne mode) : ∃ first rest, c.batches mode = first :: rest ∧ first ≠ c.events := by
  unfold FitsOne at h
  unfold batches
  split_ifs at h with hsingle
  · obtain ⟨e, es, hcons⟩ := List.exists_cons_of_ne_nil hev
    refine ⟨[e], es.map ([·]), by simp [hsingle.1, hsingle.2, hcons], fun heq => h ?_⟩
    rw [← heq]
    rfl
  · obtain ⟨rest, hslices⟩ := slices_of_lt (not_le.mp h)
    have hshort : c.events.take c.batchSize ≠ c.events := fun heq => by
      have hlen := congrArg List.length heq
      rw [List.length_take] at hlen
      omega
    split_ifs with hprefixOn hmode
    · exact ⟨_, rest, hslices, hshort⟩
    · exact absurd ⟨by simpa using hprefixOn, hmode⟩ hsingle
    · exact ⟨_, rest, hslices, hshort⟩

end WebhookCall

section posting

variable {answers : ℕ → PostOutcome}

theorem postAttempts_request {request : PostRequest} {attempts n : ℕ} {p : Post}
    (h : p ∈ (postAttempts answers request attempts n).1) : p.request = request := by
  induction attempts generalizing n with
  | zero => simp [postAttempts] at h
  | succ attempts ih =>
    simp only [postAttempts] at h
    split at h
    · obtain rfl := List.mem_singleton.mp h
      rfl
    · split_ifs at h
      · obtain rfl := List.mem_singleton.mp h
        rfl
      · rcases List.mem_cons.mp h with rfl | h
        · rfl
        · exact ih h

/-- The attempts of two requests that look alike look alike. -/
theorem postAttempts_map {β : Type*} (g : PostRequest → β) {r r' : PostRequest} (h : g r = g r')
    (attempts n : ℕ) : (postAttempts answers r attempts n).1.map (fun p => g p.request) =
      (postAttempts answers r' attempts n).1.map fun p => g p.request := by
  induction attempts generalizing n with
  | zero => rfl
  | succ attempts ih =>
    simp only [postAttempts]
    split
    · simp [h]
    · split_ifs
      · simp [h]
      · simp [h, ih]

/-- A request that does not fail was taken. -/
theorem postAttempts_taken {request : PostRequest} {attempts n : ℕ}
    (h : (postAttempts answers request (attempts + 1) n).2 = none) :
    ∃ p ∈ (postAttempts answers request (attempts + 1) n).1, p.outcome.taken = true := by
  induction attempts generalizing n with
  | zero =>
    cases hans : answers n <;> simp_all [postAttempts, postError, PostOutcome.taken]
  | succ attempts ih =>
    cases hans : answers n with
    | accepted =>
      exact ⟨⟨request, .accepted⟩, by rw [postAttempts]; simp [hans, postError], rfl⟩
    | rejected status text =>
      rw [postAttempts] at h ⊢
      simp only [hans, postError, Nat.add_eq_zero_iff, one_ne_zero, and_false, ↓reduceIte] at h ⊢
      obtain ⟨p, hp, htaken⟩ := ih h
      exact ⟨p, List.mem_cons_of_mem _ hp, htaken⟩
    | lost taken text =>
      rw [postAttempts] at h ⊢
      simp only [hans, postError, Nat.add_eq_zero_iff, one_ne_zero, and_false, ↓reduceIte] at h ⊢
      obtain ⟨p, hp, htaken⟩ := ih h
      exact ⟨p, List.mem_cons_of_mem _ hp, htaken⟩

theorem postRequests_singleton (request : PostRequest) (attempts n : ℕ) :
    postRequests answers attempts [request] n = postAttempts answers request attempts n := by
  simp only [postRequests]
  split
  · rename_i error herr
    rw [← herr]
  · rename_i herr
    rw [List.append_nil, ← herr]

/-- Without an attempt nothing is sent and nothing fails. -/
theorem postRequests_zero (requests : List PostRequest) (n : ℕ) :
    postRequests answers 0 requests n = ([], none) := by
  induction requests generalizing n with
  | nil => rfl
  | cons request rest ih => simp [postRequests, postAttempts, ih]

theorem postRequests_accepted (requests : List PostRequest) (attempts n : ℕ) :
    postRequests (fun _ => .accepted) (attempts + 1) requests n =
      (requests.map (⟨·, .accepted⟩), none) := by
  induction requests generalizing n with
  | nil => rfl
  | cons request rest ih => simp [postRequests, postAttempts, postError, ih]

end posting

theorem sinkEvents_seen {key : String} {rs : List PostRequest} {seen : List String}
    (h : ∀ r ∈ rs, r.idempotencyKey = some key) (hseen : key ∈ seen) : sinkEvents rs seen = [] := by
  induction rs with
  | nil => rfl
  | cons r rs ih =>
    simp only [sinkEvents, h r List.mem_cons_self, hseen, ↓reduceIte]
    exact ih fun r hr => h r (List.mem_cons_of_mem _ hr)

/-- Under one key the first request is all the sink keeps. -/
theorem sinkEvents_sameKey {key : String} {r : PostRequest} {rs : List PostRequest}
    (h : ∀ r' ∈ r :: rs, r'.idempotencyKey = some key) : sinkEvents (r :: rs) [] = r.events := by
  simp only [sinkEvents, h r List.mem_cons_self, List.not_mem_nil, ↓reduceIte]
  rw [sinkEvents_seen (fun r' hr => h r' (List.mem_cons_of_mem _ hr)) List.mem_cons_self,
    List.append_nil]

theorem sinkEvents_noKey {rs : List PostRequest} {seen : List String}
    (h : ∀ r ∈ rs, r.idempotencyKey = none) : sinkEvents rs seen = rs.flatMap (·.events) := by
  induction rs with
  | nil => rfl
  | cons r rs ih =>
    simp only [sinkEvents, h r List.mem_cons_self, List.flatMap_cons]
    rw [ih fun r hr => h r (List.mem_cons_of_mem _ hr)]

section clock

variable (ctx : MessagePrefixResolveContext) (reprText : Json → String) (event : Event)

/-- Stripping white space takes no other character. -/
theorem count_rdropWhile_isSpace {c : Char} (hc : PyText.isSpace c = false) (l : List Char) :
    (l.rdropWhile PyText.isSpace).count c = l.count c := by
  induction l using List.reverseRecOn with
  | nil => rfl
  | append_singleton l a ih =>
    by_cases ha : PyText.isSpace a = true
    · have hne : a ≠ c := fun h => by simp [← h, ha] at hc
      rw [List.rdropWhile_concat_pos _ _ _ ha, ih, List.count_append]
      simp [hne]
    · rw [List.rdropWhile_concat_neg _ _ _ ha]

theorem lookup_clock_eq {key : String} (now now' : String)
    (h : key ≠ "timestamp" ∨ ctx.timestamp ≠ none) :
    ctx.lookup reprText now event key = ctx.lookup reprText now' event key := by
  unfold MessagePrefixResolveContext.lookup
  split_ifs with hkey
  · obtain ⟨t, ht⟩ := Option.ne_none_iff_exists'.mp (h.resolve_left (not_not.mpr hkey))
    simp [ht]
  all_goals rfl

/-- A prefix with no timestamp to print does not depend on the clock. -/
theorem resolvePrefix_clock_eq {template : String} (now now' : String)
    (h : Piece.hole "timestamp" ∉ pieces template ∨ ctx.timestamp ≠ none) :
    ctx.resolvePrefix reprText now template event = ctx.resolvePrefix reprText now' template event := by
  unfold MessagePrefixResolveContext.resolvePrefix
  congr 1
  apply List.flatMap_congr
  intro piece hpiece
  cases piece with
  | lit c => rfl
  | hole key =>
    have hkey : key ≠ "timestamp" ∨ ctx.timestamp ≠ none :=
      h.imp_left fun hnot heq => hnot (heq ▸ hpiece)
    simp only [MessagePrefixResolveContext.fill, lookup_clock_eq ctx reprText event now now' hkey]

/-- A later clock reading with more ones prints a prefix with more ones. -/
theorem resolvePrefix_clock_ne {template now now' : String}
    (hts : ctx.timestamp = none) (hhole : Piece.hole "timestamp" ∈ pieces template)
    (hcount : now.toList.count '1' < now'.toList.count '1') :
    ctx.resolvePrefix reprText now template event ≠
      ctx.resolvePrefix reprText now' template event := by
  have hfill (piece : Piece) : (ctx.fill reprText now event piece).count '1' ≤
      (ctx.fill reprText now' event piece).count '1' := by
    cases piece with
    | lit c => rfl
    | hole key =>
      by_cases hkey : key = "timestamp"
      · subst hkey
        simpa [MessagePrefixResolveContext.fill, MessagePrefixResolveContext.lookup, hts] using hcount.le
      · simp only [MessagePrefixResolveContext.fill]
        rw [lookup_clock_eq ctx reprText event now now' (.inl hkey)]
  have hstrict : ((pieces template).flatMap (ctx.fill reprText now event)).count '1' <
      ((pieces template).flatMap (ctx.fill reprText now' event)).count '1' := by
    simp only [List.count_flatMap]
    apply List.sum_lt_sum
    · intro piece _
      exact hfill piece
    · refine ⟨_, hhole, ?_⟩
      simpa [MessagePrefixResolveContext.fill, MessagePrefixResolveContext.lookup, hts] using hcount
  intro heq
  have hcounts := congrArg (List.count '1') heq
  simp only [MessagePrefixResolveContext.resolvePrefix] at hcounts
  rw [count_rdropWhile_isSpace (by decide), count_rdropWhile_isSpace (by decide)] at hcounts
  omega

end clock

namespace WebhookCall

variable {c : WebhookCall} {mode : PayloadMode}

/-- The call posts one request under a key, and its text does not depend on the clock. -/
structure OneRequest (c : WebhookCall) (mode : PayloadMode) : Prop where
  keyed : (Dict.get? "Idempotency-Key" c.headers).isSome = true
  attempted : 0 ≤ c.config.retryCount
  fits : c.FitsOne mode
  clockless : ¬ c.ReadsClock

theorem send_of_fitsOne (hp : c.Posts mode) (h : c.FitsOne mode) (w : WebhookWorld) :
    c.send w = postAttempts w.answers (c.request mode w 0 c.events)
      (c.config.retryCount + 1).toNat 0 := by
  rw [send_of_posts hp, requests, batches_of_fitsOne hp.1 h, List.mapIdx_cons, List.mapIdx_nil,
    postRequests_singleton]

theorem line_clock_eq {w w' : WebhookWorld} (h : ¬ c.ReadsClock) (hprefixOn : c.prefixOn = true)
    (hrepr : w.reprText = w'.reprText) (now now' : String) (event : Event) :
    c.line w now event = c.line w' now' event := by
  have htext : Piece.hole "timestamp" ∉ pieces c.prefixTemplate ∨
      c.prefixContext.timestamp ≠ none := by
    by_contra hboth
    push Not at hboth
    exact h ⟨hprefixOn, hboth.2, hboth.1⟩
  simp only [line, hrepr, resolvePrefix_clock_eq c.prefixContext w'.reprText event now now' htext]

theorem request_body_clock_eq {w w' : WebhookWorld} (h : ¬ c.ReadsClock)
    (hrepr : w.reprText = w'.reprText) (k : ℕ) (batch : List Event) :
    (c.request mode w k batch).body = (c.request mode w' k batch).body := by
  unfold request
  split_ifs with hprefixOn
  · have hlines : (fun j event => c.line w (w.clock k j) event) =
        fun j event => c.line w' (w'.clock k j) event := by
      funext j event
      exact line_clock_eq h hprefixOn hrepr _ _ event
    simp only [hlines]
  · rfl
  · rfl

/-- The clock moves between two sends of the same call. -/
def laterWorld : WebhookWorld where
  clock k j := if k = 0 ∧ j = 0 then "2026-01-01T00:00:01Z" else "2026-01-01T00:00:00Z"

theorem request_body_clock_ne (h : c.ReadsClock) (hev : c.events ≠ []) :
    (c.request mode {} 0 c.events).body ≠ (c.request mode laterWorld 0 c.events).body := by
  obtain ⟨hprefixOn, hts, hhole⟩ := h
  obtain ⟨e, es, hcons⟩ := List.exists_cons_of_ne_nil hev
  have hline : c.line {} "2026-01-01T00:00:00Z" e ≠ c.line laterWorld "2026-01-01T00:00:01Z" e := by
    intro heq
    have hchars := congrArg String.toList heq
    simp only [line, String.toList_append, String.toList_ofList, List.append_assoc,
      List.append_cancel_right_eq] at hchars
    exact resolvePrefix_clock_ne c.prefixContext Json.compactText e hts hhole (by decide) hchars
  simp only [request, hprefixOn, ↓reduceIte, hcons, List.mapIdx_cons, ne_eq, PostBody.text.injEq]
  have hrest : (es.mapIdx fun j event =>
      c.line {} (({} : WebhookWorld).clock 0 (j + 1)) event) =
        es.mapIdx fun j event => c.line laterWorld (laterWorld.clock 0 (j + 1)) event := by
    simp [laterWorld, line]
  rw [hrest]
  by_cases hnil : (es.mapIdx fun j event =>
      c.line laterWorld (laterWorld.clock 0 (j + 1)) event) = []
  · rw [hnil, String.intercalate_singleton, String.intercalate_singleton]
    exact hline
  · rw [String.intercalate_cons_of_ne_nil hnil, String.intercalate_cons_of_ne_nil hnil]
    intro heq
    have hchars := congrArg String.toList heq
    simp only [String.toList_append, List.append_assoc, List.append_cancel_right_eq] at hchars
    exact hline (String.toList_injective hchars)

theorem mem_requests_key {w : WebhookWorld} {r : PostRequest} (h : r ∈ c.requests mode w) :
    r.idempotencyKey = Dict.get? "Idempotency-Key" c.headers := by
  obtain ⟨k, hk, rfl⟩ := List.mem_mapIdx.mp h
  exact request_idempotencyKey ..

theorem OneRequest.exactlyOnce (hp : c.Posts mode) (h : c.OneRequest mode) : c.ExactlyOnce := by
  obtain ⟨key, hkey⟩ := Option.isSome_iff_exists.mp h.keyed
  have hsend := send_of_fitsOne hp h.fits
  have hreq {w : WebhookWorld} {p : Post} (hmem : p ∈ (c.send w).1) :
      p.request = c.request mode w 0 c.events := by
    rw [hsend w] at hmem
    exact postAttempts_request hmem
  obtain ⟨attempts, hattempts⟩ : ∃ n, (c.config.retryCount + 1).toNat = n + 1 :=
    ⟨c.config.retryCount.toNat, by have := h.attempted; omega⟩
  refine ⟨fun w p hp q hq hne => ?_, fun w w' hans hrepr => ?_, fun ws w hret => ?_⟩
  · rw [hreq hp, hreq hq] at hne
    exact absurd rfl hne
  · rw [hsend w, hsend w', hans]
    apply postAttempts_map fun r => (r.idempotencyKey, r.body)
    simp [request_body_clock_eq h.clockless hrepr]
  · have htaken : ∃ r rs, ((ws ++ [w]).flatMap fun w => takenRequests (c.send w).1) = r :: rs := by
      apply List.exists_cons_of_ne_nil
      rw [hsend w, hattempts] at hret
      obtain ⟨p, hp, ht⟩ := postAttempts_taken hret
      refine List.ne_nil_of_mem (?_ : p.request ∈ _)
      simp only [List.mem_flatMap, takenRequests, List.mem_map, List.mem_filter]
      exact ⟨w, by simp, p, ⟨by rw [hsend w, hattempts]; exact hp, ht⟩, rfl⟩
    obtain ⟨r, rs, hrs⟩ := htaken
    have hall : ∀ r' ∈ r :: rs, r'.idempotencyKey = some key ∧ r'.events = c.events := by
      intro r' hr'
      rw [← hrs] at hr'
      simp only [List.mem_flatMap, takenRequests, List.mem_map, List.mem_filter] at hr'
      obtain ⟨w', -, p, ⟨hp, -⟩, rfl⟩ := hr'
      rw [hreq hp]
      exact ⟨by rw [request_idempotencyKey, hkey], request_events ..⟩
    rw [hrs, sinkEvents_sameKey fun r' hr' => (hall r' hr').1]
    exact (hall r List.mem_cons_self).2

/-- The promise is tried on a sink that takes everything at once. -/
theorem ExactlyOnce.oneRequest (hp : c.Posts mode) (h : c.ExactlyOnce) : c.OneRequest mode := by
  have hretry : 0 ≤ c.config.retryCount := by
    by_contra hneg
    have hzero : (c.config.retryCount + 1).toNat = 0 := by omega
    have hsend : c.send {} = ([], none) := by rw [send_of_posts hp, hzero, postRequests_zero]
    have honce := h.once [] {} (by rw [hsend])
    simp [hsend, takenRequests, sinkEvents] at honce
    exact hp.1 honce
  have hattempts : (c.config.retryCount + 1).toNat = c.config.retryCount.toNat + 1 := by omega
  have hsend : c.send {} = ((c.requests mode {}).map (⟨·, .accepted⟩), none) := by
    rw [send_of_posts hp, hattempts]
    exact postRequests_accepted ..
  have htaken : takenRequests (c.send {}).1 = c.requests mode {} := by
    simp [hsend, takenRequests, PostOutcome.taken, List.filter_map, Function.comp_def]
  have honce := h.once [] {} (by rw [hsend])
  have htwice := h.once [{}] {} (by rw [hsend])
  simp only [List.nil_append, List.cons_append, List.flatMap_cons, List.flatMap_nil,
    List.append_nil, htaken] at honce htwice
  have hkeyed : (Dict.get? "Idempotency-Key" c.headers).isSome = true := by
    by_contra hnone
    have hkeys : ∀ r ∈ c.requests mode {}, r.idempotencyKey = none := fun r hr => by
      rw [mem_requests_key hr]
      simpa using hnone
    rw [sinkEvents_noKey hkeys] at honce
    rw [sinkEvents_noKey (by simpa using hkeys), List.flatMap_append, honce] at htwice
    exact hp.1 (by simpa using htwice)
  have hfits : c.FitsOne mode := by
    by_contra hnot
    obtain ⟨first, rest, hbatches, hne⟩ := batches_of_not_fitsOne hp.1 hnot
    obtain ⟨key, hkey⟩ := Option.isSome_iff_exists.mp hkeyed
    have hkeys : ∀ r ∈ c.requests mode {}, r.idempotencyKey = some key := fun r hr => by
      rw [mem_requests_key hr, hkey]
    rw [requests, hbatches, List.mapIdx_cons] at honce hkeys
    rw [sinkEvents_sameKey hkeys, request_events] at honce
    exact hne honce
  refine ⟨hkeyed, hretry, hfits, fun hclock => ?_⟩
  have hrepeated := h.repeated {} laterWorld rfl rfl
  rw [send_of_fitsOne hp hfits, send_of_fitsOne hp hfits, hattempts] at hrepeated
  simp [postAttempts, laterWorld, postError] at hrepeated
  exact request_body_clock_ne hclock hp.1 hrepeated

end WebhookCall

/-- A call keeps what an idempotency key promises exactly when it sends nothing at all, or one
request, under a key and without reading the clock. -/
theorem exactlyOnce_iff (c : WebhookCall) :
    c.ExactlyOnce ↔ ∀ mode, c.Posts mode → c.OneRequest mode := by
  constructor
  · intro h mode hp
    exact h.oneRequest hp
  · intro h
    by_cases hposts : ∃ mode, c.Posts mode
    · obtain ⟨mode, hp⟩ := hposts
      exact (h mode hp).exactlyOnce hp
    · have hnone := WebhookCall.send_of_not_posts (not_exists.mp hposts)
      refine ⟨fun w p hp => ?_, fun w w' _ _ => ?_, fun ws w hret => ?_⟩
      · rw [(hnone w).1] at hp
        cases hp
      · rw [(hnone w).1, (hnone w').1]
      · have hempty : ((ws ++ [w]).flatMap fun w => takenRequests (c.send w).1) = [] := by
          simp [(hnone _).1, takenRequests, List.flatMap_eq_nil_iff]
        rw [hempty, (hnone w).2 hret]
        rfl

/-- `_prefix_from_context`: the stored context carries no timestamp. -/
def prefixFromContext (ctx : MessagePrefixContext) : MessagePrefixResolveContext where
  streamName := some ctx.streamName
  streamId := some ctx.streamId
  destinationName := some ctx.destinationName
  destinationType := some ctx.destinationType
  routeId := some ctx.routeId

/-- The call `execute_replay_event` makes for the attempt it claimed. -/
def replayCall (row : ReplayRow) (config : WebhookConfig) (attempt : DeliveryAttempt) :
    WebhookCall where
  events := row.protectedPayload
  config := config
  formatterOverride := row.deliveryContext.formatterOverride.filter fun ms => !ms.isEmpty
  prefixContext := prefixFromContext row.deliveryContext.prefixContext
  idempotencyKey := attempt.idempotencyKey.filter fun key => key ≠ ""

/-- Two stored events, posted one by one. -/
def twoEventReplay : WebhookCall :=
  replayCall { storedRow with protectedPayload := [[("id", .int 1)], [("id", .int 2)]] }
    { url := "https://sink.example/hook" } { idempotencyKey := some "replay-7-a" }

def twoEventReplayPost (i : ℤ) : Post where
  request :=
    { url := "https://sink.example/hook"
      headers := [("Idempotency-Key", "replay-7-a")]
      body := .json (.obj [("id", .int i)])
      events := [[("id", .int i)]] }
  outcome := .accepted

theorem twoEventReplay_not_exactlyOnce : ¬ twoEventReplay.ExactlyOnce := by
  intro h
  have hsend : (twoEventReplay.send {}).1 = [twoEventReplayPost 1, twoEventReplayPost 2] := by
    rfl
  refine h.separated {} (twoEventReplayPost 1) ?_ (twoEventReplayPost 2) ?_ (by decide) rfl
  · simp [hsend]
  · simp [hsend]

end Webhook
