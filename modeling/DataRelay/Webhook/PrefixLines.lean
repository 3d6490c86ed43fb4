import DataRelay.Formatters.MessagePrefix
import DataRelay.Lib.Framing
import DataRelay.Webhook.Idempotency

/-! The lines of the text bodies a webhook gets when its messages have prefixes. Nothing escapes
what a placeholder is filled with: a line feed in it ends the line, unless stripping the end of
the prefix takes it away. -/
namespace Webhook
open Delivery

/-- The lines of a text body. -/
def PostBody.textLines : PostBody → List (List Char)
  | .text content => content.toList.splitOn '\n'
  | .json _ => []

/-- A line for each event, in order, ending with the compact JSON of the event. -/
def LinesOf (events : List Event) (lines : List (List Char)) : Prop :=
  List.Forall₂ (fun event line => (MessagePrefix.compactEventJson event).toList <:+ line)
    events lines

/-- Whatever the sink answers, every body has a line for each event of its batch; and when nothing
is raised, the accepted bodies together have one for each event of the call. -/
structure KeepsLines (c : WebhookCall) (w : WebhookWorld) : Prop where
  each : ∀ answers, ∀ p ∈ (c.send { w with answers }).1,
    LinesOf p.request.events p.request.body.textLines
  all : ∀ answers, (c.send { w with answers }).2 = none →
    LinesOf c.events (((c.send { w with answers }).1.filter
      fun p => decide (p.outcome = .accepted)).flatMap fun p => p.request.body.textLines)

/-- A placeholder's value breaks the line of the event: it has a line feed in it, and something that
is no white space comes later in the filled template. -/
def Forges (ctx : MessagePrefixResolveContext) (reprText : Json → String) (now template : String)
    (event : Event) : Prop :=
  ∃ front key back u v, pieces template = front ++ Piece.hole key :: back ∧
    (ctx.lookup reprText now event key).toList = u ++ '\n' :: v ∧
    ∃ d ∈ v ++ back.flatMap (ctx.fill reprText now event), PyText.isSpace d = false

/-! ### Where a line feed survives -/

/-- What is dropped from the back stays where something else comes after it. -/
theorem mem_rdropWhile_iff {α : Type*} {p : α → Bool} {a : α} (ha : p a = true) {l : List α} :
    a ∈ l.rdropWhile p ↔ ∃ u v, l = u ++ a :: v ∧ ∃ d ∈ v, p d = false := by
  have hsplit : l.rdropWhile p ++ l.rtakeWhile p = l := List.rdropWhile_append_rtakeWhile
  constructor
  · intro hmem
    obtain ⟨u, v, huv⟩ := List.append_of_mem hmem
    have hne : l.rdropWhile p ≠ [] := List.ne_nil_of_mem hmem
    have hlast := List.rdropWhile_last_not p l hne
    rcases List.eq_nil_or_concat v with rfl | ⟨v', d, rfl⟩
    · simp [huv, ha] at hlast
    · refine ⟨u, v' ++ [d] ++ l.rtakeWhile p, ?_, d, by simp, by simpa [huv] using hlast⟩
      calc l = l.rdropWhile p ++ l.rtakeWhile p := hsplit.symm
        _ = u ++ a :: (v' ++ [d] ++ l.rtakeWhile p) := by
          rw [huv]
          simp
  · rintro ⟨u, v, rfl, d, hd, hpd⟩
    have htake : d ∉ (u ++ a :: v).rtakeWhile p := by
      intro hmem
      rw [List.mem_rtakeWhile_imp hmem] at hpd
      contradiction
    rcases List.append_eq_append_iff.mp hsplit with ⟨c, hu, hback⟩ | ⟨c, hfront, hback⟩
    · refine absurd ?_ htake
      rw [hback]
      simp [hd]
    · cases c with
      | nil =>
        refine absurd ?_ htake
        rw [List.nil_append] at hback
        rw [← hback]
        simp [hd]
      | cons b c =>
        obtain ⟨rfl, -⟩ := List.cons.inj hback
        rw [hfront]
        simp

theorem flatMap_eq_append_cons {α β : Type*} {f : α → List β} {l : List α} {u v : List β} {a : β}
    (h : l.flatMap f = u ++ a :: v) :
    ∃ front x back u' v', l = front ++ x :: back ∧ f x = u' ++ a :: v' ∧
      v = v' ++ back.flatMap f := by
  induction l generalizing u with
  | nil => simp at h
  | cons x l ih =>
    rw [List.flatMap_cons] at h
    rcases List.append_eq_append_iff.mp h with ⟨c, hu, hl⟩ | ⟨c, hx, hl⟩
    · obtain ⟨front, y, back, u', v', rfl, hy, hv⟩ := ih hl
      exact ⟨x :: front, y, back, u', v', rfl, hy, hv⟩
    · cases c with
      | nil =>
        obtain ⟨front, y, back, u', v', rfl, hy, hv⟩ := ih (u := []) (by simpa using hl.symm)
        exact ⟨x :: front, y, back, u', v', rfl, hy, hv⟩
      | cons b c =>
        obtain ⟨rfl, rfl⟩ := List.cons.inj hl
        exact ⟨[], x, l, u, c, rfl, hx, rfl⟩

theorem mem_of_lit_mem_templatePieces {fuel : ℕ} {cs : List Char} {d : Char}
    (h : Piece.lit d ∈ templatePieces fuel cs) : d ∈ cs := by
  induction fuel generalizing cs with
  | zero => cases h
  | succ fuel ih =>
    cases cs with
    | nil => cases h
    | cons c cs =>
      simp only [templatePieces] at h
      split_ifs at h with hopen hkey
      · rcases List.mem_cons.mp h with h | h
        · cases h
        · have hrest := List.mem_of_mem_drop (ih h)
          have htail := (List.dropWhile_sublist _).mem hrest
          exact List.mem_cons_of_mem c (List.mem_of_mem_tail htail)
      · rcases List.mem_cons.mp h with h | h
        · cases h
          exact List.mem_cons_self
        · exact List.mem_cons_of_mem c (ih h)
      · rcases List.mem_cons.mp h with h | h
        · cases h
          exact List.mem_cons_self
        · exact List.mem_cons_of_mem c (ih h)

/-- The prefix of an event has a line feed in it exactly where a placeholder's value breaks the
line. -/
theorem lineFeed_mem_resolvePrefix_iff {ctx : MessagePrefixResolveContext}
    {reprText : Json → String} {now template : String} {event : Event}
    (htemplate : '\n' ∉ template.toList) :
    '\n' ∈ ctx.resolvePrefix reprText now template event ↔
      Forges ctx reprText now template event := by
  unfold MessagePrefixResolveContext.resolvePrefix
  rw [mem_rdropWhile_iff (by decide)]
  constructor
  · rintro ⟨u, v, hfilled, d, hd, hspace⟩
    obtain ⟨front, piece, back, u', v', hpieces, hfill, rfl⟩ := flatMap_eq_append_cons hfilled
    cases piece with
    | lit c =>
      have hc : c = '\n' := by
        have hmem : '\n' ∈ ctx.fill reprText now event (.lit c) := by
          rw [hfill]
          simp
        exact (List.mem_singleton.mp hmem).symm
      have hlit : Piece.lit '\n' ∈ pieces template := by
        rw [hpieces, hc]
        simp
      exact absurd (mem_of_lit_mem_templatePieces hlit) htemplate
    | hole key => exact ⟨front, key, back, u', v', hpieces, hfill, d, hd, hspace⟩
  · rintro ⟨front, key, back, u, v, hpieces, hvalue, d, hd, hspace⟩
    refine ⟨front.flatMap (ctx.fill reprText now event) ++ u,
      v ++ back.flatMap (ctx.fill reprText now event), ?_, d, hd, hspace⟩
    rw [hpieces, List.flatMap_append, List.flatMap_cons, MessagePrefixResolveContext.fill, hvalue]
    simp

/-! ### One body -/

namespace WebhookCall

variable {c : WebhookCall} {mode : PayloadMode} {w : WebhookWorld}

/-- Some value forges a line in the text of an event. -/
def ForgedAt (c : WebhookCall) (w : WebhookWorld) (k j : ℕ) (event : Event) : Prop :=
  Forges c.prefixContext w.reprText (w.clock k j) c.prefixTemplate event

theorem lineFeed_mem_line_iff (htemplate : '\n' ∉ c.prefixTemplate.toList) {now : String}
    {event : Event} (hfloats : MessagePrefix.CleanFloats event) :
    '\n' ∈ (c.line w now event).toList ↔
      Forges c.prefixContext w.reprText now c.prefixTemplate event := by
  rw [← lineFeed_mem_resolvePrefix_iff htemplate]
  have hjson : '\n' ∉ (Json.compactText (.obj event)).toList := hfloats.clean.lineFeed
  simp [line, hjson]

/-- The text of a request is its lines, joined. -/
theorem textLines_request (hprefixOn : c.prefixOn = true) (k : ℕ) (batch : List Event) :
    (c.request mode w k batch).body.textLines =
      (['\n'].intercalate
        (batch.mapIdx fun j event => (c.line w (w.clock k j) event).toList)).splitOn '\n' := by
  have hjoin :
      ("\n".intercalate (batch.mapIdx fun j event => c.line w (w.clock k j) event)).toList =
      ['\n'].intercalate (batch.mapIdx fun j event => (c.line w (w.clock k j) event).toList) := by
    rw [String.toList_intercalate]
    refine congrArg (List.intercalate ['\n']) (List.ext_getElem ?_ ?_)
    · simp
    · simp
  rw [request, if_pos hprefixOn, PostBody.textLines, hjoin]

/-- A body has a line for each event exactly where no event forges one. -/
theorem linesOf_request_iff (hprefixOn : c.prefixOn = true)
    (htemplate : '\n' ∉ c.prefixTemplate.toList) {k : ℕ} {batch : List Event} (hne : batch ≠ [])
    (hfloats : ∀ event ∈ batch, MessagePrefix.CleanFloats event) :
    LinesOf batch (c.request mode w k batch).body.textLines ↔
      ∀ j event, batch[j]? = some event → ¬ c.ForgedAt w k j event := by
  have hlines : batch.mapIdx (fun j event => (c.line w (w.clock k j) event).toList) ≠ [] := by
    simpa using hne
  have hfree : (∀ line ∈ batch.mapIdx fun j event => (c.line w (w.clock k j) event).toList,
      '\n' ∉ line) ↔ ∀ j event, batch[j]? = some event → ¬ c.ForgedAt w k j event := by
    constructor
    · intro h j event hevent hforged
      obtain ⟨hj, rfl⟩ := List.getElem?_eq_some_iff.mp hevent
      refine h _ (List.mem_mapIdx.mpr ⟨j, hj, rfl⟩) ?_
      exact (lineFeed_mem_line_iff htemplate (hfloats _ (List.getElem_mem hj))).mpr hforged
    · intro h line hline hmem
      obtain ⟨j, hj, rfl⟩ := List.mem_mapIdx.mp hline
      apply h j batch[j] (List.getElem?_eq_getElem hj)
      exact (lineFeed_mem_line_iff htemplate (hfloats _ (List.getElem_mem hj))).mp hmem
  rw [textLines_request hprefixOn, ← hfree]
  constructor
  · intro h
    apply (Framing.length_splitOn_intercalate_iff '\n' hlines).mp
    rw [← h.length_eq, List.length_mapIdx]
  · intro h
    rw [List.splitOn_intercalate '\n' h hlines, LinesOf, List.forall₂_iff_get]
    refine ⟨by simp, fun j hj hline => ?_⟩
    simp only [List.get_eq_getElem, List.getElem_mapIdx]
    exact ⟨_, (String.toList_append ..).symm⟩

/-! ### All bodies -/

theorem slices_flatten : c.slices.flatten = c.events := by
  have htake (n : ℕ) : ((List.range n).map fun k =>
      (c.events.drop (k * c.batchSize)).take c.batchSize).flatten =
        c.events.take (n * c.batchSize) := by
    induction n with
    | zero => simp
    | succ n ih =>
      rw [List.range_succ, List.map_append, List.flatten_append, ih, Nat.succ_mul, List.take_add]
      simp
  have hone := c.one_le_batchSize
  have hceil : c.events.length ≤
      (c.events.length + c.batchSize - 1) / c.batchSize * c.batchSize := by
    have hdiv := Nat.div_add_mod (c.events.length + c.batchSize - 1) c.batchSize
    have hmod := Nat.mod_lt (c.events.length + c.batchSize - 1) (by omega : c.batchSize > 0)
    rw [Nat.mul_comm] at hdiv
    omega
  rw [slices, htake, List.take_of_length_le hceil]

theorem slice_ne_nil {batch : List Event} (h : batch ∈ c.slices) : batch ≠ [] := by
  obtain ⟨k, hk, rfl⟩ := List.mem_map.mp h
  have hone := c.one_le_batchSize
  have hlt : k * c.batchSize < c.events.length := by
    have hle : (k + 1) * c.batchSize ≤ c.events.length + c.batchSize - 1 := by
      calc (k + 1) * c.batchSize
          ≤ (c.events.length + c.batchSize - 1) / c.batchSize * c.batchSize :=
            Nat.mul_le_mul_right _ (List.mem_range.mp hk)
        _ ≤ c.events.length + c.batchSize - 1 := Nat.div_mul_le_self _ _
    rw [Nat.succ_mul] at hle
    omega
  apply List.ne_nil_of_length_pos
  rw [List.length_take, List.length_drop]
  omega

theorem linesOf_flatMap {rs : List PostRequest}
    (h : ∀ r ∈ rs, LinesOf r.events r.body.textLines) :
    LinesOf (rs.flatMap (·.events)) (rs.flatMap (·.body.textLines)) := by
  induction rs with
  | nil => exact .nil
  | cons r rs ih =>
    rw [List.flatMap_cons, List.flatMap_cons]
    exact List.rel_append (h r List.mem_cons_self) (ih fun s hs => h s (List.mem_cons_of_mem r hs))

end WebhookCall

/-! ### The posts of a run -/

section posting

variable {answers : ℕ → PostOutcome}

theorem postRequests_request {requests : List PostRequest} {attempts n : ℕ} {p : Post}
    (h : p ∈ (postRequests answers attempts requests n).1) : p.request ∈ requests := by
  induction requests generalizing n with
  | nil => cases h
  | cons request rest ih =>
    simp only [postRequests] at h
    split at h
    · rw [postAttempts_request h]
      exact List.mem_cons_self
    · rcases List.mem_append.mp h with h | h
      · rw [postAttempts_request h]
        exact List.mem_cons_self
      · exact List.mem_cons_of_mem _ (ih h)

/-- A request that does not fail is accepted at its last attempt. -/
theorem postAttempts_accepted_of_ok {request : PostRequest} {attempts n : ℕ}
    (h : (postAttempts answers request (attempts + 1) n).2 = none) :
    ((postAttempts answers request (attempts + 1) n).1.filter
      fun p => decide (p.outcome = .accepted)).map (·.request) = [request] := by
  induction attempts generalizing n with
  | zero =>
    cases hans : answers n with
    | accepted => simp [postAttempts, hans, postError]
    | rejected status text => simp [postAttempts, hans, postError] at h
    | lost taken text => simp [postAttempts, hans, postError] at h
  | succ attempts ih =>
    cases hans : answers n with
    | accepted =>
      rw [postAttempts]
      simp [hans, postError]
    | rejected status text =>
      rw [postAttempts] at h ⊢
      simp only [hans, postError, Nat.add_eq_zero_iff, one_ne_zero, and_false, ↓reduceIte] at h ⊢
      simpa using ih h
    | lost taken text =>
      rw [postAttempts] at h ⊢
      simp only [hans, postError, Nat.add_eq_zero_iff, one_ne_zero, and_false, ↓reduceIte] at h ⊢
      simpa using ih h

/-- When nothing is raised, the accepted posts are the requests, in order. -/
theorem postRequests_accepted_of_ok {requests : List PostRequest} {attempts n : ℕ}
    (h : (postRequests answers (attempts + 1) requests n).2 = none) :
    ((postRequests answers (attempts + 1) requests n).1.filter
      fun p => decide (p.outcome = .accepted)).map (·.request) = requests := by
  induction requests generalizing n with
  | nil => rfl
  | cons request rest ih =>
    simp only [postRequests] at h ⊢
    cases hfirst : (postAttempts answers request (attempts + 1) n).2 with
    | some error => simp [hfirst] at h
    | none =>
      simp only [hfirst] at h ⊢
      rw [List.filter_append, List.map_append, postAttempts_accepted_of_ok hfirst, ih h]
      rfl

end posting

namespace WebhookCall

variable {c : WebhookCall} {mode : PayloadMode} {w : WebhookWorld}

theorem send_answers (hp : c.Posts mode) (answers : ℕ → PostOutcome) :
    c.send { w with answers } =
      postRequests answers (c.config.retryCount + 1).toNat (c.requests mode w) 0 :=
  send_of_posts hp { w with answers }

theorem mem_requests_iff {r : PostRequest} (hprefixOn : c.prefixOn = true) :
    r ∈ c.requests mode w ↔
      ∃ k batch, c.slices[k]? = some batch ∧ r = c.request mode w k batch := by
  rw [requests, batches, if_pos hprefixOn, List.mem_mapIdx]
  constructor
  · rintro ⟨k, hk, rfl⟩
    exact ⟨k, _, List.getElem?_eq_getElem hk, rfl⟩
  · rintro ⟨k, batch, hbatch, rfl⟩
    obtain ⟨hk, rfl⟩ := List.getElem?_eq_some_iff.mp hbatch
    exact ⟨k, hk, rfl⟩

theorem requests_events (hprefixOn : c.prefixOn = true) :
    (c.requests mode w).flatMap (·.events) = c.events := by
  have hevents : (c.requests mode w).map (·.events) = c.slices := by
    rw [requests, batches, if_pos hprefixOn]
    refine List.ext_getElem ?_ ?_
    · simp
    · simp
  rw [List.flatMap_def, hevents, slices_flatten]

/-- No event forges a line: the bodies keep one line for each event. -/
theorem keepsLines_of_posts (hp : c.Posts mode) (hprefixOn : c.prefixOn = true)
    (hretry : 0 ≤ c.config.retryCount)
    (hlines : ∀ r ∈ c.requests mode w, LinesOf r.events r.body.textLines) : KeepsLines c w := by
  obtain ⟨attempts, hattempts⟩ : ∃ n, (c.config.retryCount + 1).toNat = n + 1 :=
    ⟨c.config.retryCount.toNat, by omega⟩
  constructor
  · intro answers p hmem
    rw [send_answers hp] at hmem
    exact hlines _ (postRequests_request hmem)
  · intro answers hok
    rw [send_answers hp, hattempts] at hok ⊢
    have haccepted := postRequests_accepted_of_ok hok
    have htext := congrArg (List.flatMap (·.body.textLines)) haccepted
    rw [List.flatMap_map] at htext
    rw [htext]
    have hall := linesOf_flatMap hlines
    rwa [requests_events hprefixOn] at hall

/-- Bodies that keep their lines come of attempts that are made. -/
theorem retryCount_of_keepsLines (hp : c.Posts mode) (h : KeepsLines c w) :
    0 ≤ c.config.retryCount := by
  by_contra hneg
  have hzero : (c.config.retryCount + 1).toNat = 0 := by omega
  have hsend : c.send { w with answers := w.answers } = ([], none) := by
    rw [send_answers hp, hzero, postRequests_zero]
  have hall := h.all w.answers (by rw [hsend])
  rw [hsend] at hall
  exact hp.1 (List.forall₂_nil_right_iff.mp hall)

theorem linesOf_of_keepsLines (hp : c.Posts mode) (h : KeepsLines c w) {r : PostRequest}
    (hr : r ∈ c.requests mode w) : LinesOf r.events r.body.textLines := by
  have hretry := retryCount_of_keepsLines hp h
  obtain ⟨attempts, hattempts⟩ : ∃ n, (c.config.retryCount + 1).toNat = n + 1 :=
    ⟨c.config.retryCount.toNat, by omega⟩
  apply h.each (fun _ => .accepted) ⟨r, .accepted⟩
  rw [send_answers hp, hattempts, postRequests_accepted]
  exact List.mem_map_of_mem hr

/-- The text bodies of a call keep one line for each event exactly where an attempt is made and no
placeholder's value forges a line. -/
theorem keepsLines_iff (c : WebhookCall) (w : WebhookWorld) (hprefixOn : c.prefixOn = true)
    (htemplate : '\n' ∉ c.prefixTemplate.toList)
    (hfloats : ∀ event ∈ c.events, MessagePrefix.CleanFloats event) :
    KeepsLines c w ↔ ∀ mode, c.Posts mode → 0 ≤ c.config.retryCount ∧
      ∀ k batch, c.slices[k]? = some batch →
        ∀ j event, batch[j]? = some event → ¬ c.ForgedAt w k j event := by
  have hrequest : ∀ {mode k batch}, c.slices[k]? = some batch →
      (LinesOf batch (c.request mode w k batch).body.textLines ↔
        ∀ j event, batch[j]? = some event → ¬ c.ForgedAt w k j event) := by
    intro mode k batch hbatch
    have hmem : batch ∈ c.slices := List.mem_of_getElem? hbatch
    apply linesOf_request_iff hprefixOn htemplate (slice_ne_nil hmem)
    intro event hevent
    apply hfloats
    rw [← c.slices_flatten]
    exact List.mem_flatten.mpr ⟨batch, hmem, hevent⟩
  constructor
  · intro h mode hp
    refine ⟨retryCount_of_keepsLines hp h, fun k batch hbatch => ?_⟩
    have hlines := linesOf_of_keepsLines hp h
      ((mem_requests_iff hprefixOn).mpr ⟨k, batch, hbatch, rfl⟩)
    rw [request_events] at hlines
    exact (hrequest hbatch).mp hlines
  · intro h
    by_cases hposts : ∃ mode, c.Posts mode
    · obtain ⟨mode, hp⟩ := hposts
      obtain ⟨hretry, hforged⟩ := h mode hp
      apply keepsLines_of_posts hp hprefixOn hretry
      intro r hr
      obtain ⟨k, batch, hbatch, rfl⟩ := (mem_requests_iff hprefixOn).mp hr
      rw [request_events]
      exact (hrequest hbatch).mpr (hforged k batch hbatch)
    · rw [not_exists] at hposts
      constructor
      · intro answers p hmem
        rw [(send_of_not_posts hposts { w with answers }).1] at hmem
        cases hmem
      · intro answers hok
        obtain ⟨hnone, hempty⟩ := send_of_not_posts hposts { w with answers }
        rw [hnone, hempty hok]
        exact .nil

end WebhookCall

/-- The message of the event ends its line and goes on in one of its own. -/
def forgingPost : WebhookCall where
  events := [[("msg", .str "ok\n<134> forged")]]
  config := { url := "https://sink.example" }
  formatterOverride := some [("message_prefix_enabled", .bool true),
    ("message_prefix_template", .str "<134> \x7b\x7bevent.msg\x7d\x7d")]

theorem forgingPost_forges : ¬ KeepsLines forgingPost {} := by
  intro h
  have hall := h.all (fun _ => .accepted) (by decide +kernel)
  have hlen := hall.length_eq
  revert hlen
  decide +kernel

/-- A value that ends in line feeds where the prefix ends: stripping takes them away. -/
def trailingPost : WebhookCall :=
  { forgingPost with events := [[("msg", .str "ok\n\n")]] }

theorem trailingPost_keepsLines : KeepsLines trailingPost {} := by
  apply (WebhookCall.keepsLines_iff trailingPost {} (by decide +kernel) (by decide +kernel)
    (by decide +kernel)).mpr
  intro mode hp
  refine ⟨by decide, fun k batch hbatch j event hevent => ?_⟩
  have hmem : event ∈ trailingPost.events := by
    rw [← WebhookCall.slices_flatten]
    exact List.mem_flatten.mpr ⟨batch, List.mem_of_getElem? hbatch, List.mem_of_getElem? hevent⟩
  obtain rfl := List.mem_singleton.mp hmem
  rw [WebhookCall.ForgedAt, ← lineFeed_mem_resolvePrefix_iff (by decide +kernel)]
  show '\n' ∉ trailingPost.prefixContext.resolvePrefix Json.compactText "2026-01-01T00:00:00Z"
    trailingPost.prefixTemplate [("msg", .str "ok\n\n")]
  decide +kernel

end Webhook
