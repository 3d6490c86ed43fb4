import DataRelay.Lib.LetterCase
import DataRelay.Syslog.Sender

/-! What a collector reads off the stream: one record for each event, in order, whether records end
at a line feed or are counted in octets. -/
namespace Syslog
open Delivery MessagePrefix

/-- The bytes of a call on the wire. -/
def SyslogCall.stream (w : SyslogWorld) (c : SyslogCall) : List UInt8 := (c.send w).1.flatten

/-! ### Bytes of a line -/

theorem lineFeed_not_mem_encodeUtf8 {text : String} (h : Clean text.toList) :
    (10 : UInt8) ∉ Framing.encodeUtf8 text := by
  intro hten
  obtain ⟨c, hc, hten⟩ := List.mem_flatMap.mp hten
  exact h.lineFeed (Framing.ten_mem_utf8EncodeChar hten ▸ hc)

theorem brace_mem_compactEventJson (event : Event) : '\x7b' ∈ (compactEventJson event).toList := by
  simp [compactEventJson, Json.compactText]

/-- No line is blank: it ends with the JSON of an object. -/
theorem strip_formatSingleDeliveryLine_ne {reprText : Json → String} {now : String} (event : Event)
    (routeFormatter : Json.Members) (destinationType : String)
    (prefixContext : Webhook.MessagePrefixResolveContext) :
    PyText.strip (formatSingleDeliveryLine reprText now event routeFormatter destinationType
      prefixContext) ≠ "" := by
  obtain ⟨front, hline⟩ := suffix_formatSingleDeliveryLine event
    routeFormatter destinationType prefixContext
  rw [hline]
  apply PyText.strip_ne_of_mem (c := '\x7b') _ (by decide)
  rw [String.toList_append]
  exact List.mem_append_right _ (brace_mem_compactEventJson event)

/-! ### Runs that raise nothing -/

/-- A run that raises nothing has written everything. -/
theorem sendAll_of_ok {fault : ℕ → Option String} {label : String} {k : ℕ}
    {payloads : List (List UInt8)} (h : (sendAll fault label k payloads).2 = none) :
    (sendAll fault label k payloads).1 = payloads := by
  induction payloads generalizing k with
  | nil => rfl
  | cons payload payloads ih =>
    unfold sendAll at h ⊢
    cases hfault : fault k with
    | some text => simp [hfault] at h
    | none =>
      simp only [hfault] at h ⊢
      rw [ih h]

namespace SyslogCall

variable {w : SyslogWorld} {c : SyslogCall}

theorem transmit_of_ok {label : String} {payloads : List (List UInt8)}
    (h : (transmit w label payloads).2 = none) : (transmit w label payloads).1 = payloads := by
  unfold transmit at h ⊢
  cases hsetup : w.setup with
  | some error => simp [hsetup] at h
  | none =>
    simp only [hsetup] at h ⊢
    exact sendAll_of_ok h

/-- No line is blank: it ends with the JSON of its event. -/
theorem legacyPayloads_eq : c.legacyPayloads w = (c.lines w).map Framing.encodeUtf8 := by
  have hlines : ∀ line ∈ c.lines w, PyText.strip line ≠ "" := by
    intro line hline
    obtain ⟨j, hj, rfl⟩ := List.mem_mapIdx.mp hline
    exact strip_formatSingleDeliveryLine_ne _ _ _ _
  unfold legacyPayloads
  rw [← List.filterMap_eq_map]
  apply List.filterMap_congr
  intro line hline
  rw [if_neg (hlines line hline)]
  rfl

/-- Legacy mode over TCP or TLS writes every line and a line feed after it. -/
theorem stream_of_legacy {formatterConfig : Json.Members} (hevents : c.events ≠ [])
    (hprofile : c.profile w = .ok (formatterConfig, .legacy))
    (hstream : c.protocol = .tcp ∨ c.protocol = .tls) (hok : (c.send w).2 = none) :
    c.stream w = Framing.terminated 10 (c.legacyPayloads w) := by
  have hwritten : (c.send w).1 = (c.legacyPayloads w).map (· ++ [10]) := by
    unfold send at hok ⊢
    rw [if_neg (by simpa using hevents), hprofile] at hok ⊢
    by_cases hempty : (c.legacyPayloads w).isEmpty = true
    · simp [hempty] at hok
    · simp only [hempty, Bool.false_eq_true, if_false] at hok ⊢
      rcases hstream with htcp | htls
      · simp only [htcp] at hok ⊢
        exact transmit_of_ok hok
      · simp only [htls] at hok ⊢
        exact transmit_of_ok hok
  rw [stream, hwritten, Framing.terminated, List.flatMap_def]

/-- RFC 5425 mode writes the messages of the events, each counted. -/
theorem stream_of_rfc5425 {formatterConfig : Json.Members} (hevents : c.events ≠ [])
    (hprofile : c.profile w = .ok (formatterConfig, .rfc5425)) (hok : (c.send w).2 = none) :
    ∃ messages : List (List UInt8), c.rfcMessages w formatterConfig = messages.map .ok ∧
      (∀ m ∈ messages, m ≠ []) ∧ c.stream w = messages.flatMap Framing.octetCounted := by
  unfold stream
  unfold send at hok ⊢
  rw [if_neg (by simpa using hevents), hprofile] at hok ⊢
  cases hpayloads : c.rfcPayloads w formatterConfig with
  | error message => simp [hpayloads] at hok
  | ok messages =>
    have hmessages : c.rfcMessages w formatterConfig = messages.map .ok := by
      unfold rfcPayloads at hpayloads
      split_ifs at hpayloads
      exact Raising.eq_map_of_mapM_id hpayloads
    have hframed : ∀ m ∈ messages,
        m ≠ [] ∧ Rfc5425.rfc5425Frame m = .ok (Framing.octetCounted m) := by
      intro m hm
      have hmem : .ok m ∈ c.rfcMessages w formatterConfig := by
        rw [hmessages]
        exact List.mem_map_of_mem hm
      obtain ⟨j, hj, hjson⟩ := List.mem_mapIdx.mp hmem
      exact Rfc5425.rfc5425Frame_of_rfc5424Json hjson
    have hframes : messages.mapM Rfc5425.rfc5425Frame =
        .ok (messages.map Framing.octetCounted) :=
      Raising.mapM_eq_ok_map fun m hm => (hframed m hm).2
    simp only [hpayloads, hframes] at hok ⊢
    refine ⟨messages, hmessages, fun m hm => (hframed m hm).1, ?_⟩
    rw [transmit_of_ok hok, List.flatMap_def]

end SyslogCall

/-- A record for each event, in order, ending with the JSON of the event. -/
def RecordsOf (events : List Event) (records : List (List UInt8)) : Prop :=
  List.Forall₂ (fun event record => Framing.encodeUtf8 (compactEventJson event) <:+ record)
    events records

/-- The lines of a syslog call hold no line feed. -/
theorem SyslogCall.lineFeed_not_mem_lines {w : SyslogWorld} {c : SyslogCall}
    (hsyslog : isSyslogType c.dtForPrefix = true)
    (hfloats : ∀ event ∈ c.events, CleanFloats event) :
    ∀ record ∈ (c.lines w).map Framing.encodeUtf8, (10 : UInt8) ∉ record := by
  intro record hrecord
  obtain ⟨line, hline, rfl⟩ := List.mem_map.mp hrecord
  obtain ⟨j, hj, rfl⟩ := List.mem_mapIdx.mp hline
  apply lineFeed_not_mem_encodeUtf8
  exact clean_formatSingleDeliveryLine hsyslog (hfloats _ (List.getElem_mem hj)).clean _ _

theorem SyslogCall.recordsOf_lines (w : SyslogWorld) (c : SyslogCall) :
    RecordsOf c.events ((c.lines w).map Framing.encodeUtf8) := by
  rw [RecordsOf, List.forall₂_map_right_iff, List.forall₂_iff_get]
  refine ⟨by simp [SyslogCall.lines, formatDeliveryLinesSyslog], fun j hj hline => ?_⟩
  have hget : (c.lines w).get ⟨j, hline⟩ = formatSingleDeliveryLine w.runtime.reprText (w.clock j)
      (c.events.get ⟨j, hj⟩) (c.formatterOverride.getD []) c.dtForPrefix c.prefixContext := by
    simp [SyslogCall.lines, formatDeliveryLinesSyslog]
  obtain ⟨front, hfront⟩ := suffix_formatSingleDeliveryLine (c.events.get ⟨j, hj⟩)
    (c.formatterOverride.getD []) c.dtForPrefix c.prefixContext
  rw [hget, hfront, Framing.encodeUtf8_append]
  exact List.suffix_append _ _

/-- A send that raises nothing puts one record for each event on the wire: split at line feeds in
the legacy mode over TCP or TLS, decoded by octet counts in the RFC 5425 mode. -/
theorem framing_faithful (w : SyslogWorld) (c : SyslogCall) (hevents : c.events ≠ [])
    (hsyslog : isSyslogType c.dtForPrefix = true)
    (hfloats : ∀ event ∈ c.events, CleanFloats event)
    (hok : (c.send w).2 = none) :
    ∃ formatterConfig mode, c.profile w = .ok (formatterConfig, mode) ∧
      (mode = .legacy → c.protocol = .tcp ∨ c.protocol = .tls →
        ∃ records, RecordsOf c.events records ∧ (c.stream w).splitOn 10 = records ++ [[]]) ∧
      (mode = .rfc5425 →
        ∃ messages : List (List UInt8), c.rfcMessages w formatterConfig = messages.map .ok ∧
          Framing.decodeOctets (c.stream w) = some messages) := by
  cases hprofile : c.profile w with
  | error message =>
    unfold SyslogCall.send at hok
    rw [if_neg (by simpa using hevents), hprofile] at hok
    cases hok
  | ok profile =>
    obtain ⟨formatterConfig, mode⟩ := profile
    refine ⟨formatterConfig, mode, rfl, ?_, ?_⟩
    · rintro rfl hstream
      refine ⟨_, c.recordsOf_lines w, ?_⟩
      rw [SyslogCall.stream_of_legacy hevents hprofile hstream hok, SyslogCall.legacyPayloads_eq]
      exact Framing.splitOn_terminated (SyslogCall.lineFeed_not_mem_lines hsyslog hfloats)
    · rintro rfl
      obtain ⟨messages, hmessages, hne, hstream⟩ :=
        SyslogCall.stream_of_rfc5425 hevents hprofile hok
      refine ⟨messages, hmessages, ?_⟩
      rw [hstream]
      exact Framing.decodeOctets_octetCounted hne

/-- An event whose message would end the line and start a record of its own. -/
def forgingCall : SyslogCall where
  events := [[("msg", .str "ok\n<134> forged: \x7b\x7d")], [("msg", .str "second")]]
  config := [("host", .str "collector")]
  formatterOverride := some
    [("message_prefix_template", .str "<134> \x7b\x7bevent.msg\x7d\x7d")]
  destinationType := some "SYSLOG_TCP"

theorem forgingCall_framed :
    ∃ records, RecordsOf forgingCall.events records ∧
      (forgingCall.stream {}).splitOn 10 = records ++ [[]] := by
  obtain ⟨formatterConfig, mode, hprofile, hlegacy, -⟩ :=
    framing_faithful {} forgingCall (by simp [forgingCall]) (by decide +kernel) (by decide +kernel)
      (by decide +kernel)
  have hmode : (forgingCall.profile {}).map Prod.snd = .ok .legacy := by
    decide +kernel
  rw [hprofile] at hmode
  exact hlegacy (Except.ok.inj hmode) (.inl (by decide +kernel))

end Syslog
