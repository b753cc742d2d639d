import WebhookBroadcast.Admin.Fingerprints
import WebhookBroadcast.Worker.ProcessDelivery

/-!
# The headers of an Attempt

Three sources meet in the header map of an Attempt: the stored headers that the
Channel forwards, the Endpoint's own headers and the content type.  Each is
folded to lower case by itself and the later one wins, so that for every name
exactly one source decides.  The fingerprints of the admin API select the stored
headers in the same way, under the names they were stored with.
-/

namespace WebhookBroadcast

section Precedence

variable [Js.LowerCasing]

/-! ## Which source decides -/

/-- The value of the last entry with this name up to case. -/
def lastNamed? {α : Type} (r : Js.Record α) (name : String) : Option α :=
  Js.Record.last? (fun entry => Js.toLowerCase entry.1) Prod.snd r.entries name

/-- The allow-list asks for stored headers of this lower-case name. -/
def AskedFor (forwardHeaders : List String) (name : String) : Prop :=
  name ∈ forwardHeaders.map (fun entry => Js.toLowerCase (Js.trim entry)) ∧
    name ≠ "" ∧ name ≠ "authorization"

instance (forwardHeaders : List String) (name : String) :
    Decidable (AskedFor forwardHeaders name) :=
  inferInstanceAs (Decidable (_ ∧ _))

/-- The value of a lower-case name: the Broadcast's content type, else the
Endpoint's, else what is forwarded. -/
def headerByPrecedence? (record : DeliveryForProcessing) (name : String) :
    Option String :=
  if name = "content-type" then some record.broadcast.contentType
  else
    (lastNamed? record.endpoint.headers name).or
      (if AskedFor record.channel.forwardHeaders name then
        (lastNamed? record.broadcast.headers name).map HeaderValue.joined
      else none)

/-- The fingerprint of one stored header. -/
def fingerprintOf (sha256 : String → String) (entry : String × HeaderValue) :
    ForwardedHeaderFingerprint where
  name := entry.1
  fingerprint := String.ofList
    ((sha256 entry.2.joined).toList.take FORWARDED_HEADER_FINGERPRINT_LENGTH)

/-- The request has this content type and, however its name is spelled, no
other. -/
def OutboundRequest.HasContentType (request : OutboundRequest)
    (contentType : String) : Prop :=
  request.headers.get? "content-type" = some contentType ∧
    ∀ entry ∈ request.headers.entries,
      Js.toLowerCase entry.1 = "content-type" → entry.2 = contentType

namespace OutboundHeaders

/-! ## Selection -/

theorem mem_normalizeForwardAllowlist {allowlist : List String}
    {name : String} :
    name ∈ normalizeForwardAllowlist allowlist ↔ AskedFor allowlist name := by
  simp [normalizeForwardAllowlist, AskedFor, NEVER_FORWARD]

theorem selectForwardableHeaders_eq (headers : Js.Record HeaderValue)
    (allowlist : List String) :
    selectForwardableHeaders headers allowlist =
      (headers.entries.filter fun entry =>
        AskedFor allowlist (Js.toLowerCase entry.1)).foldl
          (fun result entry => result.set entry.1 entry.2.joined) .empty := by
  have hskip (name : String) : (name ∉ normalizeForwardAllowlist allowlist ∨
      name ∈ NEVER_FORWARD) ↔ ¬ AskedFor allowlist name := by
    rw [mem_normalizeForwardAllowlist]
    simp only [AskedFor, NEVER_FORWARD, List.mem_singleton]
    tauto
  unfold selectForwardableHeaders
  dsimp only
  split
  next hnil =>
    have hnone : ∀ name, ¬ AskedFor allowlist name := by
      intro name h
      rw [← mem_normalizeForwardAllowlist, hnil] at h
      cases h
    simp [hnone]
  next =>
    rw [List.foldl_filter]
    congr 1
    funext result entry
    simp only [hskip]
    by_cases h : AskedFor allowlist (Js.toLowerCase entry.1)
    · simp [h]
    · simp [h]

/-- The selection keeps the names and the order of the stored headers. -/
theorem entries_selectForwardableHeaders (headers : Js.Record HeaderValue)
    (allowlist : List String) :
    (selectForwardableHeaders headers allowlist).entries =
      (headers.entries.filter fun entry =>
        AskedFor allowlist (Js.toLowerCase entry.1)).map
          fun entry => (entry.1, entry.2.joined) := by
  rw [selectForwardableHeaders_eq]
  apply Js.Record.entries_foldl_set
  exact headers.nodup.sublist (List.filter_sublist.map _)

/-! ## Merging -/

theorem get?_byLowercaseName (headers : Js.Record String) (name : String) :
    (byLowercaseName headers).get? name = lastNamed? headers name := by
  rw [byLowercaseName, Js.Record.get?_foldl_set]
  exact Option.or_none

theorem lastNamed?_selectForwardableHeaders (headers : Js.Record HeaderValue)
    (allowlist : List String) (name : String) :
    lastNamed? (selectForwardableHeaders headers allowlist) name =
      if AskedFor allowlist name then
        (lastNamed? headers name).map HeaderValue.joined
      else none := by
  rw [lastNamed?, lastNamed?, Js.Record.last?, Js.Record.last?,
    entries_selectForwardableHeaders, ← List.map_reverse, ← List.filter_reverse,
    List.find?_map, List.find?_filter, Option.map_map, Option.map_map]
  -- the allow-list is asked for the very name that is looked for
  by_cases h : AskedFor allowlist name
  · rw [if_pos h]
    refine congrArg₂ Option.map rfl ?_
    congr 1
    funext entry
    by_cases hentry : Js.toLowerCase entry.1 = name
    · simp [hentry, h]
    · simp [hentry]
  · rw [if_neg h, Option.map_eq_none_iff, List.find?_eq_none]
    intro entry _ hentry
    simp only [Function.comp_apply, decide_eq_true_eq] at hentry
    exact h (hentry.2 ▸ hentry.1)

/-- Only lower-case names are written. -/
theorem lastNamed?_of_upper {α : Type} (r : Js.Record α) {name : String}
    (h : Js.toLowerCase name ≠ name) : lastNamed? r name = none := by
  rw [lastNamed?, Js.Record.last?, Option.map_eq_none_iff, List.find?_eq_none]
  intro entry _ hentry
  apply h
  rw [← of_decide_eq_true hentry, Js.toLowerCase_idem]

theorem get?_outboundRequest (record : DeliveryForProcessing) (timeoutMs : ℕ)
    (name : String) :
    (outboundRequest record timeoutMs).headers.get? name =
      headerByPrecedence? record name := by
  rw [outboundRequest, headerByPrecedence?]
  dsimp only
  rw [Js.Record.get?_set, Js.Record.get?_spread, get?_byLowercaseName,
    get?_byLowercaseName, lastNamed?_selectForwardableHeaders]
  by_cases h : name = "content-type"
  · simp [h]
  · rw [if_neg fun heq => h heq.symm, if_neg h]

theorem headerByPrecedence?_of_upper (record : DeliveryForProcessing)
    {name : String} (h : Js.toLowerCase name ≠ name) :
    headerByPrecedence? record name = none := by
  have hcontentType : name ≠ "content-type" := by
    rintro rfl
    exact h (Js.toLowerCase_of_ascii (by decide))
  rw [headerByPrecedence?, if_neg hcontentType, lastNamed?_of_upper _ h,
    lastNamed?_of_upper _ h]
  simp

/-- No two names of the map differ in case only: all are lower-case. -/
theorem nodup_outboundRequest (record : DeliveryForProcessing)
    (timeoutMs : ℕ) :
    ((outboundRequest record timeoutMs).headers.entries.map fun entry =>
      Js.toLowerCase entry.1).Nodup := by
  have hlower : ∀ entry ∈ (outboundRequest record timeoutMs).headers.entries,
      Js.toLowerCase entry.1 = entry.1 := by
    intro entry hentry
    by_contra h
    have hpresent := (Js.Record.mem_map_fst_iff _ entry.1).mp
      (List.mem_map_of_mem hentry)
    exact hpresent ((get?_outboundRequest record timeoutMs entry.1).trans
      (headerByPrecedence?_of_upper record h))
  rw [List.map_congr_left hlower]
  exact (outboundRequest record timeoutMs).headers.nodup

/-- Neither the forwarded headers nor those of the Endpoint decide it. -/
theorem hasContentType_outboundRequest (record : DeliveryForProcessing)
    (timeoutMs : ℕ) : (outboundRequest record timeoutMs).HasContentType
      record.broadcast.contentType := by
  have hget : (outboundRequest record timeoutMs).headers.get? "content-type" =
      some record.broadcast.contentType := by
    rw [get?_outboundRequest, headerByPrecedence?, if_pos rfl]
  refine ⟨hget, fun entry hentry hname => ?_⟩
  obtain ⟨found, hfound, hvalue⟩ := Option.map_eq_some_iff.mp hget
  have hfirst : found.1 = "content-type" := by
    simpa using List.find?_some hfound
  have hlower : Js.toLowerCase found.1 = "content-type" := by
    rw [hfirst]
    exact Js.toLowerCase_of_ascii (by decide)
  have hsame := List.inj_on_of_nodup_map (nodup_outboundRequest record timeoutMs)
    hentry (List.mem_of_find?_eq_some hfound) (hname.trans hlower.symm)
  rw [hsame, hvalue]

/-! ## Fingerprints -/

section Fingerprints

variable (sha256 : String → String)
  (localeCompare : String → String → Ordering)
  (headers : Js.Record HeaderValue) (forwardHeaders : List String)

theorem normalizeForwardAllowlist_eq_nil :
    normalizeForwardAllowlist forwardHeaders = [] ↔
      ∀ entry ∈ forwardHeaders, Js.trim entry = "" ∨
        Js.toLowerCase (Js.trim entry) = "authorization" := by
  rw [normalizeForwardAllowlist, List.filter_eq_nil_iff, List.forall_mem_map]
  apply forall₂_congr
  intro entry _
  rw [decide_eq_true_eq, NEVER_FORWARD, List.mem_singleton, ne_eq,
    Js.toLowerCase_eq_empty, not_and_or, not_not, not_not]

theorem fingerprintForwardedHeaders_eq_none :
    fingerprintForwardedHeaders sha256 localeCompare headers forwardHeaders =
        none ↔
      ∀ entry ∈ forwardHeaders, Js.trim entry = "" ∨
        Js.toLowerCase (Js.trim entry) = "authorization" := by
  rw [← normalizeForwardAllowlist_eq_nil, fingerprintForwardedHeaders]
  split
  next h => exact iff_of_true rfl h
  next h => exact iff_of_false (Option.some_ne_none _) h

variable {sha256 localeCompare headers forwardHeaders}
  {listed : List ForwardedHeaderFingerprint}

theorem listed_eq
    (h : fingerprintForwardedHeaders sha256 localeCompare headers
      forwardHeaders = some listed) :
    listed = ((headers.entries.filter fun entry =>
      AskedFor forwardHeaders (Js.toLowerCase entry.1)).map
        (fingerprintOf sha256)).mergeSort
          fun a b => localeCompare a.name b.name != .gt := by
  unfold fingerprintForwardedHeaders at h
  split at h
  next => cases h
  next =>
    rw [entries_selectForwardableHeaders, List.map_map] at h
    exact (Option.some.inj h).symm

theorem perm_listed
    (h : fingerprintForwardedHeaders sha256 localeCompare headers
      forwardHeaders = some listed) :
    listed.Perm ((headers.entries.filter fun entry =>
      AskedFor forwardHeaders (Js.toLowerCase entry.1)).map
        (fingerprintOf sha256)) := by
  rw [listed_eq h]
  exact List.mergeSort_perm _ _

theorem pairwise_listed
    (h : fingerprintForwardedHeaders sha256 localeCompare headers
      forwardHeaders = some listed)
    (horder : Std.TransCmp localeCompare) :
    listed.Pairwise fun a b => localeCompare a.name b.name ≠ .gt := by
  have hle (a b : ForwardedHeaderFingerprint) :
      (localeCompare a.name b.name != .gt) =
        (localeCompare a.name b.name).isLE := by
    cases localeCompare a.name b.name <;> rfl
  have hsorted : listed.Pairwise fun a b =>
      (localeCompare a.name b.name != .gt) = true := by
    rw [listed_eq h]
    apply List.pairwise_mergeSort
    · intro a b c hab hbc
      rw [hle] at hab hbc ⊢
      exact Std.TransCmp.isLE_trans hab hbc
    · intro a b
      rw [hle, hle, Bool.or_eq_true, or_iff_not_imp_left]
      intro hab
      have hlt := Std.OrientedCmp.lt_of_not_isLE hab
      rw [hlt]
      rfl
  exact hsorted.imp fun hab => by simpa using hab

end Fingerprints

/-- Among names that differ in more than case, a stored header is the last with
its name. -/
theorem lastNamed?_of_distinct {headers : Js.Record HeaderValue}
    (hdistinct : (headers.entries.map fun entry =>
      Js.toLowerCase entry.1).Nodup)
    {entry : String × HeaderValue} (hentry : entry ∈ headers.entries) :
    lastNamed? headers (Js.toLowerCase entry.1) = some entry.2 := by
  rw [lastNamed?, Js.Record.last?, Option.map_eq_some_iff]
  have hsome : (headers.entries.reverse.find? fun other =>
      Js.toLowerCase other.1 = Js.toLowerCase entry.1).isSome := by
    rw [List.find?_isSome]
    exact ⟨entry, List.mem_reverse.mpr hentry, by simp⟩
  obtain ⟨other, hother⟩ := Option.isSome_iff_exists.mp hsome
  have hmem := List.mem_reverse.mp (List.mem_of_find?_eq_some hother)
  have hname : Js.toLowerCase other.1 = Js.toLowerCase entry.1 := by
    simpa using List.find?_some hother
  have heq : other = entry :=
    List.inj_on_of_nodup_map hdistinct hmem hentry hname
  exact ⟨other, hother, by rw [heq]⟩

end OutboundHeaders

open OutboundHeaders

/-- Content type, Endpoint, Broadcast: one source decides each header of an
Attempt; and the fingerprints list the stored headers that are forwarded, with
the value that is sent where nothing else decides. -/
theorem outboundHeaders_precedence (record : DeliveryForProcessing)
    (timeoutMs : ℕ) (sha256 : String → String)
    (localeCompare : String → String → Ordering) :
    let sent := (outboundRequest record timeoutMs).headers
    let stored := record.broadcast.headers
    let forwardHeaders := record.channel.forwardHeaders
    let fingerprints :=
      fingerprintForwardedHeaders sha256 localeCompare stored forwardHeaders
    (sent.entries.map fun entry => Js.toLowerCase entry.1).Nodup ∧
    (∀ name, sent.get? name = headerByPrecedence? record name) ∧
    (∀ name, Js.toLowerCase name ≠ name → sent.get? name = none) ∧
    ((stored.entries.map fun entry => Js.toLowerCase entry.1).Nodup →
      (fingerprints = none ↔ ∀ entry ∈ forwardHeaders, Js.trim entry = "" ∨
        Js.toLowerCase (Js.trim entry) = "authorization") ∧
      ∀ listed, fingerprints = some listed →
        listed.Perm ((stored.entries.filter fun entry =>
          AskedFor forwardHeaders (Js.toLowerCase entry.1)).map
            (fingerprintOf sha256)) ∧
        (∀ entry ∈ stored.entries,
          AskedFor forwardHeaders (Js.toLowerCase entry.1) →
          Js.toLowerCase entry.1 ≠ "content-type" →
          lastNamed? record.endpoint.headers (Js.toLowerCase entry.1) = none →
            sent.get? (Js.toLowerCase entry.1) = some entry.2.joined) ∧
        (Std.TransCmp localeCompare →
          listed.Pairwise fun a b => localeCompare a.name b.name ≠ .gt)) := by
  dsimp only
  refine ⟨nodup_outboundRequest record timeoutMs,
    get?_outboundRequest record timeoutMs, ?_, ?_⟩
  · intro name hname
    rw [get?_outboundRequest, headerByPrecedence?_of_upper record hname]
  intro hdistinct
  refine ⟨fingerprintForwardedHeaders_eq_none _ _ _ _, ?_⟩
  intro listed hlisted
  refine ⟨perm_listed hlisted, ?_, pairwise_listed hlisted⟩
  intro entry hentry hasked hcontentType hendpoint
  rw [get?_outboundRequest, headerByPrecedence?, if_neg hcontentType, hendpoint,
    if_pos hasked, lastNamed?_of_distinct hdistinct hentry]
  rfl

end Precedence

/-- A producer's signature, and an Endpoint with headers of its own. -/
def signedRecord : DeliveryForProcessing where
  id := 1
  endpointId := 2
  status := .pending
  attemptCount := 0
  endpoint :=
    { url := "https://a.example"
      headers := ⟨[("Authorization", "Bearer k"), ("ACCEPT", "text/plain")],
        by decide +kernel⟩
      timeoutMs := none }
  broadcast :=
    { contentType := "application/json"
      body := []
      headers := ⟨[("X-Signature", .single "abc"), ("Accept", .many ["a", "b"]),
        ("authorization", .single "t")], by decide +kernel⟩ }
  channel := { forwardHeaders := [" x-signature", "accept", "Authorization"] }

theorem outboundHeaders_precedence_signed :
    let sent := (outboundRequest signedRecord 1000).headers
    let sha256 : String → String := fun text =>
      if text = "abc" then
        "ba7816bf8f01cfea414140de5dae2223b00361a396177a9cb410ff61f20015ad"
      else "4a479db6af79906e7200f9560d9af890f0077e394e3ae44cbd2a2bb3ba5c2c2d"
    sent.get? "authorization" = some "Bearer k" ∧
    sent.get? "accept" = some "text/plain" ∧
    sent.get? "x-signature" = some "abc" ∧
    ∃ listed, fingerprintForwardedHeaders sha256 compare
        signedRecord.broadcast.headers signedRecord.channel.forwardHeaders =
          some listed ∧
      listed.Perm
        [⟨"X-Signature", "ba7816bf8f01"⟩, ⟨"Accept", "4a479db6af79"⟩] ∧
      listed.Pairwise fun a b => compare a.name b.name ≠ .gt := by
  intro sent sha256
  obtain ⟨-, hsent, -, hfingerprints⟩ :=
    outboundHeaders_precedence signedRecord 1000 sha256 compare
  obtain ⟨hnone, hlisted⟩ := hfingerprints (by decide +kernel)
  refine ⟨(hsent _).trans (by decide +kernel),
    (hsent _).trans (by decide +kernel),
    (hsent _).trans (by decide +kernel), ?_⟩
  have hsome := mt hnone.mp (by decide +kernel)
  obtain ⟨listed, h⟩ := Option.ne_none_iff_exists'.mp hsome
  obtain ⟨hperm, -, hsorted⟩ := hlisted listed h
  refine ⟨listed, h, hperm.trans ?_, hsorted inferInstance⟩
  decide +kernel

/-- A stored header with the blank name, which no allow-list asks for. -/
def blankNameRecord : DeliveryForProcessing where
  id := 1
  endpointId := 2
  status := .pending
  attemptCount := 0
  endpoint :=
    { url := "https://a.example", headers := .empty, timeoutMs := none }
  broadcast :=
    { contentType := "application/json"
      body := []
      headers := ⟨[("", .single "v")], by decide +kernel⟩ }
  channel := { forwardHeaders := [" "] }

theorem outboundRequest_blank_name :
    let record := blankNameRecord
    "" ∈ record.channel.forwardHeaders.map
        (fun entry => Js.toLowerCase (Js.trim entry)) ∧
      lastNamed? record.endpoint.headers "" = none ∧
      (lastNamed? record.broadcast.headers "").map HeaderValue.joined =
        some "v" ∧
      (outboundRequest record 1000).headers.get? "" = none := by
  decide +kernel

end WebhookBroadcast
