import WebhookBroadcast.Db.Schema
import WebhookBroadcast.Js.Number

/-!
# The ingest header filter

Which inbound headers are stored with a Broadcast: `apps/api/src/ingest/headers.ts`.
Six names that carry the sender's credentials are always stripped, however they
are cased and whatever the two lists of the environment say, so that the stored
headers are a function of the other inbound headers.
-/

namespace WebhookBroadcast

/-- `IncomingHttpHeaders`: an undefined value is `none`. -/
abbrev IncomingHttpHeaders := Js.Record (Option HeaderValue)

/-- `DEFAULT_INGEST_HEADER_DENYLIST`. -/
def DEFAULT_INGEST_HEADER_DENYLIST : List String :=
  ["authorization", "cookie", "set-cookie", "proxy-authorization", "x-api-key",
    "x-auth-token"]

/-- The default list and that of the environment, each name once. -/
def mergeIngestHeaderDenylist (envDenylist : List String) : List String :=
  (DEFAULT_INGEST_HEADER_DENYLIST ++ envDenylist).eraseDups

/-- The names of a comma-separated list. -/
def parseHeaderList (value : String) : List String :=
  ((value.splitOn ",").map Js.trim).filter fun entry => entry.length > 0

/-- One pass of the loop in `filterHeaders`. -/
def keepHeader (allowSet denySet : List String)
    (result : Js.Record HeaderValue) (entry : String × Option HeaderValue) :
    Js.Record HeaderValue :=
  match entry.2 with
  | none => result
  | some value =>
      let lowerKey := Js.toLowerCase entry.1
      if lowerKey ∈ denySet then result
      else if allowSet.length > 0 ∧ lowerKey ∉ allowSet then result
      else result.set entry.1 value

/-- The headers that the lists let through; an empty allow-list lets everything
through, and the deny-list wins. -/
def filterHeaders (headers : IncomingHttpHeaders)
    (allowlist denylist : List String) : Js.Record HeaderValue :=
  let allowSet := (allowlist.map Js.toLowerCase).eraseDups
  let denySet := (denylist.map Js.toLowerCase).eraseDups
  headers.entries.foldl (keepHeader allowSet denySet) .empty

/-! ## What the filter ignores -/

/-- The name is one of the default deny-list, in some case. -/
def Sensitive (name : String) : Prop :=
  Js.toLowerCase name ∈ DEFAULT_INGEST_HEADER_DENYLIST

instance (name : String) : Decidable (Sensitive name) :=
  inferInstanceAs (Decidable (_ ∈ _))

/-- The headers other than the sensitive ones. -/
def insensitive (headers : IncomingHttpHeaders) :
    List (String × Option HeaderValue) :=
  headers.entries.filter fun entry => !decide (Sensitive entry.1)

/-- The two agree on every header that is not sensitive. -/
def AgreeExceptSensitive (headers headers' : IncomingHttpHeaders) : Prop :=
  insensitive headers = insensitive headers'

/-- Merging keeps the default names. -/
theorem mem_mergeIngestHeaderDenylist_of_default {name : String}
    (h : name ∈ DEFAULT_INGEST_HEADER_DENYLIST) (envDenylist : List String) :
    name ∈ mergeIngestHeaderDenylist envDenylist :=
  List.mem_eraseDups.mpr (List.mem_append_left _ h)

/-- The default names are in lower case. -/
theorem toLowerCase_of_default {name : String}
    (h : name ∈ DEFAULT_INGEST_HEADER_DENYLIST) : Js.toLowerCase name = name := by
  revert name
  decide

theorem Sensitive.denied {name : String} (h : Sensitive name)
    (envDenylist : List String) :
    Js.toLowerCase name ∈
      ((mergeIngestHeaderDenylist envDenylist).map
        Js.toLowerCase).eraseDups := by
  rw [List.mem_eraseDups, List.mem_map]
  exact ⟨_, mem_mergeIngestHeaderDenylist_of_default h envDenylist,
    toLowerCase_of_default h⟩

theorem keepHeader_of_denied {allowSet denySet : List String}
    {entry : String × Option HeaderValue}
    (h : Js.toLowerCase entry.1 ∈ denySet) (result : Js.Record HeaderValue) :
    keepHeader allowSet denySet result entry = result := by
  rw [keepHeader]
  split
  · rfl
  · rw [if_pos h]

/-- The filter depends on the insensitive headers only. -/
theorem filterHeaders_congr {headers headers' : IncomingHttpHeaders}
    (h : AgreeExceptSensitive headers headers')
    (allowlist envDenylist : List String) :
    filterHeaders headers allowlist (mergeIngestHeaderDenylist envDenylist) =
      filterHeaders headers' allowlist
        (mergeIngestHeaderDenylist envDenylist) := by
  have hskip (headers : IncomingHttpHeaders) :
      filterHeaders headers allowlist
          (mergeIngestHeaderDenylist envDenylist) =
        (insensitive headers).foldl (keepHeader
          (allowlist.map Js.toLowerCase).eraseDups
          ((mergeIngestHeaderDenylist envDenylist).map
            Js.toLowerCase).eraseDups) .empty := by
    rw [insensitive, List.foldl_filter, filterHeaders]
    congr 1
    funext result entry
    by_cases hs : Sensitive entry.1
    · rw [keepHeader_of_denied (hs.denied envDenylist)]
      simp [hs]
    · simp [hs]
  rw [hskip headers, hskip headers', h]

end WebhookBroadcast
