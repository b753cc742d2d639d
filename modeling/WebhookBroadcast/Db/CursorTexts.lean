import WebhookBroadcast.Db.Directory
import WebhookBroadcast.Db.Lists
import WebhookBroadcast.Js.Json

/-!
# The texts of cursors

`encodeChannelCursor`, `decodeChannelCursor` and their siblings in
`packages/db/src/repositories`.  A decoder looks at the JavaScript types of the
fields.  Whether a field is a value of its column shows later: `receivedAt` when
the query is built, every other one when Postgres reads the parameters.
-/

namespace WebhookBroadcast

open Js

/-- What cursor texts go through outside of the repository: `Buffer`, `JSON` and
`Date`, and the input functions of Postgres. -/
structure CursorRuntime where
  /-- `Buffer.from(text, "base64url").toString("utf8")`. -/
  ofBase64url : String → String
  /-- `Buffer.from(text, "utf8").toString("base64url")`. -/
  toBase64url : String → String
  /-- `JSON.parse`, nothing where it throws. -/
  parse : String → Option Json
  /-- `JSON.stringify`. -/
  stringify : Json → String
  /-- `new Date(text)`, nothing for an `Invalid Date`. -/
  date : String → Option Instant
  /-- Postgres reads the ISO text of the time. -/
  timestamptz : Instant → Bool
  /-- The `uuid` that Postgres reads. -/
  uuid : String → Option Uuid

/-- What was written is read back: every text, and every object of texts, nulls
and doubles. -/
structure CursorRuntime.Lawful (runtime : CursorRuntime) : Prop where
  ofBase64url_toBase64url : ∀ text,
    runtime.ofBase64url (runtime.toBase64url text) = text
  parse_stringify : ∀ value : Json, value.Flat →
    runtime.parse (runtime.stringify value) = some value

namespace CursorRuntime

variable (runtime : CursorRuntime)

/-! ## Columns -/

/-- A `timestamp with time zone` compared with `new Date(text)`, whose
`toISOString` throws unless the date is valid. -/
def bindTimestamptz (text : String) : Option Instant :=
  (runtime.date text).filter runtime.timestamptz

/-- A `text` column: Postgres has no text with a NUL in it. -/
def bindText (text : String) : Option String :=
  if Char.ofNat 0 ∈ text.toList then none else some text

/-- An `integer` compared with the text of a number. -/
def bindInteger : Number → Option ℤ
  | .finite q =>
      if q.isInt ∧ -2 ^ 31 ≤ q ∧ q < 2 ^ 31 then some q.num else none
  | _ => none

theorem bindTimestamptz_eq_some {text : String} {t : Instant} :
    runtime.bindTimestamptz text = some t ↔
      runtime.date text = some t ∧ runtime.timestamptz t = true := by
  rw [bindTimestamptz, Option.filter_eq_some_iff]

theorem bindText_eq_some {text text' : String} :
    bindText text = some text' ↔
      Char.ofNat 0 ∉ text.toList ∧ text' = text := by
  unfold bindText
  split
  next h => simp [h]
  next h => simp [h, eq_comm]

theorem bindInteger_eq_some {x : Number} {n : ℤ} :
    bindInteger x = some n ↔
      x = .finite n ∧ -2 ^ 31 ≤ n ∧ n < 2 ^ 31 := by
  cases x with
  | finite q =>
      simp only [bindInteger, Option.ite_none_right_eq_some, Option.some.injEq,
        Number.finite.injEq]
      constructor
      · rintro ⟨⟨hint, hlow, hhigh⟩, rfl⟩
        have hq : q = q.num := Rat.eq_num_of_isInt hint
        rw [hq] at hlow hhigh
        exact ⟨hq, by exact_mod_cast hlow, by exact_mod_cast hhigh⟩
      · rintro ⟨rfl, hlow, hhigh⟩
        exact ⟨⟨by simp [Rat.isInt], by exact_mod_cast hlow,
          by exact_mod_cast hhigh⟩, Rat.num_intCast n⟩
  | infinite negative => simp [bindInteger]
  | nan => simp [bindInteger]

/-! ## Reading and writing -/

/-- A cursor is read from the JSON value that its text denotes; what throws is
caught and makes it no cursor. -/
def decodeCursor {φ : Type} (ofJson : Json → Option φ) (cursor : String) :
    Option φ :=
  (runtime.parse (runtime.ofBase64url cursor)).bind ofJson

def encodeCursor {φ : Type} (toJson : φ → Json) (cursor : φ) : String :=
  runtime.toBase64url (runtime.stringify (toJson cursor))

theorem decodeCursor_encodeCursor {φ : Type} (h : runtime.Lawful)
    {ofJson : Json → Option φ} {toJson : φ → Json} {cursor : φ}
    (hflat : (toJson cursor).Flat) :
    runtime.decodeCursor ofJson (runtime.encodeCursor toJson cursor) =
      ofJson (toJson cursor) := by
  rw [decodeCursor, encodeCursor, h.ofBase64url_toBase64url,
    h.parse_stringify _ hflat, Option.bind_some]

end CursorRuntime

/-- `value[name]` if it is a string. -/
def stringField? (value : Json) (name : String) : Option String :=
  (value.get? name).bind Json.string?

/-- `value[name]` if it is a number. -/
def numberField? (value : Json) (name : String) : Option Number :=
  (value.get? name).bind Json.number?

theorem stringField?_eq_some {value : Json} {name s : String} :
    stringField? value name = some s ↔ value.get? name = some (.string s) := by
  simp [stringField?, Option.bind_eq_some_iff, Json.string?_eq_some]

theorem numberField?_eq_some {value : Json} {name : String} {x : Number} :
    numberField? value name = some x ↔ value.get? name = some (.number x) := by
  simp [numberField?, Option.bind_eq_some_iff, Json.number?_eq_some]

/-! ## Broadcasts -/

/-- What `decodeBroadcastCursor` makes sure of. -/
structure BroadcastCursorFields where
  receivedAt : String
  id : String
deriving DecidableEq

namespace BroadcastCursorFields

def ofJson (parsed : Json) : Option BroadcastCursorFields := do
  let receivedAt ← stringField? parsed "receivedAt"
  let id ← stringField? parsed "id"
  return { receivedAt, id }

def toJson (cursor : BroadcastCursorFields) : Json :=
  .object [("receivedAt", .string cursor.receivedAt),
    ("id", .string cursor.id)]

/-- The parameters of the keyset `WHERE`. -/
def bind (runtime : CursorRuntime) (cursor : BroadcastCursorFields) :
    Option BroadcastCursor := do
  let receivedAt ← runtime.bindTimestamptz cursor.receivedAt
  let id ← runtime.uuid cursor.id
  return { receivedAt, id }

/-- Each field denotes a value of its column. -/
structure Binds (runtime : CursorRuntime) (cursor : BroadcastCursorFields) :
    Prop where
  receivedAt : ∃ t, runtime.date cursor.receivedAt = some t ∧
    runtime.timestamptz t = true
  id : ∃ id, runtime.uuid cursor.id = some id

/-- An object with strings as the fields of a cursor, of which the first is no
time or the second no `uuid`. -/
def Misfit (runtime : CursorRuntime) (parsed : Json) : Prop :=
  ∃ receivedAt id, parsed.get? "receivedAt" = some (.string receivedAt) ∧
    parsed.get? "id" = some (.string id) ∧
      ((∀ t, runtime.date receivedAt = some t → runtime.timestamptz t = false) ∨
        runtime.uuid id = none)

theorem flat_toJson (cursor : BroadcastCursorFields) : cursor.toJson.Flat := by
  refine ⟨by simp, ?_⟩
  simp only [List.forall_mem_cons, List.not_mem_nil, false_imp_iff,
    implies_true, Json.scalar_string, and_true]
  decide

theorem ofJson_toJson (cursor : BroadcastCursorFields) :
    ofJson cursor.toJson = some cursor := rfl

theorem ofJson_eq_some {parsed : Json} {cursor : BroadcastCursorFields} :
    ofJson parsed = some cursor ↔
      parsed.get? "receivedAt" = some (.string cursor.receivedAt) ∧
        parsed.get? "id" = some (.string cursor.id) := by
  simp only [ofJson, Option.bind_eq_bind, Option.bind_eq_some_iff,
    stringField?_eq_some, Option.pure_def, Option.some.injEq]
  constructor
  · rintro ⟨receivedAt, hreceivedAt, id, hid, rfl⟩
    exact ⟨hreceivedAt, hid⟩
  · rintro ⟨hreceivedAt, hid⟩
    exact ⟨_, hreceivedAt, _, hid, rfl⟩

theorem binds_iff {runtime : CursorRuntime} {cursor : BroadcastCursorFields} :
    cursor.Binds runtime ↔ (cursor.bind runtime).isSome := by
  simp only [bind, Option.isSome_iff_exists, Option.bind_eq_bind,
    Option.bind_eq_some_iff, runtime.bindTimestamptz_eq_some, Option.pure_def,
    Option.some.injEq]
  constructor
  · rintro ⟨⟨t, ht⟩, id, hid⟩
    exact ⟨_, t, ht, id, hid, rfl⟩
  · rintro ⟨-, t, ht, id, hid, -⟩
    exact ⟨⟨t, ht⟩, id, hid⟩

theorem misfit_iff {runtime : CursorRuntime} {parsed : Json} :
    Misfit runtime parsed ↔
      ∃ cursor, ofJson parsed = some cursor ∧ ¬ cursor.Binds runtime := by
  constructor
  · rintro ⟨receivedAt, id, hreceivedAt, hid, hmisfit⟩
    refine ⟨⟨receivedAt, id⟩, ofJson_eq_some.mpr ⟨hreceivedAt, hid⟩, ?_⟩
    rintro ⟨⟨t, hdate, hread⟩, u, hu⟩
    rcases hmisfit with htime | huuid
    · simp [htime t hdate] at hread
    · simp [huuid] at hu
  · rintro ⟨cursor, hcursor, hnot⟩
    obtain ⟨hreceivedAt, hid⟩ := ofJson_eq_some.mp hcursor
    refine ⟨_, _, hreceivedAt, hid, ?_⟩
    by_contra! hfits
    obtain ⟨⟨t, hdate, hread⟩, huuid⟩ := hfits
    exact hnot ⟨⟨t, hdate, by simpa using hread⟩,
      Option.ne_none_iff_exists'.mp huuid⟩

end BroadcastCursorFields

namespace CursorRuntime

variable (runtime : CursorRuntime)

def decodeBroadcastCursor : String → Option BroadcastCursorFields :=
  runtime.decodeCursor BroadcastCursorFields.ofJson

def encodeBroadcastCursor : BroadcastCursorFields → String :=
  runtime.encodeCursor BroadcastCursorFields.toJson

end CursorRuntime

/-! ## Endpoints -/

/-- What `decodeEndpointCursor` makes sure of. -/
structure EndpointCursorFields where
  url : String
  id : String
deriving DecidableEq

namespace EndpointCursorFields

def ofJson (parsed : Json) : Option EndpointCursorFields := do
  let url ← stringField? parsed "url"
  let id ← stringField? parsed "id"
  return { url, id }

def toJson (cursor : EndpointCursorFields) : Json :=
  .object [("url", .string cursor.url), ("id", .string cursor.id)]

/-- The parameters of the keyset `WHERE`. -/
def bind (runtime : CursorRuntime) (cursor : EndpointCursorFields) :
    Option EndpointCursor := do
  let url ← CursorRuntime.bindText cursor.url
  let id ← runtime.uuid cursor.id
  return { url, id }

/-- Each field denotes a value of its column. -/
structure Binds (runtime : CursorRuntime) (cursor : EndpointCursorFields) :
    Prop where
  url : Char.ofNat 0 ∉ cursor.url.toList
  id : ∃ id, runtime.uuid cursor.id = some id

/-- An object with strings as the fields of a cursor, of which the first has a
NUL in it or the second is no `uuid`. -/
def Misfit (runtime : CursorRuntime) (parsed : Json) : Prop :=
  ∃ url id, parsed.get? "url" = some (.string url) ∧
    parsed.get? "id" = some (.string id) ∧
      (Char.ofNat 0 ∈ url.toList ∨ runtime.uuid id = none)

theorem flat_toJson (cursor : EndpointCursorFields) : cursor.toJson.Flat := by
  refine ⟨by simp, ?_⟩
  simp only [List.forall_mem_cons, List.not_mem_nil, false_imp_iff,
    implies_true, Json.scalar_string, and_true]
  decide

theorem ofJson_toJson (cursor : EndpointCursorFields) :
    ofJson cursor.toJson = some cursor := rfl

theorem ofJson_eq_some {parsed : Json} {cursor : EndpointCursorFields} :
    ofJson parsed = some cursor ↔
      parsed.get? "url" = some (.string cursor.url) ∧
        parsed.get? "id" = some (.string cursor.id) := by
  simp only [ofJson, Option.bind_eq_bind, Option.bind_eq_some_iff,
    stringField?_eq_some, Option.pure_def, Option.some.injEq]
  constructor
  · rintro ⟨url, hurl, id, hid, rfl⟩
    exact ⟨hurl, hid⟩
  · rintro ⟨hurl, hid⟩
    exact ⟨_, hurl, _, hid, rfl⟩

theorem binds_iff {runtime : CursorRuntime} {cursor : EndpointCursorFields} :
    cursor.Binds runtime ↔ (cursor.bind runtime).isSome := by
  simp only [bind, Option.isSome_iff_exists, Option.bind_eq_bind,
    Option.bind_eq_some_iff, CursorRuntime.bindText_eq_some, Option.pure_def,
    Option.some.injEq]
  constructor
  · rintro ⟨hurl, id, hid⟩
    exact ⟨_, _, ⟨hurl, rfl⟩, id, hid, rfl⟩
  · rintro ⟨-, -, ⟨hurl, -⟩, id, hid, -⟩
    exact ⟨hurl, id, hid⟩

theorem misfit_iff {runtime : CursorRuntime} {parsed : Json} :
    Misfit runtime parsed ↔
      ∃ cursor, ofJson parsed = some cursor ∧ ¬ cursor.Binds runtime := by
  constructor
  · rintro ⟨url, id, hurl, hid, hmisfit⟩
    refine ⟨⟨url, id⟩, ofJson_eq_some.mpr ⟨hurl, hid⟩, ?_⟩
    rintro ⟨hfree, u, hu⟩
    rcases hmisfit with hnul | huuid
    · exact hfree hnul
    · simp [huuid] at hu
  · rintro ⟨cursor, hcursor, hnot⟩
    obtain ⟨hurl, hid⟩ := ofJson_eq_some.mp hcursor
    refine ⟨_, _, hurl, hid, ?_⟩
    by_contra! hfits
    exact hnot ⟨hfits.1, Option.ne_none_iff_exists'.mp hfits.2⟩

end EndpointCursorFields

namespace CursorRuntime

variable (runtime : CursorRuntime)

def decodeEndpointCursor : String → Option EndpointCursorFields :=
  runtime.decodeCursor EndpointCursorFields.ofJson

def encodeEndpointCursor : EndpointCursorFields → String :=
  runtime.encodeCursor EndpointCursorFields.toJson

end CursorRuntime

/-! ## Channels -/

/-- What `decodeChannelCursor` makes sure of. -/
structure ChannelCursorFields where
  healthRank : Number
  recentFailureCount : Number
  autoDisabledEndpointCount : Number
  slug : String
  id : String
deriving DecidableEq

/-- A number that a column of integers holds. -/
def IsInteger (x : Number) : Prop :=
  ∃ n : ℤ, x = .finite n ∧ -2 ^ 31 ≤ n ∧ n < 2 ^ 31

namespace ChannelCursorFields

def numbers (cursor : ChannelCursorFields) : List Number :=
  [cursor.healthRank, cursor.recentFailureCount,
    cursor.autoDisabledEndpointCount]

def ofJson (parsed : Json) : Option ChannelCursorFields := do
  let healthRank ← numberField? parsed "healthRank"
  let recentFailureCount ← numberField? parsed "recentFailureCount"
  let autoDisabledEndpointCount ←
    numberField? parsed "autoDisabledEndpointCount"
  let slug ← stringField? parsed "slug"
  let id ← stringField? parsed "id"
  return { healthRank, recentFailureCount, autoDisabledEndpointCount, slug, id }

def toJson (cursor : ChannelCursorFields) : Json :=
  .object [("healthRank", .ofNumber cursor.healthRank),
    ("recentFailureCount", .ofNumber cursor.recentFailureCount),
    ("autoDisabledEndpointCount", .ofNumber cursor.autoDisabledEndpointCount),
    ("slug", .string cursor.slug), ("id", .string cursor.id)]

/-- The parameters of the keyset `WHERE`. -/
def bind (runtime : CursorRuntime) (cursor : ChannelCursorFields) :
    Option ChannelCursor := do
  let healthRank ← CursorRuntime.bindInteger cursor.healthRank
  let recentFailureCount ←
    CursorRuntime.bindInteger cursor.recentFailureCount
  let autoDisabledEndpointCount ←
    CursorRuntime.bindInteger cursor.autoDisabledEndpointCount
  let slug ← CursorRuntime.bindText cursor.slug
  let id ← runtime.uuid cursor.id
  return { healthRank, recentFailureCount, autoDisabledEndpointCount, slug, id }

/-- Each field denotes a value of its column. -/
structure Binds (runtime : CursorRuntime) (cursor : ChannelCursorFields) :
    Prop where
  healthRank : IsInteger cursor.healthRank
  recentFailureCount : IsInteger cursor.recentFailureCount
  autoDisabledEndpointCount : IsInteger cursor.autoDisabledEndpointCount
  slug : Char.ofNat 0 ∉ cursor.slug.toList
  id : ∃ id, runtime.uuid cursor.id = some id

/-- An object with numbers and strings as the fields of a cursor, of which a
number is fractional, infinite or out of range, the first string has a NUL in it
or the second is no `uuid`. -/
def Misfit (runtime : CursorRuntime) (parsed : Json) : Prop :=
  ∃ healthRank recentFailureCount autoDisabledEndpointCount slug id,
    parsed.get? "healthRank" = some (.number healthRank) ∧
    parsed.get? "recentFailureCount" = some (.number recentFailureCount) ∧
    parsed.get? "autoDisabledEndpointCount" =
      some (.number autoDisabledEndpointCount) ∧
    parsed.get? "slug" = some (.string slug) ∧
    parsed.get? "id" = some (.string id) ∧
      ((∃ x ∈ [healthRank, recentFailureCount, autoDisabledEndpointCount],
          ¬ IsInteger x) ∨
        Char.ofNat 0 ∈ slug.toList ∨ runtime.uuid id = none)

theorem flat_toJson {cursor : ChannelCursorFields}
    (hexists : ∀ x ∈ cursor.numbers, x.Exists) : cursor.toJson.Flat := by
  simp only [numbers, List.forall_mem_cons, List.not_mem_nil, false_imp_iff,
    implies_true, and_true] at hexists
  refine ⟨by simp, ?_⟩
  simp only [List.forall_mem_cons, List.not_mem_nil, false_imp_iff,
    implies_true, Json.scalar_string, Json.scalar_ofNumber hexists.1,
    Json.scalar_ofNumber hexists.2.1, Json.scalar_ofNumber hexists.2.2, and_true]
  decide

theorem ofJson_eq_some {parsed : Json} {cursor : ChannelCursorFields} :
    ofJson parsed = some cursor ↔
      parsed.get? "healthRank" = some (.number cursor.healthRank) ∧
      parsed.get? "recentFailureCount" =
        some (.number cursor.recentFailureCount) ∧
      parsed.get? "autoDisabledEndpointCount" =
        some (.number cursor.autoDisabledEndpointCount) ∧
      parsed.get? "slug" = some (.string cursor.slug) ∧
      parsed.get? "id" = some (.string cursor.id) := by
  simp only [ofJson, Option.bind_eq_bind, Option.bind_eq_some_iff,
    stringField?_eq_some, numberField?_eq_some, Option.pure_def,
    Option.some.injEq]
  constructor
  · rintro ⟨_, hrank, _, hfailures, _, hdisabled, _, hslug, _, hid, rfl⟩
    exact ⟨hrank, hfailures, hdisabled, hslug, hid⟩
  · rintro ⟨hrank, hfailures, hdisabled, hslug, hid⟩
    exact ⟨_, hrank, _, hfailures, _, hdisabled, _, hslug, _, hid, rfl⟩

/-- All but what is not finite can be written. -/
theorem ofJson_toJson_iff {cursor : ChannelCursorFields} :
    ofJson cursor.toJson = some cursor ↔
      ∀ x ∈ cursor.numbers, ∃ q, x = .finite q := by
  have hget : cursor.toJson.get? "healthRank" =
        some (.ofNumber cursor.healthRank) ∧
      cursor.toJson.get? "recentFailureCount" =
        some (.ofNumber cursor.recentFailureCount) ∧
      cursor.toJson.get? "autoDisabledEndpointCount" =
        some (.ofNumber cursor.autoDisabledEndpointCount) ∧
      cursor.toJson.get? "slug" = some (.string cursor.slug) ∧
      cursor.toJson.get? "id" = some (.string cursor.id) :=
    ⟨rfl, rfl, rfl, rfl, rfl⟩
  rw [ofJson_eq_some, hget.1, hget.2.1, hget.2.2.1, hget.2.2.2.1,
    hget.2.2.2.2]
  simp [numbers, Json.ofNumber_eq_number]

theorem binds_iff {runtime : CursorRuntime} {cursor : ChannelCursorFields} :
    cursor.Binds runtime ↔ (cursor.bind runtime).isSome := by
  simp only [bind, Option.isSome_iff_exists, Option.bind_eq_bind,
    Option.bind_eq_some_iff, CursorRuntime.bindText_eq_some,
    CursorRuntime.bindInteger_eq_some, Option.pure_def, Option.some.injEq]
  constructor
  · rintro ⟨⟨_, hrank⟩, ⟨_, hfailures⟩, ⟨_, hdisabled⟩, hslug, _, hid⟩
    exact ⟨_, _, hrank, _, hfailures, _, hdisabled, _, ⟨hslug, rfl⟩, _, hid,
      rfl⟩
  · rintro ⟨-, _, hrank, _, hfailures, _, hdisabled, _, ⟨hslug, -⟩, _, hid, -⟩
    exact ⟨⟨_, hrank⟩, ⟨_, hfailures⟩, ⟨_, hdisabled⟩, hslug, _, hid⟩

theorem misfit_iff {runtime : CursorRuntime} {parsed : Json} :
    Misfit runtime parsed ↔
      ∃ cursor, ofJson parsed = some cursor ∧ ¬ cursor.Binds runtime := by
  constructor
  · rintro ⟨rank, failures, disabled, slug, id, hrank, hfailures, hdisabled,
      hslug, hid, hmisfit⟩
    refine ⟨⟨rank, failures, disabled, slug, id⟩, ofJson_eq_some.mpr
      ⟨hrank, hfailures, hdisabled, hslug, hid⟩, fun hbinds => ?_⟩
    rcases hmisfit with ⟨x, hx, hinteger⟩ | hnul | huuid
    · simp only [List.mem_cons, List.not_mem_nil, or_false] at hx
      rcases hx with rfl | rfl | rfl
      · exact hinteger hbinds.healthRank
      · exact hinteger hbinds.recentFailureCount
      · exact hinteger hbinds.autoDisabledEndpointCount
    · exact hbinds.slug hnul
    · obtain ⟨u, hu⟩ := hbinds.id
      simp [huuid] at hu
  · rintro ⟨cursor, hcursor, hnot⟩
    obtain ⟨hrank, hfailures, hdisabled, hslug, hid⟩ :=
      ofJson_eq_some.mp hcursor
    refine ⟨_, _, _, _, _, hrank, hfailures, hdisabled, hslug, hid, ?_⟩
    by_contra! hfits
    obtain ⟨hintegers, hfree, huuid⟩ := hfits
    exact hnot
      { healthRank := hintegers _ (by simp)
        recentFailureCount := hintegers _ (by simp)
        autoDisabledEndpointCount := hintegers _ (by simp)
        slug := hfree
        id := Option.ne_none_iff_exists'.mp huuid }

end ChannelCursorFields

namespace CursorRuntime

variable (runtime : CursorRuntime)

def decodeChannelCursor : String → Option ChannelCursorFields :=
  runtime.decodeCursor ChannelCursorFields.ofJson

def encodeChannelCursor : ChannelCursorFields → String :=
  runtime.encodeCursor ChannelCursorFields.toJson

end CursorRuntime

end WebhookBroadcast
