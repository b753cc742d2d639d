import Mathlib.Logic.Encodable.Basic
import Mathlib.Logic.Equiv.List
import Mathlib.Data.Rat.Encodable
import WebhookBroadcast.Channel.Directory
import WebhookBroadcast.Db.CursorTexts

/-!
# Cursors that a client makes up

The list routes with any text as their `cursor`.  A text that denotes an object
with the right fields is taken for a cursor, and if one of the fields is no
value of its column the query throws and the route answers `500`.
-/

namespace WebhookBroadcast

open Js Relational

/-- What a list route answers with instead of a page: a refusal, or the `500` of
a request whose query could not be built or run. -/
inductive ListFailure where
  | refused (refusal : Refusal)
  | thrown
deriving DecidableEq

/-- A list route from its cursor on. -/
def listRoute {φ κ π : Type} (decode : String → Option φ)
    (bind : φ → Option κ) (list : Option κ → π) (cursorParam : Option String) :
    Except ListFailure π :=
  match parseListCursor cursorParam decode with
  | .error refusal => .error (.refused refusal)
  | .ok none => .ok (list none)
  | .ok (some cursor) =>
      match bind cursor with
      | none => .error .thrown
      | some position => .ok (list (some position))

namespace CursorRuntime

variable (runtime : CursorRuntime)

/-- `GET /channels/:channelId/broadcasts` of a Channel that exists, with a valid
query. -/
def getBroadcasts (channelId : Uuid) (limit : ℕ) (db : Database) :
    Option String → Except ListFailure (Page BroadcastRow BroadcastCursor) :=
  listRoute runtime.decodeBroadcastCursor (BroadcastCursorFields.bind runtime)
    fun cursor => listBroadcastsByChannel db ⟨channelId, cursor, limit⟩

/-- The same route with `endpointId` and `status=failed`. -/
def getFailingBroadcasts (channelId endpointId : Uuid) (limit : ℕ)
    (db : Database) : Option String → Except ListFailure
      (Page BroadcastWithEndpointDeliveryRow BroadcastCursor) :=
  listRoute runtime.decodeBroadcastCursor (BroadcastCursorFields.bind runtime)
    fun cursor => listBroadcastsForEndpointFailures db
      ⟨⟨channelId, cursor, limit⟩, endpointId⟩

variable [Collation]

/-- `GET /channels` with a valid query. -/
def getChannels (limit : ℕ) (slug : Option String) (now : Instant)
    (db : Database) :
    Option String → Except ListFailure (Page ChannelRow ChannelCursor) :=
  listRoute runtime.decodeChannelCursor (ChannelCursorFields.bind runtime)
    fun cursor => listChannels db ⟨cursor, limit, slug, now⟩

/-- `GET /channels/:channelId/endpoints` of a Channel that exists, with a valid
query. -/
def getEndpoints (channelId : Uuid) (limit : ℕ) (url : Option String)
    (db : Database) :
    Option String → Except ListFailure (Page EndpointRow EndpointCursor) :=
  listRoute runtime.decodeEndpointCursor (EndpointCursorFields.bind runtime)
    fun cursor => listEndpoints db channelId ⟨cursor, limit, url⟩

end CursorRuntime

/-! ## Usable or refused -/

/-- The text is no cursor and is refused, or every field of it is a value of its
column; and no text makes the route fail. -/
structure UsableOrRefused {φ π : Type} (decode : String → Option φ)
    (Binds : φ → Prop) (route : Option String → Except ListFailure π)
    (text : String) : Prop where
  position : ∀ cursor, decode text = some cursor → Binds cursor
  refused : decode text = none → text ≠ "" →
    route (some text) = .error (.refused invalidCursor)
  answered : route (some text) ≠ .error .thrown

section Generic

variable {φ κ π : Type} {decode : String → Option φ} {bind : φ → Option κ}
  {list : Option κ → π}

theorem listRoute_empty : listRoute decode bind list (some "") =
    .ok (list none) := rfl

theorem listRoute_undecoded {text : String} (htext : text ≠ "")
    (hdecode : decode text = none) :
    listRoute decode bind list (some text) =
      .error (.refused invalidCursor) := by
  simp [listRoute, parseListCursor, htext, hdecode]

theorem listRoute_bound {text : String} {cursor : φ} {position : κ}
    (htext : text ≠ "") (hdecode : decode text = some cursor)
    (hbind : bind cursor = some position) :
    listRoute decode bind list (some text) = .ok (list (some position)) := by
  simp [listRoute, parseListCursor, htext, hdecode, hbind]

theorem listRoute_unbound {text : String} {cursor : φ} (htext : text ≠ "")
    (hdecode : decode text = some cursor) (hbind : bind cursor = none) :
    listRoute decode bind list (some text) = .error .thrown := by
  simp [listRoute, parseListCursor, htext, hdecode, hbind]

/-- A decoded cursor that does not bind is the only way to fail. -/
theorem usableOrRefused_iff {Binds : φ → Prop}
    (hbinds : ∀ cursor, Binds cursor ↔ (bind cursor).isSome) (text : String) :
    UsableOrRefused decode Binds (listRoute decode bind list) text ↔
      ¬ ∃ cursor, decode text = some cursor ∧ ¬ Binds cursor := by
  constructor
  · rintro h ⟨cursor, hdecode, hnot⟩
    exact hnot (h.position cursor hdecode)
  · intro h
    push Not at h
    refine ⟨h, fun hnone htext => listRoute_undecoded htext hnone, ?_⟩
    by_cases htext : text = ""
    · rw [htext, listRoute_empty]
      simp
    · cases hdecode : decode text with
      | none =>
          rw [listRoute_undecoded htext hdecode]
          simp
      | some cursor =>
          obtain ⟨position, hposition⟩ := Option.isSome_iff_exists.mp
            ((hbinds cursor).mp (h cursor hdecode))
          rw [listRoute_bound htext hdecode hposition]
          simp

end Generic

namespace CursorRuntime

variable (runtime : CursorRuntime) [Collation]

/-- The value that a text denotes has this defect. -/
def Denotes (defect : CursorRuntime → Json → Prop) (text : String) : Prop :=
  ∃ parsed, runtime.parse (runtime.ofBase64url text) = some parsed ∧
    defect runtime parsed

omit [Collation] in
theorem denotes_iff {φ : Type} {defect : CursorRuntime → Json → Prop}
    {ofJson : Json → Option φ} {Binds : φ → Prop}
    (hdefect : ∀ parsed, defect runtime parsed ↔
      ∃ cursor, ofJson parsed = some cursor ∧ ¬ Binds cursor)
    (text : String) :
    runtime.Denotes defect text ↔
      ∃ cursor, runtime.decodeCursor ofJson text = some cursor ∧
        ¬ Binds cursor := by
  simp only [Denotes, hdefect, decodeCursor, Option.bind_eq_some_iff]
  constructor
  · rintro ⟨parsed, hparsed, cursor, hcursor, hnot⟩
    exact ⟨cursor, ⟨parsed, hparsed, hcursor⟩, hnot⟩
  · rintro ⟨cursor, ⟨parsed, hparsed, hcursor⟩, hnot⟩
    exact ⟨parsed, hparsed, cursor, hcursor, hnot⟩

/-- The texts that each list route gets right. -/
structure ReadsCursors : Prop where
  channels : ∀ limit slug now db text,
    UsableOrRefused runtime.decodeChannelCursor
        (ChannelCursorFields.Binds runtime)
        (runtime.getChannels limit slug now db) text ↔
      ¬ runtime.Denotes ChannelCursorFields.Misfit text
  broadcasts : ∀ channelId limit db text,
    UsableOrRefused runtime.decodeBroadcastCursor
        (BroadcastCursorFields.Binds runtime)
        (runtime.getBroadcasts channelId limit db) text ↔
      ¬ runtime.Denotes BroadcastCursorFields.Misfit text
  failingBroadcasts : ∀ channelId endpointId limit db text,
    UsableOrRefused runtime.decodeBroadcastCursor
        (BroadcastCursorFields.Binds runtime)
        (runtime.getFailingBroadcasts channelId endpointId limit db) text ↔
      ¬ runtime.Denotes BroadcastCursorFields.Misfit text
  endpoints : ∀ channelId limit url db text,
    UsableOrRefused runtime.decodeEndpointCursor
        (EndpointCursorFields.Binds runtime)
        (runtime.getEndpoints channelId limit url db) text ↔
      ¬ runtime.Denotes EndpointCursorFields.Misfit text

omit [Collation] in
/-- The cursors that come back from their texts. -/
structure RoundTrips (runtime : CursorRuntime) : Prop where
  decode_encodeChannel : ∀ cursor : ChannelCursorFields,
    (∀ x ∈ cursor.numbers, x.Exists) →
      (runtime.decodeChannelCursor (runtime.encodeChannelCursor cursor) =
          some cursor ↔
        ∀ x ∈ cursor.numbers, ∃ q, x = .finite q)
  decode_encodeBroadcast : ∀ cursor,
    runtime.decodeBroadcastCursor (runtime.encodeBroadcastCursor cursor) =
      some cursor
  decode_encodeEndpoint : ∀ cursor,
    runtime.decodeEndpointCursor (runtime.encodeEndpointCursor cursor) =
      some cursor

theorem readsCursors_routes : runtime.ReadsCursors where
  channels _ _ _ _ text := by
    rw [runtime.denotes_iff fun _ => ChannelCursorFields.misfit_iff]
    exact usableOrRefused_iff (fun _ => ChannelCursorFields.binds_iff) text
  broadcasts _ _ _ text := by
    rw [runtime.denotes_iff fun _ => BroadcastCursorFields.misfit_iff]
    exact usableOrRefused_iff (fun _ => BroadcastCursorFields.binds_iff) text
  failingBroadcasts _ _ _ _ text := by
    rw [runtime.denotes_iff fun _ => BroadcastCursorFields.misfit_iff]
    exact usableOrRefused_iff (fun _ => BroadcastCursorFields.binds_iff) text
  endpoints _ _ _ _ text := by
    rw [runtime.denotes_iff fun _ => EndpointCursorFields.misfit_iff]
    exact usableOrRefused_iff (fun _ => EndpointCursorFields.binds_iff) text

omit [Collation] in
variable {runtime} in
theorem Lawful.roundTrips (h : runtime.Lawful) : RoundTrips runtime where
  decode_encodeChannel cursor hexists := by
    rw [← ChannelCursorFields.ofJson_toJson_iff]
    exact iff_of_eq (congrArg (· = some cursor)
      (runtime.decodeCursor_encodeCursor h
        (ChannelCursorFields.flat_toJson hexists)))
  decode_encodeBroadcast cursor :=
    (runtime.decodeCursor_encodeCursor h cursor.flat_toJson).trans
      cursor.ofJson_toJson
  decode_encodeEndpoint cursor :=
    (runtime.decodeCursor_encodeCursor h cursor.flat_toJson).trans
      cursor.ofJson_toJson

/-- Every cursor is a usable position or refused, but for those with a field that
is no value of its column; and cursors come back from their texts. -/
theorem readsCursors :
    runtime.ReadsCursors ∧ (runtime.Lawful → RoundTrips runtime) :=
  ⟨runtime.readsCursors_routes, Lawful.roundTrips⟩

end CursorRuntime

/-! ## Texts that make the routes fail -/

/-- A runtime for these texts, each with the JSON in it and its value, where no
date is valid and nothing is a `uuid`. -/
def CursorRuntime.reading (texts : List (String × String × Json)) :
    CursorRuntime where
  ofBase64url text := ((texts.find? (·.1 = text)).map (·.2.1)).getD ""
  toBase64url text := text
  parse json := (texts.find? (·.2.1 = json)).map (·.2.2)
  stringify _ := ""
  date _ := none
  timestamptz _ := true
  uuid _ := none

/-- A cursor for each route, with a time, an identifier or a number that is
none. -/
def misfits : CursorRuntime :=
  .reading [
    ("eyJyZWNlaXZlZEF0IjoieCIsImlkIjoieCJ9",
      "\x7b\"receivedAt\":\"x\",\"id\":\"x\"\x7d",
      .object [("receivedAt", .string "x"), ("id", .string "x")]),
    ("eyJ1cmwiOiJ4IiwiaWQiOiJ4In0",
      "\x7b\"url\":\"x\",\"id\":\"x\"\x7d",
      .object [("url", .string "x"), ("id", .string "x")]),
    ("eyJoZWFsdGhSYW5rIjowLjUsInJlY2VudEZhaWx1cmVDb3VudCI6MCwiYXV0b0Rpc2Fi" ++
        "bGVkRW5kcG9pbnRDb3VudCI6MCwic2x1ZyI6IngiLCJpZCI6IngifQ",
      "\x7b\"healthRank\":0.5,\"recentFailureCount\":0," ++
        "\"autoDisabledEndpointCount\":0,\"slug\":\"x\",\"id\":\"x\"\x7d",
      .object [("healthRank", .number (.finite (1 / 2))),
        ("recentFailureCount", .number (.finite 0)),
        ("autoDisabledEndpointCount", .number (.finite 0)),
        ("slug", .string "x"), ("id", .string "x")])]

/-- The routes answer `500`. -/
theorem not_usableOrRefused_misfits :
    letI := Collation.c
    ¬ UsableOrRefused misfits.decodeBroadcastCursor
        (BroadcastCursorFields.Binds misfits)
        (misfits.getBroadcasts 1 50 twoChannels)
        "eyJyZWNlaXZlZEF0IjoieCIsImlkIjoieCJ9" ∧
      ¬ UsableOrRefused misfits.decodeEndpointCursor
        (EndpointCursorFields.Binds misfits)
        (misfits.getEndpoints 1 50 none twoChannels)
        "eyJ1cmwiOiJ4IiwiaWQiOiJ4In0" ∧
      ¬ UsableOrRefused misfits.decodeChannelCursor
        (ChannelCursorFields.Binds misfits)
        (misfits.getChannels 50 none 0 twoChannels)
        ("eyJoZWFsdGhSYW5rIjowLjUsInJlY2VudEZhaWx1cmVDb3VudCI6MCwiYXV0b0Rpc2" ++
          "FibGVkRW5kcG9pbnRDb3VudCI6MCwic2x1ZyI6IngiLCJpZCI6IngifQ") := by
  have hbroadcast : misfits.decodeBroadcastCursor
      "eyJyZWNlaXZlZEF0IjoieCIsImlkIjoieCJ9" = some ⟨"x", "x"⟩ := by
    decide +kernel
  have hendpoint : misfits.decodeEndpointCursor
      "eyJ1cmwiOiJ4IiwiaWQiOiJ4In0" = some ⟨"x", "x"⟩ := by
    decide +kernel
  have hchannel : misfits.decodeChannelCursor
      ("eyJoZWFsdGhSYW5rIjowLjUsInJlY2VudEZhaWx1cmVDb3VudCI6MCwiYXV0b0Rpc2" ++
        "FibGVkRW5kcG9pbnRDb3VudCI6MCwic2x1ZyI6IngiLCJpZCI6IngifQ") =
      some ⟨.finite (1 / 2), .finite 0, .finite 0, "x", "x"⟩ := by
    decide +kernel
  refine ⟨fun h => h.answered ?_, fun h => h.answered ?_,
    fun h => h.answered ?_⟩
  · exact listRoute_unbound (by decide) hbroadcast (by decide +kernel)
  · exact listRoute_unbound (by decide) hendpoint (by decide +kernel)
  · exact listRoute_unbound (by decide) hchannel (by decide +kernel)

/-! ## A text that is a cursor -/

/-- The characters and numbers of a scalar. -/
def scalarCode : Json → ℕ × List ℕ
  | .null => (0, [])
  | .string s => (1, s.toList.map Char.toNat)
  | .number (.finite q) => (2, [Encodable.encode q])
  | _ => (3, [])

theorem map_toNat_injective :
    Function.Injective fun s : String => s.toList.map Char.toNat := by
  intro s s' h
  exact String.toList_inj.mp
    (List.map_injective_iff.mpr (fun _ _ => Char.toNat_inj.mp) h)

theorem scalarCode_injective {value value' : Json} (h : value.Scalar)
    (h' : value'.Scalar) (hcode : scalarCode value = scalarCode value') :
    value = value' := by
  rcases h.cases with rfl | ⟨s, rfl⟩ | ⟨q, rfl⟩ <;>
    rcases h'.cases with rfl | ⟨s', rfl⟩ | ⟨q', rfl⟩ <;>
      simp only [scalarCode, Prod.mk.injEq, reduceCtorEq, OfNat.zero_ne_ofNat,
        OfNat.ofNat_ne_zero, OfNat.one_ne_ofNat, OfNat.ofNat_ne_one,
        zero_ne_one, one_ne_zero, false_and, true_and] at hcode
  · rfl
  · rw [map_toNat_injective hcode]
  · rw [Encodable.encode_injective (List.cons.inj hcode).1]

def memberCode (m : String × Json) : List ℕ × ℕ × List ℕ :=
  (m.1.toList.map Char.toNat, scalarCode m.2)

theorem map_memberCode_injective : ∀ {members members' : List (String × Json)},
    (∀ m ∈ members, m.2.Scalar) → (∀ m ∈ members', m.2.Scalar) →
      members.map memberCode = members'.map memberCode → members = members'
  | [], [], _, _, _ => rfl
  | m :: rest, m' :: rest', h, h', hcodes => by
      rw [List.forall_mem_cons] at h h'
      simp only [List.map_cons, List.cons.injEq, memberCode,
        Prod.mk.injEq] at hcodes
      obtain ⟨⟨hname, hvalue⟩, hrest⟩ := hcodes
      have hm : m = m' := Prod.ext (map_toNat_injective hname)
        (scalarCode_injective h.1 h'.1 hvalue)
      rw [hm, map_memberCode_injective h.2 h'.2 hrest]

/-- An object of scalars in numbers. -/
def flatCode (value : {value : Json // value.Flat}) : List ℕ :=
  match value.1 with
  | .object members => [Encodable.encode (members.map memberCode)]
  | _ => []

theorem flatCode_injective : Function.Injective flatCode := by
  rintro ⟨value, hvalue⟩ ⟨value', hvalue'⟩ h
  obtain ⟨members, rfl⟩ : ∃ members, value = .object members := by
    cases value with
    | object members => exact ⟨members, rfl⟩
    | _ => exact hvalue.elim
  obtain ⟨members', rfl⟩ : ∃ members, value' = .object members := by
    cases value' with
    | object members => exact ⟨members, rfl⟩
    | _ => exact hvalue'.elim
  have hcodes := Encodable.encode_injective (List.cons.inj h).1
  congr 2
  exact map_memberCode_injective (fun m hm => (hvalue.2 m hm).2)
    (fun m hm => (hvalue'.2 m hm).2) hcodes

/-- The last Endpoint of a page. -/
def lastEndpoint : EndpointCursorFields where
  url := "https://example.com/hook"
  id := "00000000-0000-4000-8000-000000000001"

open Classical in
/-- A runtime that writes the cursor after it. -/
noncomputable def writing : CursorRuntime :=
  let json : Codec {value : Json // value.Flat} :=
    .writing ⟨lastEndpoint.toJson, lastEndpoint.flat_toJson⟩
      ("\x7b\"url\":\"https://example.com/hook\"," ++
        "\"id\":\"00000000-0000-4000-8000-000000000001\"\x7d")
      flatCode (by simp) flatCode_injective
  let base64url : Codec String :=
    .writing ("\x7b\"url\":\"https://example.com/hook\"," ++
        "\"id\":\"00000000-0000-4000-8000-000000000001\"\x7d")
      ("eyJ1cmwiOiJodHRwczovL2V4YW1wbGUuY29tL2hvb2siLCJpZCI6IjAwMDAwMDAwLTAw" ++
        "MDAtNDAwMC04MDAwLTAwMDAwMDAwMDAwMSJ9")
      (fun s => s.toList.map Char.toNat) (by simp) map_toNat_injective
  { ofBase64url := fun text => (base64url.decode text).getD ""
    toBase64url := base64url.encode
    parse := fun text => (json.decode text).map Subtype.val
    stringify := fun value =>
      if h : value.Flat then json.encode ⟨value, h⟩ else ""
    date := fun _ => none
    timestamptz := fun _ => true
    uuid := fun text =>
      if text = "00000000-0000-4000-8000-000000000001" then
        some 0x00000000000040008000000000000001
      else none }

theorem lawful_writing : writing.Lawful where
  ofBase64url_toBase64url text := by
    simp only [writing, Codec.decode_encode, Option.getD_some]
  parse_stringify value h := by
    simp only [writing, dif_pos h, Codec.decode_encode, Option.map_some]

theorem readsCursors_lastEndpoint :
    letI := Collation.c
    writing.encodeEndpointCursor lastEndpoint =
        ("eyJ1cmwiOiJodHRwczovL2V4YW1wbGUuY29tL2hvb2siLCJpZCI6IjAwMDAwMDAwLTAw" ++
          "MDAtNDAwMC04MDAwLTAwMDAwMDAwMDAwMSJ9") ∧
      UsableOrRefused writing.decodeEndpointCursor
        (EndpointCursorFields.Binds writing)
        (writing.getEndpoints 1 50 none twoChannels)
        (writing.encodeEndpointCursor lastEndpoint) := by
  let _ := Collation.c
  obtain ⟨hreads, hcomeBack⟩ := writing.readsCursors
  have hdecode :=
    (hcomeBack lawful_writing).decode_encodeEndpoint lastEndpoint
  refine ⟨?_, (hreads.endpoints 1 50 none twoChannels _).mpr fun hdenotes => ?_⟩
  · simp [CursorRuntime.encodeEndpointCursor, CursorRuntime.encodeCursor,
      writing, lastEndpoint.flat_toJson, Codec.writing, textOr]
  · rw [writing.denotes_iff fun _ => EndpointCursorFields.misfit_iff] at hdenotes
    obtain ⟨cursor, hcursor, hnot⟩ := hdenotes
    obtain rfl : lastEndpoint = cursor :=
      Option.some.inj (hdecode.symm.trans hcursor)
    exact hnot ⟨by decide, _, by simp [writing, lastEndpoint]; rfl⟩

end WebhookBroadcast
