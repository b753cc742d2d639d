import WebhookBroadcast.Db.Channels

/-!
# Token repositories

`packages/db/src/repositories/operatorTokens.ts`, and the writes of
`channelTokens.ts`.
-/

namespace WebhookBroadcast

open Relational

/-! ## Operator tokens -/

/-- A row of `operator_token`. -/
structure OperatorTokenRow where
  id : Uuid
  tokenHash : String
  prefix_ : String
  label : String
  createdAt : Instant
  lastUsedAt : Option Instant := none
deriving DecidableEq

/-- The table `operator_token`, whose hashes are unique. -/
@[ext] structure OperatorTokens where
  table : Table OperatorTokenRow Uuid OperatorTokenRow.id
  token_hash : (table.rows.map OperatorTokenRow.tokenHash).Nodup

namespace OperatorTokens

/-- The table after the migrations. -/
def empty : OperatorTokens := ⟨⟨[], List.nodup_nil⟩, List.nodup_nil⟩

instance : Membership OperatorTokenRow OperatorTokens where
  mem tokens row := row ∈ tokens.table

/-- A token with this hash is in the table. -/
def Holds (tokens : OperatorTokens) (tokenHash : String) : Prop :=
  ∃ row ∈ tokens, row.tokenHash = tokenHash

end OperatorTokens

variable {tokens : OperatorTokens} {row : OperatorTokenRow}

def insertOperatorToken (tokens : OperatorTokens) (input : OperatorTokenRow) :
    Except DbError OperatorTokenRow × OperatorTokens :=
  match hins : tokens.table.insert? input with
  | none => (.error (.uniqueViolation "operator_token_pkey"), tokens)
  | some table =>
      if hfree : input.tokenHash ∈
          tokens.table.rows.map OperatorTokenRow.tokenHash then
        (.error (.uniqueViolation "operator_token_token_hash_unique"), tokens)
      else
        (.ok input, ⟨table, by
          rw [Table.rows_of_insert? hins, List.map_append, List.map_singleton]
          exact tokens.token_hash.append (List.nodup_singleton _)
            (List.disjoint_singleton.mpr hfree)⟩)

def revokeOperatorToken (tokens : OperatorTokens) (tokenId : Uuid) :
    Bool × OperatorTokens :=
  let p : OperatorTokenRow → Bool := fun row => row.id = tokenId
  (tokens.table.rows.any p,
    ⟨tokens.table.delete p,
      tokens.token_hash.sublist (List.filter_sublist.map _)⟩)

def findOperatorTokenByHash (tokens : OperatorTokens) (tokenHash : String) :
    Option OperatorTokenRow :=
  tokens.table.rows.find? fun row => row.tokenHash = tokenHash

/-- Newest first; rows of one instant come in the order of their insertion. -/
def listOperatorTokens (tokens : OperatorTokens) : List OperatorTokenRow :=
  tokens.table.rows.mergeSort fun row row' => row'.createdAt ≤ row.createdAt

def OperatorTokenRow.touch (at_ : Instant) (row : OperatorTokenRow) :
    OperatorTokenRow :=
  { row with lastUsedAt := some at_ }

def touchOperatorTokenLastUsed (tokens : OperatorTokens) (tokenId : Uuid)
    (at_ : Instant) : OperatorTokens where
  table := tokens.table.update (fun row => row.id = tokenId) (.touch at_)
    fun _ => rfl
  token_hash := by
    rw [Table.map_update tokens.table (fun row => row.id = tokenId)
      (.touch at_) (fun _ => rfl) (g := OperatorTokenRow.tokenHash)
      fun _ => rfl]
    exact tokens.token_hash

theorem mem_of_insertOperatorToken {input : OperatorTokenRow}
    (h : row ∈ (insertOperatorToken tokens input).2) :
    row ∈ tokens ∨ row = input := by
  unfold insertOperatorToken at h
  split at h
  · exact Or.inl h
  next hins =>
    split at h
    · exact Or.inl h
    · exact (Table.mem_of_insert? hins).mp h

theorem mem_revokeOperatorToken {tokenId : Uuid} :
    row ∈ (revokeOperatorToken tokens tokenId).2 ↔
      row ∈ tokens ∧ row.id ≠ tokenId := by
  refine Table.mem_delete.trans (and_congr_right fun _ => ?_)
  rw [decide_eq_false_iff_not]

theorem findOperatorTokenByHash_eq_some {tokenHash : String}
    (h : findOperatorTokenByHash tokens tokenHash = some row) :
    row ∈ tokens ∧ row.tokenHash = tokenHash :=
  ⟨List.mem_of_find?_eq_some h, by simpa using List.find?_some h⟩

theorem findOperatorTokenByHash_eq_none {tokenHash : String} :
    findOperatorTokenByHash tokens tokenHash = none ↔
      ¬ tokens.Holds tokenHash := by
  rw [findOperatorTokenByHash, List.find?_eq_none]
  constructor
  · rintro h ⟨row, hrow, hhash⟩
    exact h row hrow (decide_eq_true hhash)
  · exact fun h row hrow hhash => h ⟨row, hrow, of_decide_eq_true hhash⟩

/-! ## Channel tokens -/

/-- The columns of `channel_token` that ingest does not read. -/
structure ChannelTokenLabel where
  id : Uuid
  prefix_ : String
  createdAt : Instant
deriving DecidableEq

/-- Insert a token, refused by the primary key, the foreign key or the index of
hashes. -/
def Database.insertChannelToken? (db : Database) (input : ChannelTokenRow) :
    Option Database :=
  if hinput : (∃ c ∈ db.channels.rows, c.id = input.channelId) ∧
      input.tokenHash ∉ db.channelTokens.rows.map ChannelTokenRow.tokenHash then
    match hins : db.channelTokens.insert? input with
    | none => none
    | some channelTokens =>
        some { db with
          channelTokens := channelTokens
          token_channel := by
            intro t ht
            rcases (Table.mem_of_insert? hins).mp ht with ht | rfl
            · exact db.token_channel t ht
            · exact hinput.1
          token_hash := by
            rw [Table.rows_of_insert? hins, List.map_append,
              List.map_singleton]
            exact db.token_hash.append (List.nodup_singleton _)
              (List.disjoint_singleton.mpr hinput.2) }
  else none

/-- The error of a refused insert. -/
def channelTokenRefusal (db : Database) (input : ChannelTokenRow) : DbError :=
  if (db.channelTokens.find? input.id).isSome then
    .uniqueViolation "channel_token_pkey"
  else if input.tokenHash ∈
      db.channelTokens.rows.map ChannelTokenRow.tokenHash then
    .uniqueViolation "channel_token_token_hash_unique"
  else .foreignKeyViolation "channel_token_channel_id_channel_id_fk"

def insertChannelToken (db : Database) (input : ChannelTokenRow) :
    Except DbError ChannelTokenRow × Database :=
  match db.insertChannelToken? input with
  | some db' => (.ok input, db')
  | none => (.error (channelTokenRefusal db input), db)

def revokeChannelToken (db : Database) (channelId tokenId : Uuid) :
    Bool × Database :=
  let p : ChannelTokenRow → Bool := fun t =>
    t.id = tokenId && t.channelId = channelId
  (db.channelTokens.rows.any p,
    { db with
      channelTokens := db.channelTokens.delete p
      token_channel := fun t ht =>
        db.token_channel t (Table.mem_delete.mp ht).1
      token_hash := db.token_hash.sublist (List.filter_sublist.map _) })

end WebhookBroadcast
