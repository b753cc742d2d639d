import Mathlib.Data.List.Dedup
import WebhookBroadcast.Db.Schema

/-!
# Broadcasts repository

The point read, the deletion of one Broadcast, the retention prune and the
Channels with any Broadcast of `packages/db/src/repositories/broadcasts.ts`.
-/

namespace WebhookBroadcast

/-- The Broadcast with this id, if it belongs to the Channel. -/
def getBroadcastById (db : Database) (channelId id : Uuid) :
    Option BroadcastRow :=
  (db.broadcasts.find? id).filter fun b => b.channelId = channelId

/-- Removes one Broadcast; Deliveries and Attempts cascade. -/
def deleteBroadcastById (db : Database) (id : Uuid) : Bool × Database :=
  (!(db.broadcasts.select fun b => b.id = id).isEmpty,
    db.deleteBroadcasts fun b => b.id = id)

/-- Delete Broadcasts received strictly before `cutoff`; Deliveries and
Attempts cascade. -/
def deleteBroadcastsReceivedBefore (db : Database) (cutoff : Instant) :
    Database :=
  db.deleteBroadcasts fun b => b.receivedAt < cutoff

/-- Which of these Channels have any Broadcast. -/
def getChannelIdsWithAnyBroadcast (db : Database) (channelIds : List Uuid) :
    List Uuid :=
  if channelIds = [] then []
  else
    ((db.broadcasts.select fun b => b.channelId ∈ channelIds).map
      BroadcastRow.channelId).dedup

end WebhookBroadcast
