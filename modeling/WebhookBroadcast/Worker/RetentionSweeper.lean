import WebhookBroadcast.Db.Broadcasts

/-!
# The retention sweep

`runRetentionSweep` of `apps/api/src/worker/retentionSweeper.ts`: drop the
Broadcasts that were received before the window of `HISTORY_RETENTION_DAYS`.
-/

namespace WebhookBroadcast

/-- The start of the window. -/
def retentionCutoff (retentionDays : ℕ) (now : Instant) : Instant :=
  now - retentionDays * 24 * 60 * 60 * 1000

/-- One prune pass: how many Broadcasts were dropped, and what is left. -/
def runRetentionSweep (db : Database) (retentionDays : ℕ) (now : Instant) :
    ℕ × Database :=
  let cutoff := retentionCutoff retentionDays now
  ((db.broadcasts.select fun b => b.receivedAt < cutoff).length,
    deleteBroadcastsReceivedBefore db cutoff)

end WebhookBroadcast
